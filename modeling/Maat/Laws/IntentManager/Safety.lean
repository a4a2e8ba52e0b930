import Maat.Laws.IntentManager.Execution

/-!
# The invariant of every run

`Inv` holds of every reachable machine: either no call is running and the world is idle, or
exactly one call waits, what it waits in is covered, and its continuation still meets the
protocol. Each event keeps `Inv` and moves the last idle world (`Machine.committed`) forward
along `Evolves` (`step_inv`); the run lemmas `inv_of_reachable` and `committed_evolves` follow by
induction.
-/

namespace Maat.IntentManager

open Resumption

variable {E : Env}

/-- `frame` waits, and the world meanwhile is `now`. -/
structure Waits (E : Env) (frame : Frame) (now : World) : Prop where
  saved : Idle E frame.saved
  reachable : E.reachable frame.ext frame.asked = true
  covers : Covers E frame.asked frame.ext
  waited : Waited E frame.call frame.ext frame.asked frame.due now
  range : now.balance < 2 ^ 256
  resume : ∀ w answer, (protocol E frame.call).rely frame.asked frame.ext w answer →
    Meets E frame.call (Completes E frame.saved) w (frame.resume w answer)

/-- The invariant of the machine. -/
def Inv (E : Env) (m : Machine) : Prop :=
  match m.stack with
  | [] => Idle E m.world
  | [frame] => Waits E frame m.world
  | _ => False

/-- The world the running call began in, or the world itself when no call is running. -/
def Machine.committed (m : Machine) : World :=
  match m.stack.getLast? with
  | none => m.world
  | some frame => frame.saved

/-- The two shapes an invariant machine can have. -/
theorem Inv.cases {m : Machine} (h : Inv E m) :
    (∃ w, m = ⟨w, []⟩ ∧ Idle E w) ∨ ∃ w frame, m = ⟨w, [frame]⟩ ∧ Waits E frame w := by
  obtain ⟨w, stack⟩ := m
  match stack with
  | [] => exact .inl ⟨w, rfl, h⟩
  | [frame] => exact .inr ⟨w, frame, rfl, h⟩
  | _ :: _ :: _ => exact absurd h id

/-! ## Waiting -/

/-- At the moment the callee is entered. -/
theorem Waited.start {call : Call} {ext : ExtCall} {w : World}
    (h : E.reachable ext w = true) : Waited E call ext w ext.tokensDue (depart call ext w) where
  intents := rfl
  intentNonce := rfl
  treasury := rfl
  pending := rfl
  dailyVolume := rfl
  lastVolumeReset := rfl
  entered := rfl
  timestamp := rfl
  hashed := rfl
  noZeroSolver h := h
  payments := rfl
  logs := ⟨[], (List.append_nil _).symm, fun _ hl => absurd hl List.not_mem_nil⟩
  eth := by
    simp only [Env.reachable, Bool.and_eq_true, decide_eq_true_eq] at h
    simp only [depart]
    omega
  dueLe := Nat.le_refl _
  tokens T _ _ := by
    refine ⟨0, ?_, ?_⟩
    · split <;> rfl
    · simp only [depart, Nat.sub_self, ite_self, Nat.add_zero]
  static _ := rfl

/-- An admin call during the wait. -/
theorem Waited.administers {call : Call} {ext : ExtCall} {asked now now' : World} {due : Nat}
    (h : Waited E call ext asked due now) (hdyn : ext.isStatic = false)
    (ha : Administers now now') : Waited E call ext asked due now' where
  intents := ha.intents.trans h.intents
  intentNonce := ha.intentNonce.trans h.intentNonce
  treasury := ha.treasury.trans h.treasury
  pending := ha.pending.trans h.pending
  dailyVolume := ha.dailyVolume.trans h.dailyVolume
  lastVolumeReset := ha.lastVolumeReset.trans h.lastVolumeReset
  entered := ha.entered.trans h.entered
  timestamp := ha.timestamp.trans h.timestamp
  hashed := ha.hashed.trans h.hashed
  noZeroSolver hz := ha.noZeroSolver (h.noZeroSolver hz)
  payments := ha.payments.trans h.payments
  logs := by
    obtain ⟨before, hbefore, hadmin⟩ := h.logs
    obtain ⟨more, hmore, hadmin'⟩ := ha.logs
    refine ⟨before ++ more, by rw [hmore, hbefore, List.append_assoc], fun l hl => ?_⟩
    exact (List.mem_append.mp hl).elim (hadmin l) (hadmin' l)
  eth := by
    have heth := h.eth
    rw [ha.balance, ha.forced]
    exact heth
  dueLe := h.dueLe
  tokens T h0 hT := by
    rw [ha.tokenBalance, ha.donated]
    exact h.tokens T h0 hT
  static hs := by
    rw [hdyn] at hs
    cases hs

/-- ETH forced in during the wait. -/
theorem Waited.forceEth {call : Call} {ext : ExtCall} {asked now : World} {due : Nat}
    (h : Waited E call ext asked due now) (hdyn : ext.isStatic = false) (amount : Nat) :
    Waited E call ext asked due
      { now with balance := now.balance + amount, forced := now.forced + amount } :=
  { h with
    eth := by
      have heth := h.eth
      simp only
      omega
    static := fun hs => by
      rw [hdyn] at hs
      cases hs }

/-- The token debits what it was asked to send. -/
theorem Waited.debit {call : Call} {ext : ExtCall} {asked now : World} {due : Nat}
    (h : Waited E call ext asked due now) (hdyn : ext.isStatic = false)
    (hle : due ≤ now.tokenBalance ext.target) :
    Waited E call ext asked 0
      { now with
        tokenBalance := Function.update now.tokenBalance ext.target
          (now.tokenBalance ext.target - due) } :=
  { h with
    dueLe := Nat.zero_le _
    tokens := fun T h0 hT => by
      obtain ⟨delivered, hnone, hmoved⟩ := h.tokens T h0 hT
      refine ⟨delivered, hnone, ?_⟩
      by_cases hsame : ext.target = T
      · subst hsame
        have hdue := h.dueLe
        rw [if_pos rfl] at hmoved ⊢
        simp only [Function.update_self]
        omega
      · rw [if_neg hsame] at hmoved ⊢
        simp only [Function.update_of_ne (Ne.symm hsame)]
        exact hmoved
    static := fun hs => by
      rw [hdyn] at hs
      cases hs }

/-- A token credits the contract during the wait. -/
theorem Waited.tokenIn {call : Call} {ext : ExtCall} {asked now : World} {due : Nat}
    (h : Waited E call ext asked due now) (hdyn : ext.isStatic = false) (token : Address)
    (amount : Nat) :
    Waited E call ext asked due
      { now with
        tokenBalance := Function.update now.tokenBalance token (now.tokenBalance token + amount)
        donated := if ext.pulls token then now.donated else
          Function.update now.donated token (now.donated token + amount) } :=
  { h with
    tokens := fun T h0 hT => by
      obtain ⟨delivered, hnone, hmoved⟩ := h.tokens T h0 hT
      by_cases hsame : T = token
      · subst hsame
        simp only [Function.update_self]
        cases hpulls : ext.pulls T with
        | true =>
          rw [hpulls] at hnone
          refine ⟨delivered + amount, hnone, ?_⟩
          simp only [if_true]
          omega
        | false =>
          rw [hpulls] at hnone
          refine ⟨delivered, hnone, ?_⟩
          simp only [Bool.false_eq_true, if_false, Function.update_self]
          omega
      · have hdonated : (if ext.pulls token then now.donated else
            Function.update now.donated token (now.donated token + amount)) T = now.donated T := by
          split
          · rfl
          · exact Function.update_of_ne hsame _ _
        simp only [Function.update_of_ne hsame, hdonated]
        exact ⟨delivered, hnone, hmoved⟩
    static := fun hs => by
      rw [hdyn] at hs
      cases hs }

/-- An honest token that answers has debited what it was asked to send. -/
theorem Waited.paidUp {frame : Frame} {now : World} {m : Machine} {word : Nat}
    (h : Waited E frame.call frame.ext frame.asked frame.due now)
    (hanswers : E.answers m frame word = true) :
    Waited E frame.call frame.ext frame.asked 0 now :=
  { h with
    dueLe := Nat.zero_le _
    tokens := fun T h0 hT => by
      obtain ⟨delivered, hnone, hmoved⟩ := h.tokens T h0 hT
      refine ⟨delivered, hnone, ?_⟩
      by_cases hsame : frame.ext.target = T
      · have hdue : frame.due = 0 := by
          have hle := h.dueLe
          simp only [Env.answers, Bool.and_eq_true, hsame, hT] at hanswers
          cases hext : frame.ext with
          | transfer token recipient amount => simpa [hext] using hanswers.2
          | sendEth recipient value => simpa [hext, ExtCall.tokensDue] using hle
          | balanceOf token => simpa [hext, ExtCall.tokensDue] using hle
          | transferFrom token sender amount => simpa [hext, ExtCall.tokensDue] using hle
        rw [hdue] at hmoved
        exact hmoved
      · rw [if_neg hsame] at hmoved ⊢
        exact hmoved }

/-! ## Idle worlds -/

/-- Time passes. -/
theorem Idle.tick {w : World} (h : Idle E w) {timestamp : Nat} (hle : w.timestamp ≤ timestamp) :
    Idle E { w with timestamp } ∧ Evolves w { w with timestamp } := by
  have hkept : Kept E { w with timestamp } :=
    { h.kept with accounted := fun j => (h.kept.accounted j).later hle }
  exact ⟨{ h with kept := hkept, solvent := ⟨h.solvent.eth, h.solvent.token⟩ },
    { timestamp := hle, treasury := rfl, intents := fun _ _ => .refl _
      payments := List.prefix_refl _, logs := List.prefix_refl _ }⟩

/-- ETH is forced in. -/
theorem Idle.forceEth {w : World} (h : Idle E w) {amount : Nat}
    (hrange : w.balance + amount < 2 ^ 256) :
    Idle E { w with balance := w.balance + amount, forced := w.forced + amount } ∧
      Evolves w { w with balance := w.balance + amount, forced := w.forced + amount } := by
  refine ⟨⟨{ h.kept with }, ⟨?_, h.solvent.token⟩, h.unlocked, hrange⟩, ?_⟩
  · have heth := h.solvent.eth
    simp only [ethOwed] at heth ⊢
    omega
  · exact { timestamp := Nat.le_refl _, treasury := rfl, intents := fun _ _ => .refl _
            payments := List.prefix_refl _, logs := List.prefix_refl _ }

/-- A token arrives unasked. -/
theorem Idle.tokenIn {w w' : World} (h : Idle E w) {token : Address} {amount : Nat}
    (hw : w' = { w with
      tokenBalance := Function.update w.tokenBalance token (w.tokenBalance token + amount)
      donated := Function.update w.donated token (w.donated token + amount) }) :
    Idle E w' ∧ Evolves w w' := by
  subst hw
  refine ⟨⟨{ h.kept with }, ⟨h.solvent.eth, fun T h0 hT => ?_⟩, h.unlocked, h.ethRange⟩, ?_⟩
  · have hheld := h.solvent.token T h0 hT
    by_cases hsame : T = token
    · subst hsame
      simp only [Function.update_self]
      omega
    · simp only [Function.update_of_ne hsame]
      exact hheld
  · exact { timestamp := Nat.le_refl _, treasury := rfl, intents := fun _ _ => .refl _
            payments := List.prefix_refl _, logs := List.prefix_refl _ }

/-! ## Steps -/

/-- A call that began in the idle world `saved` and meets the protocol leaves an invariant
machine: finished, reverted, or waiting. -/
theorem settle_inv {saved s₀ : World} {msg : Msg} {call : Call} {r : Res World Answer Err Unit}
    (hsaved : Idle E saved) (hr : Meets E call (Completes E saved) s₀ r)
    (hfree : E.collisionFree (settle E saved msg call [] r).world.hashed) :
    Inv E (settle E saved msg call [] r) ∧
      Evolves saved (settle E saved msg call [] r).committed := by
  induction r generalizing s₀ with
  | ret w a => exact sat_ret.mp hr hfree
  | throw w e => exact ⟨hsaved, .refl _⟩
  | ask w ext k ih =>
    obtain ⟨hcovers, hresume⟩ := sat_ask.mp hr
    by_cases hreach : E.reachable ext w = true
    · simp only [settle, hreach, if_true]
      have hrange : (depart call ext w).balance < 2 ^ 256 :=
        Nat.lt_of_le_of_lt (Nat.sub_le _ _) hcovers.range
      exact ⟨⟨hsaved, hreach, hcovers, .start hreach, hrange, hresume⟩, .refl _⟩
    · -- the callee cannot be entered: the call goes on as if it had reverted
      have hskip : settle E saved msg call [] (.ask w ext k) =
          settle E saved msg call [] (k w none) := by
        simp only [settle, hreach, Bool.false_eq_true, if_false]
      rw [hskip] at hfree ⊢
      exact ih w none (hresume w none rfl) hfree

/-- Under the lock a nested call comes straight back. -/
theorem settle_locked (E : Env) {w : World} (saved : World) (msg : Msg) (call : Call) (frame : Frame)
    (hentered : w.entered = true) :
    settle E saved msg call [frame] (exec E msg call w) = ⟨saved, [frame]⟩ ∨
      ∃ w', settle E saved msg call [frame] (exec E msg call w) = ⟨w', [frame]⟩ ∧
        msg.value = 0 ∧ Administers w w' := by
  cases hadmin : call.isAdmin with
  | true =>
    rcases exec_admin hadmin w with ⟨w', e, hthrow⟩ | ⟨w', hret, hadm⟩
    · exact .inl (by rw [hthrow]; rfl)
    · exact .inr ⟨w', by rw [hret]; rfl, exec_admin_value hadmin hret, hadm⟩
  | false =>
    obtain ⟨w', e, hthrow⟩ := exec_locked hentered hadmin
    exact .inl (by rw [hthrow]; rfl)

/-- The waiting call stays as it is while the world around it moves. -/
theorem Waits.move {frame frame' : Frame} {w w' : World} (h : Waits E frame w)
    (hsame : frame' = { frame with due := frame'.due })
    (hw : Waited E frame.call frame.ext frame.asked frame'.due w') (hrange : w'.balance < 2 ^ 256) :
    Waits E frame' w' := by
  rw [hsame]
  exact ⟨h.saved, h.reachable, h.covers, hw, hrange, h.resume⟩

/-- One event from an idle world. -/
theorem rawStep_idle {w : World} {m' : Machine} {e : Event} (h : Idle E w)
    (hstep : rawStep E ⟨w, []⟩ e = some m') (hfree : E.collisionFree m'.world.hashed) :
    Inv E m' ∧ Evolves w m'.committed := by
  cases e with
  | call msg call =>
    simp only [rawStep] at hstep
    split at hstep
    case isFalse => cases hstep
    next hadmits =>
      simp only [Env.admits, Bool.and_eq_true, decide_eq_true_eq] at hadmits
      obtain ⟨⟨⟨-, hsender⟩, hself⟩, hrange⟩ := hadmits
      obtain rfl := Option.some.inj hstep
      exact settle_inv h (meets_exec h hsender hself hrange w) hfree
  | reply word => cases hstep
  | fail => cases hstep
  | debit => cases hstep
  | tokenIn token amount =>
    obtain rfl := Option.some.inj hstep
    exact h.tokenIn rfl
  | forceEth amount =>
    simp only [rawStep] at hstep
    split at hstep
    case isFalse => cases hstep
    next hcond =>
      obtain rfl := Option.some.inj hstep
      exact h.forceEth hcond.2
  | tick timestamp =>
    simp only [rawStep] at hstep
    split at hstep
    case isFalse => cases hstep
    next hcond =>
      obtain rfl := Option.some.inj hstep
      exact h.tick hcond.2

/-- The callee may change state. -/
theorem writable_waiting {w : World} {frame : Frame}
    (h : Machine.writable ⟨w, [frame]⟩ = true) : frame.ext.isStatic = false := by
  simpa only [Machine.writable, Bool.not_eq_true'] using h

/-- The contract waits for a `transferFrom` of `token`. -/
theorem pulling_waiting (w : World) (frame : Frame) (token : Address) :
    Machine.pulling ⟨w, [frame]⟩ token = frame.ext.pulls token := by
  obtain ⟨saved, msg, call, asked, ext, due, resume⟩ := frame
  cases ext <;> rfl

/-- A token with a debit outstanding was called by a transfer. -/
theorem dynamic_of_due {w : World} {frame : Frame} (h : Waits E frame w) (hdue : frame.due ≠ 0) :
    frame.ext.isStatic = false := by
  have hle := h.waited.dueLe
  cases hext : frame.ext with
  | balanceOf token =>
    rw [hext] at hle
    exact absurd (Nat.le_zero.mp hle) hdue
  | _ => rfl

/-- One event while a call waits. -/
theorem rawStep_waiting {w : World} {frame : Frame} {m' : Machine} {e : Event}
    (h : Waits E frame w) (hstep : rawStep E ⟨w, [frame]⟩ e = some m')
    (hfree : E.collisionFree m'.world.hashed) :
    Inv E m' ∧ Evolves frame.saved m'.committed := by
  have hlocked : w.entered = true := h.waited.entered.trans h.covers.entered
  cases e with
  | call msg call =>
    simp only [rawStep] at hstep
    split at hstep
    case isFalse => cases hstep
    next hadmits =>
      simp only [Env.admits, Bool.and_eq_true, decide_eq_true_eq] at hadmits
      obtain ⟨⟨⟨⟨hwritable, -⟩, -⟩, -⟩, -⟩ := hadmits
      obtain rfl := Option.some.inj hstep
      have hentered : ({ w with balance := w.balance + msg.value } : World).entered = true := hlocked
      rcases settle_locked E w msg call frame
          hentered with hback | ⟨w', hdone, hvalue, hadmin⟩
      · rw [hback]
        exact ⟨h, .refl _⟩
      · rw [hdone]
        rw [hvalue] at hadmin
        have hadmin : Administers w w' := hadmin
        have hw := h.waited.administers (writable_waiting hwritable) hadmin
        exact ⟨h.move rfl hw (hadmin.balance ▸ h.range), .refl _⟩
  | reply word =>
    simp only [rawStep] at hstep
    split at hstep
    case isFalse => cases hstep
    next hanswers =>
      obtain rfl := Option.some.inj hstep
      have hw := h.waited.paidUp hanswers
      have hhonest : ∀ T, frame.ext = .balanceOf T → E.tracked T = true →
          word = w.tokenBalance T := fun T hext hT => by
        have hword := (Bool.and_eq_true_iff.mp hanswers).2
        simp only [hext, ExtCall.target, hT, Bool.not_true, Bool.false_or,
          decide_eq_true_eq] at hword
        exact hword
      exact settle_inv h.saved (h.resume w (some word) ⟨h.reachable, hw, h.range, hhonest⟩) hfree
  | fail =>
    obtain rfl := Option.some.inj hstep
    exact settle_inv h.saved (h.resume frame.asked none rfl) hfree
  | debit =>
    simp only [rawStep] at hstep
    split at hstep
    case isFalse => cases hstep
    next hcond =>
      obtain rfl := Option.some.inj hstep
      have hw := h.waited.debit (dynamic_of_due h hcond.1) hcond.2
      exact ⟨h.move rfl hw h.range, .refl _⟩
  | tokenIn token amount =>
    simp only [rawStep] at hstep
    split at hstep
    case isFalse => cases hstep
    next hwritable =>
      obtain rfl := Option.some.inj hstep
      have hw := h.waited.tokenIn (writable_waiting hwritable) token amount
      rw [← pulling_waiting w] at hw
      exact ⟨h.move rfl hw h.range, .refl _⟩
  | forceEth amount =>
    simp only [rawStep] at hstep
    split at hstep
    case isFalse => cases hstep
    next hcond =>
      obtain rfl := Option.some.inj hstep
      have hw := h.waited.forceEth (writable_waiting hcond.1) amount
      exact ⟨h.move rfl hw hcond.2, .refl _⟩
  | tick timestamp =>
    simp only [rawStep] at hstep
    split at hstep
    case isFalse => cases hstep
    next hcond => cases hcond.1

/-- One event keeps the invariant and moves the last idle world forward. -/
theorem step_inv {m m' : Machine} {e : Event} (h : Inv E m) (hstep : step E m e = some m') :
    Inv E m' ∧ Evolves m.committed m'.committed := by
  obtain ⟨hraw, hfree⟩ := Option.filter_eq_some_iff.mp hstep
  replace hfree := of_decide_eq_true hfree
  rcases h.cases with ⟨w, rfl, hidle⟩ | ⟨w, frame, rfl, hwaits⟩
  · exact rawStep_idle hidle hraw hfree
  · exact rawStep_waiting hwaits hraw hfree

/-! ## Runs -/

/-- A deployment is idle. -/
theorem inv_deployed {orchestrator treasury owner : Address} {timestamp : Nat} {storage : Storage}
    (h : constructor orchestrator treasury owner timestamp = some storage) :
    Inv E (deployed storage timestamp) := by
  simp only [constructor] at h
  split at h
  case isTrue => cases h
  next hzero =>
    obtain rfl := Option.some.inj h
    simp only [not_or] at hzero
    refine ⟨?_, ⟨?_, fun T _ _ => ?_⟩, rfl, Nat.two_pow_pos 256⟩
    · exact
      { treasury_ne := hzero.2.1
        noZeroSolver := rfl
        unowned := fun _ _ => rfl
        parties := fun _ h0 => absurd rfl h0
        origin := fun _ h0 => absurd rfl h0
        nonces := fun _ hx => absurd hx List.not_mem_nil
        nonceRange := Nat.zero_le _
        created := fun _ => ⟨fun h0 => absurd rfl h0, fun hm => absurd hm List.not_mem_nil⟩
        createdOnce := List.nodup_nil
        accounted := fun _ => Intent.accounted_empty timestamp
        onlyTreasury := fun _ _ => rfl
        credit := rfl }
    · simp only [deployed, ethOwed, tokenOwed_empty, collateralHeld_empty, treasuryOwed_zero]
    · simp only [deployed, tokenOwed_empty]

/-- Every reachable machine is invariant. -/
theorem inv_of_reachable {m : Machine} (h : Reachable E m) : Inv E m := by
  obtain ⟨orchestrator, treasury, owner, timestamp, storage, events, hdeploy, hrun⟩ := h
  exact Run.run_invariant (fun _ => True) (fun _ _ _ _ hs hstep => (step_inv hs hstep).1)
    (fun _ _ => trivial) hrun (inv_deployed hdeploy)

/-- Every run from an invariant machine moves the last idle world forward. -/
theorem committed_evolves {m m' : Machine} {events : List Event} (h : Inv E m)
    (hrun : Run.run (step E) m events = some m') : Evolves m.committed m'.committed :=
  Run.run_relates (R := fun m m' => Evolves m.committed m'.committed) (fun _ => .refl _)
    (fun _ _ _ => Evolves.trans) (fun _ _ _ => step_inv) hrun h

end Maat.IntentManager
