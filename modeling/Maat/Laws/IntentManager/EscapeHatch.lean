import Maat.Laws.IntentManager.Disposition

/-!
# The escape hatch

Once an intent has expired its owner can always get the escrow back: by `cancelIntent` if no
solver took it, by `claimRefund` after the grace period otherwise (`escape_hatch`). Nothing in
the history of the contract can close the door: the balance is there by solvency, the treasury
credit cannot overflow because it is part of what the contract owes, and neither function looks
at the pause, the orchestrator or the treasury's behaviour.

"Goes through" has two halves (`GoesThrough`). The call starts paying the owner; and whatever the
payee does while it runs, once it returns the call completes.
-/

namespace Maat.IntentManager

open Resumption Resumption.Prog

variable {E : Env} {id : Bytes32}

/-- The callee returns or reverts. -/
def Event.returns : Event → Bool
  | .reply _ | .fail => true
  | _ => false

/-- `call` by the owner of `id`, without ETH, goes through: the contract starts paying the owner
the escrow, and whatever happens while the payee runs, once it has returned the call has
completed, the intent is closed as `status`, and its escrow has been paid to the owner. -/
structure GoesThrough (E : Env) (m : Machine) (id : Bytes32) (call : Call)
    (status : IntentStatus) : Prop where
  starts : ∃ m₁ frame, step E m (.call ⟨(m.world.intents id).owner, 0⟩ call) = some m₁ ∧
    m₁.stack = [frame] ∧ frame.ext = releaseCall (m.world.intents id).owner
      (m.world.intents id).amount (m.world.intents id).tokenAddress
  completes : ∀ m₁ m₂ events,
    step E m (.call ⟨(m.world.intents id).owner, 0⟩ call) = some m₁ →
    (∀ e ∈ events, e.returns = false) → Run.run (step E) m₁ events = some m₂ →
    ∃ frame, m₂.stack = [frame] ∧ ∀ word, E.answers m₂ frame word = true →
      ∃ w, step E m₂ (.reply word) = some ⟨w, []⟩ ∧ (w.intents id).status = status ∧
        paid id w.payments = [((m.world.intents id).owner, (m.world.intents id).tokenAddress,
          (m.world.intents id).amount)]

/-! ## Runs that stay inside a call -/

/-- The strings hashed on the way to a reachable machine do not collide. -/
theorem hashed_collisionFree {m : Machine} (h : Reachable E m) : E.collisionFree m.world.hashed := by
  obtain ⟨orchestrator, treasury, owner, timestamp, storage, events, -, hrun⟩ := h
  refine Run.run_invariant (I := fun m => E.collisionFree m.world.hashed) (fun _ => True)
    (fun s e s' _ _ hstep => ?_) (fun _ _ => trivial) hrun ?_
  · exact of_decide_eq_true (Option.filter_eq_some_iff.mp hstep).2
  · exact fun x hx => absurd hx List.not_mem_nil

/-- Until the callee returns, the waiting call stays on the stack; only what a token has still to
debit may change. -/
theorem step_stays {m m' : Machine} {frame : Frame} {e : Event} (h : Inv E m)
    (hstack : m.stack = [frame]) (he : e.returns = false) (hstep : step E m e = some m') :
    ∃ due, m'.stack = [{ frame with due }] := by
  obtain ⟨hraw, -⟩ := Option.filter_eq_some_iff.mp hstep
  obtain ⟨w, stack⟩ := m
  subst hstack
  have hwaits : Waits E frame w := h
  have hlocked : w.entered = true := hwaits.waited.entered.trans hwaits.covers.entered
  cases e with
  | call msg call =>
    simp only [rawStep] at hraw
    split at hraw
    case isFalse => cases hraw
    obtain rfl := Option.some.inj hraw
    have hentered : ({ w with balance := w.balance + msg.value } : World).entered = true := hlocked
    rcases settle_locked E w msg call frame
        hentered with hback | ⟨w', hdone, -, -⟩
    · exact ⟨frame.due, by rw [hback]⟩
    · exact ⟨frame.due, by rw [hdone]⟩
  | reply word => cases he
  | fail => cases he
  | debit =>
    simp only [rawStep] at hraw
    split at hraw
    case isFalse => cases hraw
    obtain rfl := Option.some.inj hraw
    exact ⟨0, rfl⟩
  | tokenIn token amount =>
    simp only [rawStep] at hraw
    split at hraw
    case isFalse => cases hraw
    obtain rfl := Option.some.inj hraw
    exact ⟨frame.due, rfl⟩
  | forceEth amount =>
    simp only [rawStep] at hraw
    split at hraw
    case isFalse => cases hraw
    obtain rfl := Option.some.inj hraw
    exact ⟨frame.due, rfl⟩
  | tick timestamp =>
    simp only [rawStep] at hraw
    split at hraw
    case isFalse => cases hraw
    next hcond => cases hcond.1

/-- The same over a whole run. -/
theorem run_stays {m m' : Machine} {frame : Frame} {events : List Event} (h : Inv E m)
    (hstack : m.stack = [frame]) (hevents : ∀ e ∈ events, e.returns = false)
    (hrun : Run.run (step E) m events = some m') :
    Inv E m' ∧ ∃ due, m'.stack = [{ frame with due }] := by
  refine Run.run_invariant (I := fun m => Inv E m ∧ ∃ due, m.stack = [{ frame with due }])
    (fun e => e.returns = false) (fun s e s' he hs hstep => ?_) hevents hrun
    ⟨h, frame.due, hstack⟩
  obtain ⟨hinv, due, hframe⟩ := hs
  obtain ⟨due', hframe'⟩ := step_stays hinv hframe he hstep
  exact ⟨(step_inv hinv hstep).1, due', hframe'⟩

/-! ## Going through -/

/-- A release is one question to the payee, and goes on when the payee returns. -/
theorem releaseFunds_asks {recipient tokenAddress : Address} {amount : Nat} {w : World}
    (f : Unit → World → Res World Answer Err Unit) :
    ∃ k, (releaseFunds recipient amount tokenAddress w).bind f =
        .ask w (releaseCall recipient amount tokenAddress) k ∧
      ∀ w' word, k w' (some word) = f () w' := by
  by_cases h0 : tokenAddress = 0
  · refine ⟨fun w' x => (failIf (x = none) .EthTransferFailed w').bind f, ?_, fun _ _ => rfl⟩
    rw [releaseFunds, if_pos h0, releaseCall, if_pos h0]
    rfl
  · refine ⟨fun w' x => (failIf (x = none) .SafeERC20FailedOperation w').bind f, ?_,
      fun _ _ => rfl⟩
    rw [releaseFunds, if_neg h0, releaseCall, if_neg h0]
    rfl

/-- The credit cannot overflow: it is part of what the contract owes, next to the collateral. -/
theorem creditTreasury_fits {w : World} {collateral : Nat} (h : Solvent E collateral w)
    (hrange : w.balance < 2 ^ 256) (f : Unit → World → Res World Answer Err Unit) :
    (creditTreasury collateral w).bind f = f () { w with
      pendingTreasuryWithdrawals := Function.update w.pendingTreasuryWithdrawals w.treasury
        (w.pendingTreasuryWithdrawals w.treasury + collateral) } := by
  have heth := h.eth
  have hpart := pending_le_treasuryOwed w.pendingTreasuryWithdrawals w.treasury
  have hfits : w.pendingTreasuryWithdrawals w.treasury + collateral ≤ maxUint256 := by
    simp only [ethOwed, maxUint256] at heth ⊢
    omega
  simp only [creditTreasury, bind_apply, read_apply, Res.bind_ret, checkedAdd, if_pos hfits,
    pure_apply, update_apply]

/-- The closing record after a pending one. -/
structure ClosesAs (i i' : Intent) (status : IntentStatus) : Prop where
  status : i'.status = status
  closed : i'.status ≠ .Pending
  held : i'.collateralPosted = 0
  evolves : i.Evolves i'

/-- The world in which a closing call releases the escrow. -/
def closing (w : World) (id : Bytes32) (i' : Intent) : World :=
  { w with entered := true, intents := Function.update w.intents id i' }

/-- The call that releases it, waiting for the payee. -/
def releasing (w : World) (id : Bytes32) (i' : Intent) (call : Call) (due : Nat)
    (resume : World → Option Nat → Res World Answer Err Unit) : Frame where
  saved := w
  msg := ⟨(w.intents id).owner, 0⟩
  call := call
  asked := closing w id i'
  ext := releaseCall (w.intents id).owner (w.intents id).amount (w.intents id).tokenAddress
  due := due
  resume := resume

/-- The owner, or the token, can be called with the escrow: it is there, and neither is the
contract itself. -/
theorem reachable_closing {w : World} (h : Idle E w) {i' : Intent} {status : IntentStatus}
    (howner : (w.intents id).owner ≠ 0) (hpending : (w.intents id).status = .Pending)
    (hi : ClosesAs (w.intents id) i' status) :
    E.reachable (releaseCall (w.intents id).owner (w.intents id).amount
      (w.intents id).tokenAddress) (closing w id i') = true := by
  have hparties := h.kept.parties id howner
  have hcovers : _ + (releaseCall _ _ _).ethValue ≤ (closing w id i').balance :=
    (sends_release i' h hpending hi.closed hi.held (w.intents id).owner).covers.eth
  simp only [Env.reachable, Bool.and_eq_true, decide_eq_true_eq]
  refine ⟨?_, (Nat.le_add_left _ _).trans hcovers⟩
  unfold releaseCall
  split
  · exact hparties.1
  · next hne => exact hparties.2 hne

/-- The owner of an intent may call. -/
theorem admits_owner {w : World} (h : Idle E w) (howner : (w.intents id).owner ≠ 0) {call : Call}
    (hargs : call.inRange = true) :
    E.admits ⟨w, []⟩ ⟨(w.intents id).owner, 0⟩ call = true := by
  simp only [Env.admits, Machine.writable, hargs, Bool.true_and, Bool.and_eq_true,
    decide_eq_true_eq, ne_eq, Nat.add_zero]
  exact ⟨⟨howner, (h.kept.parties id howner).1⟩, h.ethRange⟩

/-- A closing call that asks for the release, and whose continuation completes once the payee has
returned, goes through. -/
theorem goesThrough {w : World} (h : Idle E w) (hfree : E.collisionFree w.hashed) {call : Call}
    {i' : Intent} {status : IntentStatus} {k : World → Option Nat → Res World Answer Err Unit}
    (howner : (w.intents id).owner ≠ 0) (hpending : (w.intents id).status = .Pending)
    (hi : ClosesAs (w.intents id) i' status) (hstatus : status = .Expired ∨ status = .Refunded)
    (hargs : call.inRange = true)
    (hexec : exec E ⟨(w.intents id).owner, 0⟩ call w = .ask (closing w id i')
      (releaseCall (w.intents id).owner (w.intents id).amount (w.intents id).tokenAddress) k)
    (hk : ∀ w₂ word, Solvent E (w.intents id).collateralPosted w₂ → w₂.balance < 2 ^ 256 →
      ∃ w₃, k w₂ (some word) = .ret w₃ () ∧ w₃.intents = w₂.intents ∧ w₃.hashed = w₂.hashed) :
    GoesThrough E ⟨w, []⟩ id call status := by
  have hinv : Inv E ⟨w, []⟩ := h
  have hadmits := admits_owner h howner hargs
  have hstart : ∃ world due, step E ⟨w, []⟩ (.call ⟨(w.intents id).owner, 0⟩ call) =
      some ⟨world, [releasing w id i' call due k]⟩ := by
    refine ⟨depart call (releaseCall (w.intents id).owner (w.intents id).amount
      (w.intents id).tokenAddress) (closing w id i'), (releaseCall (w.intents id).owner
      (w.intents id).amount (w.intents id).tokenAddress).tokensDue, ?_⟩
    refine Option.filter_eq_some_iff.mpr ⟨?_, decide_eq_true hfree⟩
    simp only [rawStep, hadmits, if_true]
    rw [show exec E ⟨(w.intents id).owner, 0⟩ call { w with balance := w.balance + 0 } = _
      from hexec]
    simp only [settle, reachable_closing h howner hpending hi, if_true]
    rfl
  obtain ⟨world, due₁, hstart⟩ := hstart
  refine ⟨⟨_, _, hstart, rfl, rfl⟩, fun m₁ m₂ events hcall hevents hrun => ?_⟩
  obtain rfl := Option.some.inj (hstart.symm.trans hcall)
  have hinv₁ := (step_inv hinv hstart).1
  obtain ⟨hinv₂, due, hstack⟩ := run_stays hinv₁ rfl hevents hrun
  obtain ⟨w₂, stack₂⟩ := m₂
  subst hstack
  have hwaits : Waits E (releasing w id i' call due k) w₂ := hinv₂
  refine ⟨releasing w id i' call due k, rfl, fun word hanswers => ?_⟩
  -- the payee has returned: what the contract holds is again exactly what it owes
  have hpaid := hwaits.waited.paidUp hanswers
  have hsends := sends_release i' h hpending hi.closed hi.held (w.intents id).owner
  obtain ⟨w₃, hret, hintents, hhashed⟩ := hk w₂ word
    (hsends.waited (releaseCall_pulls _ _ _) hpaid) hwaits.range
  have hfree₃ : E.collisionFree w₃.hashed := by
    rw [hhashed, hpaid.hashed]
    exact hfree
  have hstep : step E ⟨w₂, [releasing w id i' call due k]⟩ (.reply word) = some ⟨w₃, []⟩ := by
    refine Option.filter_eq_some_iff.mpr ⟨?_, decide_eq_true hfree₃⟩
    have hraw : rawStep E ⟨w₂, [releasing w id i' call due k]⟩ (.reply word) =
        some (settle E w ⟨(w.intents id).owner, 0⟩ call [] (k w₂ (some word))) := if_pos hanswers
    rw [hraw, hret]
    rfl
  have hrecord : w₃.intents id = i' := by
    rw [hintents, hpaid.intents]
    exact Function.update_self _ _ _
  refine ⟨w₃, hstep, hrecord ▸ hi.status, ?_⟩
  have hkept : Kept E w₃ := Idle.kept (step_inv hinv₂ hstep).1
  have hacc := hkept.accounted id
  rw [hrecord] at hacc
  rcases hstatus with rfl | rfl <;>
  · simp only [Intent.Accounted, hi.status, hi.evolves.owner, hi.evolves.tokenAddress,
      hi.evolves.amount] at hacc
    first
    | exact hacc.2.2.2.1
    | exact hacc.2.2.choose_spec.2.1

/-! ## The two doors -/

/-- The world without the ETH that did not come. -/
theorem nonPayable_zero {owner : Address} (body : Tx Unit) (w : World) :
    nonPayable ⟨owner, 0⟩ body w = body w := by
  simp only [nonPayable, bind_apply, failIf_apply, ne_eq, not_true_eq_false, if_false, Res.bind_ret]

/-- A guard that does not fire. -/
theorem failIf_bind_neg {α : Type} {c : Prop} [Decidable c] {e : Err} {w : World}
    {f : Unit → World → Res World Answer Err α} (h : ¬ c) :
    (failIf c e w).bind f = f () w := by
  rw [failIf_apply, if_neg h, Res.bind_ret]

/-- A guarded function from an idle world. -/
theorem nonReentrant_idle {α : Type} {w : World} (h : w.entered = false) (body : Tx α) :
    nonReentrant body w = (body { w with entered := true }).bind
      fun a s => .ret { s with entered := false } a := by
  have hopen : ¬ w.entered = true := by rw [h]; exact Bool.false_ne_true
  simp only [nonReentrant, bind_apply, read_apply, update_apply, Res.bind_ret,
    failIf_bind_neg hopen]
  rfl

/-- What `cancelIntent` does once its guards hold. -/
theorem exec_cancelIntent {w : World} (h : Idle E w) (hpending : (w.intents id).status = .Pending)
    (hsolver : (w.intents id).solver = 0) (hexpired : (w.intents id).expiry.toNat ≤ w.timestamp) :
    ∃ k, exec E ⟨(w.intents id).owner, 0⟩ (.cancelIntent id) w =
        .ask (closing w id { w.intents id with status := .Expired })
          (releaseCall (w.intents id).owner (w.intents id).amount (w.intents id).tokenAddress) k ∧
      ∀ w₂ word, k w₂ (some word) = .ret { w₂ with
        entered := false
        logs := w₂.logs ++
          [.IntentCancelled id (w.intents id).owner (w.intents id).amount] } () := by
  obtain ⟨k, hask, hk⟩ := releaseFunds_asks (fun _ s => .ret { s with
    entered := false
    logs := s.logs ++ [.IntentCancelled id (w.intents id).owner (w.intents id).amount] } ())
  refine ⟨k, ?_, hk⟩
  rw [exec, nonPayable_zero, cancelIntent, nonReentrant_idle h.unlocked, ← hask]
  simp only [bind_apply, read_apply, Res.bind_ret]
  rw [failIf_bind_neg (not_not.mpr rfl), bind_apply, failIf_bind_neg (not_not.mpr hpending),
    bind_apply, failIf_bind_neg (Nat.not_lt.mpr hexpired), bind_apply,
    failIf_bind_neg (not_not.mpr hsolver)]
  simp only [setIntent, emit, bind_apply, update_apply, Res.bind_ret, Res.bind_assoc]
  rfl

theorem goesThrough_cancelIntent {w : World} (h : Idle E w) (hfree : E.collisionFree w.hashed)
    (howner : (w.intents id).owner ≠ 0) (hpending : (w.intents id).status = .Pending)
    (hsolver : (w.intents id).solver = 0) (hexpired : (w.intents id).expiry.toNat ≤ w.timestamp) :
    GoesThrough E ⟨w, []⟩ id (.cancelIntent id) .Expired := by
  have hacc := (h.kept.accounted id).unsolved hpending hsolver
  have hcloses : ClosesAs (w.intents id) { w.intents id with status := .Expired } .Expired :=
    ⟨rfl, by simp only [ne_eq, reduceCtorEq, not_false_eq_true], hacc.2.1,
      ⟨rfl, rfl, rfl, rfl, rfl, rfl, rfl, rfl, fun _ => rfl, fun hc => absurd hpending hc⟩⟩
  obtain ⟨k, hexec, hk⟩ := exec_cancelIntent h hpending hsolver hexpired
  exact goesThrough h hfree howner hpending hcloses (.inl rfl) rfl hexec fun w₂ word _ _ =>
    ⟨_, hk w₂ word, rfl, rfl⟩

/-- The grace period cannot overflow: an expiry is 64 bits wide. -/
theorem refundFrom_fits (i : Intent) : i.expiry.toNat + REFUND_GRACE ≤ maxUint256 := by
  have hexpiry := i.expiry.toNat_lt
  simp only [REFUND_GRACE, maxUint256]
  omega

/-- What `claimRefund` does once its guards hold. -/
theorem exec_claimRefund {w : World} (h : Idle E w) (hpending : (w.intents id).status = .Pending)
    (hsolver : (w.intents id).solver ≠ 0)
    (hgrace : (w.intents id).expiry.toNat + REFUND_GRACE ≤ w.timestamp) :
    ∃ k, exec E ⟨(w.intents id).owner, 0⟩ (.claimRefund id) w =
        .ask (closing w id { w.intents id with status := .Refunded, collateralPosted := 0 })
          (releaseCall (w.intents id).owner (w.intents id).amount (w.intents id).tokenAddress) k ∧
      ∀ w₂ word, k w₂ (some word) =
        (creditTreasury (w.intents id).collateralPosted w₂).bind fun _ s => .ret { s with
          entered := false
          logs := s.logs ++ [.IntentRefunded id (w.intents id).owner (w.intents id).amount
            (w.intents id).collateralPosted] } () := by
  obtain ⟨k, hask, hk⟩ := releaseFunds_asks (fun _ s =>
    (creditTreasury (w.intents id).collateralPosted s).bind fun _ s => .ret { s with
      entered := false
      logs := s.logs ++ [.IntentRefunded id (w.intents id).owner (w.intents id).amount
        (w.intents id).collateralPosted] } ())
  refine ⟨k, ?_, hk⟩
  rw [exec, nonPayable_zero, claimRefund, nonReentrant_idle h.unlocked, ← hask]
  simp only [bind_apply, read_apply, Res.bind_ret]
  rw [failIf_bind_neg (not_not.mpr rfl), bind_apply, failIf_bind_neg (not_not.mpr hpending),
    bind_apply, failIf_bind_neg hsolver, bind_apply, checkedAdd, if_pos (refundFrom_fits _),
    pure_apply, Res.bind_ret, bind_apply, failIf_bind_neg (Nat.not_lt.mpr hgrace)]
  simp only [setIntent, emit, bind_apply, update_apply, Res.bind_ret, Res.bind_assoc]
  rfl

theorem goesThrough_claimRefund {w : World} (h : Idle E w) (hfree : E.collisionFree w.hashed)
    (howner : (w.intents id).owner ≠ 0) (hpending : (w.intents id).status = .Pending)
    (hsolver : (w.intents id).solver ≠ 0)
    (hgrace : (w.intents id).expiry.toNat + REFUND_GRACE ≤ w.timestamp) :
    GoesThrough E ⟨w, []⟩ id (.claimRefund id) .Refunded := by
  have hcloses : ClosesAs (w.intents id)
      { w.intents id with status := .Refunded, collateralPosted := 0 } .Refunded :=
    ⟨rfl, by simp only [ne_eq, reduceCtorEq, not_false_eq_true], rfl,
      ⟨rfl, rfl, rfl, rfl, rfl, rfl, rfl, rfl, fun _ => rfl, fun hc => absurd hpending hc⟩⟩
  obtain ⟨k, hexec, hk⟩ := exec_claimRefund h hpending hsolver hgrace
  refine goesThrough h hfree howner hpending hcloses (.inr rfl) rfl hexec
    fun w₂ word hsolvent hrange => ?_
  refine ⟨_, (hk w₂ word).trans (creditTreasury_fits hsolvent hrange _), rfl, rfl⟩

/-- `claimRefund` is not for an intent without a solver. -/
theorem reverts_claimRefund {w : World} {msg : Msg} (hsolver : (w.intents id).solver = 0) :
    Reverts (claimRefund msg id w) := by
  refine reverts_nonReentrant ?_
  simp only [bind_apply, read_apply, Res.bind_ret]
  exact reverts_failIf_bind fun _ => reverts_failIf_bind fun _ => reverts_of_failIf hsolver

/-- `cancelIntent` is not for an intent with a solver. -/
theorem reverts_cancelIntent {w : World} {msg : Msg} (hsolver : (w.intents id).solver ≠ 0) :
    Reverts (cancelIntent msg id w) := by
  refine reverts_nonReentrant ?_
  simp only [bind_apply, read_apply, Res.bind_ret]
  exact reverts_failIf_bind fun _ => reverts_failIf_bind fun _ => reverts_failIf_bind fun _ =>
    reverts_of_failIf hsolver

/-- A call by the owner that reverts leaves an idle machine as it was. -/
theorem step_reverts {w : World} (h : Idle E w) (hfree : E.collisionFree w.hashed)
    (howner : (w.intents id).owner ≠ 0) {call : Call} (hargs : call.inRange = true)
    (hr : Reverts (exec E ⟨(w.intents id).owner, 0⟩ call w)) :
    step E ⟨w, []⟩ (.call ⟨(w.intents id).owner, 0⟩ call) = some ⟨w, []⟩ := by
  have hraw : rawStep E ⟨w, []⟩ (.call ⟨(w.intents id).owner, 0⟩ call) = some ⟨w, []⟩ := by
    simp only [rawStep, admits_owner h howner hargs, if_true]
    exact congrArg some (settle_reverts hr)
  exact Option.filter_eq_some_iff.mpr ⟨hraw, decide_eq_true hfree⟩

/-- The escape hatch: after the grace period exactly one of the two calls goes through, the one
that fits whether a solver took the intent, and the other reverts; the cancellation is open from
the expiry on. -/
theorem escape_hatch {m : Machine} (hreach : Reachable E m) (hidle : m.stack = []) {id : Bytes32}
    (hexists : (m.world.intents id).owner ≠ 0)
    (hpending : (m.world.intents id).status = .Pending) :
    ((m.world.intents id).expiry.toNat + REFUND_GRACE ≤ m.world.timestamp →
      ((m.world.intents id).solver = 0 ∧ GoesThrough E m id (.cancelIntent id) .Expired ∧
        step E m (.call ⟨(m.world.intents id).owner, 0⟩ (.claimRefund id)) = some m) ∨
      ((m.world.intents id).solver ≠ 0 ∧ GoesThrough E m id (.claimRefund id) .Refunded ∧
        step E m (.call ⟨(m.world.intents id).owner, 0⟩ (.cancelIntent id)) = some m)) ∧
    ((m.world.intents id).expiry.toNat ≤ m.world.timestamp → (m.world.intents id).solver = 0 →
      GoesThrough E m id (.cancelIntent id) .Expired) := by
  have hfree := hashed_collisionFree hreach
  have hinv := inv_of_reachable hreach
  obtain ⟨w, stack⟩ := m
  subst hidle
  replace hinv : Idle E w := hinv
  refine ⟨fun hgrace => ?_, fun hexpired hsolver =>
    goesThrough_cancelIntent hinv hfree hexists hpending hsolver hexpired⟩
  have hexpired : (w.intents id).expiry.toNat ≤ w.timestamp := (Nat.le_add_right _ _).trans hgrace
  by_cases hsolver : (w.intents id).solver = 0
  · refine .inl ⟨hsolver, goesThrough_cancelIntent hinv hfree hexists hpending hsolver hexpired, ?_⟩
    exact step_reverts hinv hfree hexists rfl
      (by rw [exec, nonPayable_zero]; exact reverts_claimRefund hsolver)
  · refine .inr ⟨hsolver, goesThrough_claimRefund hinv hfree hexists hpending hsolver hgrace, ?_⟩
    exact step_reverts hinv hfree hexists rfl
      (by rw [exec, nonPayable_zero]; exact reverts_cancelIntent hsolver)

/-- A day after the expiry of the sample intent, with its solver silent, the refund is open. -/
theorem escape_hatch_sample :
    ∃ m, Run.run (step sampleEnv) (deployed sampleStorage 1000) (sampleOpening ++ [.tick 88400]) =
        some m ∧
      GoesThrough sampleEnv m sampleId (.claimRefund sampleId) .Refunded := by
  have hrun : (Run.run (step sampleEnv) (deployed sampleStorage 1000)
      (sampleOpening ++ [.tick 88400])).any (fun m => m.stack.isEmpty &&
        decide ((m.world.intents sampleId).owner ≠ 0 ∧
          (m.world.intents sampleId).status = .Pending ∧ (m.world.intents sampleId).solver ≠ 0 ∧
          (m.world.intents sampleId).expiry.toNat + REFUND_GRACE ≤ m.world.timestamp)) = true := by
    decide
  obtain ⟨m, hm, hcheck⟩ := (Option.any_eq_true _ _).mp hrun
  obtain ⟨hstack, hfacts⟩ := Bool.and_eq_true_iff.mp hcheck
  obtain ⟨howner, hpending, hsolver, hgrace⟩ := of_decide_eq_true hfacts
  have hopen := (escape_hatch (sample_reachable hm) (List.isEmpty_iff.mp hstack) howner
    hpending).1 hgrace
  exact ⟨m, hm, (hopen.resolve_left fun h => hsolver h.1).2.1⟩

end Maat.IntentManager
