import Maat.Laws.IntentManager.Opening

/-!
# Submitting an intent

`submitIntent` asks a token three things: its balance, to move the escrow in, and its balance
again. Whatever the token does meanwhile, what is booked as the amount is what arrived
(`meets_pullEscrow`). The new record's id is the hash of the sender, the nonce and the time;
since the nonce never repeats and no two hashed strings collide, the id names no existing record
(`fresh_id`), so nothing is overwritten.
-/

namespace Maat.IntentManager

open Resumption Resumption.Prog

variable {E : Env} {call : Call} {id : Bytes32}

/-! ## The escrow step -/

/-- The escrow has arrived: the contract holds what it owes and `amount` of `token` more, and
nothing else has happened that a waiting call does not allow. -/
structure Pulled (E : Env) (token : Address) (amount : Nat) (w w' : World) : Prop where
  intents : w'.intents = w.intents
  intentNonce : w'.intentNonce = w.intentNonce
  treasury : w'.treasury = w.treasury
  pending : w'.pendingTreasuryWithdrawals = w.pendingTreasuryWithdrawals
  timestamp : w'.timestamp = w.timestamp
  hashed : w'.hashed = w.hashed
  noZeroSolver : w.approvedSolvers 0 = false → w'.approvedSolvers 0 = false
  payments : w'.payments = w.payments
  logs : ∃ admin, w'.logs = w.logs ++ admin ∧ ∀ l ∈ admin, l.isAdmin = true
  notSelf : token ≠ 0 → token ≠ E.self
  eth : w'.balance = ethOwed w'.toStorage + w'.forced + if token = 0 then amount else 0
  escrow : ∀ T, T ≠ 0 → E.tracked T = true →
    w'.tokenBalance T = tokenOwed T w'.intents + w'.donated T + if token = T then amount else 0
  range : w'.balance < 2 ^ 256

/-- A call that brings no value out is covered by solvency alone. -/
theorem Solvent.covers {w : World} {extra : Nat} (h : Solvent E extra w)
    (hentered : w.entered = true) (hrange : w.balance < 2 ^ 256) {ext : ExtCall}
    (heth : ext.ethValue = 0) (hdue : ext.tokensDue = 0) : Covers E w ext where
  entered := hentered
  range := hrange
  eth := by rw [h.eth, heth]; omega
  token T h0 hT := by rw [h.token T h0 hT, hdue, ite_self, Nat.add_zero]

/-- What arrives while the contract waits for a `transferFrom`. -/
theorem Waited.arrived {w now : World} {token sender : Address} {asked : Nat}
    (hw : Waited E call (.transferFrom token sender asked) w 0 now) (h : Solvent E 0 w) :
    now.balance = ethOwed now.toStorage + now.forced ∧
      ∀ T, T ≠ 0 → E.tracked T = true → ∃ delivered,
        (token ≠ T → delivered = 0) ∧
          now.tokenBalance T = tokenOwed T now.intents + now.donated T + delivered ∧
            (token = T → now.tokenBalance T = w.tokenBalance T + delivered) := by
  constructor
  · have hbefore := h.eth
    have hafter := hw.eth
    have howed : ethOwed now.toStorage = ethOwed w.toStorage :=
      ethOwed_congr hw.intents hw.pending
    simp only [ExtCall.ethValue] at hafter
    omega
  · intro T h0 hT
    obtain ⟨delivered, hnone, hmoved⟩ := hw.tokens T h0 hT
    have hbefore := h.token T h0 hT
    simp only [ExtCall.tokensDue, ite_self, Nat.sub_zero, Nat.add_zero] at hmoved
    rw [hw.intents]
    refine ⟨delivered, fun hne => ?_, by omega, fun heq => ?_⟩
    · simpa [ExtCall.pulls, hne] using hnone
    · have hdonated : now.donated T = w.donated T := by simpa [ExtCall.pulls, heq] using hnone
      omega

@[simp] theorem depart_balanceOf (token : Address) (w : World) :
    depart call (.balanceOf token) w = w := by
  simp only [depart, ExtCall.ethValue, Nat.sub_zero, ExtCall.payment, List.append_nil]

theorem meets_balanceOf {β : Type} {post : World → World → β → Prop} {s₀ w : World}
    {token : Address} {f : Nat → World → Res World Answer Err β}
    (hcov : Covers E w (.balanceOf token))
    (h : ∀ word, token ≠ E.self → (E.tracked token = true → word = w.tokenBalance token) →
      Meets E call post w (f word w)) :
    Meets E call post s₀ ((balanceOf token w).bind f) := by
  simp only [balanceOf, bind_apply, ask_apply, Res.bind_ask, Res.bind_ret]
  refine sat_ask.mpr ⟨hcov, fun w' answer hrely => ?_⟩
  cases answer with
  | none => exact sat_throw.mpr trivial
  | some word =>
    obtain ⟨hreach, hw, -, hword⟩ := hrely
    have hsame : w' = w := (hw.static rfl).trans (depart_balanceOf token w)
    subst hsame
    simp only [Env.reachable, ExtCall.target, Bool.and_eq_true] at hreach
    exact h word (of_decide_eq_true hreach.1) (hword token rfl)

/-- The escrow step books what arrived. -/
theorem meets_pullEscrow {β : Type} {post : World → World → β → Prop} {s₀ w : World} {msg : Msg}
    {token : Address} {amount : Nat} {f : Nat → World → Res World Answer Err β}
    (hs : Solvent E msg.value w) (hentered : w.entered = true) (hrange : w.balance < 2 ^ 256)
    (h : ∀ s₁ w' amount', Pulled E token amount' w w' → Meets E call post s₁ (f amount' w')) :
    Meets E call post s₀ ((pullEscrow msg token amount w).bind f) := by
  unfold pullEscrow
  by_cases h0 : token = 0
  · simp only [if_pos h0, bind_apply, Res.bind_assoc, pure_apply, Res.bind_ret]
    refine sat_failIf_bind.mpr ⟨fun _ => trivial, fun hvalue => h _ _ _ ?_⟩
    replace hvalue : msg.value = amount := not_not.mp hvalue
    exact
      { intents := rfl, intentNonce := rfl, treasury := rfl, pending := rfl, timestamp := rfl
        hashed := rfl, noZeroSolver := fun hz => hz, payments := rfl
        logs := ⟨[], (List.append_nil _).symm, fun _ hl => absurd hl List.not_mem_nil⟩
        notSelf := fun hne => absurd h0 hne
        eth := by rw [if_pos h0, ← hvalue]; exact hs.eth
        escrow := fun T hT ht => by
          rw [if_neg (h0 ▸ Ne.symm hT), Nat.add_zero]
          exact hs.token T hT ht
        range := hrange }
  · simp only [if_neg h0, bind_apply, Res.bind_assoc]
    refine sat_failIf_bind.mpr ⟨fun _ => trivial, fun hvalue => ?_⟩
    rw [not_not.mp hvalue] at hs
    refine meets_balanceOf (hs.covers hentered hrange rfl rfl) fun before hself hbefore => ?_
    refine meets_mustCall (hs.covers hentered hrange rfl rfl) fun w₁ hw hrange₁ => ?_
    obtain ⟨heth, htoken⟩ := hw.arrived hs
    have hcov : Covers E w₁ (.balanceOf token) :=
      { entered := hw.entered.trans hentered
        range := hrange₁
        eth := by
          simp only [ExtCall.ethValue, Nat.add_zero]
          exact heth.ge
        token := fun T hT ht => by
          obtain ⟨delivered, -, hheld, -⟩ := htoken T hT ht
          rw [hheld]
          simp only [ExtCall.tokensDue, ite_self]
          omega }
    refine meets_balanceOf hcov fun after _ hafter => ?_
    simp only [checkedSub]
    by_cases hle : before ≤ after
    · simp only [if_pos hle, pure_apply, Res.bind_ret]
      refine sat_failIf_bind.mpr ⟨fun _ => trivial, fun _ => h _ _ _ ?_⟩
      exact
        { intents := hw.intents, intentNonce := hw.intentNonce, treasury := hw.treasury
          pending := hw.pending, timestamp := hw.timestamp, hashed := hw.hashed
          noZeroSolver := hw.noZeroSolver
          payments := hw.payments.trans (List.append_nil _)
          logs := hw.logs
          notSelf := fun _ => hself
          eth := by
            rw [if_neg h0, Nat.add_zero]
            exact heth
          escrow := fun T hT ht => by
            obtain ⟨delivered, hnone, hheld, hmore⟩ := htoken T hT ht
            by_cases hsame : token = T
            · subst hsame
              have hmoved := hmore rfl
              rw [hafter ht, hbefore ht, if_pos rfl]
              omega
            · rw [hheld, hnone hsame, if_neg hsame]
          range := hrange₁ }
    · simp only [if_neg hle, fail_apply, Res.bind_throw, sat_throw]

/-! ## The rest of `submitIntent` -/

/-- The circuit breaker touches its own two counters only. -/
theorem meets_countVolume {β : Type} {post : World → World → β → Prop} {s₀ w : World} {amount : Nat}
    {f : Unit → World → Res World Answer Err β}
    (h : ∀ dailyVolume lastVolumeReset,
      Meets E call post s₀ (f () { w with dailyVolume, lastVolumeReset })) :
    Meets E call post s₀ ((countVolume amount w).bind f) := by
  -- explicit equations: the kernel is slow to see this unfolding as a definitional equality
  simp -implicitDefEqProofs only [countVolume, bind_apply, read_apply, Res.bind_ret,
    Res.bind_assoc]
  generalize VOLUME_WINDOW = window
  refine meets_checkedAdd fun _ => ?_
  split <;>
  · simp only [bind_apply, update_apply, read_apply, Res.bind_ret, Res.bind_assoc]
    refine meets_checkedAdd fun _ => ?_
    split
    · exact sat_throw.mpr trivial
    · exact h _ _

/-- The packed string determines the nonce. -/
theorem encodePacked_nonce {s s' : Address} {n n' t t' : Nat} (hn : n < 2 ^ 256)
    (hn' : n' < 2 ^ 256) (h : encodePacked s n t = encodePacked s' n' t') : n = n' := by
  obtain ⟨-, hrest⟩ := Bytes.beBytes_append_inj (by have := s.isLt; omega)
    (by have := s'.isLt; omega) h
  exact (Bytes.beBytes_append_inj (by omega) (by omega) hrest).1

/-- The id of a new intent names no existing record. -/
theorem fresh_id {w : World} {sender : Address} (h : Kept E w)
    (hnonce : w.intentNonce < 2 ^ 256)
    (hfree : E.collisionFree (w.hashed ++ [encodePacked sender w.intentNonce w.timestamp])) :
    (w.intents (E.keccak256 (encodePacked sender w.intentNonce w.timestamp))).owner = 0 := by
  by_contra howner
  obtain ⟨x, hx, hhash⟩ := h.origin _ howner
  have hsame := hfree x (List.mem_append_left _ hx) _ (List.mem_append_right _ List.mem_cons_self)
    hhash
  obtain ⟨s, n, t, hpacked, hlt⟩ := h.nonces x hx
  have heq : n = w.intentNonce := encodePacked_nonce (hlt.trans hnonce) hnonce (hpacked ▸ hsame)
  exact absurd heq (Nat.ne_of_lt hlt)

/-- From `w`, the record `i` was created under a hashed id, and nothing was paid, posted or
forfeited. -/
structure Creates (E : Env) (sender : Address) (i : Intent) (w w' : World) : Prop where
  intents : w'.intents =
    Function.update w.intents (E.keccak256 (encodePacked sender w.intentNonce w.timestamp)) i
  intentNonce : w'.intentNonce = w.intentNonce + 1
  nonceRange : w.intentNonce + 1 ≤ maxUint256
  treasury : w'.treasury = w.treasury
  pending : w'.pendingTreasuryWithdrawals = w.pendingTreasuryWithdrawals
  timestamp : w'.timestamp = w.timestamp
  hashed : w'.hashed = w.hashed ++ [encodePacked sender w.intentNonce w.timestamp]
  noZeroSolver : w'.approvedSolvers 0 = false
  payments : w'.payments = w.payments
  logs : w.logs <+: w'.logs
  posted : ∀ j, posted j w'.logs = posted j w.logs
  forfeited : ∀ j, forfeited j w'.logs = forfeited j w.logs
  total : totalForfeited w'.logs = totalForfeited w.logs
  created : createdIds w'.logs = createdIds w.logs ++
    [E.keccak256 (encodePacked sender w.intentNonce w.timestamp)]

section creates

variable {sender : Address} {i : Intent} {w w' : World}

/-- The new id is not in use. -/
theorem Creates.fresh (h : Creates E sender i w w') (hk : Kept E w)
    (hfree : E.collisionFree w'.hashed) :
    (w.intents (E.keccak256 (encodePacked sender w.intentNonce w.timestamp))).owner = 0 := by
  have hnonce := h.nonceRange
  exact fresh_id hk (by simp only [maxUint256] at hnonce; omega) (h.hashed ▸ hfree)

theorem Creates.evolves (h : Creates E sender i w w') (hk : Kept E w)
    (hfree : E.collisionFree w'.hashed) : Evolves w w' where
  timestamp := h.timestamp.ge
  treasury := h.treasury
  intents j hj := by
    have hne : j ≠ E.keccak256 (encodePacked sender w.intentNonce w.timestamp) := fun heq =>
      hj (heq ▸ h.fresh hk hfree)
    rw [h.intents, Function.update_of_ne hne]
    exact .refl _
  payments := h.payments ▸ List.prefix_refl _
  logs := h.logs

theorem Creates.kept (h : Creates E sender i w w') (hk : Kept E w)
    (hfree : E.collisionFree w'.hashed) (howner : i.owner ≠ 0) (hself : i.owner ≠ E.self)
    (htoken : i.tokenAddress ≠ 0 → i.tokenAddress ≠ E.self) (hstatus : i.status = .Pending)
    (hsolver : i.solver = 0) (hcollateral : i.collateralPosted = 0) : Kept E w' := by
  have hempty := hk.unowned _ (h.fresh hk hfree)
  have hnew : w'.intents (E.keccak256 (encodePacked sender w.intentNonce w.timestamp)) = i := by
    rw [h.intents, Function.update_self]
  have hold : ∀ j, j ≠ E.keccak256 (encodePacked sender w.intentNonce w.timestamp) →
      w'.intents j = w.intents j := fun j hj => by
    rw [h.intents, Function.update_of_ne hj]
  exact
    { treasury_ne := h.treasury ▸ hk.treasury_ne
      noZeroSolver := h.noZeroSolver
      unowned := fun j hj => by
        by_cases hid : j = E.keccak256 (encodePacked sender w.intentNonce w.timestamp)
        · rw [hid, hnew] at hj
          exact absurd hj howner
        · rw [hold j hid] at hj ⊢
          exact hk.unowned j hj
      parties := fun j hj => by
        by_cases hid : j = E.keccak256 (encodePacked sender w.intentNonce w.timestamp)
        · rw [hid, hnew]
          exact ⟨hself, htoken⟩
        · rw [hold j hid] at hj ⊢
          exact hk.parties j hj
      origin := fun j hj => by
        rw [h.hashed]
        by_cases hid : j = E.keccak256 (encodePacked sender w.intentNonce w.timestamp)
        · exact ⟨_, List.mem_append_right _ List.mem_cons_self, hid.symm⟩
        · rw [hold j hid] at hj
          obtain ⟨x, hx, hhash⟩ := hk.origin j hj
          exact ⟨x, List.mem_append_left _ hx, hhash⟩
      nonces := fun x hx => by
        rw [h.hashed] at hx
        rw [h.intentNonce]
        rcases List.mem_append.mp hx with hx | hx
        · obtain ⟨s, n, t, hpacked, hlt⟩ := hk.nonces x hx
          exact ⟨s, n, t, hpacked, Nat.lt_succ_of_lt hlt⟩
        · exact ⟨_, _, _, List.mem_singleton.mp hx, Nat.lt_succ_self _⟩
      nonceRange := h.intentNonce ▸ h.nonceRange
      created := fun j => by
        rw [h.created, List.mem_append, List.mem_singleton, ← hk.created j]
        by_cases hid : j = E.keccak256 (encodePacked sender w.intentNonce w.timestamp)
        · rw [hid, hnew]
          exact ⟨fun _ => .inr rfl, fun _ => howner⟩
        · rw [hold j hid]
          exact ⟨.inl, fun hor => hor.resolve_right hid⟩
      createdOnce := by
        rw [h.created]
        refine hk.createdOnce.append (List.nodup_singleton _) fun j hj hnew' => ?_
        rw [List.mem_singleton.mp hnew', ← hk.created] at hj
        exact hj (h.fresh hk hfree)
      accounted := fun j => by
        rw [h.timestamp, h.posted, h.payments, h.forfeited]
        have hacc := hk.accounted j
        by_cases hid : j = E.keccak256 (encodePacked sender w.intentNonce w.timestamp)
        · subst hid
          rw [hempty] at hacc
          rw [hnew]
          simp only [Intent.Accounted, Intent.empty, if_true, true_implies] at hacc
          simp only [Intent.Accounted, hstatus, hsolver, if_true, true_implies]
          exact ⟨hacc.1, hcollateral, hacc.2.2.1, hacc.2.2.2⟩
        · rw [hold j hid]
          exact hacc
      onlyTreasury := fun a ha => by
        rw [h.treasury] at ha
        rw [h.pending]
        exact hk.onlyTreasury a ha
      credit := by
        rw [h.treasury, h.pending, h.payments, h.total]
        exact hk.credit }

end creates

/-- The world a submission ends in. -/
def created (E : Env) (w : World) (sender : Address) (i : Intent) (dailyVolume lastVolumeReset : Nat)
    (log : Log) : World :=
  { w with
    intents := Function.update w.intents
      (E.keccak256 (encodePacked sender w.intentNonce w.timestamp)) i
    intentNonce := w.intentNonce + 1
    hashed := w.hashed ++ [encodePacked sender w.intentNonce w.timestamp]
    dailyVolume, lastVolumeReset
    entered := false
    logs := w.logs ++ [log] }

theorem Pulled.creates {w w₁ : World} {token : Address} {amount : Nat}
    (h : Pulled E token amount w w₁) (hk : Kept E w) (sender : Address) (i : Intent)
    (dailyVolume lastVolumeReset : Nat) (log : Log)
    (hnonce : w₁.intentNonce + 1 ≤ maxUint256) (hposted : ∀ j, log.posted? j = none)
    (hforfeited : ∀ j, log.forfeited? j = none) (hforfeit : log.forfeit = 0)
    (hcreated : log.created? = some (E.keccak256 (encodePacked sender w₁.intentNonce w₁.timestamp))) :
    Creates E sender i w (created E w₁ sender i dailyVolume lastVolumeReset log) := by
  obtain ⟨admin, hlogs, hadmin⟩ := h.logs
  exact
    { intents := by
        simp only [created]
        rw [h.intents, h.intentNonce, h.timestamp]
      intentNonce := by
        simp only [created]
        rw [h.intentNonce]
      nonceRange := h.intentNonce ▸ hnonce
      treasury := h.treasury
      pending := h.pending
      timestamp := h.timestamp
      hashed := by
        simp only [created]
        rw [h.hashed, h.intentNonce, h.timestamp]
      noZeroSolver := h.noZeroSolver hk.noZeroSolver
      payments := h.payments
      logs := by
        simp only [created]
        rw [hlogs, List.append_assoc]
        exact List.prefix_append _ _
      posted := fun j => by
        rw [created, hlogs, posted_append, posted_append, (admin_history hadmin j).1,
          posted_singleton, hposted, Option.toList_none, List.append_nil, List.append_nil]
      forfeited := fun j => by
        rw [created, hlogs, forfeited_append, forfeited_append, (admin_history hadmin j).2.1,
          forfeited_singleton, hforfeited, Option.toList_none, List.append_nil, List.append_nil]
      total := by
        rw [created, hlogs, totalForfeited_append, totalForfeited_append,
          (admin_history hadmin 0).2.2.1, totalForfeited_singleton, hforfeit, Nat.add_zero]
      created := by
        rw [created, hlogs, createdIds_append, createdIds_append,
          (admin_history hadmin 0).2.2.2, createdIds_singleton, hcreated, h.intentNonce,
          h.timestamp, Option.toList_some, List.append_nil] }

/-- Booking the escrow takes up what arrived. -/
theorem Pulled.keeps_solvent {w w₁ : World} {token : Address} {amount : Nat}
    (h : Pulled E token amount w w₁) {sender : Address} {i : Intent}
    {dailyVolume lastVolumeReset : Nat} {log : Log}
    (hempty : w₁.intents (E.keccak256 (encodePacked sender w₁.intentNonce w₁.timestamp)) = .empty)
    (hamount : i.amount = amount) (htoken : i.tokenAddress = token) (hstatus : i.status = .Pending)
    (hcollateral : i.collateralPosted = 0) :
    Solvent E 0 (created E w₁ sender i dailyVolume lastVolumeReset log) := by
  have hescrow : ∀ T, i.escrowIn T = if token = T then amount else 0 := fun T => by
    simp only [Intent.escrowIn, hstatus, htoken, hamount, true_and]
  have howed : ∀ T, tokenOwed T (created E w₁ sender i dailyVolume lastVolumeReset log).intents =
      tokenOwed T w₁.intents + if token = T then amount else 0 := fun T => by
    have hupdate := tokenOwed_update T w₁.intents
      (E.keccak256 (encodePacked sender w₁.intentNonce w₁.timestamp)) i
    rw [hempty, Intent.escrowIn_empty, hescrow, Nat.add_zero] at hupdate
    exact hupdate
  have hheld : collateralHeld (created E w₁ sender i dailyVolume lastVolumeReset log).intents =
      collateralHeld w₁.intents := by
    have hupdate := collateralHeld_update w₁.intents
      (E.keccak256 (encodePacked sender w₁.intentNonce w₁.timestamp)) i
    rw [hempty, Intent.collateralPosted_empty, hcollateral, Nat.add_zero, Nat.add_zero] at hupdate
    exact hupdate
  refine ⟨?_, fun T h0 hT => ?_⟩
  · have heth := h.eth
    simp only [ethOwed, howed 0, hheld] at heth ⊢
    simp only [created]
    generalize (if token = 0 then amount else 0) = arrived at heth ⊢
    omega
  · rw [howed T, Nat.add_right_comm]
    exact h.escrow T h0 hT

/-- The ETH a call brings is extra until it is booked. -/
theorem Solvent.bring {w : World} (h : Solvent E 0 w) (value : Nat) :
    Solvent E value { w with balance := w.balance + value, entered := true } where
  eth := by
    have hbal := h.eth
    simp only [ethOwed] at hbal ⊢
    omega
  token := h.token

theorem meets_submitIntent {w : World} {msg : Msg} {tokenAddress : Address} {amount : Nat}
    {destinationWallet : Bytes32} {destinationChainId expiry : UInt64} {slippageBps : UInt16}
    (h : Idle E w) (hsender : msg.sender ≠ 0) (hself : msg.sender ≠ E.self)
    (hrange : w.balance + msg.value < 2 ^ 256) (s₀ : World) :
    Meets E call (Completes E w) s₀
      ((submitIntent E msg tokenAddress amount destinationWallet destinationChainId expiry
        slippageBps { w with balance := w.balance + msg.value }).bind fun _ s => .ret s ()) := by
  simp only [submitIntent, whenNotPaused, bind_apply, read_apply, Res.bind_ret, Res.bind_assoc]
  refine sat_failIf_bind.mpr ⟨fun _ => trivial, fun _ => ?_⟩
  refine meets_nonReentrant fun _ => ?_
  rw [bind_apply]
  refine sat_failIf_bind.mpr ⟨fun _ => trivial, fun _ => ?_⟩
  refine sat_failIf_bind.mpr ⟨fun _ => trivial, fun _ => ?_⟩
  refine meets_pullEscrow (h.solvent.bring msg.value) rfl hrange fun s₁ w₁ amount' hp => ?_
  refine meets_countVolume fun dailyVolume lastVolumeReset => ?_
  simp only [bind_apply, read_apply, Res.bind_ret]
  refine meets_checkedAdd fun hnonce => ?_
  refine sat_ret.mpr (sat_ret.mpr fun hfree => ?_)
  have hp : Pulled E tokenAddress amount' w w₁ := { hp with }
  have hcreates := hp.creates h.kept msg.sender
    { owner := msg.sender, amount := amount', tokenAddress, destinationWallet, destinationChainId,
      expiry, slippageBps, status := .Pending, solver := 0, collateralPosted := 0,
      zkProofHash := 0, createdAt := w₁.timestamp, settledAt := 0 }
    dailyVolume lastVolumeReset
    (.IntentCreated (E.keccak256 (encodePacked msg.sender w₁.intentNonce w₁.timestamp))
      msg.sender amount' tokenAddress destinationWallet destinationChainId expiry slippageBps)
    hnonce (fun _ => rfl) (fun _ => rfl) rfl rfl
  have hempty := h.kept.unowned _ (hcreates.fresh h.kept hfree)
  refine ⟨⟨?_, ?_, rfl, hp.range⟩, hcreates.evolves h.kept hfree⟩
  · exact hcreates.kept h.kept hfree hsender hself hp.notSelf rfl rfl rfl
  · refine hp.keeps_solvent ?_ rfl rfl rfl rfl
    rw [hp.intents, hp.intentNonce, hp.timestamp]
    exact hempty

end Maat.IntentManager
