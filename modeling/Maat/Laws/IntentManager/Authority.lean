import Maat.Laws.IntentManager.Window

/-!
# Who may change an intent

`Acts` lists what a call that completes may have done to the intents, by whose right, and which
creation it has announced; a submission takes the hash of the sender, the nonce and the time for its
id, under which there was no record. Every call is run through the logic once for that
(`acts_exec`); callbacks, reverts and the outside add nothing (`step_acts`), since whatever they
could do to an intent is behind the lock.
-/

namespace Maat.IntentManager

open Resumption Resumption.Prog

variable {E : Env} {call : Call} {msg : Msg} {w₀ : World} {f : Bytes32 → Intent}

/-- The record that `submitIntent` writes. -/
def Intent.created (owner : Address) (amount : Nat) (tokenAddress : Address)
    (destinationWallet : Bytes32) (destinationChainId expiry : UInt64) (slippageBps : UInt16)
    (createdAt : Nat) : Intent :=
  { Intent.empty with
    owner, amount, tokenAddress, destinationWallet, destinationChainId, expiry, slippageBps,
    createdAt }

/-- A solver takes the intent on. -/
def Intent.held (intent : Intent) (solver : Address) (collateral : Nat) : Intent :=
  { intent with solver, collateralPosted := collateral }

def Intent.settled (intent : Intent) (zkProofHash : Bytes32) (settledAt : Nat) : Intent :=
  { intent with status := .Settled, zkProofHash, settledAt, collateralPosted := 0 }

/-- Closed without a proof. -/
def Intent.ended (intent : Intent) (status : IntentStatus) (collateralPosted : Nat) : Intent :=
  { intent with status, collateralPosted }

/-- The creations announced so far. -/
def World.creations (w : World) : List Log := w.logs.filter fun log => log.created?.isSome

/-- From `w`, a call by `msg.sender` may leave these intents and creations. -/
inductive Acts (E : Env) (w : World) (msg : Msg) :
    Call → (Bytes32 → Intent) → List Log → Prop where
  | submits {id : Bytes32} {tokenAddress : Address} {asked amount : Nat} {wallet : Bytes32}
      {chainId expiry : UInt64} {slippageBps : UInt16}
      (hid : id = E.keccak256 (encodePacked msg.sender w.intentNonce w.timestamp))
      (hfresh : w.intents id = .empty) (hrunning : w.paused = false)
      (hexpiry : w.timestamp < expiry.toNat) (hasked : asked ≠ 0) (hamount : amount ≠ 0)
      (hfits : amount ≤ maxUint256) (hnative : tokenAddress = 0 → amount = asked)
      (hvalue : msg.value = if tokenAddress = 0 then asked else 0) :
      Acts E w msg (.submitIntent tokenAddress asked wallet chainId expiry slippageBps)
        (Function.update w.intents id (.created msg.sender amount tokenAddress wallet chainId
          expiry slippageBps w.timestamp))
        (w.creations ++ [.IntentCreated id msg.sender amount tokenAddress wallet chainId expiry
          slippageBps])
  | posts {id : Bytes32} (hrunning : w.paused = false)
      (happroved : w.approvedSolvers msg.sender = true) (howner : (w.intents id).owner ≠ 0)
      (hfree : (w.intents id).solver = 0) (hexpiry : w.timestamp < (w.intents id).expiry.toNat)
      (hvalue : msg.value = (w.intents id).amount * COLLATERAL_RATIO / 100) :
      Acts E w msg (.postCollateral id)
        (Function.update w.intents id ((w.intents id).held msg.sender msg.value)) w.creations
  | confirms {id proof : Bytes32} (hsender : msg.sender = w.orchestrator)
      (hpending : (w.intents id).status = .Pending) (hsolver : (w.intents id).solver ≠ 0) :
      Acts E w msg (.confirmSettlement id proof)
        (Function.update w.intents id ((w.intents id).settled proof w.timestamp)) w.creations
  | slashes {id : Bytes32} (hsender : msg.sender = w.orchestrator)
      (hpending : (w.intents id).status = .Pending) (hsolver : (w.intents id).solver ≠ 0)
      (hexpiry : (w.intents id).expiry.toNat ≤ w.timestamp) :
      Acts E w msg (.slashSolver id)
        (Function.update w.intents id ((w.intents id).ended .Slashed 0)) w.creations
  | cancels {id : Bytes32} (hsender : msg.sender = (w.intents id).owner)
      (hpending : (w.intents id).status = .Pending) (hsolver : (w.intents id).solver = 0)
      (hexpiry : (w.intents id).expiry.toNat ≤ w.timestamp) :
      Acts E w msg (.cancelIntent id) (Function.update w.intents id
        ((w.intents id).ended .Expired (w.intents id).collateralPosted)) w.creations
  | refunds {id : Bytes32} (hsender : msg.sender = (w.intents id).owner)
      (hpending : (w.intents id).status = .Pending) (hsolver : (w.intents id).solver ≠ 0)
      (hexpiry : (w.intents id).expiry.toNat + REFUND_GRACE ≤ w.timestamp) :
      Acts E w msg (.claimRefund id)
        (Function.update w.intents id ((w.intents id).ended .Refunded 0)) w.creations
  | leaves {call : Call} (hcall : call.isAdmin = true ∨ call = .withdrawTreasury) :
      Acts E w msg call w.intents w.creations

/-! ## What leaves the records alone -/

theorem World.creations_append {w w' : World} {logs : List Log}
    (h : w'.logs = w.logs ++ logs) :
    w'.creations = w.creations ++ logs.filter fun log => log.created?.isSome := by
  simp only [World.creations, h, List.filter_append]

/-- A line that announces no creation. -/
theorem World.creations_line {w w' : World} {log : Log} (hlog : log.created? = none)
    (h : w'.logs = w.logs ++ [log]) : w'.creations = w.creations := by
  simp [World.creations_append h, hlog]

/-- The intents are `f`, and since `w₀` no time has passed and nothing was created. -/
structure Records (w₀ : World) (f : Bytes32 → Intent) (w : World) : Prop where
  intents : w.intents = f
  intentNonce : w.intentNonce = w₀.intentNonce
  timestamp : w.timestamp = w₀.timestamp
  hashed : w.hashed = w₀.hashed
  creations : w.creations = w₀.creations

/-- Books may be kept: the treasury's credits and the lock are none of the records. -/
theorem records_update {g : World → World} (h : ∀ w, Records w w.intents (g w)) :
    Keeps (Records w₀ f) (update g : Tx Unit) :=
  keeps_update fun w hw =>
    { intents := (h w).intents.trans hw.intents
      intentNonce := (h w).intentNonce.trans hw.intentNonce
      timestamp := (h w).timestamp.trans hw.timestamp
      hashed := (h w).hashed.trans hw.hashed
      creations := (h w).creations.trans hw.creations }

theorem records_emit {log : Log} (hlog : log.created? = none) : Keeps (Records w₀ f) (emit log) :=
  records_update fun _ => ⟨rfl, rfl, rfl, rfl, World.creations_line hlog rfl⟩

theorem Records.administers {w w' : World} (hw : Records w₀ f w) (h : Administers w w') :
    Records w₀ f w' where
  intents := h.intents.trans hw.intents
  intentNonce := h.intentNonce.trans hw.intentNonce
  timestamp := h.timestamp.trans hw.timestamp
  hashed := h.hashed.trans hw.hashed
  creations := by
    obtain ⟨logs, hlogs, hadmin⟩ := h.logs
    have hnone : logs.filter (fun log => log.created?.isSome) = [] := by
      apply List.filter_eq_nil_iff.mpr
      intro log hlog
      have := hadmin log hlog
      cases log <;> simp_all [Log.isAdmin, Log.created?]
    rw [World.creations_append hlogs, hnone, List.append_nil, hw.creations]

theorem records_checkedAdd (a b : Nat) : Keeps (Records w₀ f) (checkedAdd a b) :=
  keeps_ite (keeps_pure _) (keeps_fail _)

theorem records_sendEth (recipient : Address) (value : Nat) :
    Keeps (Records w₀ f) (sendEth recipient value) :=
  keeps_bind (keeps_ask _) fun _ => keeps_failIf _ _

theorem records_releaseFunds (recipient : Address) (amount : Nat) (token : Address) :
    Keeps (Records w₀ f) (releaseFunds recipient amount token) :=
  keeps_ite (records_sendEth _ _) (keeps_bind (keeps_ask _) fun _ => keeps_failIf _ _)

theorem records_creditTreasury (collateral : Nat) :
    Keeps (Records w₀ f) (creditTreasury collateral) :=
  keeps_bind keeps_read fun _ => keeps_bind (records_checkedAdd _ _) fun _ =>
    records_update fun _ => ⟨rfl, rfl, rfl, rfl, rfl⟩

theorem records_balanceOf (token : Address) : Keeps (Records w₀ f) (balanceOf token) := by
  apply keeps_bind (keeps_ask _)
  intro answer
  cases answer with
  | none => exact keeps_fail _
  | some balance => exact keeps_pure _

/-- The amount that a submission escrows: what was asked of native ETH, what arrived of a
token. -/
structure Escrowed (msg : Msg) (token : Address) (asked amount : Nat) : Prop where
  amount_ne : amount ≠ 0
  native : token = 0 → amount = asked
  value : msg.value = if token = 0 then asked else 0

theorem records_pullEscrow (msg : Msg) (token : Address) {asked : Nat} (hasked : asked ≠ 0)
    {w : World} (hw : Records w₀ f w) (s₀ : World) :
    Sat (keeping (Records w₀ f))
      (fun _ s amount => Records w₀ f s ∧ Escrowed msg token asked amount)
      (fun _ _ _ => True) s₀ (pullEscrow msg token asked w) := by
  unfold pullEscrow
  split
  · next hnative =>
    refine sat_failIf_bind.mpr ⟨fun _ => trivial, fun hvalue => ?_⟩
    refine sat_ret.mpr ⟨hw, hasked, fun _ => rfl, ?_⟩
    rw [if_pos hnative]
    exact not_not.mp hvalue
  · next htoken =>
    refine sat_failIf_bind.mpr ⟨fun _ => trivial, fun hvalue => ?_⟩
    refine (records_balanceOf token).sat_bind hw (fun _ _ _ => trivial) (fun before s₁ s hs => ?_) s₀
    have hpull : Keeps (Records w₀ f) (safeTransferFrom token msg.sender asked) :=
      keeps_bind (keeps_ask _) fun _ => keeps_failIf _ _
    refine hpull.sat_bind hs (fun _ _ _ => trivial) (fun _ s₁ s hs => ?_) s₁
    refine (records_balanceOf token).sat_bind hs (fun _ _ _ => trivial) (fun after s₁ s hs => ?_) s₁
    have hsub : Keeps (Records w₀ f) (checkedSub after before) :=
      keeps_ite (keeps_pure _) (keeps_fail _)
    refine hsub.sat_bind hs (fun _ _ _ => trivial) (fun amount s₁ s hs => ?_) s₁
    refine sat_failIf_bind.mpr ⟨fun _ => trivial, fun hamount => ?_⟩
    refine sat_ret.mpr ⟨hs, hamount, fun hnative => absurd hnative htoken, ?_⟩
    rw [if_neg htoken]
    exact not_not.mp hvalue

/-- What the breaker lets pass is a 256-bit number. -/
theorem countVolume_fits {w w' : World} {amount : Nat}
    (h : countVolume amount w = .ret w' ()) : amount ≤ maxUint256 := by
  simp -implicitDefEqProofs only [countVolume, bind_apply, read_apply, Res.bind_ret, checkedAdd]
    at h
  generalize VOLUME_WINDOW = window at h
  by_cases hend : w.lastVolumeReset + window ≤ maxUint256
  case neg =>
    simp -implicitDefEqProofs only [if_neg hend, fail_apply, Res.bind_throw, reduceCtorEq] at h
  simp -implicitDefEqProofs only [if_pos hend, pure_apply, Res.bind_ret] at h
  by_cases hlapsed : w.lastVolumeReset + window < w.timestamp
  · simp only [gt_iff_lt, if_pos hlapsed, bind_apply, update_apply, Res.bind_ret, read_apply,
      Nat.zero_add] at h
    by_contra hfits
    simp only [if_neg hfits, fail_apply, Res.bind_throw, reduceCtorEq] at h
  · simp only [gt_iff_lt, if_neg hlapsed, bind_apply, read_apply, Res.bind_ret] at h
    by_contra hfits
    have hover : ¬w.dailyVolume + amount ≤ maxUint256 := by omega
    simp only [if_neg hover, fail_apply, Res.bind_throw, reduceCtorEq] at h

/-! ## Each call -/

/-- The call changes the intents to `f` before it first waits, and completes by right. -/
abbrev ActsBy (E : Env) (w₀ : World) (msg : Msg) (call : Call) (f : Bytes32 → Intent) :
    World → Res World Answer Err Unit → Prop :=
  Sat (keeping (Records w₀ f))
    (fun _ w _ => E.collisionFree w.hashed →
      Acts E w₀ msg call w.intents w.creations ∧ w.timestamp = w₀.timestamp)
    fun _ _ _ => True

theorem acts_of_keeps {p : Tx Unit} (h : Keeps (Records w₀ f) p)
    (hacts : Acts E w₀ msg call f w₀.creations) {w : World} (hw : Records w₀ f w) (s₀ : World) :
    ActsBy E w₀ msg call f s₀ (p w) := by
  refine (h w hw).start.mono ?_ fun _ _ _ _ => trivial
  intro s₁ s _ hs _
  rw [hs.intents, hs.creations]
  exact ⟨hacts, hs.timestamp⟩

theorem acts_nonReentrant {body : Tx Unit} {w s₀ : World}
    (h : ActsBy E w₀ msg call f s₀ (body { w with entered := true })) :
    ActsBy E w₀ msg call f s₀ (nonReentrant body w) := by
  simp only [nonReentrant, bind_apply, read_apply, Res.bind_ret]
  refine sat_failIf_bind.mpr ⟨fun _ => trivial, fun _ => ?_⟩
  simp only [bind_apply, update_apply, Res.bind_ret]
  refine sat_bind.mpr (h.mono ?_ fun _ _ _ h => h)
  intro s₁ s _ hs
  exact sat_ret.mpr hs

theorem acts_nonPayable {body : Tx Unit} {w s₀ : World} (h : ActsBy E w₀ msg call f s₀ (body w)) :
    ActsBy E w₀ msg call f s₀ (nonPayable msg body w) :=
  sat_failIf_bind.mpr ⟨fun _ => trivial, fun _ => h⟩

/-- A world in which a call begins: `w` with the call's ETH. -/
abbrev World.entering (w : World) (value : Nat) : World := { w with balance := w.balance + value }

theorem acts_postCollateral (w : World) (id : Bytes32) (value : Nat) (s₀ : World) :
    ActsBy E w msg (.postCollateral id) w.intents s₀ (postCollateral msg id (w.entering value)) := by
  simp only [postCollateral, whenNotPaused, bind_apply, read_apply, Res.bind_ret]
  refine sat_failIf_bind.mpr ⟨fun _ => trivial, fun hrunning => acts_nonReentrant ?_⟩
  simp only [bind_apply, read_apply, Res.bind_ret]
  refine sat_failIf_bind.mpr ⟨fun _ => trivial, fun happroved => ?_⟩
  refine sat_failIf_bind.mpr ⟨fun _ => trivial, fun howner => ?_⟩
  refine sat_failIf_bind.mpr ⟨fun _ => trivial, fun hfree => ?_⟩
  refine sat_failIf_bind.mpr ⟨fun _ => trivial, fun hexpiry => ?_⟩
  simp only [bind_apply, checkedMul]
  split
  case isFalse => exact sat_throw.mpr trivial
  simp only [pure_apply, Res.bind_ret, bind_apply]
  refine sat_failIf_bind.mpr ⟨fun _ => trivial, fun hvalue => ?_⟩
  refine sat_ret.mpr fun _ => ⟨?_, rfl⟩
  rw [World.creations_line (w := w) rfl rfl]
  refine .posts ?_ ?_ howner (not_not.mp hfree) (Nat.lt_of_not_le hexpiry) (not_not.mp hvalue)
  · exact Bool.eq_false_iff.mpr hrunning
  · exact Bool.eq_true_of_not_eq_false happroved

/-- Paying out and closing the books leaves the new records. -/
theorem acts_pays {p : Tx Unit} {w : World} {id : Bytes32} {i' : Intent}
    (hacts : Acts E w msg call (Function.update w.intents id i') w.creations)
    (hp : Keeps (Records w (Function.update w.intents id i')) p) (balance : Nat) (s₀ : World) :
    ActsBy E w msg call (Function.update w.intents id i') s₀
      ((setIntent id i' >>= fun _ => p) { w with balance, entered := true }) := by
  simp only [setIntent, bind_apply, update_apply, Res.bind_ret]
  refine acts_of_keeps hp hacts ?_ s₀
  exact ⟨rfl, rfl, rfl, rfl, rfl⟩

theorem acts_confirmSettlement (w : World) (id proof : Bytes32) (value : Nat) (s₀ : World) :
    ActsBy E w msg (.confirmSettlement id proof)
      (Function.update w.intents id ((w.intents id).settled proof w.timestamp)) s₀
      (confirmSettlement msg id proof (w.entering value)) := by
  simp only [confirmSettlement, onlyOrchestrator, bind_apply, read_apply, Res.bind_ret]
  refine sat_failIf_bind.mpr ⟨fun _ => trivial, fun hsender => acts_nonReentrant ?_⟩
  simp only [bind_apply, read_apply, Res.bind_ret]
  refine sat_failIf_bind.mpr ⟨fun _ => trivial, fun hpending => ?_⟩
  refine sat_failIf_bind.mpr ⟨fun _ => trivial, fun hsolver => ?_⟩
  refine acts_pays (.confirms (not_not.mp hsender) (not_not.mp hpending) hsolver) ?_ _ s₀
  refine keeps_bind (records_releaseFunds _ _ _) fun _ => keeps_bind (records_sendEth _ _) fun _ => ?_
  exact keeps_bind (records_emit rfl) fun _ => records_emit rfl

theorem acts_slashSolver (w : World) (id : Bytes32) (value : Nat) (s₀ : World) :
    ActsBy E w msg (.slashSolver id)
      (Function.update w.intents id ((w.intents id).ended .Slashed 0)) s₀
      (slashSolver msg id (w.entering value)) := by
  simp only [slashSolver, onlyOrchestrator, bind_apply, read_apply, Res.bind_ret]
  refine sat_failIf_bind.mpr ⟨fun _ => trivial, fun hsender => acts_nonReentrant ?_⟩
  simp only [bind_apply, read_apply, Res.bind_ret]
  refine sat_failIf_bind.mpr ⟨fun _ => trivial, fun hpending => ?_⟩
  refine sat_failIf_bind.mpr ⟨fun _ => trivial, fun hexpiry => ?_⟩
  refine sat_failIf_bind.mpr ⟨fun _ => trivial, fun hsolver => ?_⟩
  refine acts_pays (.slashes (not_not.mp hsender) (not_not.mp hpending) hsolver
    (Nat.le_of_not_lt hexpiry)) ?_ _ s₀
  refine keeps_bind (records_releaseFunds _ _ _) fun _ => ?_
  exact keeps_bind (records_creditTreasury _) fun _ => records_emit rfl

theorem acts_cancelIntent (w : World) (id : Bytes32) (value : Nat) (s₀ : World) :
    ActsBy E w msg (.cancelIntent id) (Function.update w.intents id
        ((w.intents id).ended .Expired (w.intents id).collateralPosted)) s₀
      (cancelIntent msg id (w.entering value)) := by
  refine acts_nonReentrant ?_
  simp only [bind_apply, read_apply, Res.bind_ret]
  refine sat_failIf_bind.mpr ⟨fun _ => trivial, fun hsender => ?_⟩
  refine sat_failIf_bind.mpr ⟨fun _ => trivial, fun hpending => ?_⟩
  refine sat_failIf_bind.mpr ⟨fun _ => trivial, fun hexpiry => ?_⟩
  refine sat_failIf_bind.mpr ⟨fun _ => trivial, fun hsolver => ?_⟩
  refine acts_pays (.cancels (not_not.mp hsender).symm (not_not.mp hpending) (not_not.mp hsolver)
    (Nat.le_of_not_lt hexpiry)) ?_ _ s₀
  exact keeps_bind (records_releaseFunds _ _ _) fun _ => records_emit rfl

theorem acts_claimRefund (w : World) (id : Bytes32) (value : Nat) (s₀ : World) :
    ActsBy E w msg (.claimRefund id)
      (Function.update w.intents id ((w.intents id).ended .Refunded 0)) s₀
      (claimRefund msg id (w.entering value)) := by
  refine acts_nonReentrant ?_
  simp only [bind_apply, read_apply, Res.bind_ret]
  refine sat_failIf_bind.mpr ⟨fun _ => trivial, fun hsender => ?_⟩
  refine sat_failIf_bind.mpr ⟨fun _ => trivial, fun hpending => ?_⟩
  refine sat_failIf_bind.mpr ⟨fun _ => trivial, fun hsolver => ?_⟩
  rw [bind_apply]
  refine sat_checkedAdd_bind.mpr ⟨fun _ => ?_, fun _ => trivial⟩
  refine sat_failIf_bind.mpr ⟨fun _ => trivial, fun hgrace => ?_⟩
  refine acts_pays (.refunds (not_not.mp hsender).symm (not_not.mp hpending) hsolver
    (Nat.le_of_not_lt hgrace)) ?_ _ s₀
  refine keeps_bind (records_releaseFunds _ _ _) fun _ => ?_
  exact keeps_bind (records_creditTreasury _) fun _ => records_emit rfl

theorem acts_submitIntent {w : World} (hkept : Kept E w) (token : Address) (asked : Nat)
    (wallet : Bytes32) (chainId expiry : UInt64) (slippageBps : UInt16) (value : Nat) (s₀ : World) :
    ActsBy E w msg (.submitIntent token asked wallet chainId expiry slippageBps) w.intents s₀
      (exec E msg (.submitIntent token asked wallet chainId expiry slippageBps)
        (w.entering value)) := by
  simp only [exec, submitIntent, whenNotPaused, bind_apply, read_apply, Res.bind_ret,
    Res.bind_assoc]
  refine sat_failIf_bind.mpr ⟨fun _ => trivial, fun hrunning => ?_⟩
  simp only [nonReentrant, bind_apply, read_apply, Res.bind_ret, Res.bind_assoc]
  refine sat_failIf_bind.mpr ⟨fun _ => trivial, fun _ => ?_⟩
  simp only [update_apply, Res.bind_ret]
  refine sat_failIf_bind.mpr ⟨fun _ => trivial, fun hasked => ?_⟩
  refine sat_failIf_bind.mpr ⟨fun _ => trivial, fun hexpiry => ?_⟩
  have hlocked : Records w w.intents { w.entering value with entered := true } :=
    ⟨rfl, rfl, rfl, rfl, rfl⟩
  refine sat_bind.mpr ((records_pullEscrow msg token hasked hlocked s₀).mono ?_
    fun _ _ _ _ => trivial)
  rintro s₁ s amount ⟨hs, hescrowed⟩
  rcases countVolume_cases s amount with
    ⟨w', e, hthrow⟩ | ⟨dailyVolume, lastVolumeReset, hcount, -⟩
  · rw [hthrow]
    exact sat_throw.mpr trivial
  rw [hcount, Res.bind_ret]
  refine sat_checkedAdd_bind.mpr ⟨fun hnonce => ?_, fun _ => trivial⟩
  simp only [pure_apply, Res.bind_ret, update_apply, emit]
  refine sat_ret.mpr fun hfree => ⟨?_, hs.timestamp⟩
  -- the nonce is new, and so is its hash
  have hnext : w.intentNonce < 2 ^ 256 := by
    simp only [maxUint256, hs.intentNonce] at hnonce
    omega
  have hcollisionFree :
      E.collisionFree (w.hashed ++ [encodePacked msg.sender w.intentNonce w.timestamp]) := by
    rw [← hs.hashed, ← hs.intentNonce, ← hs.timestamp]
    exact hfree
  have howner := fresh_id hkept hnext hcollisionFree
  have hacts : Acts E w msg (.submitIntent token asked wallet chainId expiry slippageBps) _ _ :=
    .submits rfl (hkept.unowned _ howner) (Bool.eq_false_iff.mpr hrunning)
      (Nat.lt_of_not_le hexpiry) hasked hescrowed.amount_ne (countVolume_fits hcount)
      hescrowed.native hescrowed.value
  rw [← hs.intents, ← hs.timestamp, ← hs.creations, ← hs.intentNonce] at hacts
  rw [World.creations_append (w := s) rfl]
  exact hacts

theorem acts_withdrawTreasury (w : World) (value : Nat) (s₀ : World) :
    ActsBy E w msg .withdrawTreasury w.intents s₀ (withdrawTreasury msg (w.entering value)) := by
  refine acts_nonReentrant (acts_of_keeps (f := w.intents) ?_ (.leaves (.inr rfl)) ?_ s₀)
  · refine keeps_bind keeps_read fun _ => keeps_bind ?_ fun _ => records_sendEth _ _
    exact records_update fun _ => ⟨rfl, rfl, rfl, rfl, rfl⟩
  · exact ⟨rfl, rfl, rfl, rfl, rfl⟩

/-- Any call, begun while none runs. -/
theorem acts_exec {w : World} (hkept : Kept E w) (msg : Msg) (call : Call) :
    ∃ f, ∀ s₀, ActsBy E w msg call f s₀ (exec E msg call (w.entering msg.value)) := by
  cases hadmin : call.isAdmin with
  | true =>
    refine ⟨w.intents, fun s₀ => ?_⟩
    rcases exec_admin hadmin (w.entering msg.value) with ⟨w', e, hthrow⟩ | ⟨w', hret, hadm⟩
    · rw [hthrow]
      exact sat_throw.mpr trivial
    · rw [hret]
      have hsame : Records w w.intents (w.entering msg.value) := ⟨rfl, rfl, rfl, rfl, rfl⟩
      have hs := hsame.administers hadm
      refine sat_ret.mpr fun _ => ⟨?_, hs.timestamp⟩
      rw [hs.intents, hs.creations]
      exact .leaves (.inl hadmin)
  | false =>
    cases call with
    | submitIntent token asked wallet chainId expiry slippageBps =>
      exact ⟨_, acts_submitIntent hkept token asked wallet chainId expiry slippageBps msg.value⟩
    | postCollateral id => exact ⟨_, acts_postCollateral w id msg.value⟩
    | confirmSettlement id proof =>
      exact ⟨_, fun s₀ => acts_nonPayable (acts_confirmSettlement w id proof msg.value s₀)⟩
    | slashSolver id => exact ⟨_, fun s₀ => acts_nonPayable (acts_slashSolver w id msg.value s₀)⟩
    | cancelIntent id => exact ⟨_, fun s₀ => acts_nonPayable (acts_cancelIntent w id msg.value s₀)⟩
    | claimRefund id => exact ⟨_, fun s₀ => acts_nonPayable (acts_claimRefund w id msg.value s₀)⟩
    | withdrawTreasury =>
      exact ⟨_, fun s₀ => acts_nonPayable (acts_withdrawTreasury w msg.value s₀)⟩
    | _ => cases hadmin

/-! ## Steps -/

/-- A waiting call has made its change, if any, and will complete by right. -/
structure FrameActs (E : Env) (frame : Frame) (now : World) : Prop where
  sender : frame.msg.sender ≠ 0
  acts : ∃ f, Records frame.saved f now ∧ Records frame.saved f frame.asked ∧
    ∀ w answer, Records frame.saved f w →
      ActsBy E frame.saved frame.msg frame.call f w (frame.resume w answer)

def Machine.Acting (m : Machine) (E : Env) : Prop :=
  ∀ frame ∈ m.stack, FrameActs E frame m.world

/-- What one event does to the last idle world's intents: nothing, as time passes or not, or what
a call that completes may do. -/
inductive Changes (E : Env) (w w' : World) : Prop where
  | same (hintents : w'.intents = w.intents) (htime : w.timestamp ≤ w'.timestamp)
      (hcreations : w'.creations = w.creations)
  | by (msg : Msg) (call : Call) (hsender : msg.sender ≠ 0)
      (hacts : Acts E w msg call w'.intents w'.creations) (htime : w'.timestamp = w.timestamp)

/-- A call that began in `saved` stays, is gone, or completes. -/
theorem settle_acts {saved s₀ : World} {r : Res World Answer Err Unit}
    (hsender : msg.sender ≠ 0) (hr : ActsBy E saved msg call f s₀ r)
    (hfree : E.collisionFree (settle E saved msg call [] r).world.hashed) :
    (settle E saved msg call [] r).Acting E ∧
      Changes E saved (settle E saved msg call [] r).committed := by
  induction r generalizing s₀ with
  | ret s a =>
    obtain ⟨hacts, htime⟩ := sat_ret.mp hr hfree
    exact ⟨fun _ hf => absurd hf List.not_mem_nil, .by msg call hsender hacts htime⟩
  | throw s e => exact ⟨fun _ hf => absurd hf List.not_mem_nil, .same rfl (Nat.le_refl _) rfl⟩
  | ask s ext k ih =>
    obtain ⟨hs, hresume⟩ := sat_ask.mp hr
    rw [settle] at hfree ⊢
    split at hfree
    · next hreach =>
      rw [if_pos hreach]
      refine ⟨fun frame hf => ?_, .same rfl (Nat.le_refl _) rfl⟩
      obtain rfl := List.mem_singleton.mp hf
      exact ⟨hsender, f, ⟨hs.intents, hs.intentNonce, hs.timestamp, hs.hashed, hs.creations⟩, hs,
        fun w answer hw => hresume w answer hw⟩
    · next hreach =>
      rw [if_neg hreach]
      exact ih s none (hresume s none hs) hfree

/-- One event from an idle machine. -/
theorem rawStep_acts_idle {w : World} (hkept : Kept E w) {m' : Machine} {e : Event}
    (hstep : rawStep E ⟨w, []⟩ e = some m') (hfree : E.collisionFree m'.world.hashed) :
    m'.Acting E ∧ Changes E w m'.committed := by
  have hidle : ∀ w' : World, Machine.Acting ⟨w', []⟩ E := fun _ _ hf =>
    absurd hf List.not_mem_nil
  cases e with
  | call msg call =>
    simp only [rawStep] at hstep
    split at hstep
    case isFalse => cases hstep
    next hadmits =>
      simp only [Env.admits, Bool.and_eq_true, decide_eq_true_eq] at hadmits
      obtain rfl := Option.some.inj hstep
      obtain ⟨f, hf⟩ := acts_exec hkept msg call
      exact settle_acts hadmits.1.1.2 (hf w) hfree
  | reply word => cases hstep
  | fail => cases hstep
  | debit => cases hstep
  | tokenIn token amount =>
    obtain rfl := Option.some.inj hstep
    exact ⟨hidle _, .same rfl (Nat.le_refl _) rfl⟩
  | forceEth amount =>
    simp only [rawStep] at hstep
    split at hstep
    case isFalse => cases hstep
    obtain rfl := Option.some.inj hstep
    exact ⟨hidle _, .same rfl (Nat.le_refl _) rfl⟩
  | tick timestamp =>
    simp only [rawStep] at hstep
    split at hstep
    case isFalse => cases hstep
    next hcond =>
      obtain rfl := Option.some.inj hstep
      exact ⟨hidle _, .same rfl hcond.2 rfl⟩

/-- The world moved around the waiting call. -/
theorem FrameActs.move {frame frame' : Frame} {w w' : World} (h : FrameActs E frame w)
    (hsame : frame' = { frame with due := frame'.due })
    (hmoved : ∀ f, Records frame.saved f w → Records frame.saved f w') :
    Machine.Acting ⟨w', [frame']⟩ E ∧
      Changes E frame.saved (Machine.committed ⟨w', [frame']⟩) := by
  obtain ⟨hsender, f, hnow, hasked, hresume⟩ := h
  rw [hsame]
  refine ⟨fun g hg => ?_, .same rfl (Nat.le_refl _) rfl⟩
  obtain rfl := List.mem_singleton.mp hg
  exact ⟨hsender, f, hmoved f hnow, hasked, hresume⟩

/-- One event while a call waits. -/
theorem rawStep_acts_waiting {w : World} {frame : Frame} {m' : Machine} {e : Event}
    (hlocked : w.entered = true) (hf : FrameActs E frame w)
    (hstep : rawStep E ⟨w, [frame]⟩ e = some m') (hfree : E.collisionFree m'.world.hashed) :
    m'.Acting E ∧ Changes E frame.saved m'.committed := by
  obtain ⟨hsender, f, hnow, hasked, hresume⟩ := id hf
  cases e with
  | call msg call =>
    simp only [rawStep] at hstep
    split at hstep
    case isFalse => cases hstep
    obtain rfl := Option.some.inj hstep
    have hentered : ({ w with balance := w.balance + msg.value } : World).entered = true := hlocked
    rcases settle_locked E w msg call frame hentered with hback | ⟨w', hdone, -, hadmin⟩
    · rw [hback]
      exact hf.move rfl fun _ hw => hw
    · rw [hdone]
      refine hf.move rfl fun f hw => Records.administers (w := { w with
        balance := w.balance + msg.value }) ?_ hadmin
      exact ⟨hw.intents, hw.intentNonce, hw.timestamp, hw.hashed, hw.creations⟩
  | reply word =>
    simp only [rawStep] at hstep
    split at hstep
    case isFalse => cases hstep
    obtain rfl := Option.some.inj hstep
    exact settle_acts hsender (hresume w (some word) hnow) hfree
  | fail =>
    obtain rfl := Option.some.inj hstep
    exact settle_acts hsender (hresume frame.asked none hasked) hfree
  | debit =>
    simp only [rawStep] at hstep
    split at hstep
    case isFalse => cases hstep
    obtain rfl := Option.some.inj hstep
    exact hf.move rfl fun _ hw =>
      ⟨hw.intents, hw.intentNonce, hw.timestamp, hw.hashed, hw.creations⟩
  | tokenIn token amount =>
    simp only [rawStep] at hstep
    split at hstep
    case isFalse => cases hstep
    obtain rfl := Option.some.inj hstep
    exact hf.move rfl fun _ hw =>
      ⟨hw.intents, hw.intentNonce, hw.timestamp, hw.hashed, hw.creations⟩
  | forceEth amount =>
    simp only [rawStep] at hstep
    split at hstep
    case isFalse => cases hstep
    obtain rfl := Option.some.inj hstep
    exact hf.move rfl fun _ hw =>
      ⟨hw.intents, hw.intentNonce, hw.timestamp, hw.hashed, hw.creations⟩
  | tick timestamp =>
    simp only [rawStep] at hstep
    split at hstep
    case isFalse => cases hstep
    next hcond => cases hcond.1

theorem step_acts {m m' : Machine} {e : Event} (h : Inv E m) (hacting : m.Acting E)
    (hstep : step E m e = some m') : m'.Acting E ∧ Changes E m.committed m'.committed := by
  obtain ⟨hraw, hfree⟩ := Option.filter_eq_some_iff.mp hstep
  replace hfree := of_decide_eq_true hfree
  rcases h.cases with ⟨w, rfl, hidle⟩ | ⟨w, frame, rfl, hwaits⟩
  · exact rawStep_acts_idle hidle.kept hraw hfree
  · exact rawStep_acts_waiting (hwaits.waited.entered.trans hwaits.covers.entered)
      (hacting frame List.mem_cons_self) hraw hfree

/-! ## Runs -/

theorem acting_of_reachable {m : Machine} (h : Reachable E m) : m.Acting E := by
  obtain ⟨orchestrator, treasury, owner, timestamp, storage, events, hdeploy, hrun⟩ := h
  refine (Run.run_keeps (I := fun m => Inv E m ∧ m.Acting E) ?_ hrun
    ⟨inv_deployed hdeploy, fun _ hf => absurd hf List.not_mem_nil⟩).2
  rintro m e m' ⟨hinv, hacting⟩ hstep
  exact ⟨(step_inv hinv hstep).1, (step_acts hinv hacting hstep).1⟩

/-- An announced creation is on record under the terms announced. -/
def Log.OnRecord (intents : Bytes32 → Intent) : Log → Prop
  | .IntentCreated id sender amount tokenAddress wallet chainId expiry slippageBps =>
    sender ≠ 0 ∧ amount ≤ maxUint256 ∧ ∃ createdAt, (Intent.created sender amount tokenAddress
      wallet chainId expiry slippageBps createdAt).Evolves (intents id)
  | _ => True

theorem Log.OnRecord.evolves {w w' : World} (hevolves : Evolves w w') {log : Log}
    (h : log.OnRecord w.intents) : log.OnRecord w'.intents := by
  cases log with
  | IntentCreated id =>
    obtain ⟨hsender, hfits, createdAt, hcreated⟩ := h
    have howner : (w.intents id).owner ≠ 0 := hcreated.owner ▸ hsender
    exact ⟨hsender, hfits, createdAt, hcreated.trans (hevolves.intents id howner)⟩
  | _ => trivial

theorem Changes.onRecord {w w' : World} (h : Changes E w w') (hevolves : Evolves w w')
    (hw : ∀ log ∈ w.creations, log.OnRecord w.intents) :
    ∀ log ∈ w'.creations, log.OnRecord w'.intents := by
  have hold : ∀ log ∈ w.creations, log.OnRecord w'.intents := fun log hlog =>
    (hw log hlog).evolves hevolves
  cases h with
  | same _ _ hcreations => exact hcreations ▸ hold
  | «by» msg call hsender hacts _ =>
    generalize hf : w'.intents = f at hacts hold ⊢
    generalize w'.creations = creations at hacts ⊢
    cases hacts with
    | submits _ _ _ _ _ _ hfits =>
      intro log hlog
      rcases List.mem_append.mp hlog with hlog | hlog
      · exact hold log hlog
      · obtain rfl := List.mem_singleton.mp hlog
        refine ⟨hsender, hfits, w.timestamp, ?_⟩
        rw [Function.update_self]
        exact .refl _
    | _ => exact hold

/-- Every creation the contract has announced is on record, under the terms announced. -/
theorem onRecord_of_reachable {m : Machine} (h : Reachable E m) :
    ∀ log ∈ m.committed.creations, log.OnRecord m.committed.intents := by
  obtain ⟨orchestrator, treasury, owner, timestamp, storage, events, hdeploy, hrun⟩ := h
  refine (Run.run_keeps (I := fun m => (Inv E m ∧ m.Acting E) ∧
    ∀ log ∈ m.committed.creations, log.OnRecord m.committed.intents) ?_ hrun
    ⟨⟨inv_deployed hdeploy, fun _ hf => absurd hf List.not_mem_nil⟩,
      fun _ hlog => absurd hlog List.not_mem_nil⟩).2
  rintro m e m' ⟨⟨hinv, hacting⟩, hrecord⟩ hstep
  obtain ⟨hinv', hevolves⟩ := step_inv hinv hstep
  obtain ⟨hacting', hchanges⟩ := step_acts hinv hacting hstep
  exact ⟨⟨hinv', hacting'⟩, hchanges.onRecord hevolves hrecord⟩

/-- Whatever calls back into whatever, one event changes the intents of the last idle world as
one call does that is entitled to, or not at all. -/
theorem changes_by_right {m m' : Machine} {e : Event} (hreach : Reachable E m)
    (hstep : step E m e = some m') : Changes E m.committed m'.committed :=
  (step_acts (inv_of_reachable hreach) (acting_of_reachable hreach) hstep).2

/-- The sample's intent is settled by the orchestrator's call, in the event in which the solver
takes the collateral back. -/
theorem changes_by_right_sample :
    ∃ m m', Run.run (step sampleEnv) (deployed sampleStorage 1000) sampleRun.dropLast = some m ∧
      step sampleEnv m (.reply 0) = some m' ∧
      (m.committed.intents sampleId).status = .Pending ∧
      (m'.committed.intents sampleId).status = .Settled ∧
      Changes sampleEnv m.committed m'.committed := by
  have hbefore : (Run.run (step sampleEnv) (deployed sampleStorage 1000) sampleRun.dropLast).map
      (fun m => (m.committed.intents sampleId).status) = some .Pending := by decide
  have hafter : ((Run.run (step sampleEnv) (deployed sampleStorage 1000) sampleRun.dropLast).bind
      fun m => step sampleEnv m (.reply 0)).map (fun m => (m.committed.intents sampleId).status) =
      some .Settled := by decide
  obtain ⟨m, hm, hpending⟩ := Option.map_eq_some_iff.mp hbefore
  rw [hm, Option.bind_some] at hafter
  obtain ⟨m', hstep, hsettled⟩ := Option.map_eq_some_iff.mp hafter
  exact ⟨m, m', hm, hstep, hpending, hsettled, changes_by_right (sample_reachable hm) hstep⟩

end Maat.IntentManager