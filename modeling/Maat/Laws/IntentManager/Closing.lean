import Maat.Laws.IntentManager.Invariant

/-!
# The operations that close an intent

`confirmSettlement`, `slashSolver`, `cancelIntent` and `claimRefund` take a pending intent to a
closed record, release its escrow, and dispose of its collateral. `Rewrites` states what all four
come to; `Rewrites.kept` and `Rewrites.evolves` are the two things an idle world needs from it. Each
operation is then run through the logic: the escrow release (`meets_releaseFunds`) is the one
place where the outside gets control in all of them.
-/

namespace Maat.IntentManager

open Resumption Resumption.Prog

variable {E : Env} {call : Call} {id : Bytes32}

/-! ## Payments of a closing call -/

theorem paid_singleton (h : call.closes = some id) (j : Bytes32) (recipient asset : Address)
    (amount : Nat) :
    paid j [⟨call, recipient, asset, amount⟩] =
      if j = id then [(recipient, asset, amount)] else [] := by
  by_cases hj : j = id
  · simp [paid, h, hj]
  · simp [paid, h, hj, Ne.symm hj]

theorem withdrawn_singleton (h : call.closes = some id) (a recipient asset : Address)
    (amount : Nat) : withdrawn a [⟨call, recipient, asset, amount⟩] = 0 := by
  have hne : call ≠ .withdrawTreasury := by
    rintro rfl
    cases h
  simp [withdrawn, hne]

/-- A call that closes no intent adds to no intent's payments. -/
theorem paid_of_closes_none (h : call.closes = none) (j : Bytes32) (ext : ExtCall) :
    paid j (ext.payment call) = [] := by
  cases ext <;> simp [paid, ExtCall.payment, h]

/-! ## What rewriting one record comes to -/

/-- From the idle world `w`, the record of `id` became `i'`; its postings are now `po`, and it has
seen the payments `pa` and the forfeits `fo`. -/
structure Rewrites (w : World) (id : Bytes32) (i' : Intent) (po : List (Address × Nat))
    (pa : List (Address × Address × Nat)) (fo : List Nat) (w' : World) : Prop where
  intents : w'.intents = Function.update w.intents id i'
  intentNonce : w'.intentNonce = w.intentNonce
  treasury : w'.treasury = w.treasury
  hashed : w'.hashed = w.hashed
  timestamp : w'.timestamp = w.timestamp
  noZeroSolver : w'.approvedSolvers 0 = false
  pending : w'.pendingTreasuryWithdrawals =
    Function.update w.pendingTreasuryWithdrawals w.treasury
      (w.pendingTreasuryWithdrawals w.treasury + fo.sum)
  payments : w.payments <+: w'.payments
  paid : ∀ j, paid j w'.payments = paid j w.payments ++ if j = id then pa else []
  withdrawn : ∀ a, withdrawn a w'.payments = withdrawn a w.payments
  logs : w.logs <+: w'.logs
  posted : ∀ j, posted j w'.logs = if j = id then po else posted j w.logs
  forfeited : ∀ j, forfeited j w'.logs = forfeited j w.logs ++ if j = id then fo else []
  total : totalForfeited w'.logs = totalForfeited w.logs + fo.sum
  created : createdIds w'.logs = createdIds w.logs

section rewrites

variable {w w' : World} {i' : Intent} {po : List (Address × Nat)}
  {pa : List (Address × Address × Nat)} {fo : List Nat}

theorem Rewrites.evolves (h : Rewrites w id i' po pa fo w') (hi : (w.intents id).Evolves i') :
    Evolves w w' where
  timestamp := by rw [h.timestamp]
  treasury := h.treasury
  intents j _ := by
    rw [h.intents]
    by_cases hj : j = id
    · subst hj
      rw [Function.update_self]
      exact hi
    · rw [Function.update_of_ne hj]
      exact .refl _
  payments := h.payments
  logs := h.logs

theorem Rewrites.kept (h : Rewrites w id i' po pa fo w') (hk : Kept E w)
    (howner : (w.intents id).owner ≠ 0) (hpending : (w.intents id).status = .Pending)
    (hi : (w.intents id).Evolves i')
    (hacc : i'.Accounted w.timestamp po pa fo) : Kept E w' := by
  have hold := hk.accounted id
  simp only [Intent.Accounted, hpending] at hold
  have hother : ∀ j, j ≠ id → w'.intents j = w.intents j := fun j hj => by
    rw [h.intents, Function.update_of_ne hj]
  have hself : w'.intents id = i' := by rw [h.intents, Function.update_self]
  exact
    { treasury_ne := h.treasury ▸ hk.treasury_ne
      noZeroSolver := h.noZeroSolver
      unowned := fun j hj => by
        by_cases hid : j = id
        · subst hid
          rw [hself, hi.owner] at hj
          exact absurd hj howner
        · rw [hother j hid] at hj ⊢
          exact hk.unowned j hj
      parties := fun j hj => by
        by_cases hid : j = id
        · subst hid
          rw [hself, hi.owner, hi.tokenAddress]
          exact hk.parties j howner
        · rw [hother j hid] at hj ⊢
          exact hk.parties j hj
      origin := fun j hj => by
        rw [h.hashed]
        by_cases hid : j = id
        · subst hid
          exact hk.origin j howner
        · rw [hother j hid] at hj
          exact hk.origin j hj
      nonces := by rw [h.hashed, h.intentNonce]; exact hk.nonces
      nonceRange := h.intentNonce ▸ hk.nonceRange
      created := fun j => by
        rw [h.created, ← hk.created j]
        by_cases hid : j = id
        · subst hid
          rw [hself, hi.owner]
        · rw [hother j hid]
      createdOnce := h.created ▸ hk.createdOnce
      accounted := fun j => by
        rw [h.timestamp, h.posted, h.paid, h.forfeited]
        by_cases hid : j = id
        · subst hid
          rw [hself, if_pos rfl, if_pos rfl, if_pos rfl, hold.2.2.1, hold.2.2.2, List.nil_append,
            List.nil_append]
          exact hacc
        · simp only [hother j hid, if_neg hid, List.append_nil]
          exact hk.accounted j
      onlyTreasury := fun a ha => by
        rw [h.treasury] at ha
        rw [h.pending, Function.update_of_ne ha]
        exact hk.onlyTreasury a ha
      credit := by
        have hcredit := hk.credit
        rw [h.treasury, h.pending, Function.update_self, h.withdrawn, h.total]
        omega }

/-- The record written, nothing paid yet. -/
theorem Rewrites.start (hk : Kept E w) (id : Bytes32) (i' : Intent) (balance : Nat) :
    Rewrites w id i' (IntentManager.posted id w.logs) [] []
      { w with entered := true, balance, intents := Function.update w.intents id i' } where
  intents := rfl
  intentNonce := rfl
  treasury := rfl
  hashed := rfl
  timestamp := rfl
  noZeroSolver := hk.noZeroSolver
  pending := (Function.update_eq_self _ _).symm
  payments := List.prefix_refl _
  paid j := by simp only [ite_self, List.append_nil]
  withdrawn _ := rfl
  logs := List.prefix_refl _
  posted j := by
    split
    · next h => rw [h]
    · rfl
  forfeited j := by simp only [ite_self, List.append_nil]
  total := rfl
  created := rfl

/-- Waiting for a payment to go out adds that payment and nothing else. -/
theorem Rewrites.waited {ext : ExtCall} {now : World} {recipient asset : Address} {amount : Nat}
    (h : Rewrites w id i' po pa fo w') (hcall : call.closes = some id)
    (hpay : ext.payment call = [⟨call, recipient, asset, amount⟩])
    (hw : Waited E call ext w' 0 now) :
    Rewrites w id i' po (pa ++ [(recipient, asset, amount)]) fo now := by
  obtain ⟨admin, hlogs, hadmin⟩ := hw.logs
  have hpayments : now.payments = w'.payments ++ [⟨call, recipient, asset, amount⟩] := by
    rw [hw.payments, hpay]
  exact
    { intents := hw.intents.trans h.intents
      intentNonce := hw.intentNonce.trans h.intentNonce
      treasury := hw.treasury.trans h.treasury
      hashed := hw.hashed.trans h.hashed
      timestamp := hw.timestamp.trans h.timestamp
      noZeroSolver := hw.noZeroSolver h.noZeroSolver
      pending := hw.pending.trans h.pending
      payments := h.payments.trans ⟨_, hpayments.symm⟩
      paid := fun j => by
        rw [hpayments, paid_append, h.paid, paid_singleton hcall, List.append_assoc]
        by_cases hj : j = id
        · simp only [if_pos hj]
        · simp only [if_neg hj, List.append_nil]
      withdrawn := fun a => by
        rw [hpayments, withdrawn_append, h.withdrawn, withdrawn_singleton hcall, Nat.add_zero]
      logs := h.logs.trans ⟨_, hlogs.symm⟩
      posted := fun j => by
        rw [hlogs, posted_append, h.posted, (admin_history hadmin j).1, List.append_nil]
      forfeited := fun j => by
        rw [hlogs, forfeited_append, h.forfeited, (admin_history hadmin j).2.1, List.append_nil]
      total := by
        rw [hlogs, totalForfeited_append, h.total, (admin_history hadmin id).2.2.1,
          Nat.add_zero]
      created := by
        rw [hlogs, createdIds_append, h.created, (admin_history hadmin id).2.2.2,
          List.append_nil] }

/-- A log line that records nothing about intents changes nothing. -/
theorem Rewrites.emit (h : Rewrites w id i' po pa fo w') (log : Log)
    (hposted : ∀ j, log.posted? j = none) (hforfeited : ∀ j, log.forfeited? j = none)
    (hforfeit : log.forfeit = 0) (hcreated : log.created? = none) :
    Rewrites w id i' po pa fo { w' with logs := w'.logs ++ [log] } :=
  { h with
    logs := h.logs.trans (List.prefix_append _ _)
    posted := fun j => by
      rw [posted_append, h.posted, posted_singleton, hposted, Option.toList_none, List.append_nil]
    forfeited := fun j => by
      rw [forfeited_append, h.forfeited, forfeited_singleton, hforfeited, Option.toList_none,
        List.append_nil]
    total := by
      rw [totalForfeited_append, h.total, totalForfeited_singleton, hforfeit, Nat.add_zero]
    created := by
      rw [createdIds_append, h.created, createdIds_singleton, hcreated, Option.toList_none,
        List.append_nil] }

/-- Crediting the treasury with the collateral and logging the forfeit. -/
theorem Rewrites.forfeit (h : Rewrites w id i' po pa [] w') (log : Log) {collateral : Nat}
    (hposted : ∀ j, log.posted? j = none)
    (hforfeited : ∀ j, log.forfeited? j = if j = id then some collateral else none)
    (hforfeit : log.forfeit = collateral) (hcreated : log.created? = none) :
    Rewrites w id i' po pa [collateral]
      { w' with
        pendingTreasuryWithdrawals := Function.update w'.pendingTreasuryWithdrawals w'.treasury
          (w'.pendingTreasuryWithdrawals w'.treasury + collateral)
        logs := w'.logs ++ [log] } :=
  { h with
    pending := by
      show Function.update w'.pendingTreasuryWithdrawals w'.treasury _ = _
      rw [h.pending, h.treasury]
      simp only [List.sum_nil, Nat.add_zero, Function.update_eq_self, List.sum_cons]
    logs := h.logs.trans (List.prefix_append _ _)
    posted := fun j => by
      rw [posted_append, h.posted, posted_singleton, hposted, Option.toList_none, List.append_nil]
    forfeited := fun j => by
      rw [forfeited_append, h.forfeited, forfeited_singleton, hforfeited]
      by_cases hj : j = id
      · simp only [if_pos hj, Option.toList_some, List.append_nil]
      · simp only [if_neg hj, Option.toList_none, List.append_nil]
    total := by
      rw [totalForfeited_append, h.total, totalForfeited_singleton, hforfeit]
      simp only [List.sum_cons, List.sum_nil, Nat.add_zero]
    created := by
      rw [createdIds_append, h.created, createdIds_singleton, hcreated, Option.toList_none,
        List.append_nil] }

/-- A rewrite that ends solvent completes the call. -/
theorem Rewrites.completes (h : Rewrites w id i' po pa fo w') (hidle : Idle E w)
    (howner : (w.intents id).owner ≠ 0) (hpending : (w.intents id).status = .Pending)
    (hi : (w.intents id).Evolves i')
    (hacc : i'.Accounted w.timestamp po pa fo)
    (hs : Solvent E 0 w') (hrange : w'.balance < 2 ^ 256) (s : World) :
    Completes E w s { w' with entered := false } () := by
  have hdone : Rewrites w id i' po pa fo { w' with entered := false } := { h with }
  exact fun _ =>
    ⟨⟨hdone.kept hidle.kept howner hpending hi hacc, ⟨hs.eth, hs.token⟩, rfl, hrange⟩,
      hdone.evolves hi⟩

end rewrites

/-! ## Running the pieces -/

/-- The outgoing call `releaseFunds` makes. -/
def releaseCall (recipient : Address) (amount : Nat) (tokenAddress : Address) : ExtCall :=
  if tokenAddress = 0 then .sendEth recipient amount else .transfer tokenAddress recipient amount

@[simp] theorem releaseCall_payment (recipient : Address) (amount : Nat) (tokenAddress : Address) :
    (releaseCall recipient amount tokenAddress).payment call =
      [⟨call, recipient, tokenAddress, amount⟩] := by
  unfold releaseCall
  split
  · next h => rw [h]; rfl
  · rfl

@[simp] theorem releaseCall_pulls (recipient : Address) (amount : Nat) (tokenAddress T : Address) :
    (releaseCall recipient amount tokenAddress).pulls T = false := by
  unfold releaseCall
  split <;> rfl

theorem releaseCall_ethValue (recipient : Address) (amount : Nat) (tokenAddress : Address) :
    (releaseCall recipient amount tokenAddress).ethValue =
      if tokenAddress = 0 then amount else 0 := by
  unfold releaseCall
  split <;> rfl

/-- What a release takes out of the tracked token `T`. -/
theorem releaseCall_tokensDue (recipient : Address) (amount : Nat) (tokenAddress T : Address)
    (hT : T ≠ 0) :
    (if (releaseCall recipient amount tokenAddress).target = T then
        (releaseCall recipient amount tokenAddress).tokensDue else 0) =
      if tokenAddress = T then amount else 0 := by
  unfold releaseCall
  by_cases h0 : tokenAddress = 0
  · subst h0
    simp only [if_pos, ExtCall.tokensDue, ite_self, if_neg (Ne.symm hT)]
  · simp only [if_neg h0, ExtCall.target, ExtCall.tokensDue]

/-- With the record closed, the contract holds what it still owes, the escrow it is about to
release, and the collateral. -/
theorem sends_release {w : World} (i' : Intent) (h : Idle E w)
    (hpending : (w.intents id).status = .Pending) (hclosed : i'.status ≠ .Pending)
    (hcollateral : i'.collateralPosted = 0) (recipient : Address) :
    Sends E (releaseCall recipient (w.intents id).amount (w.intents id).tokenAddress)
      (w.intents id).collateralPosted
      { w with entered := true, intents := Function.update w.intents id i' } where
  entered := rfl
  range := h.ethRange
  eth := by
    have hbal := h.solvent.eth
    have howed := tokenOwed_update 0 w.intents id i'
    have hheld := collateralHeld_update w.intents id i'
    rw [Intent.escrowIn_closed hclosed] at howed
    rw [hcollateral] at hheld
    simp only [Intent.escrowIn, hpending, true_and] at howed
    simp only [ethOwed] at hbal ⊢
    rw [releaseCall_ethValue]
    omega
  token T h0 hT := by
    have hbal := h.solvent.token T h0 hT
    have howed := tokenOwed_update T w.intents id i'
    rw [Intent.escrowIn_closed hclosed] at howed
    simp only [Intent.escrowIn, hpending, true_and] at howed
    rw [releaseCall_tokensDue _ _ _ _ h0]
    show w.tokenBalance T = tokenOwed T (Function.update w.intents id i') + w.donated T + _
    omega

/-- Crediting the treasury takes up the extra. -/
theorem Solvent.credit {w : World} {collateral : Nat} (h : Solvent E collateral w)
    (logs : List Log) :
    Solvent E 0
      { w with
        pendingTreasuryWithdrawals := Function.update w.pendingTreasuryWithdrawals w.treasury
          (w.pendingTreasuryWithdrawals w.treasury + collateral)
        logs } where
  eth := by
    have hbal := h.eth
    have howed := treasuryOwed_update w.pendingTreasuryWithdrawals w.treasury
      (w.pendingTreasuryWithdrawals w.treasury + collateral)
    simp only [ethOwed] at hbal ⊢
    omega
  token := h.token

/-- Taking the lock off, and logging, leave the balances alone. -/
theorem Solvent.unlock {w : World} {extra : Nat} (h : Solvent E extra w) (entered : Bool)
    (logs : List Log) : Solvent E extra { w with entered, logs } :=
  ⟨h.eth, h.token⟩

/-- The extra can go out as ETH. -/
theorem Solvent.sends {w : World} {extra : Nat} (h : Solvent E extra w)
    (hentered : w.entered = true) (hrange : w.balance < 2 ^ 256) (recipient : Address) :
    Sends E (.sendEth recipient extra) 0 w where
  entered := hentered
  range := hrange
  eth := by
    simp only [ExtCall.ethValue, Nat.add_zero]
    exact h.eth
  token T h0 hT := by
    rw [h.token T h0 hT]
    simp only [ExtCall.tokensDue, ite_self, Nat.add_zero]

theorem meets_setIntent {β : Type} {post : World → World → β → Prop} {s₀ w : World} {i : Intent}
    {f : Unit → World → Res World Answer Err β}
    (h : Meets E call post s₀ (f () { w with intents := Function.update w.intents id i })) :
    Meets E call post s₀ ((setIntent id i w).bind f) := by
  simp only [setIntent, update_apply, Res.bind_ret]
  exact h

/-- The rule of a call that must not fail. -/
theorem meets_mustCall {β : Type} {post : World → World → β → Prop} {s₀ w : World} {ext : ExtCall}
    {err : Err} {f : Unit → World → Res World Answer Err β} (hcov : Covers E w ext)
    (h : ∀ w', Waited E call ext w 0 w' → w'.balance < 2 ^ 256 → Meets E call post w' (f () w')) :
    Meets E call post s₀
      (((ask ext >>= fun ok => failIf (ok = none) err : Tx Unit) w).bind f) := by
  simp only [bind_apply, ask_apply, Res.bind_ask, Res.bind_ret, failIf_apply]
  refine sat_ask.mpr ⟨hcov, fun w' answer hrely => ?_⟩
  cases answer with
  | none => simp only [if_true, Res.bind_throw, sat_throw]
  | some word =>
    simp only [reduceCtorEq, if_false, Res.bind_ret]
    exact h w' hrely.2.1 hrely.2.2.1

theorem meets_releaseFunds {β : Type} {post : World → World → β → Prop} {s₀ w : World}
    {recipient tokenAddress : Address} {amount : Nat} {f : Unit → World → Res World Answer Err β}
    (hcov : Covers E w (releaseCall recipient amount tokenAddress))
    (h : ∀ w', Waited E call (releaseCall recipient amount tokenAddress) w 0 w' →
      w'.balance < 2 ^ 256 → Meets E call post w' (f () w')) :
    Meets E call post s₀ ((releaseFunds recipient amount tokenAddress w).bind f) := by
  unfold releaseFunds
  unfold releaseCall at hcov h
  by_cases h0 : tokenAddress = 0
  · rw [if_pos h0] at hcov h ⊢
    exact meets_mustCall hcov h
  · rw [if_neg h0] at hcov h ⊢
    exact meets_mustCall hcov h

/-- Checked arithmetic: the rest is run only where the sum fits 256 bits. -/
theorem sat_checkedAdd_bind {β : Type} {P : Protocol World Answer} {post : World → World → β → Prop}
    {exn : World → World → Err → Prop} {s₀ w : World} {a b : Nat}
    {f : Nat → World → Res World Answer Err β} :
    Sat P post exn s₀ ((checkedAdd a b w).bind f) ↔
      (a + b ≤ maxUint256 → Sat P post exn s₀ (f (a + b) w)) ∧
        (¬ a + b ≤ maxUint256 → exn s₀ w .Panic) := by
  unfold checkedAdd
  by_cases hle : a + b ≤ maxUint256 <;> simp [hle]

theorem meets_checkedAdd {β : Type} {post : World → World → β → Prop} {s₀ w : World} {a b : Nat}
    {f : Nat → World → Res World Answer Err β}
    (h : a + b ≤ maxUint256 → Meets E call post s₀ (f (a + b) w)) :
    Meets E call post s₀ ((checkedAdd a b w).bind f) :=
  sat_checkedAdd_bind.mpr ⟨h, fun _ => trivial⟩

theorem meets_creditTreasury {β : Type} {post : World → World → β → Prop} {s₀ w : World}
    {collateral : Nat} {f : Unit → World → Res World Answer Err β}
    (h : Meets E call post s₀ (f () { w with
      pendingTreasuryWithdrawals := Function.update w.pendingTreasuryWithdrawals w.treasury
        (w.pendingTreasuryWithdrawals w.treasury + collateral) })) :
    Meets E call post s₀ ((creditTreasury collateral w).bind f) := by
  simp only [creditTreasury, bind_apply, read_apply, Res.bind_ret]
  rw [Res.bind_assoc]
  exact meets_checkedAdd fun _ => h

/-- A guarded call: the body runs under the lock, which is taken off at the end. -/
theorem meets_nonReentrant {α β : Type} {post : World → World → β → Prop} {s₀ w : World}
    {body : Tx α} {f : α → World → Res World Answer Err β}
    (h : w.entered = false → Meets E call
      (fun s₁ s a => Meets E call post s₁ (f a { s with entered := false })) s₀
      (body { w with entered := true })) :
    Meets E call post s₀ ((nonReentrant body w).bind f) := by
  simp only [nonReentrant, bind_apply, read_apply, Res.bind_ret, failIf_apply]
  by_cases he : w.entered = true
  · simp only [if_pos he, Res.bind_throw, sat_throw]
  · simp only [if_neg he, Res.bind_ret, bind_apply, update_apply, pure_apply, Res.bind_assoc,
      sat_bind]
    exact h (Bool.eq_false_iff.mpr he)

/-! ## The four operations -/

/-- What a guard on the caller gives: the intent exists. -/
theorem owner_ne_zero {w : World} (hk : Kept E w) (h : (w.intents id).solver ≠ 0) :
    (w.intents id).owner ≠ 0 := fun h0 => h (by rw [hk.unowned id h0]; rfl)

theorem meets_cancelIntent {w : World} {msg : Msg} (h : Idle E w) (hsender : msg.sender ≠ 0)
    (s₀ : World) :
    Meets E (.cancelIntent id) (Completes E w) s₀ (cancelIntent msg id w) := by
  rw [← Res.bind_pure (cancelIntent msg id w)]
  refine meets_nonReentrant fun _ => ?_
  simp only [bind_apply, read_apply, Res.bind_ret]
  refine sat_failIf_bind.mpr ⟨fun _ => trivial, fun howner => ?_⟩
  refine sat_failIf_bind.mpr ⟨fun _ => trivial, fun hpending => ?_⟩
  refine sat_failIf_bind.mpr ⟨fun _ => trivial, fun hexpired => ?_⟩
  refine sat_failIf_bind.mpr ⟨fun _ => trivial, fun hsolver => ?_⟩
  replace howner : (w.intents id).owner = msg.sender := not_not.mp howner
  replace hpending : (w.intents id).status = .Pending := not_not.mp hpending
  replace hexpired : (w.intents id).expiry.toNat ≤ w.timestamp := Nat.le_of_not_lt hexpired
  replace hsolver : (w.intents id).solver = 0 := not_not.mp hsolver
  obtain ⟨hposted, hnone, -, -⟩ := (h.kept.accounted id).unsolved hpending hsolver
  refine meets_setIntent ?_
  have hsends := sends_release { w.intents id with status := .Expired } h hpending
    (by simp only [ne_eq, reduceCtorEq, not_false_eq_true]) hnone msg.sender
  refine meets_releaseFunds hsends.covers fun w₁ hw hrange => ?_
  have hsolvent := hsends.waited (releaseCall_pulls _ _ _) hw
  rw [hnone] at hsolvent
  have hrewrites :=
    ((Rewrites.start h.kept id _ w.balance).waited rfl (releaseCall_payment _ _ _) hw).emit
    (.IntentCancelled id msg.sender (w.intents id).amount) (fun _ => rfl) (fun _ => rfl) rfl rfl
  refine sat_ret.mpr (sat_ret.mpr (hrewrites.completes h (howner ▸ hsender) hpending ?_ ?_
    (hsolvent.unlock _ _) hrange w₁))
  · exact ⟨rfl, rfl, rfl, rfl, rfl, rfl, rfl, rfl, fun _ => rfl, fun hc => absurd hpending hc⟩
  · exact ⟨hsolver, hnone, hposted, by rw [howner]; rfl, rfl, hexpired⟩

theorem meets_slashSolver {w : World} {msg : Msg} (h : Idle E w) (s₀ : World) :
    Meets E (.slashSolver id) (Completes E w) s₀ (slashSolver msg id w) := by
  rw [← Res.bind_pure (slashSolver msg id w)]
  simp only [slashSolver, onlyOrchestrator, bind_apply, read_apply, Res.bind_ret, Res.bind_assoc]
  refine sat_failIf_bind.mpr ⟨fun _ => trivial, fun _ => ?_⟩
  refine meets_nonReentrant fun _ => ?_
  simp only [bind_apply, read_apply, Res.bind_ret]
  refine sat_failIf_bind.mpr ⟨fun _ => trivial, fun hpending => ?_⟩
  refine sat_failIf_bind.mpr ⟨fun _ => trivial, fun hexpired => ?_⟩
  refine sat_failIf_bind.mpr ⟨fun _ => trivial, fun hsolver => ?_⟩
  replace hpending : (w.intents id).status = .Pending := not_not.mp hpending
  replace hsolver : (w.intents id).solver ≠ 0 := hsolver
  have hposted := (h.kept.accounted id).solved hpending hsolver
  refine meets_setIntent ?_
  have hsends := sends_release
    { w.intents id with status := .Slashed, collateralPosted := 0 } h hpending
    (by simp only [ne_eq, reduceCtorEq, not_false_eq_true]) rfl (w.intents id).owner
  refine meets_releaseFunds hsends.covers fun w₁ hw hrange => ?_
  have hsolvent := hsends.waited (releaseCall_pulls _ _ _) hw
  refine meets_creditTreasury ?_
  have hrewrites := ((Rewrites.start h.kept id _ w.balance).waited rfl (releaseCall_payment _ _ _)
    hw).forfeit
    (.SolverSlashed id (w.intents id).solver (w.intents id).collateralPosted w.treasury)
    (fun _ => rfl) (fun _ => if_congr eq_comm rfl rfl) rfl rfl
  refine sat_ret.mpr (sat_ret.mpr (hrewrites.completes h (owner_ne_zero h.kept hsolver) hpending ?_ ?_
    (hsolvent.credit _) hrange w₁))
  · exact ⟨rfl, rfl, rfl, rfl, rfl, rfl, rfl, rfl, fun _ => rfl, fun hc => absurd hpending hc⟩
  · exact ⟨hsolver, rfl, _, hposted, rfl, rfl⟩

theorem meets_claimRefund {w : World} {msg : Msg} (h : Idle E w) (hsender : msg.sender ≠ 0)
    (s₀ : World) :
    Meets E (.claimRefund id) (Completes E w) s₀ (claimRefund msg id w) := by
  rw [← Res.bind_pure (claimRefund msg id w)]
  refine meets_nonReentrant fun _ => ?_
  simp only [bind_apply, read_apply, Res.bind_ret]
  refine sat_failIf_bind.mpr ⟨fun _ => trivial, fun howner => ?_⟩
  refine sat_failIf_bind.mpr ⟨fun _ => trivial, fun hpending => ?_⟩
  refine sat_failIf_bind.mpr ⟨fun _ => trivial, fun hsolver => ?_⟩
  -- safety does not depend on how long the grace period is
  generalize REFUND_GRACE = grace
  refine meets_checkedAdd fun _ => ?_
  refine sat_failIf_bind.mpr ⟨fun _ => trivial, fun _ => ?_⟩
  replace howner : (w.intents id).owner = msg.sender := not_not.mp howner
  replace hpending : (w.intents id).status = .Pending := not_not.mp hpending
  replace hsolver : (w.intents id).solver ≠ 0 := hsolver
  have hposted := (h.kept.accounted id).solved hpending hsolver
  refine meets_setIntent ?_
  have hsends := sends_release
    { w.intents id with status := .Refunded, collateralPosted := 0 } h hpending
    (by simp only [ne_eq, reduceCtorEq, not_false_eq_true]) rfl msg.sender
  refine meets_releaseFunds hsends.covers fun w₁ hw hrange => ?_
  have hsolvent := hsends.waited (releaseCall_pulls _ _ _) hw
  refine meets_creditTreasury ?_
  have hrewrites := ((Rewrites.start h.kept id _ w.balance).waited rfl (releaseCall_payment _ _ _)
    hw).forfeit
    (.IntentRefunded id msg.sender (w.intents id).amount (w.intents id).collateralPosted)
    (fun _ => rfl) (fun _ => if_congr eq_comm rfl rfl) rfl rfl
  refine sat_ret.mpr (sat_ret.mpr (hrewrites.completes h (howner ▸ hsender) hpending ?_ ?_
    (hsolvent.credit _) hrange w₁))
  · exact ⟨rfl, rfl, rfl, rfl, rfl, rfl, rfl, rfl, fun _ => rfl, fun hc => absurd hpending hc⟩
  · exact ⟨hsolver, rfl, _, hposted, by rw [howner]; rfl, rfl⟩

theorem meets_confirmSettlement {w : World} {msg : Msg} {zkProofHash : Bytes32} (h : Idle E w)
    (s₀ : World) :
    Meets E (.confirmSettlement id zkProofHash) (Completes E w) s₀
      (confirmSettlement msg id zkProofHash w) := by
  rw [← Res.bind_pure (confirmSettlement msg id zkProofHash w)]
  simp only [confirmSettlement, onlyOrchestrator, bind_apply, read_apply, Res.bind_ret,
    Res.bind_assoc]
  refine sat_failIf_bind.mpr ⟨fun _ => trivial, fun _ => ?_⟩
  refine meets_nonReentrant fun _ => ?_
  simp only [bind_apply, read_apply, Res.bind_ret]
  refine sat_failIf_bind.mpr ⟨fun _ => trivial, fun hpending => ?_⟩
  refine sat_failIf_bind.mpr ⟨fun _ => trivial, fun hsolver => ?_⟩
  replace hpending : (w.intents id).status = .Pending := not_not.mp hpending
  replace hsolver : (w.intents id).solver ≠ 0 := hsolver
  have hposted := (h.kept.accounted id).solved hpending hsolver
  refine meets_setIntent ?_
  have hsends := sends_release
    { w.intents id with
      status := .Settled, zkProofHash, settledAt := w.timestamp, collateralPosted := 0 }
    h hpending (by simp only [ne_eq, reduceCtorEq, not_false_eq_true]) rfl
    (w.intents id).solver
  refine meets_releaseFunds hsends.covers fun w₁ hw hrange₁ => ?_
  have hsolvent := hsends.waited (releaseCall_pulls _ _ _) hw
  -- the collateral goes out second, from what the escrow left
  have hsends₁ := hsolvent.sends (hw.entered.trans rfl) hrange₁ (w.intents id).solver
  refine meets_mustCall hsends₁.covers fun w₂ hw₁ hrange => ?_
  have hsolvent₁ := hsends₁.waited (fun _ => rfl) hw₁
  have hrewrites := ((((Rewrites.start h.kept id _ w.balance).waited rfl (releaseCall_payment _ _ _)
    hw).waited rfl rfl hw₁).emit
      (.IntentSettled id (w.intents id).solver (w.intents id).amount zkProofHash)
      (fun _ => rfl) (fun _ => rfl) rfl rfl).emit
      (.CollateralReturned id (w.intents id).solver (w.intents id).collateralPosted)
      (fun _ => rfl) (fun _ => rfl) rfl rfl
  refine sat_ret.mpr (sat_ret.mpr (hrewrites.completes h (owner_ne_zero h.kept hsolver) hpending ?_ ?_
    (hsolvent₁.unlock _ _) hrange w₂))
  · exact ⟨rfl, rfl, rfl, rfl, rfl, rfl, rfl, rfl, fun _ => rfl, fun hc => absurd hpending hc⟩
  · exact ⟨hsolver, rfl, _, hposted, rfl, rfl⟩

end Maat.IntentManager
