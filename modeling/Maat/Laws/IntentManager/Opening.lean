import Maat.Laws.IntentManager.Closing

/-!
# The operations that open an intent, and the treasury

`submitIntent` creates a record under a fresh id, `postCollateral` binds a solver to it, and
`withdrawTreasury` pays out forfeited collateral. `postCollateral` does not test the status: that
it reaches pending intents only is a consequence of the records and their history agreeing
(`pending_of_no_solver`).
-/

namespace Maat.IntentManager

open Resumption Resumption.Prog

variable {E : Env} {call : Call} {id : Bytes32}

/-! ## Treasury -/

/-- A treasury withdrawal closes no intent. -/
theorem withdrawn_treasury (a recipient : Address) (amount : Nat) :
    withdrawn a [⟨.withdrawTreasury, recipient, 0, amount⟩] =
      if recipient = a then amount else 0 := by
  by_cases h : recipient = a
  · simp [withdrawn, h]
  · simp [withdrawn, h]

/-- The world in which `withdrawTreasury` sends. -/
def clearCredit (w : World) (account : Address) : World :=
  { w with
    entered := true
    pendingTreasuryWithdrawals := Function.update w.pendingTreasuryWithdrawals account 0 }

/-- With the credit cleared, the contract holds what it still owes and the credit. -/
theorem sends_treasury {w : World} (h : Idle E w) (account : Address) :
    Sends E (.sendEth account (w.pendingTreasuryWithdrawals account)) 0
      (clearCredit w account) where
  entered := rfl
  range := h.ethRange
  eth := by
    have hbal := h.solvent.eth
    have howed := treasuryOwed_update w.pendingTreasuryWithdrawals account 0
    simp only [clearCredit, ethOwed, ExtCall.ethValue] at hbal ⊢
    omega
  token T h0 hT := by
    simp only [ExtCall.tokensDue, ite_self, Nat.add_zero]
    exact h.solvent.token T h0 hT

/-- Drawing a credit keeps the records. -/
theorem Kept.withdraw {w now : World} {account : Address} (h : Kept E w)
    (hw : Waited E .withdrawTreasury
      (.sendEth account (w.pendingTreasuryWithdrawals account)) (clearCredit w account) 0 now) :
    Kept E { now with entered := false } := by
  obtain ⟨admin, hlogs, hadmin⟩ := hw.logs
  have htreasury : now.treasury = w.treasury := hw.treasury
  have hpending : now.pendingTreasuryWithdrawals =
    Function.update w.pendingTreasuryWithdrawals account 0 := hw.pending
  have hpayments : now.payments = w.payments ++
    [⟨.withdrawTreasury, account, 0, w.pendingTreasuryWithdrawals account⟩] := hw.payments
  replace hlogs : now.logs = w.logs ++ admin := hlogs
  exact
    { treasury_ne := hw.treasury ▸ h.treasury_ne
      noZeroSolver := hw.noZeroSolver h.noZeroSolver
      unowned := fun j => by rw [hw.intents]; exact h.unowned j
      parties := fun j => by rw [hw.intents]; exact h.parties j
      origin := fun j => by rw [hw.intents, hw.hashed]; exact h.origin j
      nonces := by rw [hw.hashed, hw.intentNonce]; exact h.nonces
      nonceRange := hw.intentNonce ▸ h.nonceRange
      created := fun j => by
        rw [hw.intents, hlogs, createdIds_append, (admin_history hadmin j).2.2.2, List.append_nil]
        exact h.created j
      createdOnce := by
        rw [hlogs, createdIds_append, (admin_history hadmin 0).2.2.2, List.append_nil]
        exact h.createdOnce
      accounted := fun j => by
        have hpaid : paid j now.payments = paid j w.payments := by
          rw [hw.payments, paid_append, paid_of_closes_none rfl, List.append_nil]
          rfl
        rw [hw.intents, hw.timestamp, hlogs, posted_append, forfeited_append,
          (admin_history hadmin j).1, (admin_history hadmin j).2.1, hpaid, List.append_nil,
          List.append_nil]
        exact h.accounted j
      onlyTreasury := fun a ha => by
        rw [htreasury] at ha
        rw [hpending]
        by_cases hacc : a = account
        · rw [hacc, Function.update_self]
        · rw [Function.update_of_ne hacc]
          exact h.onlyTreasury a ha
      credit := by
        have hcredit := h.credit
        rw [htreasury, hpending, hlogs, hpayments, withdrawn_append, withdrawn_treasury,
          totalForfeited_append, (admin_history hadmin 0).2.2.1]
        by_cases hacc : account = w.treasury
        · rw [if_pos hacc, ← hacc, Function.update_self, hacc]
          omega
        · rw [if_neg hacc, Function.update_of_ne (Ne.symm hacc)]
          omega }

theorem meets_withdrawTreasury {w : World} {msg : Msg} (h : Idle E w) (s₀ : World) :
    Meets E .withdrawTreasury (Completes E w) s₀ (withdrawTreasury msg w) := by
  rw [← Res.bind_pure (withdrawTreasury msg w)]
  refine meets_nonReentrant fun _ => ?_
  simp only [bind_apply, read_apply, update_apply, Res.bind_ret]
  rw [← Res.bind_pure (sendEth _ _ _)]
  have hsends := sends_treasury h msg.sender
  refine meets_mustCall hsends.covers fun w₁ hw hrange => ?_
  have hsolvent := hsends.waited (fun _ => rfl) hw
  refine sat_ret.mpr (sat_ret.mpr fun _ => ?_)
  refine ⟨⟨h.kept.withdraw hw, hsolvent.unlock _ _, rfl, hrange⟩, ?_⟩
  obtain ⟨admin, hlogs, -⟩ := hw.logs
  exact
    { timestamp := hw.timestamp.ge
      treasury := hw.treasury
      intents := fun j _ => by rw [hw.intents]; exact .refl _
      payments := ⟨_, hw.payments.symm⟩
      logs := ⟨_, hlogs.symm⟩ }

/-! ## Collateral -/

/-- An existing intent that no solver has taken and that has not expired is pending: every other
status has a solver or an expiry behind it. -/
theorem pending_of_no_solver {w : World} (h : Kept E w) (hsolver : (w.intents id).solver = 0)
    (hexpiry : w.timestamp < (w.intents id).expiry.toNat) :
    (w.intents id).status = .Pending := by
  have hacc := h.accounted id
  unfold Intent.Accounted at hacc
  cases hs : (w.intents id).status <;> simp only [hs] at hacc
  case Pending => rfl
  case Settled => exact absurd hsolver hacc.1
  case Slashed => exact absurd hsolver hacc.1
  case Refunded => exact absurd hsolver hacc.1
  case Expired => exact absurd hacc.2.2.2.2.2 (Nat.not_le_of_lt hexpiry)

/-- Logging the posting adds it to the record. -/
theorem Rewrites.post {w w' : World} {i' : Intent} {pa : List (Address × Address × Nat)}
    {fo : List Nat} (h : Rewrites w id i' (IntentManager.posted id w.logs) pa fo w')
    (solver : Address) (collateral : Nat) :
    Rewrites w id i' (IntentManager.posted id w.logs ++ [(solver, collateral)]) pa fo
      { w' with logs := w'.logs ++ [.CollateralPosted id solver collateral] } :=
  { h with
    logs := h.logs.trans (List.prefix_append _ _)
    posted := fun j => by
      rw [posted_append, h.posted, posted_singleton]
      by_cases hj : j = id
      · simp only [hj, Log.posted?, if_true, Option.toList_some]
      · simp only [if_neg hj, Log.posted?, if_neg (Ne.symm hj), Option.toList_none, List.append_nil]
    forfeited := fun j => by
      rw [forfeited_append, h.forfeited, forfeited_singleton]
      exact List.append_nil _
    total := by
      rw [totalForfeited_append, h.total, totalForfeited_singleton]
      exact Nat.add_zero _
    created := by
      rw [createdIds_append, h.created, createdIds_singleton]
      exact List.append_nil _ }

/-- Holding the collateral takes up the ETH it came with. -/
theorem Solvent.collateral {w : World} (h : Solvent E 0 w) (i' : Intent) (value : Nat)
    (hescrow : ∀ T, i'.escrowIn T = (w.intents id).escrowIn T)
    (hheld : i'.collateralPosted = (w.intents id).collateralPosted + value) (entered : Bool)
    (logs : List Log) :
    Solvent E 0 { w with
      balance := w.balance + value, entered, logs
      intents := Function.update w.intents id i' } where
  eth := by
    have hbal := h.eth
    have howed := tokenOwed_update 0 w.intents id i'
    have hcollateral := collateralHeld_update w.intents id i'
    rw [hescrow] at howed
    simp only [ethOwed] at hbal ⊢
    omega
  token T h0 hT := by
    have hbal := h.token T h0 hT
    have howed := tokenOwed_update T w.intents id i'
    rw [hescrow] at howed
    show w.tokenBalance T = tokenOwed T (Function.update w.intents id i') + w.donated T
    omega

theorem meets_postCollateral {w : World} {msg : Msg} (h : Idle E w)
    (hrange : w.balance + msg.value < 2 ^ 256) (s₀ : World) :
    Meets E (.postCollateral id) (Completes E w) s₀
      (postCollateral msg id { w with balance := w.balance + msg.value }) := by
  rw [← Res.bind_pure (postCollateral _ _ _)]
  simp only [postCollateral, whenNotPaused, bind_apply, read_apply, Res.bind_ret, Res.bind_assoc]
  refine sat_failIf_bind.mpr ⟨fun _ => trivial, fun _ => ?_⟩
  refine meets_nonReentrant fun _ => ?_
  simp only [bind_apply, read_apply, Res.bind_ret]
  refine sat_failIf_bind.mpr ⟨fun _ => trivial, fun happroved => ?_⟩
  refine sat_failIf_bind.mpr ⟨fun _ => trivial, fun howner => ?_⟩
  refine sat_failIf_bind.mpr ⟨fun _ => trivial, fun hnone => ?_⟩
  refine sat_failIf_bind.mpr ⟨fun _ => trivial, fun hexpiry => ?_⟩
  simp only [checkedMul, bind_apply]
  split
  case isFalse => exact sat_throw.mpr trivial
  simp only [pure_apply, Res.bind_ret]
  refine sat_failIf_bind.mpr ⟨fun _ => trivial, fun _ => ?_⟩
  refine meets_setIntent ?_
  replace hnone : (w.intents id).solver = 0 := not_not.mp hnone
  replace hexpiry : w.timestamp < (w.intents id).expiry.toNat := Nat.lt_of_not_le hexpiry
  have hsolver : msg.sender ≠ 0 := fun h0 => happroved (h0 ▸ h.kept.noZeroSolver)
  have hpending := pending_of_no_solver h.kept hnone hexpiry
  obtain ⟨hposted, hzero, hpaid, hforfeited⟩ := (h.kept.accounted id).unsolved hpending hnone
  have hrewrites := (Rewrites.start h.kept id
    { w.intents id with solver := msg.sender, collateralPosted := msg.value }
    (w.balance + msg.value)).post msg.sender msg.value
  have hsolvent := h.solvent.collateral
    { w.intents id with solver := msg.sender, collateralPosted := msg.value } msg.value
    (fun _ => rfl) (by rw [hzero, Nat.zero_add]) true
    (w.logs ++ [.CollateralPosted id msg.sender msg.value])
  refine sat_ret.mpr (sat_ret.mpr (hrewrites.completes h howner hpending ?_ ?_ hsolvent hrange s₀))
  · exact ⟨rfl, rfl, rfl, rfl, rfl, rfl, rfl, rfl, fun hs => absurd hnone hs,
      fun hc => absurd hpending hc⟩
  · simp only [Intent.Accounted, hpending, if_neg hsolver, hposted, List.nil_append]
    exact ⟨trivial, fun h0 => absurd h0 hsolver, trivial, trivial⟩

end Maat.IntentManager
