import Maat.Lib.Mapping
import Maat.IntentManager.Chain

/-!
# What the contract owes, and what became of each intent

The quantities the invariants speak of. On the value side: what the contract owes in each asset
(`tokenOwed`, `ethOwed`), as sums over the whole mappings. On the history side, per intent: the
collateral postings and forfeits that the logs record (`posted`, `forfeited`) and the payments
made while an operation was closing it (`paid`).

`Intent.Accounted` ties the two sides together for one intent: for each status it says exactly
which postings, payments and forfeits exist.
-/

namespace Maat.IntentManager

/-! ## Owed -/

/-- What the intent holds in escrow of `asset`. -/
def Intent.escrowIn (asset : Address) (i : Intent) : Nat :=
  if i.status = .Pending ∧ i.tokenAddress = asset then i.amount else 0

def tokenOwed (asset : Address) (intents : Bytes32 → Intent) : Nat :=
  ∑ id, (intents id).escrowIn asset

def collateralHeld (intents : Bytes32 → Intent) : Nat := ∑ id, (intents id).collateralPosted

def treasuryOwed (pending : Address → Nat) : Nat := ∑ a, pending a

/-- Everything the contract owes in ETH: native escrow, collateral and treasury credit. -/
def ethOwed (s : Storage) : Nat :=
  tokenOwed 0 s.intents + collateralHeld s.intents + treasuryOwed s.pendingTreasuryWithdrawals

theorem tokenOwed_update (asset : Address) (f : Bytes32 → Intent) (id : Bytes32) (i : Intent) :
    tokenOwed asset (Function.update f id i) + (f id).escrowIn asset =
      tokenOwed asset f + i.escrowIn asset :=
  Mapping.sum_update f id i (Intent.escrowIn asset)

theorem collateralHeld_update (f : Bytes32 → Intent) (id : Bytes32) (i : Intent) :
    collateralHeld (Function.update f id i) + (f id).collateralPosted =
      collateralHeld f + i.collateralPosted :=
  Mapping.sum_update f id i Intent.collateralPosted

theorem treasuryOwed_update (f : Address → Nat) (a : Address) (n : Nat) :
    treasuryOwed (Function.update f a n) + f a = treasuryOwed f + n :=
  Mapping.sum_update f a n id

theorem pending_le_treasuryOwed (f : Address → Nat) (a : Address) : f a ≤ treasuryOwed f :=
  Mapping.le_sum f a

@[simp] theorem Intent.escrowIn_empty (asset : Address) : Intent.empty.escrowIn asset = 0 := by
  simp only [escrowIn, empty, ite_self]

@[simp] theorem Intent.collateralPosted_empty : Intent.empty.collateralPosted = 0 := rfl

theorem tokenOwed_empty (asset : Address) : tokenOwed asset (fun _ => .empty) = 0 :=
  Finset.sum_eq_zero fun _ _ => Intent.escrowIn_empty asset

theorem collateralHeld_empty : collateralHeld (fun _ => .empty) = 0 :=
  Finset.sum_eq_zero fun _ _ => Intent.collateralPosted_empty

theorem treasuryOwed_zero : treasuryOwed (fun _ => 0) = 0 := Finset.sum_eq_zero fun _ _ => rfl

-- the sums run over the whole mappings; nothing below may unfold them
attribute [irreducible] tokenOwed collateralHeld treasuryOwed

/-- An intent that is not pending holds no escrow. -/
theorem Intent.escrowIn_closed {asset : Address} {i : Intent} (h : i.status ≠ .Pending) :
    i.escrowIn asset = 0 := by
  simp only [escrowIn, h, false_and, if_false]

/-! ## History -/

/-- The intent an operation closes. -/
def Call.closes : Call → Option Bytes32
  | .confirmSettlement intentId _ => some intentId
  | .slashSolver intentId => some intentId
  | .cancelIntent intentId => some intentId
  | .claimRefund intentId => some intentId
  | _ => none

/-- Recipient, asset and amount of each payment made while closing `id`. -/
def paid (id : Bytes32) (payments : List Payment) : List (Address × Address × Nat) :=
  payments.filterMap fun p =>
    if p.during.closes = some id then some (p.recipient, p.asset, p.amount) else none

def Log.posted? (id : Bytes32) : Log → Option (Address × Nat)
  | .CollateralPosted intentId solver collateral =>
    if intentId = id then some (solver, collateral) else none
  | _ => none

def Log.forfeited? (id : Bytes32) : Log → Option Nat
  | .SolverSlashed intentId _ collateral _ => if intentId = id then some collateral else none
  | .IntentRefunded intentId _ _ collateral => if intentId = id then some collateral else none
  | _ => none

/-- The intent a log line says was created. -/
def Log.created? : Log → Option Bytes32
  | .IntentCreated intentId _ _ _ _ _ _ _ => some intentId
  | _ => none

/-- The collateral a log line says was forfeited. -/
def Log.forfeit : Log → Nat
  | .SolverSlashed _ _ collateral _ => collateral
  | .IntentRefunded _ _ _ collateral => collateral
  | _ => 0

/-- The solver and amount of each collateral posting of `id`. -/
def posted (id : Bytes32) (logs : List Log) : List (Address × Nat) := logs.filterMap (Log.posted? id)

/-- The collateral of each forfeit of `id`. -/
def forfeited (id : Bytes32) (logs : List Log) : List Nat := logs.filterMap (Log.forfeited? id)

/-- The intents created, one entry for each `submitIntent` that completed. -/
def createdIds (logs : List Log) : List Bytes32 := logs.filterMap Log.created?

/-- All collateral ever forfeited. -/
def totalForfeited (logs : List Log) : Nat := (logs.map Log.forfeit).sum

/-- What `account` has drawn from its treasury credit. -/
def withdrawn (account : Address) (payments : List Payment) : Nat :=
  (payments.map fun p =>
    if p.during = .withdrawTreasury ∧ p.recipient = account then p.amount else 0).sum

/-- Log lines of admin calls, which say nothing about any intent. -/
def Log.isAdmin : Log → Bool
  | .DailyVolumeLimitUpdated _ | .OrchestratorChanged _ _ | .SolverApproved _ _
  | .Paused _ | .Unpaused _ => true
  | _ => false

section append

variable (id : Bytes32) (account : Address)

@[simp] theorem paid_append (ps qs : List Payment) :
    paid id (ps ++ qs) = paid id ps ++ paid id qs :=
  List.filterMap_append

@[simp] theorem posted_append (ls ks : List Log) :
    posted id (ls ++ ks) = posted id ls ++ posted id ks :=
  List.filterMap_append

@[simp] theorem forfeited_append (ls ks : List Log) :
    forfeited id (ls ++ ks) = forfeited id ls ++ forfeited id ks :=
  List.filterMap_append

@[simp] theorem createdIds_append (ls ks : List Log) :
    createdIds (ls ++ ks) = createdIds ls ++ createdIds ks :=
  List.filterMap_append

@[simp] theorem totalForfeited_append (ls ks : List Log) :
    totalForfeited (ls ++ ks) = totalForfeited ls + totalForfeited ks := by
  simp only [totalForfeited, List.map_append, List.sum_append]

@[simp] theorem withdrawn_append (ps qs : List Payment) :
    withdrawn account (ps ++ qs) = withdrawn account ps + withdrawn account qs := by
  simp only [withdrawn, List.map_append, List.sum_append]

end append

section singleton

variable (id : Bytes32) (log : Log)

theorem posted_singleton : posted id [log] = (log.posted? id).toList := by
  cases h : log.posted? id <;> simp only [posted, List.filterMap_cons, h, List.filterMap_nil] <;> rfl

theorem forfeited_singleton : forfeited id [log] = (log.forfeited? id).toList := by
  cases h : log.forfeited? id <;>
    simp only [forfeited, List.filterMap_cons, h, List.filterMap_nil] <;> rfl

theorem createdIds_singleton : createdIds [log] = log.created?.toList := by
  cases h : log.created? <;> simp only [createdIds, List.filterMap_cons, h, List.filterMap_nil] <;>
    rfl

theorem totalForfeited_singleton : totalForfeited [log] = log.forfeit := by
  simp only [totalForfeited, List.map_cons, List.map_nil, List.sum_cons, List.sum_nil, Nat.add_zero]

end singleton

/-- Admin log lines change no intent's history. -/
theorem admin_history {logs : List Log} (h : ∀ l ∈ logs, l.isAdmin = true) (id : Bytes32) :
    posted id logs = [] ∧ forfeited id logs = [] ∧ totalForfeited logs = 0 ∧
      createdIds logs = [] := by
  induction logs with
  | nil => exact ⟨rfl, rfl, rfl, rfl⟩
  | cons l logs ih =>
    obtain ⟨hp, hf, ht, hc⟩ := ih fun k hk => h k (List.mem_cons_of_mem _ hk)
    have hl := h l List.mem_cons_self
    simp only [posted, forfeited, totalForfeited, createdIds] at hp hf ht hc ⊢
    cases l <;>
      simp_all only [Log.isAdmin, Bool.false_eq_true, List.filterMap_cons, Log.posted?,
        Log.forfeited?, Log.created?, List.map_cons, Log.forfeit, List.sum_cons, Nat.zero_add,
        and_self]

/-- What the history of an intent must be, given its record: while pending, the collateral
posted is the collateral held and nothing has been paid; once closed, the escrow has gone out
exactly once, and the collateral exactly once to whom the status says. -/
def Intent.Accounted (i : Intent) (timestamp : Nat) (posted : List (Address × Nat))
    (paid : List (Address × Address × Nat)) (forfeited : List Nat) : Prop :=
  match i.status with
  | .Pending =>
    posted = (if i.solver = 0 then [] else [(i.solver, i.collateralPosted)]) ∧
      (i.solver = 0 → i.collateralPosted = 0) ∧ paid = [] ∧ forfeited = []
  | .Settled =>
    i.solver ≠ 0 ∧ i.collateralPosted = 0 ∧ ∃ collateral, posted = [(i.solver, collateral)] ∧
      paid = [(i.solver, i.tokenAddress, i.amount), (i.solver, 0, collateral)] ∧ forfeited = []
  | .Slashed | .Refunded =>
    i.solver ≠ 0 ∧ i.collateralPosted = 0 ∧ ∃ collateral, posted = [(i.solver, collateral)] ∧
      paid = [(i.owner, i.tokenAddress, i.amount)] ∧ forfeited = [collateral]
  | .Expired =>
    i.solver = 0 ∧ i.collateralPosted = 0 ∧ posted = [] ∧
      paid = [(i.owner, i.tokenAddress, i.amount)] ∧ forfeited = [] ∧ i.expiry.toNat ≤ timestamp

/-- To a pending intent without a solver nothing has happened. -/
theorem Intent.Accounted.unsolved {i : Intent} {t : Nat} {po : List (Address × Nat)}
    {pa : List (Address × Address × Nat)} {fo : List Nat} (h : i.Accounted t po pa fo)
    (hpending : i.status = .Pending) (hsolver : i.solver = 0) :
    po = [] ∧ i.collateralPosted = 0 ∧ pa = [] ∧ fo = [] := by
  simp only [Accounted, hpending, hsolver, if_true, true_implies] at h
  exact h

/-- A pending intent holds what its solver posted. -/
theorem Intent.Accounted.solved {i : Intent} {t : Nat} {po : List (Address × Nat)}
    {pa : List (Address × Address × Nat)} {fo : List Nat} (h : i.Accounted t po pa fo)
    (hpending : i.status = .Pending) (hsolver : i.solver ≠ 0) :
    po = [(i.solver, i.collateralPosted)] := by
  simp only [Accounted, hpending, if_neg hsolver] at h
  exact h.1

/-- Time only helps. -/
theorem Intent.Accounted.later {i : Intent} {t t' : Nat} {po : List (Address × Nat)}
    {pa : List (Address × Address × Nat)} {fo : List Nat} (h : i.Accounted t po pa fo)
    (ht : t ≤ t') : i.Accounted t' po pa fo := by
  unfold Accounted at h ⊢
  cases hs : i.status <;> simp only [hs] at h ⊢
  case Expired => exact ⟨h.1, h.2.1, h.2.2.1, h.2.2.2.1, h.2.2.2.2.1, h.2.2.2.2.2.trans ht⟩
  all_goals exact h

/-- An intent nobody created has no history. -/
theorem Intent.accounted_empty (t : Nat) : Intent.empty.Accounted t [] [] [] := by
  simp only [Accounted, empty, if_true, implies_true, and_self]

end Maat.IntentManager
