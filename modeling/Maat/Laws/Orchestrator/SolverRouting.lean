import Mathlib.Data.Char
import Mathlib.Data.List.Lex
import Mathlib.Data.Prod.Lex
import Mathlib.Tactic.NormNum
import Maat.Laws.Orchestrator.SolverStats
import Maat.Orchestrator.SolverRouting

/-!
# What `selectSolver` selects

The gates a candidate has to satisfy and the order the satisfying ones are ranked in, each stated
on the inputs. The evaluation of a candidate is read back once (`eligible_iff`, `standing`), and
the selection is then a minimum over the satisfying candidates.
-/

namespace Maat.Orchestrator

open Js

variable {intent : RoutingIntent} {nowSec : Int} {deps : SelectionDeps} {book : ReservationBook}
variable {flight : List (Str × ArbitrumLedgerEntry)} {solver other : Str}

/-! ## Reservations -/

namespace ReservationBook

/-- The reservation under a solver's and an intent's key. -/
def find (book : ReservationBook) (s i : Str) : Option Reservation :=
  (book.lookup s).bind fun reservations => reservations.lookup i

theorem find_forSolver (i : Str) :
    (book.forSolver solver).lookup i = book.find (addrKey solver) i := by
  unfold forSolver find
  cases book.lookup (addrKey solver) with
  | none => exact AList.lookup_empty i
  | some reservations => rfl

theorem find_set (s t i : Str) (reservations : AList fun _ : Str => Reservation) :
    find (AList.set s reservations book) t i =
      if t = s then reservations.lookup i else book.find t i := by
  unfold find
  split
  · next h => rw [h, AList.lookup_set, Option.bind_some]
  · next h => rw [AList.lookup_set_ne h]

theorem find_reserve (intentId : Str) (wei : Nat) (s i : Str) :
    (book.reserve solver intentId wei).find s i =
      if s = addrKey solver ∧ i = intentKey intentId then some ⟨wei, none⟩ else book.find s i := by
  unfold reserve
  rw [find_set]
  by_cases hs : s = addrKey solver
  · by_cases hi : i = intentKey intentId
    · rw [if_pos hs, if_pos ⟨hs, hi⟩, hi, AList.lookup_set]
    · rw [if_pos hs, if_neg (fun h => hi h.2), AList.lookup_set_ne hi, find_forSolver, hs]
  · rw [if_neg hs, if_neg (fun h => hs h.1)]

theorem find_release (intentId : Str) (a i : Str) :
    (book.release solver intentId).find a i =
      if a = addrKey solver ∧ i = intentKey intentId then none else book.find a i := by
  unfold release
  cases hget : book.lookup (addrKey solver) with
  | none =>
    dsimp only
    split
    · next h =>
      unfold find
      rw [h.1, hget, Option.bind_none]
    · rfl
  | some reservations =>
    dsimp only
    rw [find_set]
    by_cases ha : a = addrKey solver
    · subst ha
      rw [if_pos rfl]
      by_cases hi : i = intentKey intentId
      · rw [if_pos ⟨rfl, hi⟩, hi, AList.lookup_erase]
      · rw [if_neg fun h => hi h.2, AList.lookup_erase_ne hi]
        unfold find
        rw [hget, Option.bind_some]
    · rw [if_neg ha, if_neg fun h => ha h.1]

/-- A hold is for a reservation that is unresolved. -/
theorem find_holdFor (intentId : Str) (now hold : Nat) (a i : Str) :
    (book.holdFor solver intentId now hold).find a i =
      if a = addrKey solver ∧ i = intentKey intentId then
        (book.find a i).map fun r => { r with releaseAtMs := r.releaseAtMs.or (some (now + hold)) }
      else book.find a i := by
  unfold holdFor
  rw [find_forSolver]
  split
  · next wei hpending =>
    rw [find_set]
    by_cases ha : a = addrKey solver
    · subst ha
      rw [if_pos rfl]
      by_cases hi : i = intentKey intentId
      · rw [if_pos ⟨rfl, hi⟩, hi, AList.lookup_set, hpending]
        rfl
      · rw [if_neg fun h => hi h.2, AList.lookup_set_ne hi, find_forSolver]
    · rw [if_neg ha, if_neg fun h => ha h.1]
  · next hresolved =>
    split
    · next h =>
      rw [h.1, h.2]
      cases hfind : book.find (addrKey solver) (intentKey intentId) with
      | none => rfl
      | some r =>
        obtain ⟨wei, releaseAtMs⟩ := r
        cases releaseAtMs with
        | none => exact absurd hfind (hresolved wei)
        | some ms => rfl
    · rfl

theorem lookup_live (now : Nat) (reservations : AList fun _ : Str => Reservation) (i : Str) :
    (live now reservations).lookup i =
      (reservations.lookup i).filter fun r => !lapsed now r := by
  apply Option.ext
  intro r
  have hlive : r ∈ (live now reservations).lookup i ↔
      (⟨i, r⟩ : Sigma fun _ : Str => Reservation) ∈
        reservations.entries.filter fun e => !lapsed now e.2 := AList.mem_lookup_iff
  have hall : r ∈ reservations.lookup i ↔ _ := AList.mem_lookup_iff
  rw [Option.mem_def] at hlive hall
  rw [hlive, List.mem_filter, ← hall, Option.filter_eq_some_iff]

/-- A solver's reservations that have not lapsed. -/
def liveWei (book : ReservationBook) (solver : Str) (now : Nat) : Nat :=
  ((live now (book.forSolver solver)).entries.map fun e => e.2.wei).sum

theorem reservedWei_fst (book : ReservationBook) (solver : Str) (now : Nat) :
    (book.reservedWei solver now).1 = book.liveWei solver now := by
  unfold reservedWei liveWei forSolver
  cases book.lookup (addrKey solver) <;> rfl

theorem lookup_reservedWei (book : ReservationBook) (now : Nat) {s : Str} (h : s ≠ addrKey solver) :
    (book.reservedWei solver now).2.lookup s = book.lookup s := by
  unfold reservedWei
  cases book.lookup (addrKey solver) with
  | none => rfl
  | some reservations => exact AList.lookup_set_ne h

theorem find_reservedWei (now : Nat) (i : Str) :
    (book.reservedWei solver now).2.find (addrKey solver) i =
      (book.find (addrKey solver) i).filter fun r => !lapsed now r := by
  unfold reservedWei
  cases hget : book.lookup (addrKey solver) with
  | none => simp only [find, hget, Option.bind_none, Option.filter_none]
  | some reservations =>
    show find (AList.set _ _ book) _ i = _
    rw [find_set, if_pos rfl, lookup_live]
    simp only [find, hget, Option.bind_some]

end ReservationBook

/-! ## The gates -/

/-- Collateral that the ledger says is in flight and the book has no reservation for: the solver's
own, and that of entries without a solver. -/
def inFlightWei (deps : SelectionDeps) (book : ReservationBook) (solver : Str) : Nat :=
  ledgerReservedWei deps.gate (inFlight deps.ledger book) solver

/-- What the solver's fresh balance leaves it. -/
def availableOf (deps : SelectionDeps) (book : ReservationBook) (solver : Str) : Int :=
  match deps.getBalanceWei solver with
  | .error _ => 0
  | .ok balance => balance - book.liveWei solver (deps.nowMs solver) - inFlightWei deps book solver

/-- The solver's tier cap at its current record. -/
def capOf (deps : SelectionDeps) (solver : Str) : Int :=
  match deps.getSolverRecords with
  | .error _ => 0
  | .ok stats =>
    tierCapWei (computeTier (deps.getOnboardingTier solver) (recordOf stats solver) deps.tierConfig
      stats.complete) deps.gate.maxTransferWei deps.tierCapPct

/-- The solver's success rate, if it has a history. -/
def rateOf (deps : SelectionDeps) (solver : Str) : Option ℚ :=
  match deps.getSolverRecords with
  | .error _ => none
  | .ok stats => (recordOf stats solver).successRate

/-- No history stands below every rate. -/
def noneBelow : Option ℚ → WithBot ℚ
  | none => ⊥
  | some rate => rate

/-- One and a half times the amount, rounded down, and the gas. -/
def needed (intent : RoutingIntent) (deps : SelectionDeps) : Int :=
  ⌊(3 / 2 : ℚ) * intent.json.amount⌋ + deps.gate.gasBufferWei

/-- A candidate that satisfies every gate. -/
structure Satisfies (intent : RoutingIntent) (nowSec : Int) (deps : SelectionDeps)
    (book : ReservationBook) (solver : Str) : Prop where
  approved : deps.isApproved solver = .ok true
  open_intent : ∃ onChain, deps.readIntent intent.id = .ok onChain ∧
    onChain.status = INTENT_STATUS_PENDING ∧ toLowerCase onChain.solver = ZERO_ADDRESS
  recorded : ∃ stats, deps.getSolverRecords = .ok stats
  native : toLowerCase intent.json.token_address = ZERO_ADDRESS
  amount_le : intent.json.amount ≤ deps.gate.maxTransferWei
  in_time : nowSec < intent.json.expiry - deps.gate.deliveryMarginSec
  balance_read : ∃ balance, deps.getBalanceWei solver = .ok balance
  capital : needed intent deps ≤ availableOf deps book solver
  within_cap : (intent.json.amount : Int) ≤ capOf deps solver

/-- Where a candidate stands, the least first: by cap, then by rate from the highest, then by
capital from the largest, then by address. -/
abbrev Standing := ℤ ×ₗ ((WithBot ℚ)ᵒᵈ ×ₗ (ℤᵒᵈ ×ₗ Str))

def standing (deps : SelectionDeps) (book : ReservationBook) (solver : Str) : Standing :=
  toLex (capOf deps solver, toLex (OrderDual.toDual (noneBelow (rateOf deps solver)),
    toLex (OrderDual.toDual (availableOf deps book solver), addrKey solver)))

/-! ## One candidate -/

theorem floor_three_halves (amount : Nat) :
    ⌊(3 / 2 : ℚ) * amount⌋ = (requiredCollateral amount : Int) := by
  have hdiv : (3 / 2 : ℚ) * amount = ((amount * 150 : Nat) : ℚ) / ((100 : Nat) : ℚ) := by
    push_cast
    ring
  rw [hdiv, Rat.floor_natCast_div_natCast]
  rfl

theorem approvalFailure_eq_nil {approved : Except Str Bool} :
    approvalFailure approved = [] ↔ approved = .ok true := by
  unfold approvalFailure
  cases approved with
  | error e => simp
  | ok b => cases b <;> simp

theorem intentFailure_eq_nil {onChain : Except Str OnChainIntent} :
    intentFailure onChain = [] ↔
      ∃ intent, onChain = .ok intent ∧ intent.status = INTENT_STATUS_PENDING ∧
        toLowerCase intent.solver = ZERO_ADDRESS := by
  unfold intentFailure
  cases onChain with
  | error e => simp
  | ok o =>
    dsimp only
    split
    · next h =>
      constructor
      · intro hnil
        cases hnil
      · rintro ⟨intent, heq, hstatus, hsolver⟩
        cases heq
        exact (h.elim (· hstatus) (· hsolver)).elim
    · next h =>
      obtain ⟨hstatus, hsolver⟩ := not_or.mp h
      exact ⟨fun _ => ⟨o, rfl, not_not.mp hstatus, not_not.mp hsolver⟩, fun _ => rfl⟩

theorem evaluateArbitrumGate_eq_nil {json : ProofOutputJson} {params : ArbitrumGateParams} :
    evaluateArbitrumGate json params = [] ↔
      toLowerCase json.token_address = ZERO_ADDRESS ∧ json.amount ≤ params.maxTransferWei ∧
        (requiredCollateral json.amount + params.gasBufferWei : Int) ≤ params.solverBalanceWei ∧
        params.nowSec < json.expiry - params.deliveryMarginSec := by
  unfold evaluateArbitrumGate
  simp only [List.append_eq_nil_iff, ite_eq_right_iff, List.cons_ne_nil, imp_false, not_not,
    not_lt, ge_iff_le, not_le, gt_iff_lt, and_assoc]

/-- What the evaluation of a candidate holds, whatever fails. -/
theorem evaluate_fields (intent : RoutingIntent) (nowSec : Int) (deps : SelectionDeps)
    (book : ReservationBook) (solver : Str) :
    let e := (evaluate intent nowSec deps (inFlight deps.ledger book) book solver).1
    e.solver = solver ∧ e.tierCapWei.getD 0 = capOf deps solver ∧
      e.availableWei.getD 0 = availableOf deps book solver ∧
      e.successRate = rateOf deps solver := by
  have hreserved := ReservationBook.reservedWei_fst book solver (deps.nowMs solver)
  intro e
  cases hb : deps.getBalanceWei solver <;> cases hs : deps.getSolverRecords <;>
    simp only [e, evaluate, capOf, availableOf, rateOf, inFlightWei, recordOf, hb, hs, hreserved,
      Option.getD_some, Option.getD_none, and_self]

/-- A candidate is eligible exactly when it satisfies every gate. -/
theorem eligible_iff (intent : RoutingIntent) (nowSec : Int) (deps : SelectionDeps)
    (book : ReservationBook) (solver : Str) :
    (evaluate intent nowSec deps (inFlight deps.ledger book) book solver).1.eligible = true ↔
      Satisfies intent nowSec deps book solver := by
  have hreserved := ReservationBook.reservedWei_fst book solver (deps.nowMs solver)
  unfold CandidateEvaluation.eligible
  rw [List.isEmpty_iff]
  cases hb : deps.getBalanceWei solver with
  | error e =>
    constructor
    · intro h
      simp [evaluate, hb] at h
    · intro h
      obtain ⟨balance, hread⟩ := h.balance_read
      rw [hb] at hread
      cases hread
  | ok balance =>
    cases hs : deps.getSolverRecords with
    | error e =>
      constructor
      · intro h
        simp [evaluate, hb, hs] at h
      · intro h
        obtain ⟨stats, hread⟩ := h.recorded
        rw [hs] at hread
        cases hread
    | ok stats =>
      simp only [evaluate, hb, hs, List.append_eq_nil_iff, approvalFailure_eq_nil,
        intentFailure_eq_nil, List.map_eq_nil_iff, evaluateArbitrumGate_eq_nil, hreserved,
        ite_eq_right_iff, List.cons_ne_nil, imp_false, not_lt]
      constructor
      · rintro ⟨⟨⟨happroved, hnative, hamount, hcapital, htime⟩, hopen⟩, hcap⟩
        refine ⟨happroved, hopen, ⟨stats, hs⟩, hnative, hamount, htime, ⟨balance, hb⟩, ?_, ?_⟩
        · unfold needed availableOf
          rw [floor_three_halves, hb]
          exact hcapital
        · unfold capOf
          rw [hs]
          exact hcap
      · intro h
        have hcapital := h.capital
        have hcap := h.within_cap
        unfold needed availableOf at hcapital
        rw [floor_three_halves, hb] at hcapital
        unfold capOf at hcap
        rw [hs] at hcap
        exact ⟨⟨⟨h.approved, h.native, h.amount_le, hcapital, h.in_time⟩, h.open_intent⟩, hcap⟩

/-! ## All candidates -/

/-- Evaluating a candidate touches no other solver's reservations. -/
theorem lookup_evaluate {s : Str} (h : s ≠ addrKey solver) :
    (evaluate intent nowSec deps flight book solver).2.lookup s = book.lookup s := by
  have hreserved := ReservationBook.lookup_reservedWei book (deps.nowMs solver) h
  cases hb : deps.getBalanceWei solver
  · simp only [evaluate, hb]
  · simp only [evaluate, hb, hreserved]

/-- The evaluation of a candidate sees its own reservations only. -/
theorem evaluate_congr {book' : ReservationBook}
    (same : book.lookup (addrKey solver) = book'.lookup (addrKey solver)) :
    (evaluate intent nowSec deps flight book solver).1 =
      (evaluate intent nowSec deps flight book' solver).1 := by
  have hreserved : (book.reservedWei solver (deps.nowMs solver)).1 =
      (book'.reservedWei solver (deps.nowMs solver)).1 := by
    rw [ReservationBook.reservedWei_fst, ReservationBook.reservedWei_fst]
    unfold ReservationBook.liveWei ReservationBook.forSolver
    rw [same]
  cases hb : deps.getBalanceWei solver
  · simp only [evaluate, hb]
  · simp only [evaluate, hb, hreserved]

/-- Each candidate is evaluated on the book as it was found. -/
theorem evaluateAll_fst (candidates : List Str) (distinct : (candidates.map addrKey).Nodup)
    {found : ReservationBook}
    (same : ∀ s ∈ candidates.map addrKey, found.lookup s = book.lookup s) :
    (evaluateAll intent nowSec deps flight found candidates).1 =
      candidates.map fun s => (evaluate intent nowSec deps flight book s).1 := by
  induction candidates generalizing found with
  | nil => rfl
  | cons solver rest ih =>
    have hfresh := (List.nodup_cons.mp distinct).1
    have hrest : ∀ s ∈ rest.map addrKey,
        (evaluate intent nowSec deps flight found solver).2.lookup s = book.lookup s := by
      intro s mem
      have hne : s ≠ addrKey solver := fun h => hfresh (h ▸ mem)
      rw [lookup_evaluate hne]
      exact same s (List.mem_cons_of_mem _ mem)
    rw [List.map_cons, ← ih (List.nodup_cons.mp distinct).2 hrest,
      ← evaluate_congr (same (addrKey solver) List.mem_cons_self)]
    rfl

/-- A reservation is gone only if it is a candidate's and had lapsed. -/
def Purged (deps : SelectionDeps) (candidates : List Str) (book found : ReservationBook) : Prop :=
  ∀ s i, found.find s i = book.find s i ∨
    found.find s i = none ∧ ∃ solver ∈ candidates, addrKey solver = s ∧
      ∃ r, book.find s i = some r ∧ ReservationBook.lapsed (deps.nowMs solver) r = true

theorem purged_evaluate :
    Purged deps [solver] book (evaluate intent nowSec deps flight book solver).2 := by
  intro s i
  cases hb : deps.getBalanceWei solver with
  | error e => exact Or.inl (by simp only [evaluate, hb])
  | ok balance =>
    simp only [evaluate, hb]
    by_cases hs : s = addrKey solver
    · subst hs
      rw [ReservationBook.find_reservedWei]
      cases hf : book.find (addrKey solver) i with
      | none => exact Or.inl rfl
      | some r =>
        cases hl : ReservationBook.lapsed (deps.nowMs solver) r
        · exact Or.inl (by simp [Option.filter, hl])
        · exact Or.inr ⟨by simp [Option.filter, hl], solver, List.mem_singleton_self _, rfl, r,
            rfl, hl⟩
    · left
      unfold ReservationBook.find
      rw [ReservationBook.lookup_reservedWei _ _ hs]

theorem Purged.trans {found left : ReservationBook} {candidates : List Str}
    (h : Purged deps [solver] book found) (h' : Purged deps candidates found left) :
    Purged deps (solver :: candidates) book left := by
  intro s i
  obtain hsame | ⟨hgone, t, ht, hkey, r, hr, hlapsed⟩ := h' s i
  · rw [hsame]
    obtain hfirst | ⟨hgone, t, ht, hlapsed⟩ := h s i
    · exact Or.inl hfirst
    · exact Or.inr ⟨hgone, t, List.mem_cons.mpr (Or.inl (List.mem_singleton.mp ht)), hlapsed⟩
  · obtain hfirst | ⟨hnone, -⟩ := h s i
    · exact Or.inr ⟨hgone, t, List.mem_cons_of_mem _ ht, hkey, r, hfirst ▸ hr, hlapsed⟩
    · rw [hr] at hnone
      cases hnone

theorem purged_evaluateAll (intent : RoutingIntent) (nowSec : Int)
    (flight : List (Str × ArbitrumLedgerEntry)) (candidates : List Str) :
    Purged deps candidates book (evaluateAll intent nowSec deps flight book candidates).2 := by
  induction candidates generalizing book with
  | nil => exact fun s i => Or.inl rfl
  | cons solver rest ih => exact purged_evaluate.trans ih

/-! ## The ranking -/

/-- An evaluation's place under `compareSurvivors`. -/
def rank (e : CandidateEvaluation) : ℤ ×ₗ (ℚᵒᵈ ×ₗ (ℤᵒᵈ ×ₗ Str)) :=
  toLex (e.tierCapWei.getD 0, toLex (OrderDual.toDual (byRate e),
    toLex (OrderDual.toDual (e.availableWei.getD 0), addrKey e.solver)))

theorem orNumber_le_zero {a b : ℚ} : orNumber a b ≤ 0 ↔ a < 0 ∨ a = 0 ∧ b ≤ 0 := by
  unfold orNumber
  split
  · next h =>
    constructor
    · intro hle
      exact Or.inl (lt_of_le_of_ne hle h)
    · rintro (hlt | ⟨hzero, -⟩)
      · exact hlt.le
      · exact absurd hzero h
  · next h =>
    rw [not_not] at h
    simp [h]

theorem cmpBig_lt_zero {a b : ℤ} : cmpBig a b < 0 ↔ a < b := by
  unfold cmpBig
  split_ifs with hlt hgt
  · exact ⟨fun _ => hlt, fun _ => by norm_num⟩
  · exact ⟨fun h => absurd h (by norm_num), fun h => absurd h hlt⟩
  · exact ⟨fun h => absurd h (lt_irrefl 0), fun h => absurd h hlt⟩

theorem cmpBig_eq_zero {a b : ℤ} : cmpBig a b = 0 ↔ a = b := by
  unfold cmpBig
  split_ifs <;> simp <;> omega

theorem compareSurvivors_le_zero (a b : CandidateEvaluation) :
    compareSurvivors a b ≤ 0 ↔ rank a ≤ rank b := by
  unfold compareSurvivors rank
  rw [orNumber_le_zero, orNumber_le_zero, orNumber_le_zero, cmpBig_lt_zero, cmpBig_eq_zero,
    cmpBig_lt_zero, cmpBig_eq_zero, Prod.Lex.toLex_le_toLex, Prod.Lex.toLex_le_toLex,
    Prod.Lex.toLex_le_toLex]
  have haddr : (if addrKey a.solver < addrKey b.solver then (-1 : ℚ)
      else if addrKey b.solver < addrKey a.solver then 1 else 0) ≤ 0 ↔
        addrKey a.solver ≤ addrKey b.solver := by
    split_ifs with hab hba
    · simp [hab.le]
    · exact ⟨fun h => absurd h (by norm_num), fun h => absurd hba (not_lt.mpr h)⟩
    · exact ⟨fun _ => not_lt.mp hba, fun _ => le_rfl⟩
  rw [haddr, sub_neg, sub_eq_zero]
  simp only [OrderDual.toDual_lt_toDual, OrderDual.toDual_inj, eq_comm]

/-- The survivor that comes first after sorting is the least of them. -/
theorem sortSurvivors_head {survivors rest : List CandidateEvaluation}
    {winner : CandidateEvaluation} (h : sortSurvivors survivors = winner :: rest) :
    winner ∈ survivors ∧ ∀ e ∈ survivors, rank winner ≤ rank e := by
  unfold sortSurvivors at h
  have hperm := List.mergeSort_perm survivors fun a b => decide (compareSurvivors a b ≤ 0)
  have hsorted := @List.pairwise_mergeSort _ (fun a b => decide (compareSurvivors a b ≤ 0))
    (by
      intro a b c hab hbc
      rw [decide_eq_true_iff, compareSurvivors_le_zero] at *
      exact hab.trans hbc)
    (by
      intro a b
      rw [Bool.or_eq_true, decide_eq_true_iff, decide_eq_true_iff, compareSurvivors_le_zero,
        compareSurvivors_le_zero]
      exact le_total _ _)
    survivors
  rw [h] at hperm hsorted
  refine ⟨hperm.mem_iff.mp List.mem_cons_self, ?_⟩
  intro e mem
  obtain rfl | hrest := List.mem_cons.mp (hperm.mem_iff.mpr mem)
  · exact le_rfl
  · have hle := (List.pairwise_cons.mp hsorted).1 e hrest
    rwa [decide_eq_true_iff, compareSurvivors_le_zero] at hle

theorem sortSurvivors_eq_nil {survivors : List CandidateEvaluation} :
    sortSurvivors survivors = [] ↔ survivors = [] := by
  unfold sortSurvivors
  rw [← List.length_eq_zero_iff, List.length_mergeSort, List.length_eq_zero_iff]

/-! ## The selection -/

/-- No record that was read has a negative rate. -/
def RatesNonneg (deps : SelectionDeps) : Prop :=
  ∀ stats, deps.getSolverRecords = .ok stats → ∀ solver, ∀ rate ∈ (recordOf stats solver).successRate,
    0 ≤ rate

/-- The records of `readSolverRecord` have none. -/
theorem ratesNonneg_of_readSolverRecord {readIntent : Str → Except Str OnChainIntent}
    {intentIds : List Str} {cache : TerminalCache} {exclusions : List SolverExclusionEntry}
    (h : deps.getSolverRecords =
      .ok (readSolverRecord readIntent intentIds cache exclusions).1) : RatesNonneg deps := by
  intro stats hstats solver rate hrate
  rw [h] at hstats
  cases hstats
  rw [(recordOf_readSolverRecord readIntent intentIds cache exclusions solver).2] at hrate
  split at hrate
  · cases hrate
  · cases hrate
    exact double_nonneg _

theorem rate_lt {r s : Option ℚ} (hr : ∀ q ∈ r, 0 ≤ q) (hs : ∀ q ∈ s, 0 ≤ q) :
    (r.getD (-1) < s.getD (-1) ↔ noneBelow r < noneBelow s) ∧
      (r.getD (-1) = s.getD (-1) ↔ r = s) := by
  cases r with
  | none =>
    cases s with
    | none => exact ⟨iff_of_false (lt_irrefl _) (lt_irrefl _), iff_of_true rfl rfl⟩
    | some q =>
      have hlt : (-1 : ℚ) < q := by linarith [hs q rfl]
      refine ⟨iff_of_true hlt (WithBot.bot_lt_coe q), iff_of_false hlt.ne ?_⟩
      intro h
      cases h
  | some p =>
    cases s with
    | none =>
      have hlt : (-1 : ℚ) < p := by linarith [hr p rfl]
      refine ⟨iff_of_false (not_lt.mpr hlt.le) not_lt_bot, iff_of_false hlt.ne' ?_⟩
      intro h
      cases h
    | some q => exact ⟨WithBot.coe_lt_coe.symm, Option.some_inj.symm⟩

/-- Sorting by rank is sorting by standing. -/
theorem standing_le (nonneg : RatesNonneg deps) {a b : CandidateEvaluation}
    (ha : a = (evaluate intent nowSec deps (inFlight deps.ledger book) book solver).1)
    (hb : b = (evaluate intent nowSec deps (inFlight deps.ledger book) book other).1)
    (h : rank a ≤ rank b) : standing deps book solver ≤ standing deps book other := by
  obtain ⟨hasolver, hacap, haavail, harate⟩ := evaluate_fields intent nowSec deps book solver
  obtain ⟨hbsolver, hbcap, hbavail, hbrate⟩ := evaluate_fields intent nowSec deps book other
  rw [← ha] at hasolver hacap haavail harate
  rw [← hb] at hbsolver hbcap hbavail hbrate
  have hsign : ∀ s : Str, ∀ q ∈ rateOf deps s, 0 ≤ q := by
    intro s q hq
    unfold rateOf at hq
    cases hstats : deps.getSolverRecords with
    | error e =>
      rw [hstats] at hq
      cases hq
    | ok stats =>
      rw [hstats] at hq
      exact nonneg stats hstats s q hq
  obtain ⟨hrate_lt, hrate_eq⟩ := rate_lt (hsign other) (hsign solver)
  unfold rank byRate at h
  unfold standing
  rw [← hasolver, ← hbsolver] at *
  rw [hacap, haavail, hbcap, hbavail, Prod.Lex.toLex_le_toLex, Prod.Lex.toLex_le_toLex] at h
  rw [Prod.Lex.toLex_le_toLex, Prod.Lex.toLex_le_toLex]
  refine h.imp_right (And.imp_right (Or.imp ?_ (And.imp_left ?_)))
  · intro hlt
    rw [harate, hbrate] at hlt
    exact OrderDual.toDual_lt_toDual.mpr (hrate_lt.mp (OrderDual.toDual_lt_toDual.mp hlt))
  · intro heq
    rw [harate, hbrate] at heq
    rw [hrate_eq.mp (OrderDual.toDual_inj.mp heq).symm]

/-- The evaluations of candidates that differ are those of the book as it was found. -/
theorem evaluations_eq (intent : RoutingIntent) (nowSec : Int) (deps : SelectionDeps)
    (book : ReservationBook) (candidates : List Str) (distinct : (candidates.map addrKey).Nodup) :
    (evaluateAll intent nowSec deps (inFlight deps.ledger book) book candidates).1 =
      candidates.map fun s =>
        (evaluate intent nowSec deps (inFlight deps.ledger book) book s).1 :=
  evaluateAll_fst candidates distinct fun _ _ => rfl

/-- The selected solver satisfies the gates and its rank is the least. -/
theorem selectSolver_first {candidates : List Str} {winner : Str}
    (distinct : (candidates.map addrKey).Nodup)
    (h : (selectSolver candidates intent nowSec deps book).1.solver = some winner) :
    winner ∈ candidates ∧ Satisfies intent nowSec deps book winner ∧
      ∀ other ∈ candidates, Satisfies intent nowSec deps book other →
        rank (evaluate intent nowSec deps (inFlight deps.ledger book) book winner).1 ≤
          rank (evaluate intent nowSec deps (inFlight deps.ledger book) book other).1 := by
  have hevals := evaluations_eq intent nowSec deps book candidates distinct
  unfold selectSolver at h
  dsimp only at h
  rw [hevals] at h
  split at h
  · cases h
  · next e rest hsort =>
    obtain ⟨hmem, hleast⟩ := sortSurvivors_head hsort
    obtain ⟨hmem, heligible⟩ := List.mem_filter.mp hmem
    obtain ⟨s, hs, heq⟩ := List.mem_map.mp hmem
    have hsolver := (evaluate_fields intent nowSec deps book s).1
    rw [heq] at hsolver
    have hwinner : s = winner := by
      rw [← hsolver]
      exact Option.some_inj.mp h
    subst hwinner
    refine ⟨hs, ?_, ?_⟩
    · rw [← eligible_iff, heq]
      exact heligible
    · intro other hother hsat
      have hmember := List.mem_map_of_mem
        (f := fun s => (evaluate intent nowSec deps (inFlight deps.ledger book) book s).1) hother
      have heligible' := (eligible_iff intent nowSec deps book other).mpr hsat
      rw [heq]
      exact hleast _ (List.mem_filter.mpr ⟨hmember, heligible'⟩)

/-- The selected solver satisfies the gates and stands no worse than any that does. -/
theorem selectSolver_some {candidates : List Str} {winner : Str}
    (distinct : (candidates.map addrKey).Nodup) (nonneg : RatesNonneg deps)
    (h : (selectSolver candidates intent nowSec deps book).1.solver = some winner) :
    winner ∈ candidates ∧ Satisfies intent nowSec deps book winner ∧
      ∀ other ∈ candidates, Satisfies intent nowSec deps book other →
        standing deps book winner ≤ standing deps book other := by
  obtain ⟨hmem, hsat, hleast⟩ := selectSolver_first distinct h
  exact ⟨hmem, hsat, fun other hother hsat' =>
    standing_le nonneg rfl rfl (hleast other hother hsat')⟩

/-- No solver is selected exactly when no candidate satisfies the gates. -/
theorem selectSolver_none {candidates : List Str} (distinct : (candidates.map addrKey).Nodup) :
    (selectSolver candidates intent nowSec deps book).1.solver = none ↔
      ∀ s ∈ candidates, ¬Satisfies intent nowSec deps book s := by
  have hevals := evaluations_eq intent nowSec deps book candidates distinct
  unfold selectSolver
  dsimp only
  rw [hevals]
  split
  · next hsort =>
    rw [sortSurvivors_eq_nil, List.filter_eq_nil_iff] at hsort
    refine iff_of_true rfl ?_
    intro s hs hsat
    exact hsort _ (List.mem_map.mpr ⟨s, hs, rfl⟩) ((eligible_iff intent nowSec deps book s).mpr hsat)
  · next e rest hsort =>
    obtain ⟨hmem, heligible⟩ := List.mem_filter.mp (sortSurvivors_head hsort).1
    obtain ⟨s, hs, heq⟩ := List.mem_map.mp hmem
    refine iff_of_false (by intro h; cases h) ?_
    intro hnone
    apply hnone s hs
    rw [← eligible_iff, heq]
    exact heligible

/-- Solvers that differ differ in where they stand. -/
theorem standing_ne (deps : SelectionDeps) (book : ReservationBook) {candidates : List Str}
    (distinct : (candidates.map addrKey).Nodup)
    (hs : solver ∈ candidates) (ho : other ∈ candidates) (h : other ≠ solver) :
    standing deps book solver ≠ standing deps book other := by
  intro heq
  have hkey : addrKey solver = addrKey other :=
    congrArg (fun s : Standing => (ofLex (ofLex (ofLex s).2).2).2) heq
  exact h (List.inj_on_of_nodup_map distinct hs ho hkey).symm

theorem selectSolver_perm {candidates permuted : List Str}
    (distinct : (candidates.map addrKey).Nodup) (nonneg : RatesNonneg deps)
    (perm : permuted.Perm candidates) :
    (selectSolver permuted intent nowSec deps book).1.solver =
      (selectSolver candidates intent nowSec deps book).1.solver := by
  have hdistinct : (permuted.map addrKey).Nodup := (perm.map addrKey).nodup_iff.mpr distinct
  cases hc : (selectSolver candidates intent nowSec deps book).1.solver with
  | none =>
    rw [selectSolver_none hdistinct]
    intro s hs
    exact (selectSolver_none distinct).mp hc s (perm.mem_iff.mp hs)
  | some winner =>
    obtain ⟨hmem, hsat, hleast⟩ := selectSolver_some distinct nonneg hc
    cases hp : (selectSolver permuted intent nowSec deps book).1.solver with
    | none => exact absurd hsat ((selectSolver_none hdistinct).mp hp winner (perm.mem_iff.mpr hmem))
    | some found =>
      obtain ⟨hmem', hsat', hleast'⟩ := selectSolver_some hdistinct nonneg hp
      by_contra hne
      have hother : found ≠ winner := fun h => hne (congrArg some h)
      apply standing_ne deps book distinct hmem (perm.mem_iff.mp hmem') hother
      exact le_antisymm (hleast found (perm.mem_iff.mp hmem') hsat')
        (hleast' winner (perm.mem_iff.mpr hmem) hsat)

/-- The book afterwards: lapsed reservations of candidates may be gone, and the winner's, if there
is a winner, is the one that was added. -/
theorem selectSolver_book (intent : RoutingIntent) (nowSec : Int) (deps : SelectionDeps)
    (book : ReservationBook) (candidates : List Str) :
    ∃ found, Purged deps candidates book found ∧
      (selectSolver candidates intent nowSec deps book).2 =
        match (selectSolver candidates intent nowSec deps book).1.solver with
        | none => found
        | some winner => found.reserve winner intent.id
            (requiredCollateral intent.json.amount + deps.gate.gasBufferWei) := by
  refine ⟨_, purged_evaluateAll intent nowSec (inFlight deps.ledger book) candidates, ?_⟩
  unfold selectSolver
  dsimp only
  split <;> rfl

/-- Whoever is selected stands before all others that satisfy the gates. -/
theorem selected_stands_first {candidates : List Str} {intent : RoutingIntent} {nowSec : Int}
    {book : ReservationBook} (distinct : (candidates.map addrKey).Nodup) (nonneg : RatesNonneg deps)
    {winner : Str} (h : (selectSolver candidates intent nowSec deps book).1.solver = some winner) :
    winner ∈ candidates ∧ Satisfies intent nowSec deps book winner ∧
      ∀ other ∈ candidates, Satisfies intent nowSec deps book other → other ≠ winner →
        standing deps book winner < standing deps book other := by
  obtain ⟨hmem, hsat, hleast⟩ := selectSolver_some distinct nonneg h
  refine ⟨hmem, hsat, fun other hother hsat' hne => ?_⟩
  exact lt_of_le_of_ne (hleast other hother hsat') (standing_ne deps book distinct hmem hother hne)

/-- The records that `readSolverRecord` makes of what it reads have no negative rate, so with them
nothing need be assumed of the rates. -/
theorem selected_on_track_record {candidates : List Str} {intent : RoutingIntent} {nowSec : Int}
    {book : ReservationBook} (distinct : (candidates.map addrKey).Nodup)
    {readIntent : Str → Except Str OnChainIntent} {intentIds : List Str} {cache : TerminalCache}
    {exclusions : List SolverExclusionEntry}
    (hrecords : deps.getSolverRecords =
      .ok (readSolverRecord readIntent intentIds cache exclusions).1)
    {winner : Str} (h : (selectSolver candidates intent nowSec deps book).1.solver = some winner) :
    ∀ other ∈ candidates, Satisfies intent nowSec deps book other → other ≠ winner →
      standing deps book winner < standing deps book other :=
  (selected_stands_first distinct (ratesNonneg_of_readSolverRecord hrecords) h).2.2

/-- `selectSolver` selects the candidate that stands first among those satisfying the gates, in
whatever order the candidates come, and adds its reservation and no other. -/
theorem selectSolver_selects (candidates : List Str) (intent : RoutingIntent) (nowSec : Int)
    (deps : SelectionDeps) (book : ReservationBook) (distinct : (candidates.map addrKey).Nodup)
    (nonneg : RatesNonneg deps) :
    let selected := selectSolver candidates intent nowSec deps book
    (selected.1.solver ≠ none ↔ ∃ s ∈ candidates, Satisfies intent nowSec deps book s) ∧
      (∀ winner, selected.1.solver = some winner →
        winner ∈ candidates ∧ Satisfies intent nowSec deps book winner ∧
          ∀ other ∈ candidates, Satisfies intent nowSec deps book other → other ≠ winner →
            standing deps book winner < standing deps book other) ∧
      (∀ permuted : List Str, permuted.Perm candidates →
        (selectSolver permuted intent nowSec deps book).1.solver = selected.1.solver) ∧
      ∃ found, ∃ wei : Nat, Purged deps candidates book found ∧ (wei : Int) = needed intent deps ∧
        ∀ s i, selected.2.find s i =
          if ∃ winner, selected.1.solver = some winner ∧ s = addrKey winner ∧
            i = intentKey intent.id
          then some ⟨wei, none⟩ else found.find s i := by
  intro selected
  refine ⟨?_, ?_, fun permuted perm => selectSolver_perm distinct nonneg perm, ?_⟩
  · rw [Ne, selectSolver_none distinct]
    push Not
    rfl
  · exact fun winner h => selected_stands_first distinct nonneg h
  · obtain ⟨found, hpurged, hbook⟩ := selectSolver_book intent nowSec deps book candidates
    refine ⟨found, requiredCollateral intent.json.amount + deps.gate.gasBufferWei, hpurged, ?_, ?_⟩
    · unfold needed
      rw [floor_three_halves]
      rfl
    · intro s i
      show (selectSolver candidates intent nowSec deps book).2.find s i = _
      rw [hbook]
      cases hw : (selectSolver candidates intent nowSec deps book).1.solver with
      | none =>
        rw [if_neg]
        rintro ⟨winner, h, -⟩
        cases h
      | some winner =>
        dsimp only
        rw [ReservationBook.find_reserve]
        apply if_congr _ rfl rfl
        constructor
        · intro h
          exact ⟨winner, rfl, h⟩
        · rintro ⟨winner', h, hs⟩
          cases h
          exact hs

/-! ### Two solvers -/

def samplePeer : Str := '0' :: 'x' :: List.replicate 40 '8'

/-- An intent of 100 wei, to be delivered by second 5000. -/
def sampleIntent : RoutingIntent :=
  { id := '0' :: 'x' :: List.replicate 64 'a'
    json := ⟨'0' :: 'x' :: List.replicate 64 'a', 100, ZERO_ADDRESS, 5000⟩ }

/-- Both solvers are approved and hold the collateral and the gas, and no more; the ledger has a
posting of the first in flight. -/
def sampleDeps : SelectionDeps where
  isApproved _ := .ok true
  getBalanceWei _ := .ok 160
  readIntent _ := .ok ⟨samplePeer, 100, ZERO_ADDRESS, INTENT_STATUS_PENDING, ZERO_ADDRESS, 0⟩
  getSolverRecords := .ok ⟨fun _ => none, [], true⟩
  getOnboardingTier _ := .T1
  ledger := AList.set (List.replicate 64 'b')
    { stage := .posting_collateral, solver := some sampleSolver, collateralWei := some 150 } ∅
  nowMs _ := 2000
  gate := ⟨1000, 10, 600⟩
  tierConfig := sampleConfig
  tierCapPct := fun | .T1 => 100 | .T2 => 30 | .T3 => 5

/-- A hold on that posting which has run out. -/
def sampleBook : ReservationBook :=
  AList.set sampleSolver (AList.set (List.replicate 64 'b') ⟨160, some 1000⟩ ∅) ∅

theorem sampleDeps_nonneg : RatesNonneg sampleDeps := by
  intro stats hstats solver rate hrate
  cases hstats
  cases hrate

/-- A candidate of the sample satisfies every gate when its capital does. -/
theorem sampleDeps_satisfies (book : ReservationBook) (solver : Str)
    (capital : needed sampleIntent sampleDeps ≤ availableOf sampleDeps book solver) :
    Satisfies sampleIntent 1000 sampleDeps book solver where
  approved := rfl
  open_intent := ⟨_, rfl, rfl, by decide⟩
  recorded := ⟨_, rfl⟩
  native := by decide
  amount_le := by decide
  in_time := by decide
  balance_read := ⟨160, rfl⟩
  capital
  within_cap := by
    unfold capOf recordOf
    exact (by decide +kernel : (100 : Int) ≤ tierCapWei
      (computeTier .T1 emptyRecordAccumulator.toRecord sampleConfig true) 1000
      sampleDeps.tierCapPct)

/-- With the book empty the first solver's posting counts, and the second is selected. -/
theorem selectSolver_selects_sample :
    (selectSolver [sampleSolver, samplePeer] sampleIntent 1000 sampleDeps ∅).1.solver ≠ none ∧
      (selectSolver [samplePeer, sampleSolver] sampleIntent 1000 sampleDeps ∅).1.solver =
        (selectSolver [sampleSolver, samplePeer] sampleIntent 1000 sampleDeps ∅).1.solver := by
  have hspec := selectSolver_selects [sampleSolver, samplePeer] sampleIntent 1000 sampleDeps ∅
    (by decide) sampleDeps_nonneg
  refine ⟨hspec.1.mpr ⟨samplePeer, by decide, ?_⟩, hspec.2.2.1 _ (List.Perm.swap _ _ _)⟩
  apply sampleDeps_satisfies
  decide +kernel

/-- With the lapsed hold still in the book neither the hold nor the posting counts: the solver is
selected although its balance less its one posting in flight does not cover the intent. -/
theorem lapsed_hold_hides_posting :
    (selectSolver [sampleSolver] sampleIntent 1000 sampleDeps sampleBook).1.solver =
        some sampleSolver ∧
      sampleBook.liveWei sampleSolver 2000 = 0 ∧
      sampleDeps.ledger.getPostingCollateralEntries = [(List.replicate 64 'b',
        { stage := .posting_collateral, solver := some sampleSolver, collateralWei := some 150 })] ∧
      (160 : Int) - 0 - (150 + 10) < needed sampleIntent sampleDeps := by
  refine ⟨?_, by decide, by decide, by decide +kernel⟩
  have hsat := sampleDeps_satisfies sampleBook sampleSolver (by decide +kernel)
  cases h : (selectSolver [sampleSolver] sampleIntent 1000 sampleDeps sampleBook).1.solver with
  | none => exact absurd hsat ((selectSolver_none (by decide)).mp h sampleSolver (by decide))
  | some winner =>
    have hmem := (selectSolver_some (by decide) sampleDeps_nonneg h).1
    rw [List.mem_singleton.mp hmem]

end Maat.Orchestrator
