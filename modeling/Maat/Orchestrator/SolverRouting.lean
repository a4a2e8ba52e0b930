import Maat.Orchestrator.ArbitrumLedger
import Maat.Orchestrator.Gate

/-!
# Which solver posts the collateral

`orchestrator/src/solver_routing.ts`: the reservations held in memory, and `selectSolver`. The
reads are values here, one for each solver; `decide` is the synchronous part after the last of
them.
-/

namespace Maat.Orchestrator

open Js

def intentKey (intentId : Str) : Str := keyOf intentId

/-! ## Reservations -/

/-- `releaseAtMs` is `none` until the collateral confirms. -/
structure Reservation where
  wei : Nat
  releaseAtMs : Option Nat
  deriving DecidableEq, Repr

/-- By solver and, under it, by intent. -/
abbrev ReservationBook := AList fun _ : Str => AList fun _ : Str => Reservation

namespace ReservationBook

/-- The hold has run out. -/
def lapsed (now : Nat) (r : Reservation) : Bool :=
  match r.releaseAtMs with
  | none => false
  | some releaseAtMs => decide (releaseAtMs ≤ now)

def forSolver (book : ReservationBook) (solver : Str) : AList fun _ : Str => Reservation :=
  (book.lookup (addrKey solver)).getD ∅

def reserve (book : ReservationBook) (solver intentId : Str) (wei : Nat) : ReservationBook :=
  book.set (addrKey solver) ((book.forSolver solver).set (intentKey intentId) ⟨wei, none⟩)

/-- From when the collateral is known to have landed, count it for `holdMs` more. -/
def holdFor (book : ReservationBook) (solver intentId : Str) (nowMs holdMs : Nat) :
    ReservationBook :=
  match (book.forSolver solver).lookup (intentKey intentId) with
  | some ⟨wei, none⟩ =>
    book.set (addrKey solver)
      ((book.forSolver solver).set (intentKey intentId) ⟨wei, some (nowMs + holdMs)⟩)
  | _ => book

def release (book : ReservationBook) (solver intentId : Str) : ReservationBook :=
  match book.lookup (addrKey solver) with
  | some reservations => book.set (addrKey solver) (reservations.erase (intentKey intentId))
  | none => book

/-- The reservations that have not lapsed. -/
def live (now : Nat) (reservations : AList fun _ : Str => Reservation) :
    AList fun _ : Str => Reservation :=
  ⟨reservations.entries.filter fun e => !lapsed now e.2,
    reservations.nodupKeys.sublist List.filter_sublist⟩

/-- What is reserved, and the book without the reservations found to have lapsed. -/
def reservedWei (book : ReservationBook) (solver : Str) (now : Nat) : Nat × ReservationBook :=
  match book.lookup (addrKey solver) with
  | none => (0, book)
  | some reservations =>
    (((live now reservations).entries.map fun e => e.2.wei).sum,
      book.set (addrKey solver) (live now reservations))

/-- The intent has a reservation under some solver, lapsed or not. -/
def hasIntent (book : ReservationBook) (intentId : Str) : Bool :=
  book.entries.any fun e => decide (intentKey intentId ∈ e.2)

end ReservationBook

/-! ## selectSolver -/

structure RoutingIntent where
  id : Str
  json : ProofOutputJson
  deriving DecidableEq, Repr

structure GateConfig where
  maxTransferWei : Nat
  gasBufferWei : Nat
  deliveryMarginSec : Int
  deriving DecidableEq, Repr

/-- `nowMs` is the clock when a solver's reservations are summed. -/
structure SelectionDeps where
  isApproved : Str → Except Str Bool
  getBalanceWei : Str → Except Str Nat
  readIntent : Str → Except Str OnChainIntent
  getSolverRecords : Except Str ReadSolverRecordResult
  getOnboardingTier : Str → Tier
  ledger : ArbitrumLedger Str
  nowMs : Str → Nat
  gate : GateConfig
  tierConfig : TierConfig
  tierCapPct : TierCapPct

structure CandidateEvaluation where
  solver : Str
  reasons : List String
  tier : Option Tier
  tierCapWei : Option Int
  successRate : Option ℚ
  availableWei : Option Int
  deriving DecidableEq

def CandidateEvaluation.eligible (e : CandidateEvaluation) : Bool := e.reasons.isEmpty

structure SelectionResult where
  solver : Option Str
  tier : Option Tier
  reason : String
  collateralWei : Nat
  reservationWei : Nat
  candidates : List CandidateEvaluation
  deriving DecidableEq

/-- Why no solver may take this intent, whoever it is. -/
def intentFailure (onChain : Except Str OnChainIntent) : List String :=
  match onChain with
  | .error _ => ["intent_read_failed"]
  | .ok intent =>
    if intent.status ≠ INTENT_STATUS_PENDING ∨ toLowerCase intent.solver ≠ ZERO_ADDRESS then
      let status := toString intent.status
      let solver := String.ofList intent.solver
      [s!"intent_not_open_onchain(status={status},solver={solver})"]
    else []

/-- The ledger's collateral in flight that the book does not know of. -/
def inFlight (ledger : ArbitrumLedger Str) (book : ReservationBook) :
    List (Str × ArbitrumLedgerEntry) :=
  ledger.getPostingCollateralEntries.filter fun e => !book.hasIntent e.1

/-- What an entry takes from a solver: its collateral, or the largest when that is not recorded,
and nothing when it is another solver's. -/
def entryWei (gate : GateConfig) (solver : Str) (entry : ArbitrumLedgerEntry) : Nat :=
  if entry.solver.any fun s => !s.isEmpty && addrKey s != addrKey solver then 0
  else entry.collateralWei.getD (requiredCollateral gate.maxTransferWei) + gate.gasBufferWei

def ledgerReservedWei (gate : GateConfig) (entries : List (Str × ArbitrumLedgerEntry))
    (solver : Str) : Nat :=
  (entries.map fun e => entryWei gate solver e.2).sum

def approvalFailure (approved : Except Str Bool) : List String :=
  match approved with
  | .error _ => ["approval_read_failed"]
  | .ok approved => if approved then [] else ["not_approved"]

/-- The evaluation of one candidate, and the book after its reservations were summed. -/
def evaluate (intent : RoutingIntent) (nowSec : Int) (deps : SelectionDeps)
    (flight : List (Str × ArbitrumLedgerEntry)) (book : ReservationBook) (solver : Str) :
    CandidateEvaluation × ReservationBook :=
  let json := intent.json
  let reservationWei := requiredCollateral json.amount + deps.gate.gasBufferWei
  let gateParams : ArbitrumGateParams :=
    ⟨deps.gate.maxTransferWei, 0, deps.gate.gasBufferWei, nowSec, deps.gate.deliveryMarginSec⟩
  let (availableWei, capital, book) :=
    match deps.getBalanceWei solver with
    | .error _ =>
      (none, "balance_read_failed" ::
        (evaluateArbitrumGate json gateParams).filter fun c => c != "insufficient_solver_balance",
        book)
    | .ok balance =>
      let (reserved, book) := book.reservedWei solver (deps.nowMs solver)
      let availableWei : Int := balance - reserved - ledgerReservedWei deps.gate flight solver
      (some availableWei,
        (evaluateArbitrumGate json { gateParams with solverBalanceWei := availableWei }).map
          fun check => if check = "insufficient_solver_balance" then
            s!"insufficient_available_capital(available={availableWei},required={reservationWei})"
            else check,
        book)
  let (tier, cap, successRate, record) :=
    match deps.getSolverRecords with
    | .error _ => (none, none, none, ["track_record_unavailable"])
    | .ok stats =>
      let record := (stats.records (addrKey solver)).getD emptyRecordAccumulator.toRecord
      let tier := computeTier (deps.getOnboardingTier solver) record deps.tierConfig stats.complete
      let cap := tierCapWei tier deps.gate.maxTransferWei deps.tierCapPct
      let number := tier.toInt
      let amount := json.amount
      (some tier, some cap, record.successRate,
        if cap < amount then [s!"tier_cap_exceeded(T{number} cap={cap} < amount={amount})"]
        else [])
  ({ solver, tier, tierCapWei := cap, successRate, availableWei
     reasons := approvalFailure (deps.isApproved solver) ++ capital ++
       intentFailure (deps.readIntent intent.id) ++ record }, book)

/-- The candidates one after the other. -/
def evaluateAll (intent : RoutingIntent) (nowSec : Int) (deps : SelectionDeps)
    (flight : List (Str × ArbitrumLedgerEntry)) :
    ReservationBook → List Str → List CandidateEvaluation × ReservationBook
  | book, [] => ([], book)
  | book, solver :: rest =>
    let (evaluation, book) := evaluate intent nowSec deps flight book solver
    let (evaluations, book) := evaluateAll intent nowSec deps flight book rest
    (evaluation :: evaluations, book)

/-- No history ranks below any recorded rate. -/
def byRate (e : CandidateEvaluation) : ℚ := e.successRate.getD (-1)

/-- The comparator the survivors are sorted with. -/
def compareSurvivors (a b : CandidateEvaluation) : ℚ :=
  orNumber (cmpBig (a.tierCapWei.getD 0) (b.tierCapWei.getD 0))
    (orNumber (byRate b - byRate a)
      (orNumber (cmpBig (b.availableWei.getD 0) (a.availableWei.getD 0))
        (if addrKey a.solver < addrKey b.solver then -1
          else if addrKey b.solver < addrKey a.solver then 1 else 0)))

/-- `survivors.sort`, which is stable. -/
def sortSurvivors (survivors : List CandidateEvaluation) : List CandidateEvaluation :=
  survivors.mergeSort fun a b => decide (compareSurvivors a b ≤ 0)

def whyChosen (winner : CandidateEvaluation) (rest : List CandidateEvaluation) : String :=
  match rest with
  | [] => "only eligible solver"
  | runnerUp :: _ =>
    if winner.tierCapWei ≠ runnerUp.tierCapWei then "smallest eligible tier cap"
    else if byRate winner ≠ byRate runnerUp then "higher success rate"
    else if winner.availableWei ≠ runnerUp.availableWei then "more available capital"
    else "lowest-address tie-break"

/-- Why no candidate may take the intent. -/
def refusalDetail (evaluations : List CandidateEvaluation) : String :=
  if evaluations.isEmpty then "no solvers configured"
  else "; ".intercalate (evaluations.map fun e =>
    let solver := String.ofList e.solver
    let reasons := ", ".intercalate e.reasons
    s!"{solver}: {reasons}")

/-- Evaluate, rank and reserve in one step. The book is the one found after the last read. -/
def selectSolver (candidates : List Str) (intent : RoutingIntent) (nowSec : Int)
    (deps : SelectionDeps) (book : ReservationBook) : SelectionResult × ReservationBook :=
  let collateralWei := requiredCollateral intent.json.amount
  let reservationWei := collateralWei + deps.gate.gasBufferWei
  let (evaluations, book) :=
    evaluateAll intent nowSec deps (inFlight deps.ledger book) book candidates
  match sortSurvivors (evaluations.filter CandidateEvaluation.eligible) with
  | [] =>
    let detail := refusalDetail evaluations
    ({ solver := none, tier := none, reason := s!"no eligible solver — {detail}"
       collateralWei, reservationWei, candidates := evaluations }, book)
  | winner :: rest =>
    let solver := String.ofList winner.solver
    let tier := winner.tier.elim "null" fun t => toString t.toInt
    let why := whyChosen winner rest
    ({ solver := some winner.solver, tier := winner.tier
       reason := s!"selected {solver} (T{tier}): {why}"
       collateralWei, reservationWei, candidates := evaluations },
      book.reserve winner.solver intent.id reservationWei)

end Maat.Orchestrator
