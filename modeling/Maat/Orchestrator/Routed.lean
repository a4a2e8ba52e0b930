import Maat.Orchestrator.Sequence

/-!
# A settlement that is routed first

`dispatchArbitrumSettlement` of `orchestrator/src/solver_routing.ts`, for one intent: the selection,
then the settlement sequence with the dependencies of the solver that was selected, the reservation
leaving the book with the outcome of `postCollateral` or when the sequence ends. The reads of the
selection are values, as in `selectSolver`.
-/

namespace Maat.Orchestrator.Settlement

open Js Suspension

/-- The hold is a finite number, not below zero. -/
structure DispatchDeps where
  candidates : List Str
  selection : SelectionDeps
  reservationHoldMs : Nat

/-- The records of the intent, the reservations of all, and what the call has in its closure. -/
structure Dispatched where
  card : Card
  book : ReservationBook
  reservationResolved : Bool
  job : Option Job

namespace Dispatched

def releaseReservation (d : Dispatched) (intentId : Str) : Dispatched :=
  match d.job with
  | some job =>
    if d.reservationResolved then d
    else { d with
      reservationResolved := true, book := d.book.release job.solverAddress intentId }
  | none => d

def holdReservation (d : Dispatched) (intentId : Str) (nowMs holdMs : Nat) : Dispatched :=
  match d.job with
  | some job => { d with
      reservationResolved := true, book := d.book.holdFor job.solverAddress intentId nowMs holdMs }
  | none => d

/-- Around the `postCollateral` of the selected solver. -/
def afterPost (d : Dispatched) (intentId : Str) (holdMs : Nat) (point : SequencePoint)
    (reply : Reply) : Dispatched :=
  match point, reply.answer with
  | .posting, .outcome true _ => d.holdReservation intentId reply.now.toNat holdMs
  | .posting, .outcome false _ | .posting, .threw _ => d.releaseReservation intentId
  | _, _ => d

/-- The `finally` of the sequence. -/
def afterSequence (d : Dispatched) (intentId : Str) (next : Suspension.Next SequencePoint Str) :
    Dispatched :=
  match next with
  | .await _ => d
  | .returned | .threw _ => d.releaseReservation intentId

end Dispatched

/-- What the selected solver's settlement is given. -/
def selectedJob (selection : SelectionResult) (solver : Str) (json : ProofOutputJson)
    (zkProofHash : Option Str) : Job where
  solverAddress := solver
  routing := some ⟨⟨some solver, selection.tier, selection.reason⟩, some selection.collateralWei⟩
  json
  zkProofHash

def dispatchArbitrumSettlement (deps : DispatchDeps) (intentId : Str) (json : ProofOutputJson)
    (zkProofHash : Option Str) (nowSec : Int) (book : ReservationBook) (card : Card) :
    Turn Dispatched SequencePoint Call Str :=
  if card.live then
    (runArbitrumSettlementSequence card).mapState fun card => ⟨card, book, false, none⟩
  else
    let (selection, book) := selectSolver deps.candidates ⟨intentId, json⟩ nowSec deps.selection book
    match selection.solver with
    | none =>
      let routing := some ⟨⟨none, none, selection.reason⟩, none⟩
      ⟨⟨refuseArbitrumSettlement card json routing, book, false, none⟩, [], .returned⟩
    | some solver =>
      (runArbitrumSettlementSequence card).mapState fun card =>
        ⟨card, book, false, some (selectedJob selection solver json zkProofHash)⟩

def dispatchResume (config : Config) (deps : DispatchDeps) (intentId : Str) :
    Resume Dispatched SequencePoint Call Reply Str := fun d point reply =>
  match d.job with
  | none => none
  | some job =>
    (sequenceResume config job d.card point reply).map fun t =>
      let d := { d with card := t.state }
      let d := d.afterPost intentId deps.reservationHoldMs point reply
      ⟨d.afterSequence intentId t.next, t.calls, t.next⟩

end Maat.Orchestrator.Settlement
