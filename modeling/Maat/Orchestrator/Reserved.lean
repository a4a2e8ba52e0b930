import Maat.Lib.Run
import Maat.Orchestrator.Routed

/-!
# A dispatch where anything may throw

`dispatchArbitrumSettlement` with the faults it may meet: the selection throws, or
`buildSettlementDeps`, or a call or a write of records on any turn of the settlement. Other
dispatches use the same `ReservationBook` between its turns.
-/

namespace Maat.Orchestrator.Settlement

open Js Suspension

/-! ## The others -/

/-- What another dispatch does with the book. -/
inductive BookCall where
  | reserve (solver intentId : Str) (wei : Nat)
  | holdFor (solver intentId : Str) (nowMs holdMs : Nat)
  | release (solver intentId : Str)
  | reservedWei (solver : Str) (nowMs : Nat)
  deriving DecidableEq

namespace BookCall

def apply (book : ReservationBook) : BookCall → ReservationBook
  | reserve solver intentId wei => book.reserve solver intentId wei
  | holdFor solver intentId nowMs holdMs => book.holdFor solver intentId nowMs holdMs
  | release solver intentId => book.release solver intentId
  | reservedWei solver nowMs => (book.reservedWei solver nowMs).2

/-- It is for the reservation under a solver's and an intent's key. -/
def isFor (s i : Str) : BookCall → Bool
  | reserve solver intentId _ | holdFor solver intentId _ _ | release solver intentId =>
    addrKey solver = s && intentKey intentId = i
  | reservedWei _ _ => false

end BookCall

/-! ## The call -/

/-- How a call may fail before it waits for anything of the settlement. -/
inductive OpeningFault where
  /-- in the selection, with the reservations of so many candidates read -/
  | selecting (evaluated : Nat)
  /-- after it: in `buildSettlementDeps`, or in a write that leaves the records like this -/
  | selected (card : Card)

def dispatchOpening (deps : DispatchDeps) (intentId : Str) (json : ProofOutputJson)
    (zkProofHash : Option Str) (nowSec : Int) (book : ReservationBook) (card : Card) :
    Option (OpeningFault × Str) → Turn Dispatched SequencePoint Call Str
  | none => dispatchArbitrumSettlement deps intentId json zkProofHash nowSec book card
  | some (.selecting evaluated, error) =>
    let flight := inFlight deps.selection.ledger book
    let book :=
      if card.live then book
      else (evaluateAll ⟨intentId, json⟩ nowSec deps.selection flight book
        (deps.candidates.take evaluated)).2
    ⟨⟨card, book, false, none⟩, [], .threw error⟩
  | some (.selected card', error) =>
    let d := (dispatchArbitrumSettlement deps intentId json zkProofHash nowSec book card).state
    ⟨{ d with card := card' }.releaseReservation intentId, [], .threw error⟩

inductive DispatchEvent where
  | reply (reply : Reply)
  /-- what follows the reply throws, and leaves the records like this -/
  | broken (reply : Reply) (card : Card) (error : Str)
  | elsewhere (call : BookCall)
  deriving DecidableEq

/-- A turn that throws. What a transaction's `onSigned` throws goes to the dependency that calls
it, and what that makes of it comes as a reply of its own. -/
def brokenResume (config : Config) (deps : DispatchDeps) (intentId : Str) (card : Card)
    (error : Str) : Resume Dispatched SequencePoint Call Reply Str := fun d point reply =>
  match d.job with
  | none => none
  | some job =>
    (sequenceResume config job d.card point reply).map fun _ =>
      let next := if reply.signs then .await point else .threw error
      let d := { d with card }
      let d := d.afterPost intentId deps.reservationHoldMs point reply
      ⟨d.afterSequence intentId next, [], next⟩

def dispatchStep (config : Config) (deps : DispatchDeps) (intentId : Str)
    (t : Turn Dispatched SequencePoint Call Str) :
    DispatchEvent → Option (Turn Dispatched SequencePoint Call Str)
  | .reply reply => feed (dispatchResume config deps intentId) t reply
  | .broken reply card error => feed (brokenResume config deps intentId card error) t reply
  | .elsewhere call =>
    -- reservations are made for a dispatch's own intent
    if t.state.job.any fun job => call.isFor (addrKey job.solverAddress) (intentKey intentId) then
      none
    else some { t with state := { t.state with book := call.apply t.state.book } }

end Maat.Orchestrator.Settlement
