import Maat.Lib.Run
import Maat.Orchestrator.SolverRouting

/-!
# Concurrent dispatches

`dispatchArbitrumSettlement` of `orchestrator/src/solver_routing.ts`, any number of calls at a
time, up to the outcome of `postCollateral`. The selections take turns (`runExclusive`); the reads
of one selection, its decision, the last gate and the transaction may be any time apart. Around
the calls are the solvers' wallets and the transactions that were signed.
-/

namespace Maat.Orchestrator.Dispatch

open Js

/-- An intent's id, without `0x` and in lower case. -/
abbrev Id := { id : Str // intentKey id = id }

/-- `candidates` are the configured solvers; two of the same address are refused at start. The hold
is a finite number, not below zero. `json` is the proof's output for an intent. -/
structure Config where
  candidates : List Str
  distinct : (candidates.map addrKey).Nodup
  gate : GateConfig
  reservationHoldMs : Nat
  json : Id → ProofOutputJson

/-- The collateral and the gas buffer: what is reserved for the intent, and the most that its
transaction spends. -/
def Config.wei (C : Config) (id : Id) : Nat :=
  requiredCollateral (C.json id).amount + C.gate.gasBufferWei

/-- The read of a candidate's balance: the true balance at `atMs`, or a rejected promise. -/
structure Read where
  solver : Str
  balance : Option Nat
  atMs : Nat
  deriving DecidableEq, Repr

/-- What a call awaits. -/
inductive Call where
  /-- its turn, or the next read of its selection -/
  | selecting (id : Id) (reads : List Read) (left : List Str)
  /-- the balance for the last gate -/
  | assigned (id : Id) (solver : Str)
  /-- the signature of `postCollateral` -/
  | signing (id : Id) (solver : Str)
  /-- sending `postCollateral` and its receipt -/
  | outcome (id : Id) (solver hash : Str)
  deriving DecidableEq

def Call.id : Call → Id
  | .selecting id _ _ | .assigned id _ | .signing id _ | .outcome id _ _ => id

inductive PostStatus where
  /-- it can still land -/
  | pending
  | included (ok : Bool) (atMs : Nat)
  /-- it was never sent, or another one has its nonce -/
  | dropped
  deriving DecidableEq, Repr

/-- A signed `postCollateral`. -/
structure PostTx where
  id : Id
  solver : Str
  status : PostStatus
  deriving DecidableEq

/-- `balance` is by the address' key; `queue` holds the calls in the order of their turns. -/
structure State where
  nowMs : Nat
  ledger : ArbitrumLedger Str
  book : ReservationBook
  balance : Str → Nat
  txs : Str → Option PostTx
  calls : AList fun _ : Nat => Call
  queue : List Nat

inductive Event where
  | time (ms : Nat)
  /-- a solver's wallet receives `wei` -/
  | deposit (solver : Str) (wei : Nat)
  | dispatch (k : Nat) (id : Id)
  /-- the balance of the next candidate is read; `ok` is false when the read fails -/
  | read (k : Nat) (ok : Bool)
  /-- the last read has come back; `deps` gives the answers other than balances -/
  | decide (k : Nat) (nowSec : Int) (deps : SelectionDeps)
  | gate (k : Nat) (nowSec : Int) (balanceWei : Nat)
  | sign (k : Nat) (hash : Str)
  | receipt (k : Nat)
  /-- `postCollateral` returns `ok: false` without a receipt -/
  | fails (k : Nat)
  /-- the sequence throws -/
  | throws (k : Nat)
  | included (hash : Str) (spentWei : Nat) (ok : Bool)
  | dropped (hash : Str)

/-- The ledger allows a new settlement of the intent. -/
def startable (ledger : ArbitrumLedger Str) (id : Id) : Bool :=
  (ledger.lookup id.1).all fun entry => entry.stage == .collateral_failed

namespace State

/-- What a selection is given: its own reads, and the rest as it is now. -/
def selectionDeps (C : Config) (s : State) (reads : List Read) (deps : SelectionDeps) :
    SelectionDeps :=
  { deps with
    getBalanceWei := fun solver =>
      match (reads.find? fun r => decide (r.solver = solver)).bind Read.balance with
      | some balance => .ok balance
      | none => .error []
    ledger := s.ledger
    nowMs := fun _ => s.nowMs
    gate := C.gate }

/-- The call ends. -/
def finish (s : State) (k : Nat) : State := { s with calls := s.calls.erase k }

/-- `releaseReservation` -/
def release (s : State) (solver : Str) (id : Id) : State :=
  { s with book := s.book.release solver id.1 }

def setStage (s : State) (id : Id) (stage : ArbitrumStage)
    (patch : ArbitrumLedgerEntry → ArbitrumLedgerEntry) : State :=
  { s with ledger := s.ledger.setArbitrumStage id.1 stage patch }

/-- The collateral was not posted: the reservation is released and the ledger says so. -/
def collateralFailed (C : Config) (s : State) (k : Nat) (id : Id) (solver : Str)
    (hash : Option Str) : State :=
  ((s.release solver id).setStage id .collateral_failed fun e => { e with
    collateralTxHash := hash, expiry := some (C.json id).expiry
    collateralWei := some (requiredCollateral (C.json id).amount) }).finish k

end State

def step (C : Config) (s : State) : Event → Option State
  | .time ms => if s.nowMs ≤ ms then some { s with nowMs := ms } else none
  | .deposit solver wei =>
    some { s with
      balance := Function.update s.balance (addrKey solver) (s.balance (addrKey solver) + wei) }
  | .dispatch k id =>
    if s.calls.lookup k = none ∧ ∀ e ∈ s.calls.entries, e.2.id ≠ id then
      if startable s.ledger id then
        some { s with
          calls := s.calls.insert k (.selecting id [] C.candidates)
          queue := s.queue ++ [k] }
      -- the sequence itself refuses an intent that is under way
      else some s
    else none
  | .read k ok =>
    match s.calls.lookup k with
    | some (.selecting id reads (solver :: left)) =>
      if s.queue.head? = some k then
        let balance := if ok then some (s.balance (addrKey solver)) else none
        some { s with
          calls := s.calls.insert k (.selecting id (reads ++ [⟨solver, balance, s.nowMs⟩]) left) }
      else none
    | _ => none
  | .decide k nowSec deps =>
    match s.calls.lookup k with
    | some (.selecting id reads []) =>
      if s.queue.head? = some k then
        let (selection, book) := selectSolver C.candidates ⟨id.1, C.json id⟩ nowSec
          (s.selectionDeps C reads deps) s.book
        let s := { s with book, queue := s.queue.tail }
        match selection.solver with
        | none => some ((s.setStage id .collateral_failed fun e => { e with
            expiry := some (C.json id).expiry }).finish k)
        | some solver =>
          if startable s.ledger id then
            some { s with calls := s.calls.insert k (.assigned id solver) }
          else some ((s.release solver id).finish k)
      else none
    | _ => none
  | .gate k nowSec balanceWei =>
    match s.calls.lookup k with
    | some (.assigned id solver) =>
      if (evaluateArbitrumGate (C.json id) ⟨C.gate.maxTransferWei, balanceWei,
          C.gate.gasBufferWei, nowSec, C.gate.deliveryMarginSec⟩).isEmpty then
        some { s with calls := s.calls.insert k (.signing id solver) }
      else
        some (((s.setStage id .collateral_failed fun e => { e with
          expiry := some (C.json id).expiry
          collateralWei := some (requiredCollateral (C.json id).amount) }).release
            solver id).finish k)
    | _ => none
  | .sign k hash =>
    match s.calls.lookup k with
    | some (.signing id solver) =>
      if s.txs hash = none then
        let s := s.setStage id .posting_collateral fun e => { e with
          collateralTxHash := some hash, expiry := some (C.json id).expiry, solver := some solver
          collateralWei := some (requiredCollateral (C.json id).amount) }
        some { s with
          txs := Function.update s.txs hash (some ⟨id, solver, .pending⟩)
          calls := s.calls.insert k (.outcome id solver hash) }
      else none
    | _ => none
  | .receipt k =>
    match s.calls.lookup k with
    | some (.outcome id solver hash) =>
      match (s.txs hash).map PostTx.status with
      | some (.included true _) =>
        some (({ s with book := s.book.holdFor solver id.1 s.nowMs C.reservationHoldMs }.setStage
          id .collateral_posted fun e => { e with
            collateralTxHash := some hash, expiry := some (C.json id).expiry }).finish k)
      | some (.included false _) => some (s.collateralFailed C k id solver (some hash))
      | _ => none
    | _ => none
  | .fails k =>
    match s.calls.lookup k with
    | some (.signing id solver) | some (.outcome id solver _) =>
      some (s.collateralFailed C k id solver none)
    | _ => none
  | .throws k =>
    match s.calls.lookup k with
    | some (.assigned id solver) | some (.signing id solver) | some (.outcome id solver _) =>
      some ((s.release solver id).finish k)
    | _ => none
  | .included hash spentWei ok =>
    match s.txs hash with
    | some ⟨id, solver, .pending⟩ =>
      if spentWei ≤ C.wei id ∧ spentWei ≤ s.balance (addrKey solver) then
        some { s with
          txs := Function.update s.txs hash (some ⟨id, solver, .included ok s.nowMs⟩)
          balance := Function.update s.balance (addrKey solver)
            (s.balance (addrKey solver) - spentWei) }
      else none
    | _ => none
  | .dropped hash =>
    match s.txs hash with
    | some ⟨id, solver, .pending⟩ =>
      some { s with txs := Function.update s.txs hash (some ⟨id, solver, .dropped⟩) }
    | _ => none

end Maat.Orchestrator.Dispatch
