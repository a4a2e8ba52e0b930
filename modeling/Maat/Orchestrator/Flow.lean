import Maat.Orchestrator.SettledLedger
import Maat.Orchestrator.SolverRouting

/-!
# The flows of the orchestrator

`orchestrator/src/arbitrum_settlement.ts` and the parts of `listener.ts` and `prover_pipeline.ts`
that drive it. A flow is an `async` function that has come to an `await`: a `Point` says which one
and with which local values, a `Next` is the loop around it. The code between two `await`s runs in
one piece; `resume` is that code. Intents are given by their ledger keys.
-/

namespace Maat.Orchestrator

open Js

/-- The transactions on Arbitrum. -/
inductive TxKind where
  | post (solver : Str)
  | confirm
  | slash
  deriving DecidableEq, Repr

inductive TxState where
  | sent
  | success
  | reverted
  deriving DecidableEq, Repr

/-- A signed transaction. `threw` records that the call that sent it, or that waited for its
receipt, threw. -/
structure Tx (ι : Type) where
  intent : ι
  kind : TxKind
  state : TxState
  threw : Bool
  deriving DecidableEq

/-- A signed `receive_settlement`. -/
structure Payout (ι : Type) where
  intent : ι
  sent : Bool
  landed : Bool
  deriving DecidableEq

/-- A `settle_intent.js` process. It may send once it was told to go; `attached` is false when the
orchestrator that spawned it is gone. -/
structure Child (ι : Type) where
  intent : ι
  sig : Option Str
  go : Bool
  attached : Bool
  deriving DecidableEq

/-- The intent in the contract, now and in every earlier state. -/
structure Contract where
  current : OnChainIntent
  past : List OnChainIntent
  deriving DecidableEq

/-- Everything the flows share, and what they act on. `attempts` lists the calls of
`runSolanaPayout`: the intent, the time, and whether it was settled already. -/
structure World (ι : Type) where
  now : Int
  arb : ArbitrumLedger ι
  settled : SettledLedger ι
  hasProof : ι → Bool
  txs : Str → Option (Tx ι)
  payouts : Str → Option (Payout ι)
  children : Nat → Option (Child ι)
  nextChild : Nat
  contract : ι → Contract
  attempts : List (ι × Int × Bool)

/-- `json` is the proof's output for an intent. -/
structure Params (ι : Type) where
  json : ι → ProofOutputJson
  gate : GateConfig
  confirmRetryMaxSecAfterExpiry : Int
  verifyAttempts : Nat
  defaultSolver : Str

/-- What a flow awaits. -/
inductive Point (ι : Type) where
  /-- `selectSolver` -/
  | selecting (i : ι)
  /-- the solver's balance, for the last gate -/
  | balance (i : ι) (solver : Str)
  /-- the signature of a transaction -/
  | signing (i : ι) (kind : TxKind)
  /-- sending a signed transaction and its receipt -/
  | outcome (i : ι) (kind : TxKind) (hash : Str)
  /-- reading the intent after its collateral was posted -/
  | verifying (i : ι) (solver : Str) (attempt : Nat)
  /-- the end of a `settle_intent.js` -/
  | paying (i : ι) (child : Nat)
  /-- the result of `runSolanaPayout` -/
  | payoutReturned (i : ι) (ok : Bool)
  | retrySleep (i : ι)
  /-- reading the intent before `confirmSettlement` -/
  | confirmRead (i : ι)
  /-- whether a payout landed, before slashing -/
  | checking (i : ι) (sig : Str)
  /-- whether a settling payout landed -/
  | reconciling (i : ι) (sig : Str)
  /-- the intents whose Arbitrum side is to be resumed -/
  | newlySettled (ids : List ι)
  | bootReceipt (i : ι) (entry : ArbitrumLedgerEntry) (hash : Str)
  /-- reading the intent; the receipt of its transaction is known, or not found -/
  | bootRead (i : ι) (entry : ArbitrumLedgerEntry) (receipt : Option Bool)
  deriving DecidableEq

/-- What a flow does after the intent it works on. -/
inductive Next (ι : Type) where
  | stop
  | tick (rest : List (ι × ArbitrumLedgerEntry))
  | recon (rest : List (ι × Str)) (newly : List ι)
  | bootRecon (rest : List (ι × Str))
  | bootMid (rest : List (ι × ArbitrumLedgerEntry))
  | bootPosted (rest : List ι)
  deriving DecidableEq

/-- Where a flow comes to wait. `checkedAt` is set where the time was compared with the delivery
margin, or where a resumption of the settlement began. -/
structure Stop (ι : Type) where
  point : Point ι
  next : Next ι
  checkedAt : Option Int := none
  deriving DecidableEq

/-- What an `await` comes back with. -/
inductive Answer where
  /-- the promise is rejected -/
  | error
  | selected (solver : Option Str)
  | balance (wei : Nat)
  | signed (hash : Str)
  | receipt (ok : Bool)
  | record (intent : OnChainIntent)
  | landed (yes : Bool)
  | closed (ok : Bool)
  /-- a timer, or a promise that was resolved already -/
  | ready
  deriving DecidableEq

variable {ι : Type} [DecidableEq ι]

def Params.expiry (P : Params ι) (i : ι) : Int := (P.json i).expiry

namespace World

def setStage (w : World ι) (i : ι) (stage : ArbitrumStage)
    (patch : ArbitrumLedgerEntry → ArbitrumLedgerEntry) : World ι :=
  { w with arb := w.arb.setArbitrumStage i stage patch }

def markSettled (w : World ι) (i : ι) : World ι := { w with settled := w.settled.markSettled i }

/-- The ledger allows a new settlement of the intent. -/
def startable (w : World ι) (i : ι) : Bool :=
  (w.arb.lookup i).all fun entry => entry.stage == .collateral_failed

end World

/-! ## Loops -/

/-- `resumeCollateralPostedIntent` up to its first `await`, if it comes to one. -/
def resumeCollateralPostedIntent (P : Params ι) (w : World ι) (i : ι) : Option (Point ι) :=
  match w.arb.lookup i with
  | none => none
  | some entry =>
    if entry.stage ≠ .collateral_posted then none
    else if w.hasProof i = false then none
    else if w.settled.isAlreadySettled i then some (.confirmRead i)
    else some (.verifying i (entry.solver.getD P.defaultSolver) 1)

/-- The second loop of `reconcileArbitrumLedger`. -/
def postedLoop (P : Params ι) (w : World ι) : List ι → Option (Stop ι)
  | [] => none
  | i :: rest =>
    match resumeCollateralPostedIntent P w i with
    | some point => some ⟨point, .bootPosted rest, some w.now⟩
    | none => postedLoop P w rest

/-- The hash of the transaction that the entry's stage is about. -/
def stageHash (entry : ArbitrumLedgerEntry) : Option Str :=
  match entry.stage with
  | .posting_collateral => entry.collateralTxHash
  | .confirming => entry.confirmTxHash
  | _ => entry.slashTxHash

/-- The first loop of `reconcileArbitrumLedger`, then the second. -/
def midLoop (P : Params ι) (w : World ι) : List (ι × ArbitrumLedgerEntry) → Option (Stop ι)
  | [] => postedLoop P w (w.arb.getCollateralPostedEntries.map Prod.fst)
  | (i, entry) :: rest =>
    match stageHash entry with
    | some hash => some ⟨.bootReceipt i entry hash, .bootMid rest, none⟩
    | none => some ⟨.bootRead i entry none, .bootMid rest, none⟩

/-- `reconcileSettlingLedger` at boot, then `reconcileArbitrumLedger`. -/
def bootReconLoop (P : Params ι) (w : World ι) : List (ι × Str) → Option (Stop ι)
  | [] => midLoop P w w.arb.getMidSequenceEntries
  | (i, sig) :: rest => some ⟨.reconciling i sig, .bootRecon rest, none⟩

/-- The periodic `reconcileSettlingLedger`, then the resumptions. -/
def reconLoop (newly : List ι) : List (ι × Str) → Option (Stop ι)
  | [] => if newly.isEmpty then none else some ⟨.newlySettled newly, .stop, none⟩
  | (i, sig) :: rest => some ⟨.reconciling i sig, .recon rest newly, none⟩

/-- `resumeConfirmIfSolanaLanded`, for an entry that is due, up to its first `await` or that of
the slashing after it. -/
def dueEntry (w : World ι) (i : ι) : Option (Point ι) :=
  match w.settled.lookup i with
  | some ⟨.settled, _⟩ => if w.hasProof i then some (.confirmRead i) else none
  | some ⟨.settling, some sig⟩ => some (.checking i sig)
  | _ => some (.signing i .slash)

/-- `pollAwaitingSlash` from one of the entries it found on. -/
def tickLoop (w : World ι) : List (ι × ArbitrumLedgerEntry) → Option (Stop ι)
  | [] => none
  | (i, entry) :: rest =>
    if entry.expiry.any fun expiry => decide (expiry ≤ w.now) then
      match dueEntry w i with
      | some point => some ⟨point, .tick rest, none⟩
      | none => tickLoop w rest
    else tickLoop w rest

/-- The intent is done with: what the flow comes to wait for next, if anything. -/
def goOn (P : Params ι) (w : World ι) : Next ι → Option (Stop ι)
  | .stop => none
  | .tick rest => tickLoop w rest
  | .recon rest newly => reconLoop newly rest
  | .bootRecon rest => bootReconLoop P w rest
  | .bootMid rest => midLoop P w rest
  | .bootPosted rest => postedLoop P w rest

/-- An exception: only the second loop of `reconcileArbitrumLedger` catches it. -/
def throws (P : Params ι) (w : World ι) : Next ι → Option (Stop ι)
  | .bootPosted rest => postedLoop P w rest
  | _ => none

/-! ## Steps -/

/-- `refuseArbitrumSettlement` -/
def refuse (P : Params ι) (w : World ι) (i : ι) : World ι :=
  w.setStage i .collateral_failed fun e => { e with expiry := some (P.expiry i) }

/-- `runSolanaPayout` up to its `await`. -/
def runSolanaPayout (w : World ι) (i : ι) : World ι × Point ι :=
  let w := { w with attempts := w.attempts ++ [(i, w.now, w.settled.isAlreadySettled i)] }
  match w.settled.lookup i with
  | some ⟨.settled, _⟩ => (w, .payoutReturned i true)
  | some ⟨.settling, _⟩ => (w, .payoutReturned i false)
  | none =>
    ({ w with
      children := Function.update w.children w.nextChild (some ⟨i, none, false, true⟩)
      nextChild := w.nextChild + 1 }, .paying i w.nextChild)

/-- The `onSigned` callback of a transaction. -/
def onSigned (P : Params ι) (w : World ι) (i : ι) (hash : Str) : TxKind → World ι
  | .post solver => w.setStage i .posting_collateral fun e => { e with
      collateralTxHash := some hash, expiry := some (P.expiry i), solver := some solver
      collateralWei := some (requiredCollateral (P.json i).amount) }
  | .confirm => w.setStage i .confirming fun e => { e with
      confirmTxHash := some hash, expiry := some (P.expiry i) }
  | .slash => w.setStage i .slashing fun e => { e with slashTxHash := some hash }

/-- What follows the outcome of a transaction; `hash` is that of the outcome, if it has one. -/
def txDone (P : Params ι) (w : World ι) (next : Next ι) (i : ι) (kind : TxKind) (ok : Bool)
    (hash : Option Str) : World ι × Option (Stop ι) :=
  match kind, ok with
  | .post solver, true =>
    (w.setStage i .collateral_posted fun e => { e with
      collateralTxHash := hash, expiry := some (P.expiry i) },
      some ⟨.verifying i solver 1, next, none⟩)
  | .post _, false =>
    let w := w.setStage i .collateral_failed fun e => { e with
      collateralTxHash := hash, expiry := some (P.expiry i) }
    (w, goOn P w next)
  | .confirm, true =>
    let w := w.setStage i .confirmed fun e => { e with
      confirmTxHash := hash, expiry := some (P.expiry i) }
    (w, goOn P w next)
  | .confirm, false =>
    if w.now ≥ P.expiry i + P.confirmRetryMaxSecAfterExpiry then (w, goOn P w next)
    else (w, some ⟨.confirmRead i, next, none⟩)
  | .slash, true =>
    let w := w.setStage i .slashed fun e => { e with slashTxHash := hash }
    (w, goOn P w next)
  | .slash, false => (w, goOn P w next)

/-- The read of the intent that follows the receipt, in `reconcileArbitrumLedger`. -/
def bootResolve (w : World ι) (i : ι) (entry : ArbitrumLedgerEntry) (receipt : Option Bool)
    (onChain : OnChainIntent) : World ι :=
  if onChain.status = INTENT_STATUS_SETTLED then
    w.setStage i .confirmed fun e => { e with
      confirmTxHash := entry.confirmTxHash.or (stageHash entry) }
  else if onChain.status = INTENT_STATUS_SLASHED then
    w.setStage i .slashed fun e => { e with slashTxHash := entry.slashTxHash.or (stageHash entry) }
  else if onChain.status = INTENT_STATUS_REFUNDED then w
  else if entry.stage = .posting_collateral then
    match receipt with
    | some true => w.setStage i .collateral_posted fun e => { e with
        collateralTxHash := stageHash entry }
    | some false => w.setStage i .collateral_failed fun e => { e with
        collateralTxHash := stageHash entry }
    | none => w
  else w

/-- The signed transaction is on record before `onSigned` runs. -/
def World.sign (w : World ι) (i : ι) (kind : TxKind) (hash : Str) : World ι :=
  { w with txs := Function.update w.txs hash (some ⟨i, kind, .sent, false⟩) }

def World.txThrew (w : World ι) (hash : Str) : World ι :=
  { w with txs := Function.update w.txs hash ((w.txs hash).map fun tx => { tx with threw := true }) }

def World.removeChild (w : World ι) (c : Nat) : World ι :=
  { w with children := Function.update w.children c none }

/-- The last gate, on a fresh balance. -/
def finalGate (P : Params ι) (w : World ι) (i : ι) (wei : Nat) : List String :=
  evaluateArbitrumGate (P.json i)
    ⟨P.gate.maxTransferWei, wei, P.gate.gasBufferWei, w.now, P.gate.deliveryMarginSec⟩

/-- From an `await` to the next: the code of the flow on the answer. -/
def resume (P : Params ι) (w : World ι) (next : Next ι) :
    Point ι → Answer → Option (World ι × Option (Stop ι))
  | .selecting i, .selected none =>
    let w := refuse P w i
    some (w, goOn P w next)
  | .selecting i, .selected (some solver) =>
    if w.startable i then some (w, some ⟨.balance i solver, next, none⟩)
    else some (w, goOn P w next)
  | .balance i solver, .balance wei =>
    if (finalGate P w i wei).isEmpty then
      some (w, some ⟨.signing i (.post solver), next, some w.now⟩)
    else
      let w := refuse P w i
      some (w, goOn P w next)
  | .signing i kind, .signed hash =>
    if w.txs hash = none then
      some (onSigned P (w.sign i kind hash) i hash kind, some ⟨.outcome i kind hash, next, none⟩)
    else none
  | .signing i kind, .error => some (txDone P w next i kind false none)
  | .outcome i kind hash, .receipt ok => some (txDone P w next i kind ok (some hash))
  | .outcome i kind hash, .error => some (txDone P (w.txThrew hash) next i kind false none)
  | .verifying i solver attempt, .record onChain =>
    if attempt < P.verifyAttempts ∧ toLowerCase onChain.solver = ZERO_ADDRESS ∧
        onChain.status = INTENT_STATUS_PENDING then
      some (w, some ⟨.verifying i solver (attempt + 1), next, none⟩)
    else if toLowerCase onChain.solver ≠ toLowerCase solver ∨
        onChain.status ≠ INTENT_STATUS_PENDING then some (w, goOn P w next)
    else
      let (w, point) := runSolanaPayout w i
      some (w, some ⟨point, next, none⟩)
  | .paying i c, .closed true =>
    some ((w.removeChild c).markSettled i, some ⟨.payoutReturned i true, next, none⟩)
  | .paying i c, .closed false =>
    some (w.removeChild c, some ⟨.payoutReturned i false, next, none⟩)
  | .payoutReturned i true, .ready => some (w, some ⟨.confirmRead i, next, none⟩)
  | .payoutReturned i false, .ready =>
    if w.now < P.expiry i - P.gate.deliveryMarginSec then
      some (w, some ⟨.retrySleep i, next, some w.now⟩)
    else
      let w := w.setStage i .awaiting_expiry_slash fun e => { e with expiry := some (P.expiry i) }
      some (w, goOn P w next)
  | .retrySleep i, .ready =>
    let (w, point) := runSolanaPayout w i
    some (w, some ⟨point, next, none⟩)
  | .confirmRead i, .record onChain =>
    if onChain.status = INTENT_STATUS_SETTLED then
      let w := w.setStage i .confirmed fun e => { e with expiry := some (P.expiry i) }
      some (w, goOn P w next)
    else if onChain.status = INTENT_STATUS_SLASHED ∨ onChain.status = INTENT_STATUS_REFUNDED then
      some (w, goOn P w next)
    else some (w, some ⟨.signing i .confirm, next, none⟩)
  | .checking i _, .landed true =>
    let w := w.markSettled i
    if w.hasProof i then some (w, some ⟨.confirmRead i, next, none⟩) else some (w, goOn P w next)
  | .checking i _, .landed false => some (w, some ⟨.signing i .slash, next, none⟩)
  | .reconciling i _, .landed true =>
    let w := w.markSettled i
    match next with
    | .recon rest newly => some (w, goOn P w (.recon rest (newly ++ [i])))
    | next => some (w, goOn P w next)
  | .reconciling _ _, .landed false => some (w, goOn P w next)
  | .reconciling _ _, .error => some (w, goOn P w next)
  | .bootReceipt i entry _, .receipt ok => some (w, some ⟨.bootRead i entry (some ok), next, none⟩)
  | .bootReceipt i entry _, .error => some (w, some ⟨.bootRead i entry none, next, none⟩)
  | .bootRead i entry receipt, .record onChain =>
    let w := bootResolve w i entry receipt onChain
    some (w, goOn P w next)
  | .selecting _, .error | .balance _ _, .error | .verifying _ _ _, .error
  | .confirmRead _, .error | .checking _ _, .error => some (w, throws P w next)
  | _, _ => none

end Maat.Orchestrator
