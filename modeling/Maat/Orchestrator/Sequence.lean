import Maat.Lib.Suspension
import Maat.Lib.Number
import Maat.Orchestrator.SettledLedger
import Maat.Orchestrator.SolverRouting

/-!
# The settlement sequence over its dependencies

`runArbitrumSettlementSequence` and `confirmSettlementWithRetry` of
`orchestrator/src/arbitrum_settlement.ts`, as they are written: against an `ArbitrumSettlementDeps`
of which nothing is known. A call of a dependency may be answered or throw, at any time; a
transaction's `onSigned` may be called any number of times before its outcome. Each function works
on the records of one intent, a `Card`.
-/

namespace Maat.Orchestrator.Settlement

open Js Suspension

/-! ## Records -/

/-- What routing decided, in the ledger and on display. -/
structure RoutingDecision where
  selectedSolver : Option Str
  tierAtSelection : Option Tier
  routingReason : String
  deriving DecidableEq

/-- `RoutingDecisionFields`: a patch of ledger entries. -/
structure Routing where
  decision : RoutingDecision
  collateralWei : Option Nat
  deriving DecidableEq

structure RoutedEntry extends ArbitrumLedgerEntry where
  routing : Option RoutingDecision := none
  deriving DecidableEq

/-- `arbitrumSettlement` and `solverRouting` of the display state. -/
structure Display where
  stage : Option ArbitrumStage := none
  collateralTxHash : Option Str := none
  confirmTxHash : Option Str := none
  slashTxHash : Option Str := none
  solverRouting : Option RoutingDecision := none
  deriving DecidableEq

/-- What is on record about one intent: the two ledgers and the display state. -/
structure Card where
  arb : Option RoutedEntry
  settled : Option LedgerEntry
  display : Display
  deriving DecidableEq

namespace Card

def setArbitrumStage (card : Card) (stage : ArbitrumStage) (patch : RoutedEntry → RoutedEntry) :
    Card :=
  { card with arb := some { patch (card.arb.getD { stage }) with stage } }

def mirrorDisplay (card : Card) (stage : ArbitrumStage) (patch : Display → Display) : Card :=
  { card with display := { patch card.display with stage := some stage } }

def mirrorRouting (card : Card) (routing : Option Routing) : Card :=
  match routing with
  | none => card
  | some r => { card with display := { card.display with solverRouting := some r.decision } }

def markSettled (card : Card) : Card :=
  { card with settled := some ⟨.settled, card.settled.bind LedgerEntry.solanaSig⟩ }

def isAlreadySettled (card : Card) : Bool := card.settled.any fun entry => entry.status == .settled

@[simp] theorem setArbitrumStage_arb (card : Card) (stage : ArbitrumStage)
    (patch : RoutedEntry → RoutedEntry) :
    (card.setArbitrumStage stage patch).arb =
      some { patch (card.arb.getD { stage }) with stage } := rfl

@[simp] theorem mirrorDisplay_arb (card : Card) (stage : ArbitrumStage)
    (patch : Display → Display) : (card.mirrorDisplay stage patch).arb = card.arb := rfl

@[simp] theorem mirrorRouting_arb (card : Card) (routing : Option Routing) :
    (card.mirrorRouting routing).arb = card.arb := by
  cases routing <;> rfl

/-- The entry is past the point where a settlement may begin. -/
def live (card : Card) : Bool := card.arb.any fun row => row.stage != .collateral_failed

end Card

/-- `{...entry, ...routing}` -/
def RoutedEntry.patch (entry : RoutedEntry) : Option Routing → RoutedEntry
  | none => entry
  | some r => { entry with
    routing := some r.decision, collateralWei := r.collateralWei.or entry.collateralWei }

/-! ## Calls and replies -/

inductive Call where
  | getSolverBalanceWei
  | readIntent
  | postCollateral (valueWei : Nat)
  | runSolanaPayout (zkProofHash : Str)
  | confirmSettlement (zkProofHash : Str)
  | slashSolver
  | checkSolanaSignatureLanded (sig : Str)
  | getTransactionReceipt (hash : Str)
  | sleep (ms : Option Number)
  deriving DecidableEq

inductive Answer where
  | threw (error : Str)
  | balance (wei : Nat)
  | record (intent : OnChainIntent)
  /-- `onSigned(hash)` -/
  | signed (hash : Str)
  | outcome (ok : Bool) (txHash : Option Str)
  | payout (ok : Bool)
  | landed (yes : Bool)
  | receipt (ok : Bool)
  | elapsed
  deriving DecidableEq

/-- An answer, and the clock (`Date.now()`) when it comes. -/
structure Reply where
  now : Int
  answer : Answer
  deriving DecidableEq

/-- `Math.floor(Date.now() / 1000)` -/
def toSec (ms : Int) : Int := ms / 1000

def Reply.nowSec (reply : Reply) : Int := toSec reply.now

/-- A transaction is signed: nothing of it leaves before. -/
def Reply.signs (reply : Reply) : Bool := reply.answer matches .signed _

structure Config where
  gate : GateConfig
  verifyAttempts : Number
  verifyDelayMs : Number
  payoutRetryIntervalMs : Number
  /-- the parts of `CONFIRM_RETRY_BACKOFF_MS`, as numbers -/
  confirmRetryBackoffMs : List Number
  confirmRetryMaxSecAfterExpiry : Number

/-- `REFUND_GRACE` of the contract -/
def CLAIM_REFUND_GRACE_SEC : Int := 24 * 3600

/-- The process refuses to start with any other. -/
def Config.boots (config : Config) : Bool :=
  !Number.ge config.confirmRetryMaxSecAfterExpiry (.ofInt CLAIM_REFUND_GRACE_SEC)

/-- The list with what is not finite and positive taken out. -/
def Config.backoffs (config : Config) : List Number :=
  config.confirmRetryBackoffMs.filter fun n => n.isFinite && Number.lt (.finite 0) n

/-- The wait after an attempt; `undefined` where the list is empty. -/
def Config.backoff (config : Config) (attempt : Nat) : Option Number :=
  config.backoffs[min (attempt - 1) (config.backoffs.length - 1)]?

/-- What the functions are given for an intent: whose account posts the collateral, the proof's
output, and the hash of its file, if that can be read. -/
structure Job where
  solverAddress : Str
  routing : Option Routing
  json : ProofOutputJson
  zkProofHash : Option Str

/-! ## confirmSettlementWithRetry -/

inductive ConfirmPoint where
  | reading (attempt : Nat)
  | confirming (attempt : Nat)
  | sleeping (attempt : Nat)
  deriving DecidableEq

def confirmSettlementWithRetry (card : Card) : Turn Card ConfirmPoint Call Str :=
  ⟨card, [.readIntent], .await (.reading 1)⟩

/-- `json.expiry + CONFIRM_RETRY_MAX_SEC_AFTER_EXPIRY` -/
def Config.deadline (config : Config) (expiry : Int) : Number :=
  Number.add (.ofInt expiry) config.confirmRetryMaxSecAfterExpiry

def confirmResume (config : Config) (expiry : Int) (zkProofHash : Str) :
    Resume Card ConfirmPoint Call Reply Str := fun card point reply =>
  match point, reply.answer with
  | .reading attempt, .record onChain =>
    if onChain.status = INTENT_STATUS_SETTLED then
      let card := (card.setArbitrumStage .confirmed fun e => { e with expiry := some expiry })
        |>.mirrorDisplay .confirmed id
      some ⟨card, [], .returned⟩
    else if onChain.status = INTENT_STATUS_SLASHED ∨ onChain.status = INTENT_STATUS_REFUNDED then
      some ⟨card, [], .returned⟩
    else some ⟨card, [.confirmSettlement zkProofHash], .await (.confirming attempt)⟩
  | .confirming attempt, .signed hash =>
    let card := (card.setArbitrumStage .confirming fun e => { e with
        confirmTxHash := some hash, expiry := some expiry })
      |>.mirrorDisplay .confirming fun d => { d with confirmTxHash := some hash }
    some ⟨card, [], .await (.confirming attempt)⟩
  | .confirming _, .outcome true txHash =>
    let card := (card.setArbitrumStage .confirmed fun e => { e with
        confirmTxHash := txHash, expiry := some expiry })
      |>.mirrorDisplay .confirmed fun d => { d with confirmTxHash := txHash }
    some ⟨card, [], .returned⟩
  | .confirming attempt, .outcome false txHash =>
    if Number.ge (.ofInt reply.nowSec) (config.deadline expiry) then
      let card := card.mirrorDisplay .confirming fun d => { d with confirmTxHash := txHash }
      some ⟨card, [], .returned⟩
    else some ⟨card, [.sleep (config.backoff attempt)], .await (.sleeping attempt)⟩
  | .sleeping attempt, .elapsed => some ⟨card, [.readIntent], .await (.reading (attempt + 1))⟩
  | .reading _, .threw error | .confirming _, .threw error => some ⟨card, [], .threw error⟩
  | _, _ => none

/-! ## resumeArbitrumSettlementFromCollateralPosted -/

inductive PayPoint where
  /-- in `readIntentAfterPostCollateral` -/
  | verifying (attempt : Nat)
  | verifySleeping (attempt : Nat)
  | paying (zkProofHash : Str)
  | paySleeping (zkProofHash : Str)
  | confirm (zkProofHash : Str) (point : ConfirmPoint)
  deriving DecidableEq

def resumeArbitrumSettlementFromCollateralPosted (card : Card) : Turn Card PayPoint Call Str :=
  ⟨card, [.readIntent], .await (.verifying 1)⟩

/-- What the chain shows before `postCollateral`, or where it is not up to date. -/
def OnChainIntent.isPrePost (onChain : OnChainIntent) : Bool :=
  decide (toLowerCase onChain.solver = ZERO_ADDRESS ∧ onChain.status = INTENT_STATUS_PENDING)

def payResume (config : Config) (job : Job) : Resume Card PayPoint Call Reply Str :=
  fun card point reply =>
  match point, reply.answer with
  | .verifying attempt, .record onChain =>
    if Number.lt (.ofInt attempt) config.verifyAttempts && OnChainIntent.isPrePost onChain then
      some ⟨card, [.sleep (some config.verifyDelayMs)], .await (.verifySleeping attempt)⟩
    else if toLowerCase onChain.solver ≠ toLowerCase job.solverAddress ∨
        onChain.status ≠ INTENT_STATUS_PENDING then some ⟨card, [], .returned⟩
    else
      match job.zkProofHash with
      | none => some ⟨card, [], .threw "ENOENT".toList⟩
      | some zkProofHash =>
        some ⟨card, [.runSolanaPayout zkProofHash], .await (.paying zkProofHash)⟩
  | .verifySleeping attempt, .elapsed =>
    some ⟨card, [.readIntent], .await (.verifying (attempt + 1))⟩
  | .paying zkProofHash, .payout true =>
    some ((confirmSettlementWithRetry card).within (.confirm zkProofHash))
  | .paying zkProofHash, .payout false =>
    if reply.nowSec < job.json.expiry - config.gate.deliveryMarginSec then
      some ⟨card, [.sleep (some config.payoutRetryIntervalMs)], .await (.paySleeping zkProofHash)⟩
    else
      let card := (card.setArbitrumStage .awaiting_expiry_slash fun e => { e with
          expiry := some job.json.expiry })
        |>.mirrorDisplay .awaiting_expiry_slash id
      some ⟨card, [], .returned⟩
  | .paySleeping zkProofHash, .elapsed =>
    some ⟨card, [.runSolanaPayout zkProofHash], .await (.paying zkProofHash)⟩
  | .confirm zkProofHash point, _ =>
    (confirmResume config job.json.expiry zkProofHash card point reply).map
      (Turn.within (.confirm zkProofHash))
  | .verifying _, .threw error | .paying _, .threw error => some ⟨card, [], .threw error⟩
  | _, _ => none

/-! ## runArbitrumSettlementSequence -/

inductive SequencePoint where
  | balance
  | posting
  | pay (point : PayPoint)
  deriving DecidableEq

def refuseArbitrumSettlement (card : Card) (json : ProofOutputJson) (routing : Option Routing) :
    Card :=
  ((card.setArbitrumStage .collateral_failed fun e => { e.patch routing with
      expiry := some json.expiry })
    |>.mirrorRouting routing).mirrorDisplay .collateral_failed id

def runArbitrumSettlementSequence (card : Card) : Turn Card SequencePoint Call Str :=
  if card.live then ⟨card, [], .returned⟩
  else ⟨card, [.getSolverBalanceWei], .await .balance⟩

/-- The gate on a balance, at a time. -/
def gateFailures (config : Config) (json : ProofOutputJson) (balanceWei nowSec : Int) :
    List String :=
  evaluateArbitrumGate json
    ⟨config.gate.maxTransferWei, balanceWei, config.gate.gasBufferWei, nowSec,
      config.gate.deliveryMarginSec⟩

def sequenceResume (config : Config) (job : Job) : Resume Card SequencePoint Call Reply Str :=
  fun card point reply =>
  match point, reply.answer with
  | .balance, .balance wei =>
    if gateFailures config job.json wei reply.nowSec = [] then
      some ⟨card, [.postCollateral (requiredCollateral job.json.amount)], .await .posting⟩
    else some ⟨refuseArbitrumSettlement card job.json job.routing, [], .returned⟩
  | .posting, .signed hash =>
    let card := ((card.setArbitrumStage .posting_collateral fun e => { e.patch job.routing with
        collateralTxHash := some hash, expiry := some job.json.expiry
        solver := some job.solverAddress })
      |>.mirrorRouting job.routing).mirrorDisplay .posting_collateral fun d => { d with
        collateralTxHash := some hash }
    some ⟨card, [], .await .posting⟩
  | .posting, .outcome true txHash =>
    let card := (card.setArbitrumStage .collateral_posted fun e => { e with
        collateralTxHash := txHash, expiry := some job.json.expiry })
      |>.mirrorDisplay .collateral_posted fun d => { d with collateralTxHash := txHash }
    some ((resumeArbitrumSettlementFromCollateralPosted card).within .pay)
  | .posting, .outcome false txHash =>
    let card := ((card.setArbitrumStage .collateral_failed fun e => { e.patch job.routing with
        collateralTxHash := txHash, expiry := some job.json.expiry })
      |>.mirrorRouting job.routing).mirrorDisplay .collateral_failed fun d => { d with
        collateralTxHash := txHash }
    some ⟨card, [], .returned⟩
  | .pay point, _ => (payResume config job card point reply).map (Turn.within .pay)
  | .balance, .threw error | .posting, .threw error => some ⟨card, [], .threw error⟩
  | _, _ => none

end Maat.Orchestrator.Settlement
