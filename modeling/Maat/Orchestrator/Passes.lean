import Maat.Lib.Sweep
import Maat.Orchestrator.Flow
import Maat.Orchestrator.Sequence

/-!
# The passes over the ledgers

`reconcileArbitrumLedger`, `resumeCollateralPostedIntent` and `pollAwaitingSlash` of
`orchestrator/src/arbitrum_settlement.ts` and `reconcileSettlingLedger` of `prover_pipeline.ts`.
Each pass loops over the entries of one kind. What it does for an entry works on the records of
that intent, its `Card`, and is a computation of its own; a pass runs it to its end, on the replies
that the intent's dependency calls get, before it comes to the next.
-/

namespace Maat.Orchestrator.Settlement

open Js Suspension

/-! ## What the passes are given -/

/-- The proof files of an intent: what `readProofJson` makes of them, and `computeZkProofHash`. -/
inductive ProofFiles where
  | missing
  /-- a text that parses to no object, so that reading its `mode` throws -/
  | corrupt
  | present (json : ProofOutputJson) (zkProofHash : Option Str)

/-- `buildRunSolanaPayout`, for an intent -/
inductive PayoutBuilder where
  | absent
  /-- `decodeDestinationWallet` throws. -/
  | throws
  | builds

structure ResumeDeps where
  solverAddress : Str
  proof : ProofFiles
  payout : PayoutBuilder

/-! ## resumeCollateralPostedIntent -/

inductive PostedPoint where
  | confirm (zkProofHash : Str) (point : ConfirmPoint)
  | pay (solver : Str) (point : PayPoint)
  deriving DecidableEq

/-- `entry.solver ?? deps.solverAddress` -/
def recordedSolver (deps : ResumeDeps) (entry : RoutedEntry) : Str :=
  entry.solver.getD deps.solverAddress

def resumeCollateralPostedIntent (deps : ResumeDeps) (card : Card) :
    Turn Card PostedPoint Call Str :=
  match card.arb with
  | none => ⟨card, [], .returned⟩
  | some entry =>
    if entry.stage ≠ .collateral_posted then ⟨card, [], .returned⟩
    else
      match deps.proof with
      | .missing | .corrupt => ⟨card, [], .returned⟩
      | .present _ zkProofHash =>
        if card.isAlreadySettled then
          match zkProofHash with
          | none => Turn.caught ⟨card, [], .threw "ENOENT".toList⟩
          | some zkProofHash => (confirmSettlementWithRetry card).within (.confirm zkProofHash)
        else
          match deps.payout with
          | .absent | .throws => ⟨card, [], .returned⟩
          | .builds => (resumeArbitrumSettlementFromCollateralPosted card).within
            (.pay (recordedSolver deps entry))

def postedResume (config : Config) (deps : ResumeDeps) :
    Resume Card PostedPoint Call Reply Str := fun card point reply =>
  match deps.proof, point with
  | .present json _, .confirm zkProofHash point =>
    (confirmResume config json.expiry zkProofHash card point reply).map fun t =>
      (t.within (.confirm zkProofHash)).caught
  | .present json zkProofHash, .pay solver point =>
    (payResume config ⟨solver, none, json, zkProofHash⟩ card point reply).map fun t =>
      (t.within (.pay solver)).caught
  | _, _ => none

/-! ## reconcileArbitrumLedger, the first loop -/

inductive MidPoint where
  | receipt
  /-- the receipt's status, `none` where there is none -/
  | reading (receipt : Option Bool)
  deriving DecidableEq

def RoutedEntry.midSequence (entry : RoutedEntry) : Bool :=
  entry.stage = .posting_collateral || entry.stage = .confirming || entry.stage = .slashing

/-- The hash, unless it is missing or empty. -/
def truthy (hash : Option Str) : Option Str := hash.filter (!·.isEmpty)

def reconcileMidSequence (entry : RoutedEntry) (card : Card) : Turn Card MidPoint Call Str :=
  match truthy (stageHash entry.toArbitrumLedgerEntry) with
  | some hash => ⟨card, [.getTransactionReceipt hash], .await .receipt⟩
  | none => ⟨card, [.readIntent], .await (.reading none)⟩

/-- What follows the read of the intent. -/
def midResolve (entry : RoutedEntry) (receipt : Option Bool) (onChain : OnChainIntent)
    (card : Card) : Card :=
  let txHash := stageHash entry.toArbitrumLedgerEntry
  if onChain.status = INTENT_STATUS_SETTLED then
    (card.setArbitrumStage .confirmed fun e => { e with
        confirmTxHash := entry.confirmTxHash.or txHash })
      |>.mirrorDisplay .confirmed fun d => { d with confirmTxHash := entry.confirmTxHash.or txHash }
  else if onChain.status = INTENT_STATUS_SLASHED then
    (card.setArbitrumStage .slashed fun e => { e with slashTxHash := entry.slashTxHash.or txHash })
      |>.mirrorDisplay .slashed fun d => { d with slashTxHash := entry.slashTxHash.or txHash }
  else if onChain.status = INTENT_STATUS_REFUNDED then card
  else if entry.stage = .posting_collateral then
    match receipt with
    | some true =>
      (card.setArbitrumStage .collateral_posted fun e => { e with collateralTxHash := txHash })
        |>.mirrorDisplay .collateral_posted fun d => { d with collateralTxHash := txHash }
    | some false =>
      (card.setArbitrumStage .collateral_failed fun e => { e with collateralTxHash := txHash })
        |>.mirrorDisplay .collateral_failed fun d => { d with collateralTxHash := txHash }
    | none => card
  else card

def midResume (entry : RoutedEntry) : Resume Card MidPoint Call Reply Str :=
  fun card point reply =>
  match point, reply.answer with
  | .receipt, .receipt ok => some ⟨card, [.readIntent], .await (.reading (some ok))⟩
  | .receipt, .threw _ => some ⟨card, [.readIntent], .await (.reading none)⟩
  | .reading receipt, .record onChain =>
    some ⟨midResolve entry receipt onChain card, [], .returned⟩
  | .reading _, .threw error => some ⟨card, [], .threw error⟩
  | _, _ => none

/-! ## pollAwaitingSlash -/

inductive SlashPoint where
  | checking
  | confirm (zkProofHash : Str) (point : ConfirmPoint)
  | slashing
  deriving DecidableEq

/-- `resumeConfirmIfSolanaLanded`, once the payout is known to have landed -/
def resumeLanded (deps : ResumeDeps) (card : Card) : Turn Card SlashPoint Call Str :=
  match deps.proof with
  | .missing => ⟨card, [], .returned⟩
  | .corrupt => ⟨card, [], .threw "TypeError".toList⟩
  | .present _ none => ⟨card, [], .threw "ENOENT".toList⟩
  | .present _ (some zkProofHash) =>
    (confirmSettlementWithRetry card).within (.confirm zkProofHash)

def slashSolver (card : Card) : Turn Card SlashPoint Call Str :=
  ⟨card, [.slashSolver], .await .slashing⟩

/-- `resumeConfirmIfSolanaLanded`, and the slash where it returns false -/
def resumeConfirmIfSolanaLanded (deps : ResumeDeps) (card : Card) :
    Turn Card SlashPoint Call Str :=
  match card.settled with
  | none => slashSolver card
  | some ledgerEntry =>
    if ledgerEntry.status = .settled then resumeLanded deps card
    else
      match truthy ledgerEntry.solanaSig with
      | some sig => ⟨card, [.checkSolanaSignatureLanded sig], .await .checking⟩
      | none => slashSolver card

/-- `entry.expiry == null || deps.nowSec() < entry.expiry` is not the case. -/
def RoutedEntry.due (entry : RoutedEntry) (nowSec : Int) : Bool :=
  entry.expiry.any fun expiry => decide (expiry ≤ nowSec)

def pollEntry (deps : ResumeDeps) (nowSec : Int) (entry : RoutedEntry) (card : Card) :
    Turn Card SlashPoint Call Str :=
  if entry.due nowSec then resumeConfirmIfSolanaLanded deps card else ⟨card, [], .returned⟩

def slashResume (config : Config) (deps : ResumeDeps) : Resume Card SlashPoint Call Reply Str :=
  fun card point reply =>
  match point, reply.answer with
  | .checking, .landed true => some (resumeLanded deps card.markSettled)
  | .checking, .landed false => some (slashSolver card)
  | .slashing, .signed hash =>
    let card := (card.setArbitrumStage .slashing fun e => { e with slashTxHash := some hash })
      |>.mirrorDisplay .slashing fun d => { d with slashTxHash := some hash }
    some ⟨card, [], .await .slashing⟩
  | .slashing, .outcome true txHash =>
    let card := (card.setArbitrumStage .slashed fun e => { e with slashTxHash := txHash })
      |>.mirrorDisplay .slashed fun d => { d with slashTxHash := txHash }
    some ⟨card, [], .returned⟩
  | .slashing, .outcome false txHash =>
    some ⟨card.mirrorDisplay .slashing fun d => { d with slashTxHash := txHash }, [], .returned⟩
  | .confirm zkProofHash point, _ =>
    match deps.proof with
    | .present json _ =>
      (confirmResume config json.expiry zkProofHash card point reply).map
        (Turn.within (.confirm zkProofHash))
    | _ => none
  | .checking, .threw error | .slashing, .threw error => some ⟨card, [], .threw error⟩
  | _, _ => none

/-! ## reconcileSettlingLedger -/

inductive SettlingPoint where
  | checking
  deriving DecidableEq

/-- An entry that is `settling`, with its signature. -/
def settlingSig (card : Card) : Option Str :=
  match card.settled with
  | some ⟨.settling, solanaSig⟩ => truthy solanaSig
  | _ => none

def reconcileSettling (solanaSig : Str) (card : Card) : Turn Card SettlingPoint Call Str :=
  ⟨card, [.checkSolanaSignatureLanded solanaSig], .await .checking⟩

def settlingResume : Resume Card SettlingPoint Call Reply Str := fun card point reply =>
  match point, reply.answer with
  | .checking, .landed true => some ⟨card.markSettled, [], .returned⟩
  | .checking, .landed false => some ⟨card, [], .returned⟩
  | .checking, .threw error => some (Turn.caught ⟨card, [], .threw error⟩)
  | _, _ => none

/-! ## The passes -/

/-- The two ledgers as maps: the keys in the order in which they went in. -/
structure Desk (ι : Type) where
  arbKeys : List ι
  settledKeys : List ι
  card : ι → Card
  arb_nodup : arbKeys.Nodup
  settled_nodup : settledKeys.Nodup
  mem_arbKeys : ∀ i, i ∈ arbKeys ↔ (card i).arb.isSome
  mem_settledKeys : ∀ i, i ∈ settledKeys ↔ (card i).settled.isSome

/-- What a pass finds: for each intent its files, the clock when its turn comes, and the replies to
its calls, in each of the loops. -/
structure Surroundings (ι : Type) where
  deps : ι → ResumeDeps
  arrival : ι → Int
  mid : ι → List Reply
  posted : ι → List Reply
  slash : ι → List Reply
  settling : ι → List Reply

/-- A computation on its replies. -/
def onReplies {Point : Type} (resume : Resume Card Point Call Reply Str)
    (t : Turn Card Point Call Str) (replies : List Reply) : Turn Card Point Call Str :=
  (drive resume t replies).getD t

variable {ι : Type} [DecidableEq ι]

open Sweep

def midBody (s : Surroundings ι) : Body ι RoutedEntry Card MidPoint Call Str :=
  fun i entry card => onReplies (midResume entry) (reconcileMidSequence entry card) (s.mid i)

def postedBody (config : Config) (s : Surroundings ι) :
    Body ι RoutedEntry Card PostedPoint Call Str :=
  fun i _ card => onReplies (postedResume config (s.deps i))
    (resumeCollateralPostedIntent (s.deps i) card) (s.posted i)

def slashBody (config : Config) (s : Surroundings ι) :
    Body ι RoutedEntry Card SlashPoint Call Str :=
  fun i entry card => onReplies (slashResume config (s.deps i))
    (pollEntry (s.deps i) (s.arrival i) entry card) (s.slash i)

def settlingBody (s : Surroundings ι) : Body ι Str Card SettlingPoint Call Str :=
  fun i solanaSig card => onReplies settlingResume (reconcileSettling solanaSig card)
    (s.settling i)

def getMidSequenceEntries (card : Card) : Option RoutedEntry :=
  card.arb.filter RoutedEntry.midSequence

def getCollateralPostedEntries (card : Card) : Option RoutedEntry :=
  card.arb.filter fun entry => entry.stage = .collateral_posted

def getAwaitingExpirySlashEntries (card : Card) : Option RoutedEntry :=
  card.arb.filter fun entry => entry.stage = .awaiting_expiry_slash

def reconcileArbitrumLedger (config : Config) (s : Surroundings ι) (desk : Desk ι) :
    Turn (ι → Card) ι (ι × Call) Str :=
  followed (sweep (midBody s) (selected getMidSequenceEntries desk.arbKeys desk.card) desk.card)
    fun card => sweep (postedBody config s) (selected getCollateralPostedEntries desk.arbKeys card)
      card

def pollAwaitingSlash (config : Config) (s : Surroundings ι) (desk : Desk ι) :
    Turn (ι → Card) ι (ι × Call) Str :=
  sweep (slashBody config s) (selected getAwaitingExpirySlashEntries desk.arbKeys desk.card)
    desk.card

def reconcileSettlingLedger (s : Surroundings ι) (desk : Desk ι) :
    Turn (ι → Card) ι (ι × Call) Str :=
  sweep (settlingBody s) (selected settlingSig desk.settledKeys desk.card) desk.card

end Maat.Orchestrator.Settlement
