import Maat.Lib.Decimal
import Maat.Lib.Directory
import Maat.Orchestrator.LedgerFile
import Maat.Orchestrator.Redact

/-!
# Intent state files

`orchestrator/src/intent_state.ts`, and `pollFinality` of `listener.ts`: one record of JSON for each
intent in a directory that `listener.ts` and `tron_listener.ts` both write. A call reads the file,
computes the next record, writes it under a name of its own and renames that. Between these the
other process may do anything, a write may fail or the process may die. Of a record all members are
kept, also those no function here knows; a number is one below `2^53`.
-/

namespace Maat.Orchestrator.IntentFiles

open Js Json Directory
open LedgerFile (entries WriteEnd)

/-- The members of a record. -/
abbrev IntentState := List (Str × Value)

def text (s : String) : Value := .string s.toList

def nat (n : Nat) : Value := .number (Nat.toDigits 10 n)

def keyOf (intentId : Str) : Str :=
  toLowerCase (match intentId with
    | '0' :: 'x' :: rest => rest
    | '0' :: 'X' :: rest => rest
    | rest => rest)

def jsonSuffix : Str := ".json".toList

/-- The name of the file for a key. -/
def fileName (key : Str) : Str := key ++ jsonSuffix

def filePathOf (intentId : Str) : Str := fileName (keyOf intentId)

/-- The record in a file; none where the file is missing, cannot be parsed or holds `null`. -/
def readState (file : Option Str) : Option IntentState := (file.bind parse).bind entries

def blankState (intentId now : Str) : IntentState :=
  [("intentId".toList, .string intentId), ("sourceChain".toList, text "unknown"),
    ("sourceTxHash".toList, text "unknown"), ("blockNumber".toList, .null),
    ("blockHash".toList, .null), ("amountWei".toList, text "0"),
    ("tokenAddress".toList, text "unknown"), ("destinationChainId".toList, text "unknown"),
    ("destinationWallet".toList, text "unknown"), ("vkey".toList, .null),
    ("proofStatus".toList, .object [("kind".toList, text "queued")]),
    ("rejectReason".toList, .null), ("alertReason".toList, .null),
    ("settlement".toList, .object [("kind".toList, text "none")]),
    ("arbitrumSettlement".toList, .object [("stage".toList, text "none")]),
    ("finality".toList, text "pending"), ("timestamps".toList, .object []),
    ("updatedAt".toList, .string now)]

/-! ## Members -/

/-- `{...record, name: value}`; what is `undefined` is not written in the end. -/
def assign (name : Str) (value : Option Value) (record : IntentState) : IntentState :=
  match value with
  | some v => put name v record
  | none => remove name record

/-- `{...record, ...members}` -/
def overlay (record : IntentState) (members : List (Str × Option Value)) : IntentState :=
  members.foldl (fun record m => assign m.1 m.2 record) record

/-- `{...prev.name}` -/
def spread (name : String) (prev : IntentState) : IntentState :=
  ((prev.lookup name.toList).bind entries).getD []

/-- `prev.outer.name`: none where it throws, and none within where it is `undefined`. -/
def inner (outer name : String) (prev : IntentState) : Option (Option Value) :=
  match prev.lookup outer.toList with
  | none | some .null => none
  | some v => some (v.member name.toList)

/-- `{ ...prev.timestamps, name: at }` -/
def stamped (name : String) (time : Option Value) (prev : IntentState) : Str × Option Value :=
  ("timestamps".toList, some (.object (assign name.toList time (spread "timestamps" prev))))

/-! ## Calls

Each function gives the members that stand after `...prev`, and none where it throws. -/

inductive ProofStatus where
  | queued
  | proving
  | retrying (attempt maxAttempts : Nat)
  | verified
  | rejected
  | alert
  | skipped (chain : Str)
  deriving DecidableEq

def ProofStatus.kind : ProofStatus → String
  | .queued => "queued"
  | .proving => "proving"
  | .retrying .. => "retrying"
  | .verified => "verified"
  | .rejected => "rejected"
  | .alert => "alert"
  | .skipped _ => "skipped"

def ProofStatus.value (status : ProofStatus) : Value :=
  .object (("kind".toList, text status.kind) :: match status with
    | .retrying attempt maxAttempts =>
      [("attempt".toList, nat attempt), ("maxAttempts".toList, nat maxAttempts)]
    | .skipped chain => [("chain".toList, .string chain)]
    | _ => [])

structure IntentCreatedFields where
  intentId : Str
  sourceChain : Str
  sourceTxHash : Str
  blockNumber : Option Nat
  blockHash : Option Str
  amountWei : Str
  tokenAddress : Str
  destinationChainId : Str
  destinationWallet : Str
  deriving DecidableEq

abbrev Patch := List (Str × Option Value)

def recordIntentCreated (fields : IntentCreatedFields) (proofStatus : ProofStatus) (now : Str)
    (prev : IntentState) : Option Patch :=
  let queuedAt :=
    if proofStatus = .queued then some (some (.string now)) else inner "timestamps" "queuedAt" prev
  queuedAt.map fun queuedAt =>
    [("intentId".toList, some (.string fields.intentId)),
      ("sourceChain".toList, some (.string fields.sourceChain)),
      ("sourceTxHash".toList, some (.string fields.sourceTxHash)),
      ("blockNumber".toList, some ((fields.blockNumber.map nat).getD .null)),
      ("blockHash".toList, some ((fields.blockHash.map Value.string).getD .null)),
      ("amountWei".toList, some (.string fields.amountWei)),
      ("tokenAddress".toList, some (.string fields.tokenAddress)),
      ("destinationChainId".toList, some (.string fields.destinationChainId)),
      ("destinationWallet".toList, some (.string fields.destinationWallet)),
      ("proofStatus".toList, some proofStatus.value), stamped "queuedAt" queuedAt prev]

def setProving (now : Str) (prev : IntentState) : Option Patch :=
  (inner "timestamps" "provingStartedAt" prev).map fun since =>
    let since := match since with
      | none | some .null => .string now
      | some since => since
    [("proofStatus".toList, some ProofStatus.proving.value),
      stamped "provingStartedAt" (some since) prev]

def setRetrying (attempt maxAttempts : Nat) (_prev : IntentState) : Option Patch :=
  some [("proofStatus".toList, some (ProofStatus.retrying attempt maxAttempts).value)]

def setVerified (vkey now : Str) (prev : IntentState) : Option Patch :=
  some [("vkey".toList, some (.string vkey)),
    ("proofStatus".toList, some ProofStatus.verified.value),
    stamped "verifiedAt" (some (.string now)) prev]

def setRejected (reason : Str) (_prev : IntentState) : Option Patch :=
  some [("proofStatus".toList, some ProofStatus.rejected.value),
    ("rejectReason".toList, some (.string (redact reason)))]

def setAlert (reason : Str) (_prev : IntentState) : Option Patch :=
  some [("proofStatus".toList, some ProofStatus.alert.value),
    ("alertReason".toList, some (.string (redact reason)))]

def recordAlertReason (reason : Str) (_prev : IntentState) : Option Patch :=
  some [("alertReason".toList, some (.string (redact reason)))]

def settlementStatus (kind : String) (sig : Str) : Str × Option Value :=
  ("settlement".toList,
    some (.object [("kind".toList, text kind), ("sig".toList, .string sig)]))

def setSettling (sig now : Str) (prev : IntentState) : Option Patch :=
  some [settlementStatus "settling" sig, stamped "settlingAt" (some (.string now)) prev]

def setSettled (sig now : Str) (prev : IntentState) : Option Patch :=
  some [settlementStatus "settled" sig, stamped "settledAt" (some (.string now)) prev]

def setUnconfirmedNeedsReview (sig : Str) (_prev : IntentState) : Option Patch :=
  some [settlementStatus "unconfirmed-needs-review" sig]

/-- A member that the caller does not pass is none, one passed as `undefined` is none within. -/
structure ArbitrumPatch where
  stage : Option (Option Str)
  collateralTxHash : Option (Option Str)
  confirmTxHash : Option (Option Str)
  slashTxHash : Option (Option Str)
  reason : Option (Option Str)
  deriving DecidableEq

def ArbitrumPatch.members (patch : ArbitrumPatch) : Patch :=
  [("stage", patch.stage), ("collateralTxHash", patch.collateralTxHash),
    ("confirmTxHash", patch.confirmTxHash), ("slashTxHash", patch.slashTxHash),
    ("reason", patch.reason)].filterMap fun m =>
      m.2.map fun value => (m.1.toList, value.map Value.string)

def setArbitrumSettlement (patch : ArbitrumPatch) (prev : IntentState) : Option Patch :=
  let reason : Option (Option Value) := match patch.reason with
    | some (some reason) => some (some (.string (redact reason)))
    | _ => inner "arbitrumSettlement" "reason" prev
  reason.map fun reason =>
    [("arbitrumSettlement".toList,
      some (.object (assign "reason".toList reason
        (overlay (spread "arbitrumSettlement" prev) patch.members))))]

def setSolverRouting (solver : Option Str) (tier : Option Nat) (reason : Str)
    (_prev : IntentState) : Option Patch :=
  some [("solverRouting".toList,
    some (.object [("solver".toList, (solver.map Value.string).getD .null),
      ("tier".toList, (tier.map nat).getD .null),
      ("reason".toList, .string (redact reason))]))]

def setFinal (now : Str) (prev : IntentState) : Option Patch :=
  some [("finality".toList, some (text "final")), stamped "finalAt" (some (.string now)) prev]

inductive Call where
  | recordIntentCreated (fields : IntentCreatedFields) (proofStatus : ProofStatus)
  | setProving (intentId : Str)
  | setRetrying (intentId : Str) (attempt maxAttempts : Nat)
  | setVerified (intentId vkey : Str)
  | setRejected (intentId reason : Str)
  | setAlert (intentId reason : Str)
  | recordAlertReason (intentId reason : Str)
  | setSettling (intentId sig : Str)
  | setSettled (intentId sig : Str)
  | setUnconfirmedNeedsReview (intentId sig : Str)
  | setArbitrumSettlement (intentId : Str) (patch : ArbitrumPatch)
  | setSolverRouting (intentId : Str) (solver : Option Str) (tier : Option Nat) (reason : Str)
  | setFinal (intentId : Str)
  deriving DecidableEq

def Call.intentId : Call → Str
  | .recordIntentCreated fields _ => fields.intentId
  | .setProving intentId => intentId
  | .setRetrying intentId .. => intentId
  | .setVerified intentId _ => intentId
  | .setRejected intentId _ => intentId
  | .setAlert intentId _ => intentId
  | .recordAlertReason intentId _ => intentId
  | .setSettling intentId _ => intentId
  | .setSettled intentId _ => intentId
  | .setUnconfirmedNeedsReview intentId _ => intentId
  | .setArbitrumSettlement intentId _ => intentId
  | .setSolverRouting intentId .. => intentId
  | .setFinal intentId => intentId

def Call.patch (now : Str) (prev : IntentState) : Call → Option Patch
  | .recordIntentCreated fields proofStatus =>
    IntentFiles.recordIntentCreated fields proofStatus now prev
  | .setProving _ => IntentFiles.setProving now prev
  | .setRetrying _ attempt maxAttempts => IntentFiles.setRetrying attempt maxAttempts prev
  | .setVerified _ vkey => IntentFiles.setVerified vkey now prev
  | .setRejected _ reason => IntentFiles.setRejected reason prev
  | .setAlert _ reason => IntentFiles.setAlert reason prev
  | .recordAlertReason _ reason => IntentFiles.recordAlertReason reason prev
  | .setSettling _ sig => IntentFiles.setSettling sig now prev
  | .setSettled _ sig => IntentFiles.setSettled sig now prev
  | .setUnconfirmedNeedsReview _ sig => IntentFiles.setUnconfirmedNeedsReview sig prev
  | .setArbitrumSettlement _ patch => IntentFiles.setArbitrumSettlement patch prev
  | .setSolverRouting _ solver tier reason => IntentFiles.setSolverRouting solver tier reason prev
  | .setFinal _ => IntentFiles.setFinal now prev

/-- What `new Date()`, `Date.now()` and the process id are in a call. -/
structure Clock where
  now : Str
  updatedAt : Str
  pid : Nat
  millis : Nat
  deriving DecidableEq

/-- `readState(intentId) ?? blankState(intentId)` -/
def prevState (record : Option IntentState) (call : Call) (clock : Clock) : IntentState :=
  record.getD (blankState call.intentId clock.now)

/-- The next record of `upsert`, from the record before it, if there is one. -/
def upsert (record : Option IntentState) (call : Call) (clock : Clock) : Option IntentState :=
  let prev := prevState record call clock
  (call.patch clock.now prev).map fun patch =>
    put "updatedAt".toList (.string clock.updatedAt) (overlay prev patch)

/-- `record.intentId`, if it is a string. -/
def intentIdOf (record : IntentState) : Option Str :=
  (record.lookup "intentId".toList).bind Value.asStr

def tempName (file : Str) (clock : Clock) : Str :=
  file ++ '.' :: Nat.toDigits 10 clock.pid ++ '.' :: Nat.toDigits 10 clock.millis ++ ".tmp".toList

/-! ## Finality -/

def isBlockFinal (blockNumber finalizedBlockNumber : Number) : Bool :=
  Number.ge finalizedBlockNumber blockNumber

def arbitrumSepolia : Str := "Arbitrum Sepolia".toList

def isString (value : Option Value) (s : Str) : Bool := value.bind Value.asStr == some s

/-- What `listPendingFinality` keeps of a file. -/
def pendingIn (sourceChain : Str) (file : Option Str) : Option IntentState :=
  (readState file).filter fun state =>
    isString (state.lookup "sourceChain".toList) sourceChain &&
      isString (state.lookup "finality".toList) "pending".toList &&
        ((state.lookup "blockNumber".toList).map fun v => !v.isNull).getD false

/-- `state.blockNumber`, where it is a number of digits only. -/
def blockNumberOf (state : IntentState) : Option Number :=
  match state.lookup "blockNumber".toList with
  | some (.number digits) => if digits.all isDigit then some (.ofDigits digits) else none
  | _ => none

/-! ## Processes -/

inductive Role where
  | listener
  | tronListener
  deriving DecidableEq

/-- `upsert` between its reading and its rename. -/
structure Upsert where
  call : Call
  clock : Clock
  next : IntentState
  replacing : Replacing Str Str

/-- `pollFinality`: the names still to read, and the records still to look at. -/
structure Poll where
  finalizedBlockNumber : Nat
  names : List Str
  states : List IntentState

structure Process where
  poll : Option Poll
  upsert : Option Upsert

def idle : Process := ⟨none, none⟩

structure Host where
  dir : List (Str × Str)
  process : Role → Process

def Host.set (h : Host) (role : Role) (p : Process) : Host :=
  { h with process := Function.update h.process role p }

/-- A call up to its write. One that throws ends the poll it is made in. -/
def Host.begin (h : Host) (role : Role) (poll : Option Poll) (call : Call) (clock : Clock) : Host :=
  let next := IntentFiles.upsert (readState (h.dir.lookup (filePathOf call.intentId))) call clock
  h.set role <| match next with
    | none => idle
    | some next =>
      match intentIdOf next with
      | none => idle
      | some intentId =>
        let file := filePathOf intentId
        ⟨poll, some ⟨call, clock, next,
          ⟨file, tempName file clock, stringify (.object next), false⟩⟩⟩

inductive Event where
  | call (role : Role) (call : Call) (clock : Clock)
  | write (role : Role) (write : WriteEnd)
  | rename (role : Role) (ok : Bool)
  | die (role : Role)
  /-- The answer to `getBlock({ blockTag: "finalized" })`, and the names in the directory. -/
  | poll (finalizedBlockNumber : Nat)
  | read (ok : Bool)
  | next (clock : Clock)
  deriving DecidableEq

def step (h : Host) : Event → Option Host
  | .call role call clock =>
    match h.process role with
    | ⟨none, none⟩ => some (h.begin role none call clock)
    | _ => none
  | .write role write =>
    match h.process role with
    | ⟨poll, some upsert⟩ =>
      let r := upsert.replacing
      if r.written then none
      else
        let dir := match write.left.file (h.dir.lookup r.temp) r.text with
          | some text => put r.temp text h.dir
          | none => h.dir
        let h := { h with dir }
        some (h.set role (if write = .returned then
          ⟨poll, some { upsert with replacing := { r with written := true } }⟩ else idle))
    | _ => none
  | .rename role ok =>
    match h.process role with
    | ⟨poll, some upsert⟩ =>
      let r := upsert.replacing
      if r.written then
        match if ok then rename r.temp r.file h.dir else none with
        | some dir => some ({ h with dir }.set role ⟨poll, none⟩)
        | none => some (h.set role idle)
      else none
    | _ => none
  | .die role => some (h.set role idle)
  | .poll finalizedBlockNumber =>
    match h.process .listener with
    | ⟨none, none⟩ =>
      let names := (h.dir.map Prod.fst).filter fun name => jsonSuffix.isSuffixOf name
      some (h.set .listener ⟨some ⟨finalizedBlockNumber, names, []⟩, none⟩)
    | _ => none
  | .read ok =>
    match h.process .listener with
    | ⟨some ⟨finalizedBlockNumber, name :: names, states⟩, none⟩ =>
      let found := if ok then pendingIn arbitrumSepolia (h.dir.lookup name) else none
      some (h.set .listener ⟨some ⟨finalizedBlockNumber, names, states ++ found.toList⟩, none⟩)
    | _ => none
  | .next clock =>
    match h.process .listener with
    | ⟨some ⟨_, [], []⟩, none⟩ => some (h.set .listener idle)
    | ⟨some ⟨finalizedBlockNumber, [], state :: states⟩, none⟩ =>
      (blockNumberOf state).map fun blockNumber =>
        let rest : Option Poll := some ⟨finalizedBlockNumber, [], states⟩
        if isBlockFinal blockNumber (.finite (double finalizedBlockNumber)) then
          match intentIdOf state with
          | some intentId => h.begin .listener rest (.setFinal intentId) clock
          | none => h.set .listener idle
        else h.set .listener ⟨rest, none⟩
    | _ => none

end Maat.Orchestrator.IntentFiles
