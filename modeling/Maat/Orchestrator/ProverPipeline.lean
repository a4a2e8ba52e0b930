import Maat.Lib.Suspension
import Maat.Lib.Decimal
import Maat.Prove.Driver
import Maat.Orchestrator.DestinationWallet
import Maat.Orchestrator.Gate
import Maat.Orchestrator.SettledLedger

/-!
# From a proof to a settlement

`proveIntent`, `readProofJson` and `evaluateSettleGate` of `orchestrator/src/prover_pipeline.ts`, and
the job that `triggerZKVerification` of `listener.ts` puts in the queue: prove, read the proof's
JSON, compare it with the chain, the ledger and the clock, and hand it to the settlement. What the
job reads besides, it reads when an answer comes, so the answers carry it.
-/

namespace Maat.Orchestrator.Pipeline

open Js Json Suspension
open Prove (Sdk Disk)

def EXPECTED_VKEY : Str :=
  "0x000c653a242999b53decd2c3d31fc211e432b38eb4ead432b789607eb8621937".toList

def SOLANA_CHAIN_ID : Int := 1399811149

def MAX_PROVER_RETRIES : Nat := 3

def RETRY_BACKOFF_MS : List Nat := [5000, 15000, 45000]

/-! ## The proof's JSON -/

structure ProofOutputJson where
  tx_hash : Str
  mode : Str
  vkey : Str
  block_hash : Str
  block_number : Number
  block_timestamp : Number
  contract : Str
  intent_id : Str
  sender : Str
  amount : Str
  token_address : Str
  destination_wallet : Str
  destination_chain_id : Number
  expiry : Number
  slippage_bps : Number
  deriving DecidableEq

def textField (v : Value) (name : String) : Option Str := (v.member name.toList).bind Value.asStr

/-- An integer without a sign. -/
def numberField (v : Value) (name : String) : Option Number :=
  match v.member name.toList with
  | some (.number digits) => if digits.all isDigit then some (.ofDigits digits) else none
  | _ => none

/-- `JSON.parse(text) as ProofOutputJson`, for an object whose fields are as their types say. -/
def ProofOutputJson.ofValue (v : Value) : Option ProofOutputJson := do
  return {
    tx_hash := ← textField v "tx_hash"
    mode := ← textField v "mode"
    vkey := ← textField v "vkey"
    block_hash := ← textField v "block_hash"
    block_number := ← numberField v "block_number"
    block_timestamp := ← numberField v "block_timestamp"
    contract := ← textField v "contract"
    intent_id := ← textField v "intent_id"
    sender := ← textField v "sender"
    amount := ← textField v "amount"
    token_address := ← textField v "token_address"
    destination_wallet := ← textField v "destination_wallet"
    destination_chain_id := ← numberField v "destination_chain_id"
    expiry := ← numberField v "expiry"
    slippage_bps := ← numberField v "slippage_bps" }

/-- `BigInt(n)`; none where it throws. -/
def bigInt : Number → Option Int
  | .finite q => if q.den = 1 then some q.num else none
  | _ => none

def bigIntError (n : Number) : Str :=
  "The number ".toList ++ n.integerText ++
    " cannot be converted to a BigInt because it is not an integer".toList

/-- What the settlement reads of it. -/
def ProofOutputJson.settlement (json : ProofOutputJson) :
    Option Maat.Orchestrator.ProofOutputJson := do
  let amount ← Hex.bigInt (json.amount.drop 2)
  let expiry ← bigInt json.expiry
  return ⟨json.intent_id, amount, json.token_address, expiry⟩

/-- Both files must be there. -/
def readProofJson {S : Sdk} (disk : Disk S) (intentIdHex : Str) : Option ProofOutputJson :=
  match disk (Prove.jsonPath "prove".toList intentIdHex), disk (Prove.binPath intentIdHex) with
  | some (.text text), some _ =>
    match (parse text).bind ProofOutputJson.ofValue with
    | some json => if json.mode = "prove".toList then some json else none
    | none => none
  | _, _ => none

/-! ## The settle gate -/

/-- The checks that fail, of all of them; none where `BigInt` throws. -/
def evaluateSettleGate (ledger : SettledLedger Str) (nowMs : Int) (json : ProofOutputJson)
    (expectedContract canonicalBlockHash : Str) : Option (List String) := do
  let destinationChainId ← bigInt json.destination_chain_id
  return (if toLowerCase json.contract ≠ toLowerCase expectedContract then ["contract"] else []) ++
    (if toLowerCase json.block_hash ≠ toLowerCase canonicalBlockHash then ["block_hash"] else []) ++
    (if toLowerCase json.vkey ≠ toLowerCase EXPECTED_VKEY then ["vkey"] else []) ++
    (if ledger.isAlreadySettled (toLowerCase json.intent_id) then ["already_settled"] else []) ++
    (if destinationChainId ≠ SOLANA_CHAIN_ID then ["destination_chain_id"] else []) ++
    (if Number.ge (.ofInt (nowMs / 1000)) json.expiry then ["expiry"] else [])

/-! ## A job -/

inductive Call where
  | runProver (txHash : Str)
  | sleep (ms : Nat)
  | getBlock (blockNumber : Int)
  | dispatchArbitrumSettlement (intentId : Str) (json : ProofOutputJson) (payoutDestination : Str)
  | alert (message : Str)
  | setProving
  | setRetrying (attempt maxAttempts : Nat)
  | setVerified (vkey : Str)
  | setRejected (reason : Str)
  | setAlert (reason : Str)
  | recordAlertReason (reason : Str)
  deriving DecidableEq

inductive Point where
  | proving (attempt : Nat)
  | backingOff (attempt : Nat)
  | fetching (json : ProofOutputJson)
  | settling
  deriving DecidableEq

inductive Reply (S : Sdk) where
  /-- the prover's exit, and the directory it leaves -/
  | exited (code : Nat) (stderrTail : Str) (disk : Disk S)
  | slept
  /-- the hash of the block, with the ledger and the clock -/
  | block (hash : Except Str Str) (ledger : SettledLedger Str) (nowMs : Int)
  | settled (result : Except Str Unit)

/-- What a job is about, and the contract that the process was started with. -/
structure Job where
  txHash : Str
  intentId : Str
  contract : Str
  deriving DecidableEq

/-- `intentId.replace(/^0x/, "").toLowerCase()` -/
def Job.idHex (job : Job) : Str :=
  toLowerCase (if "0x".toList <+: job.intentId then job.intentId.drop 2 else job.intentId)

/-- A character that `trim` takes off. -/
def isBlank (c : Char) : Bool :=
  decide (9 ≤ c.toNat ∧ c.toNat ≤ 13 ∨ c.toNat = 0x20 ∨ c.toNat = 0xA0 ∨ c.toNat = 0x1680 ∨
    0x2000 ≤ c.toNat ∧ c.toNat ≤ 0x200A ∨ c.toNat = 0x2028 ∨ c.toNat = 0x2029 ∨ c.toNat = 0x202F ∨
    c.toNat = 0x205F ∨ c.toNat = 0x3000 ∨ c.toNat = 0xFEFF)

def trim (s : Str) : Str := ((s.dropWhile isBlank).reverse.dropWhile isBlank).reverse

/-- The last line that is not blank. -/
def lastStderrLine (stderrTail : Str) : Str :=
  (((stderrTail.splitOn '\n').map trim).filter (· ≠ [])).getLast?.getD []

section job

variable {S : Sdk} (toBase58 : List UInt8 → Option Str) (sha256 : List UInt8 → Bytes.Fixed 32)
  (job : Job)

abbrev JobTurn := Turn Unit Point Call Str

def stop (calls : List Call) : JobTurn := ⟨(), calls, .returned⟩

def ask (calls : List Call) (point : Point) : JobTurn := ⟨(), calls, .await point⟩

/-- `setAlert` after an alert that names the intent with `0x`. -/
def giveUp (reason : Str) : JobTurn :=
  stop [.alert ("intent 0x".toList ++ job.idHex ++ ": ".toList ++ reason), .setAlert reason]

/-- A refusal after the proof is there, which keeps the proof's own status. -/
def refuse (reason : Str) : JobTurn :=
  stop [.alert ("intent ".toList ++ job.intentId ++ ": ".toList ++ reason),
    .recordAlertReason reason]

/-- `proveIntent` up to its first wait. -/
def start : JobTurn := ask [.setProving, .runProver job.txHash] (.proving 1)

/-- The prover found nothing wrong: its JSON is read and the block it names is asked for. -/
def afterProof (disk : Disk S) : JobTurn :=
  match readProofJson disk job.idHex with
  | none => giveUp job "prover exited 0 but its output was missing/invalid — not settling".toList
  | some json =>
    match bigInt json.block_number with
    | some blockNumber => ask [.setVerified json.vkey, .getBlock blockNumber] (.fetching json)
    | none =>
      let refusal := refuse job ("failed to fetch canonical block ".toList ++
        json.block_number.integerText ++ " for the settle gate: ".toList ++
        bigIntError json.block_number)
      { refusal with calls := .setVerified json.vkey :: refusal.calls }

/-- Any exit but 0, 2 and 4. -/
def afterFailure (attempt code : Nat) (stderrTail : Str) : JobTurn :=
  if attempt = MAX_PROVER_RETRIES then
    let detail := lastStderrLine stderrTail
    giveUp job ("prover failed 3/3 attempts (last exit ".toList ++ Nat.toDigits 10 code ++
      (if detail = [] then [] else ": ".toList ++ detail) ++ ") — giving up, never settling".toList)
  else
    ask [.setRetrying (attempt + 1) MAX_PROVER_RETRIES,
      .sleep (RETRY_BACKOFF_MS[attempt - 1]?.getD 45000)] (.backingOff attempt)

/-- The gate, the ledger, and the settlement. -/
def afterBlock (json : ProofOutputJson) (hash : Str) (ledger : SettledLedger Str) (nowMs : Int) :
    JobTurn :=
  match evaluateSettleGate ledger nowMs json job.contract hash with
  | none => ⟨(), [], .threw (bigIntError json.destination_chain_id)⟩
  | some (check :: checks) =>
    refuse job ("settle gate REFUSED (failed: ".toList ++
      (", ".intercalate (check :: checks)).toList ++ ") — not settling".toList)
  | some [] =>
    let key := toLowerCase json.intent_id
    if ledger.isAlreadySettled key || (ledger.lookup key).any fun e => e.status == .settling then
      refuse job ("already settled or mid-settlement per local ledger" ++
        " — refusing to re-invoke settle_intent.js").toList
    else
      match (bigInt json.destination_chain_id).bind fun chainId =>
        DestinationWallet.decodeDestinationWallet sha256 toBase58 json.destination_wallet
          chainId.toNat with
      | none => ⟨(), [], .threw "Invalid public key input".toList⟩
      | some payoutDestination =>
        ask [.dispatchArbitrumSettlement json.intent_id json payoutDestination] .settling

def resume : Resume Unit Point Call (Reply S) Str
  | (), .proving attempt, .exited code stderrTail disk =>
    some <|
      if code = 0 then afterProof job disk
      else if code = 2 then stop [.setRejected "semantic reject (exit 2)".toList]
      else if code = 4 then
        giveUp job "proof FAILED VERIFICATION (exit 4) — never settling".toList
      else afterFailure job attempt code stderrTail
  | (), .backingOff attempt, .slept => some (ask [.runProver job.txHash] (.proving (attempt + 1)))
  | (), .fetching json, .block (.error e) _ _ =>
    some (refuse job ("failed to fetch canonical block ".toList ++ json.block_number.integerText ++
      " for the settle gate: ".toList ++ e))
  | (), .fetching json, .block (.ok hash) ledger nowMs =>
    some (afterBlock toBase58 sha256 job json hash ledger nowMs)
  | (), .settling, .settled (.ok ()) => some (stop [])
  | (), .settling, .settled (.error e) => some ⟨(), [], .threw e⟩
  | _, _, _ => none

end job

end Maat.Orchestrator.Pipeline
