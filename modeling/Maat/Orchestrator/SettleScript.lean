import Maat.Lib.Hex
import Maat.Lib.Js
import Maat.Lib.Suspension
import Maat.Orchestrator.Handshake
import Maat.Orchestrator.ProverPipeline
import Maat.Solana.Program

/-!
# The settlement script as a process

`orchestrator/settle_intent.js` from its environment to its exit code: the checks it makes before
it talks to Solana, the calls it makes with their timeouts, `waitForGo`, `pollForConfirmation` and
`runAsScript`. Time is in milliseconds and goes on while the script waits; a timer fires at most
`lag` late. Parsing a Solana key and signing are parameters, and the accounts of its transactions
are those of `Maat.Solana.runSettlement`. `settleEnv` is of `orchestrator/src/listener.ts`.
-/

namespace Maat.Orchestrator.SettleScript

open Js Suspension Solana

/-! ## Texts -/

def digitsIn (base : Nat) (digits : Str) : Option Int :=
  if digits = [] then none
  else (digits.mapM fun c => (Hex.value? c).filter (· < base)).map fun ds =>
    (Radix.value base ds : Int)

/-- `text.trim()` -/
def trim (text : Str) : Str :=
  let space (c : Char) : Bool := isSpace c.toNat
  ((text.dropWhile space).reverse.dropWhile space).reverse

/-- `BigInt(text)`; none where it throws. -/
def bigIntOf (text : Str) : Option Int :=
  match trim text with
  | [] => some 0
  | '0' :: 'x' :: digits | '0' :: 'X' :: digits => digitsIn 16 digits
  | '0' :: 'o' :: digits | '0' :: 'O' :: digits => digitsIn 8 digits
  | '0' :: 'b' :: digits | '0' :: 'B' :: digits => digitsIn 2 digits
  | '-' :: digits => (digitsIn 10 digits).map fun n => -n
  | '+' :: digits => digitsIn 10 digits
  | digits => digitsIn 10 digits

/-- Division of a `BigInt` goes towards zero. -/
def weiToLamports (weiStr : Str) : Option Int := (bigIntOf weiStr).map (·.tdiv 1000000000)

/-- None where the input is no string of 32 bytes in hex. -/
def normalizeProofHashHex (input : Option Str) : Option Str :=
  input.bind fun input =>
    let stripped := match input with
      | '0' :: 'x' :: rest | '0' :: 'X' :: rest => rest
      | rest => rest
    if stripped.length = 64 ∧ stripped.all fun c => (Hex.value? c.toLower).isSome then
      some (toLowerCase stripped)
    else none

/-! ## The environment -/

/-- `process.env`, and the files that the script reads: none where reading or parsing one throws. -/
structure Environment where
  DESTINATION_CHAIN_ID : Option Str
  DESTINATION_WALLET : Option Str
  PROOF_AMOUNT_WEI : Option Str
  PROOF_HASH_HEX : Option Str
  hotWallet : Option Pubkey
  idl : Bool

/-- `value || other` -/
def orElse (value : Option Str) (other : Str) : Str :=
  match value with
  | none | some [] => other
  | some text => text

def SOLANA_CHAIN_ID : Str := "1399811149".toList

def treasuryWallet : Str := "C9CZZFbeJ2Vzj9w8ctcsYKyK4mLQNq2vvsGwPJ7uEHtd".toList

/-- What one run of the script settles. -/
structure Settlement where
  destination : Pubkey
  amount : Int
  proofHash : Str
  hotWallet : Pubkey
  deriving DecidableEq

/-- The signed `receive_settlement`; the nonce is that of the intent account. -/
structure SettleTx where
  settlement : Settlement
  usedNonce : Nat
  blockhash : Str
  deriving DecidableEq

/-- `PublicKey` of a text, none where it throws, and the signature of a transaction. -/
structure Keys where
  publicKey : Str → Option Pubkey
  signature : SettleTx → Str

/-! ## Waiting -/

inductive ConfirmationStatus where
  | processed
  | confirmed
  | finalized
  deriving DecidableEq

structure SignatureStatus where
  err : Bool
  confirmationStatus : Option ConfirmationStatus
  deriving DecidableEq

/-- What ends a wait: a promise that resolves or rejects, a chunk on the standard input, or the
timer. -/
inductive Answer where
  | intentNonce (nonce : Nat)
  | balance (lamports : Nat)
  | submitted (tx : Str)
  | transaction
  | latestBlockhash (blockhash : Str) (lastValidBlockHeight : Nat)
  | chunk (bytes : List UInt8)
  | sent
  | signatureStatus (value : Option SignatureStatus)
  | blockHeight (height : Nat)
  | rejected (message : Str)
  | elapsed
  deriving DecidableEq

/-- An answer, and how long the script waited for it. -/
structure Reply where
  waited : Nat
  answer : Answer
  deriving DecidableEq

inductive Call where
  | submitIntent (settlement : Settlement) (currentNonce : Nat)
  /-- The line `SETTLING_SIG:…` -/
  | settlingSig (sig : Str)
  | sendRawTransaction (tx : SettleTx)
  deriving DecidableEq

/-- A transaction that was signed, the block height it is good for, and when its signature was
printed. -/
structure Signed where
  tx : SettleTx
  lastValidBlockHeight : Nat
  printedAt : Nat
  deriving DecidableEq

inductive Point where
  | programState
  | balanceBefore (currentNonce : Nat)
  | submitIntent (currentNonce : Nat)
  | programStateAfter
  | transaction (usedNonce : Nat)
  | latestBlockhash (usedNonce : Nat)
  | waitForGo (signed : Signed)
  | sendRawTransaction (signed : Signed)
  | signatureStatus (signed : Signed) (deadline : Nat)
  | blockHeight (signed : Signed) (deadline : Nat)
  | pollInterval (signed : Signed) (deadline : Nat)
  | balanceAfter (signed : Signed)
  deriving DecidableEq

def RPC_TIMEOUT_MS : Nat := 15000

def goTimeoutMs : Nat := 30000

def pollIntervalMs : Nat := 2000

def pollTimeoutMs : Nat := 90000

/-- The state is the time, and an error its message. -/
abbrev Step : Type := Turn Nat Point Call Str

def await (now : Nat) (calls : List Call) (point : Point) : Step := ⟨now, calls, .await point⟩

def throw (now : Nat) (message : String) : Step := ⟨now, [], .threw message.toList⟩

/-- `await withTimeout(promise, RPC_TIMEOUT_MS, label)` -/
def withTimeout (lag now : Nat) (label : String) (reply : Reply)
    (next : Nat → Answer → Option Step) : Option Step :=
  if RPC_TIMEOUT_MS + lag < reply.waited then none
  else match reply.answer with
    | .elapsed =>
      if RPC_TIMEOUT_MS ≤ reply.waited then
        some (throw (now + reply.waited) (label ++ " timed out after 15000ms"))
      else none
    | .rejected message => some ⟨now + reply.waited, [], .threw message⟩
    | answer => next (now + reply.waited) answer

/-- A bare `await promise`. -/
def bare (now : Nat) (reply : Reply) (next : Nat → Answer → Option Step) : Option Step :=
  match reply.answer with
  | .rejected message => some ⟨now + reply.waited, [], .threw message⟩
  | .elapsed => none
  | answer => next (now + reply.waited) answer

/-! ## The script -/

section

variable (keys : Keys) (lag : Nat) (settlement : Settlement)

def resume : Resume Nat Point Call Reply Str
  | now, .programState, reply => bare now reply fun now answer =>
    match answer with
    | .intentNonce currentNonce =>
      -- the nonce is a seed of eight bytes
      if currentNonce < 2 ^ 64 then some (await now [] (.balanceBefore currentNonce))
      else some (throw now "out of range")
    | _ => none
  | now, .balanceBefore currentNonce, reply =>
    withTimeout lag now "getBalance(before)" reply fun now answer =>
      match answer with
      | .balance _ =>
        some (await now [.submitIntent settlement currentNonce] (.submitIntent currentNonce))
      | _ => none
  | now, .submitIntent _, reply => bare now reply fun now answer =>
    match answer with
    | .submitted _ => some (await now [] .programStateAfter)
    | _ => none
  | now, .programStateAfter, reply => bare now reply fun now answer =>
    match answer with
    | .intentNonce intentNonce =>
      if 0 < intentNonce ∧ intentNonce - 1 < 2 ^ 64 then
        some (await now [] (.transaction (intentNonce - 1)))
      else some (throw now "out of range")
    | _ => none
  | now, .transaction usedNonce, reply => bare now reply fun now answer =>
    match answer with
    | .transaction => some (await now [] (.latestBlockhash usedNonce))
    | _ => none
  | now, .latestBlockhash usedNonce, reply =>
    withTimeout lag now "getLatestBlockhash" reply fun now answer =>
      match answer with
      | .latestBlockhash blockhash lastValidBlockHeight =>
        let tx : SettleTx := ⟨settlement, usedNonce, blockhash⟩
        some (await now [.settlingSig (keys.signature tx)]
          (.waitForGo ⟨tx, lastValidBlockHeight, now⟩))
      | _ => none
  | now, .waitForGo signed, reply =>
    let time := now + reply.waited
    if signed.printedAt + goTimeoutMs + lag < time then none
    else match reply.answer with
      | .chunk bytes =>
        if includesGo bytes then
          some (await time [.sendRawTransaction signed.tx] (.sendRawTransaction signed))
        else some (await time [] (.waitForGo signed))
      | .elapsed =>
        if signed.printedAt + goTimeoutMs ≤ time then
          some (throw time "timed out after 30000ms waiting for GO from orchestrator")
        else none
      | _ => none
  | now, .sendRawTransaction signed, reply =>
    withTimeout lag now "sendRawTransaction" reply fun now answer =>
      match answer with
      | .sent => some (await now [] (.signatureStatus signed (now + pollTimeoutMs)))
      | _ => none
  | now, .signatureStatus signed deadline, reply =>
    withTimeout lag now "getSignatureStatus" reply fun now answer =>
      match answer with
      | .signatureStatus value =>
        if value.any (·.err) then some (throw now "transaction failed on-chain")
        else if value.any fun value => value.confirmationStatus = some .confirmed ∨
            value.confirmationStatus = some .finalized then
          some (await now [] (.balanceAfter signed))
        else some (await now [] (.blockHeight signed deadline))
      | _ => none
  | now, .blockHeight signed deadline, reply =>
    withTimeout lag now "getBlockHeight" reply fun now answer =>
      match answer with
      | .blockHeight height =>
        if signed.lastValidBlockHeight < height then some (throw now "blockhash expired")
        else if deadline ≤ now then some (throw now "timed out waiting to confirm")
        else some (await now [] (.pollInterval signed deadline))
      | _ => none
  | now, .pollInterval signed deadline, reply =>
    if reply.answer = .elapsed ∧ pollIntervalMs ≤ reply.waited ∧
        reply.waited ≤ pollIntervalMs + lag then
      some (await (now + reply.waited) [] (.signatureStatus signed deadline))
    else none
  | now, .balanceAfter _, reply =>
    withTimeout lag now "getBalance(after)" reply fun now answer =>
      match answer with
      | .balance _ => some ⟨now, [], .returned⟩
      | _ => none

end

/-- `runSettlement` up to its first `await`. An exit with code 1 is an error. -/
def runSettlement (keys : Keys) (env : Environment) : Step × Option Settlement :=
  if orElse env.DESTINATION_CHAIN_ID SOLANA_CHAIN_ID ≠ SOLANA_CHAIN_ID then
    (⟨0, [], .returned⟩, none)
  else
    match keys.publicKey (orElse env.DESTINATION_WALLET treasuryWallet) with
    | none => (throw 0 "invalid public key", none)
    | some destination =>
      if orElse env.PROOF_AMOUNT_WEI [] = [] then (throw 0 "PROOF_AMOUNT_WEI not set", none)
      else
        match weiToLamports (orElse env.PROOF_AMOUNT_WEI []) with
        | none => (throw 0 "cannot convert to a BigInt", none)
        | some amount =>
          match normalizeProofHashHex env.PROOF_HASH_HEX with
          | none => (throw 0 "PROOF_HASH_HEX missing or not a valid 32-byte value", none)
          | some proofHash =>
            match env.hotWallet, env.idl with
            | some hotWallet, true =>
              (await 0 [] .programState, some ⟨destination, amount, proofHash, hotWallet⟩)
            | _, _ => (throw 0 "cannot read a file", none)

/-- The environment in which `runSolanaPayout` of `listener.ts` spawns the script. -/
def settleEnv (json : Pipeline.ProofOutputJson) (payoutDestination zkProofHash : Str)
    (hotWallet : Option Pubkey) (idl : Bool) : Environment where
  DESTINATION_CHAIN_ID := some json.destination_chain_id.integerText
  DESTINATION_WALLET := some payoutDestination
  PROOF_AMOUNT_WEI := some json.amount
  PROOF_HASH_HEX := some zkProofHash
  hotWallet
  idl

/-- A run of the script over the replies to it. -/
def run (keys : Keys) (lag : Nat) (env : Environment) (replies : List Reply) : Option Step :=
  match runSettlement keys env with
  | (start, some settlement) => drive (resume keys lag settlement) start replies
  | (start, none) => if replies = [] then some start else none

/-- `runAsScript` -/
def exitCode : Suspension.Next Point Str → Option Nat
  | .await _ => none
  | .returned => some 0
  | .threw _ => some 1

end Maat.Orchestrator.SettleScript
