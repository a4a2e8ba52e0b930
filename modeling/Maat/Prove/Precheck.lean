import Maat.Guest.Receipt
import Maat.Lib.Checks
import Maat.Lib.Js
import Maat.Lib.Json

/-!
# The host of the guest

`native_precheck` of `zk/script/src/bin/prove.rs`: from what an RPC node answers about a transaction
to the input of the guest. Blocks and receipts are JSON values, whose hexadecimal texts are decoded
and encoded again. The RPC node, the clock and the crates are parameters, and so is
`str::to_lowercase`.
-/

namespace Maat.Prove

open Rlp Bytes Json Js Checks
open Guest (ProofInput beBytesToU64)

def INTENT_CREATED_TOPIC0 : Str :=
  "0x1633e7e54ae0b855365938679d6532826f20b065ed71f076c885b24249decd99".toList

def EXPECTED_DESTINATION_CHAIN_ID : UInt64 := 1399811149

/-- What an error says about a retry: `Infra` is worth one, `Semantic` is not. -/
inductive CheckError where
  | infra (message : Str)
  | semantic (message : Str)
  deriving DecidableEq

/-- The `eth_trie` crate. Tries are in memory, and `rootHash` is what writes them down. -/
structure EthTrie where
  T : Type
  new : T
  insert : T → List UInt8 → List UInt8 → Except Str T
  rootHash : T → Except Str (Fixed 32 × T)
  getProof : T → List UInt8 → Except Str (List (List UInt8))

/-- What the host calls. An error is its text. -/
structure Libraries where
  hexDecode : Str → Except Str (List UInt8)
  /-- `str::to_lowercase` -/
  lowercase : Str → Str
  /-- `rlp::encode` of an integer. -/
  rlpEncode : UInt64 → List UInt8
  /-- `RlpStream::out`, after the item was appended. -/
  rlpOut : Item → List UInt8
  trie : EthTrie

/-- An RPC call takes a method and its parameters. -/
structure Env where
  rpcCall : Str → Value → Except Str Value
  now : Except Str UInt64

/-- `ok_or_else` -/
def okOr {ε α : Type} (a : Option α) (e : ε) : Except ε α :=
  match a with
  | some a => .ok a
  | none => .error e

def decimal (n : Nat) : Str := Nat.toDigits 10 n

/-! ## Hexadecimal texts -/

/-- `s.trim_start_matches("0x")`, which takes it off as often as it is there. -/
def trimStartMatches : Str → Str
  | '0' :: 'x' :: s => trimStartMatches s
  | s => s

/-- `s.len()`, in bytes. -/
def len (s : Str) : Nat := (s.map Char.utf8Size).sum

/-- The fold of `u64::from_str_radix`. -/
def addDigit (n : Nat) (c : Char) : Except Str Nat :=
  match Hex.value? c with
  | none => .error "invalid digit found in string".toList
  | some d =>
    if 16 * n + d < 2 ^ 64 then .ok (16 * n + d)
    else .error "number too large to fit in target type".toList

/-- `u64::from_str_radix(s, 16)` -/
def fromStrRadix16 : Str → Except Str UInt64
  | [] => .error "cannot parse integer from empty string".toList
  | ['+'] => .error "invalid digit found in string".toList
  | '+' :: digits => (digits.foldlM addDigit 0).map UInt64.ofNat
  | digits => (digits.foldlM addDigit 0).map UInt64.ofNat

def hexToU64 (s : Str) : Except CheckError UInt64 :=
  (fromStrRadix16 (trimStartMatches s)).mapError fun e =>
    .infra ("bad hex integer ".toList ++ s ++ ": ".toList ++ e)

def stripLeadingZeros (b : List UInt8) : List UInt8 := b.dropWhile (· = 0)

section Program

variable (L : Libraries)

def h2b (s : Str) : Except Str (List UInt8) :=
  let s := trimStartMatches s
  let s := if len s % 2 = 1 then '0' :: s else s
  L.hexDecode s

def h2b20 (s : Str) : Except Str (Fixed 20) := do
  let v ← h2b L s
  if h : v.length = 20 then return ⟨v, h⟩
  else throw ("expected 20 bytes, got ".toList ++ decimal v.length)

/-! ## Encoding again -/

/-- The header fields in the order of their encoding, with what is done to their bytes. -/
def headerFields : List (Str × (List UInt8 → List UInt8)) :=
  [("parentHash".toList, id), ("sha3Uncles".toList, id), ("miner".toList, id),
    ("stateRoot".toList, id), ("transactionsRoot".toList, id), ("receiptsRoot".toList, id),
    ("logsBloom".toList, id), ("difficulty".toList, stripLeadingZeros),
    ("number".toList, stripLeadingZeros), ("gasLimit".toList, stripLeadingZeros),
    ("gasUsed".toList, stripLeadingZeros), ("timestamp".toList, stripLeadingZeros),
    ("extraData".toList, id), ("mixHash".toList, id), ("nonce".toList, id),
    ("baseFeePerGas".toList, stripLeadingZeros)]

def headerField (block : Value) (k : Str) : Except Str Str :=
  okOr ((block.member k).bind Value.asStr) ("missing header field ".toList ++ k)

def headerItem (block : Value) (k : Str) (form : List UInt8 → List UInt8) : Except Str Item := do
  let bytes ← h2b L (← headerField block k)
  return .bytes (form bytes)

def headerRlpBytes (block : Value) : Except Str (List UInt8) := do
  let fields ← headerFields.mapM fun field => headerItem L block field.1 field.2
  return L.rlpOut (.list fields)

def encodeTopic (t : Value) : Except Str Item := do
  let bytes ← h2b L (← okOr t.asStr "bad topic".toList)
  return .bytes bytes

/-- A log as a receipt has it. -/
def encodeLog (log : Value) : Except Str Item := do
  let addr ← h2b L (← okOr (log.index "address".toList).asStr "no log address".toList)
  let topics ← okOr (log.index "topics".toList).asArray "no topics".toList
  let data ← h2b L (← okOr (log.index "data".toList).asStr "no log data".toList)
  let topics ← topics.mapM (encodeTopic L)
  return .list [.bytes addr, .list topics, .bytes data]

def encodeReceipt (receipt : Value) : Except Str (List UInt8) := do
  let status ← h2b L (← okOr (receipt.index "status".toList).asStr "no status".toList)
  let cumulativeGas ← h2b L
    (← okOr (receipt.index "cumulativeGasUsed".toList).asStr "no cumulativeGasUsed".toList)
  let bloom ← h2b L (← okOr (receipt.index "logsBloom".toList).asStr "no logsBloom".toList)
  let logs ← okOr (receipt.index "logs".toList).asArray "no logs array".toList
  let logs ← logs.mapM (encodeLog L)
  let typ ← fromStrRadix16
    (trimStartMatches (← okOr (receipt.index "type".toList).asStr "no type".toList))
  let body := L.rlpOut (.list [.bytes (stripLeadingZeros status),
    .bytes (stripLeadingZeros cumulativeGas), .bytes bloom, .list logs])
  if typ = 0 then return body else return typ.toUInt8 :: body

/-! ## The receipts of a block -/

/-- One call for all receipts, or where that fails one call for each. -/
def getBlockReceipts (env : Env) (blockNumber : Str) (block : Value) : Except Str Value :=
  match env.rpcCall "eth_getBlockReceipts".toList (.array [.string blockNumber]) with
  | .ok v => .ok v
  | .error _ => do
    let txHashes ← okOr (block.index "transactions".toList).asArray
      "block has no transactions array".toList
    let receipts ← txHashes.mapM fun h =>
      env.rpcCall "eth_getTransactionReceipt".toList (.array [h])
    return .array receipts

/-- A receipt goes into the trie at the encoding of its index. -/
def insertReceipt (trie : L.trie.T) (r : Value) : Except CheckError L.trie.T := do
  let idx ← hexToU64 (← okOr (r.index "transactionIndex".toList).asStr
    (.infra "a receipt in this block is missing transactionIndex".toList))
  let encoded ← (encodeReceipt L r).mapError fun e =>
    CheckError.infra ("proof construction failed (RLP-encoding receipt ".toList ++
      decimal idx.toNat ++ "): ".toList ++ e)
  (L.trie.insert trie (L.rlpEncode idx) encoded).mapError fun e =>
    .infra ("proof construction failed (trie insert for receipt ".toList ++
      decimal idx.toNat ++ "): ".toList ++ e)

/-- The index as the receipt has it is the one asked for, as Rust writes it. -/
def hasIndex (txIndex : UInt64) (r : Value) : Bool :=
  (r.index "transactionIndex".toList).asStr.map trimStartMatches =
    some (Nat.toDigits 16 txIndex.toNat)

/-! ## The log -/

/-- The log is from this contract and its topic 0 is the event's. Texts are compared. -/
def isIntentCreated (targetContract : Str) (l : Value) : Bool :=
  let addrMatch := (l.index "address".toList).asStr.map L.lowercase =
    some (L.lowercase targetContract)
  let topic0 := (l.index "topics".toList).asArray.bind (·[0]?)
  let topic0Match := (topic0.bind Value.asStr).map L.lowercase =
    some (L.lowercase INTENT_CREATED_TOPIC0)
  addrMatch && topic0Match

/-- The only log that matches, with its position. -/
def findLog (targetContract : Str) (logs : List Value) : Except CheckError (Value × Nat) :=
  match logs.zipIdx.filter fun l => isIntentCreated L targetContract l.1 with
  | [] => .error (.semantic ("no IntentCreated log found (emitter == ".toList ++ targetContract ++
      " && topic0 == IntentCreated) in this tx's receipt".toList))
  | [log] => .ok log
  | _ => .error (.semantic "multiple intents per tx not supported".toList)

/-- The chain the log names and the time it gives. -/
def checkLog (env : Env) (blockTimestamp : UInt64) (log : Value) : Except CheckError Unit := do
  let data ← (h2b L (← okOr (log.index "data".toList).asStr
    (.infra "IntentCreated log has no data field".toList))).mapError fun e =>
      CheckError.infra ("bad log data hex: ".toList ++ e)
  require (data.length = 192) (.infra ("unexpected IntentCreated data length ".toList ++
    decimal data.length ++ " (expected 192)".toList))
  let destinationChainId := beBytesToU64 ((data.take 128).drop 96)
  let expiry := beBytesToU64 ((data.take 160).drop 128)
  require (destinationChainId = EXPECTED_DESTINATION_CHAIN_ID)
    (.semantic ("wrong destination chain: intent targets chain ".toList ++
      decimal destinationChainId.toNat ++ ", this deployment only settles to ".toList ++
      decimal EXPECTED_DESTINATION_CHAIN_ID.toNat))
  require (blockTimestamp < expiry) (.semantic ("intent already expired: expiry ".toList ++
    decimal expiry.toNat ++ " <= block timestamp ".toList ++ decimal blockTimestamp.toNat))
  let now ← env.now.mapError fun e => CheckError.infra ("system clock error: ".toList ++ e)
  require (now < expiry) (.semantic ("expired before proving: expiry ".toList ++
    decimal expiry.toNat ++ " <= now ".toList ++ decimal now.toNat))

/-! ## The check -/

def nativePrecheck (env : Env) (txHash targetContract : Str) : Except CheckError ProofInput := do
  let tx ← (env.rpcCall "eth_getTransactionByHash".toList (.array [.string txHash])).mapError
    fun e => .infra ("failed to fetch tx ".toList ++ txHash ++ ": ".toList ++ e)
  require (tx.isNull = false) (.infra ("tx ".toList ++ txHash ++
    " not found via RPC (not yet indexed, or wrong endpoint/network)".toList))
  let blockNumber ← okOr (tx.index "blockNumber".toList).asStr
    (.infra ("tx ".toList ++ txHash ++ " has no blockNumber (still pending?)".toList))
  let txIndex ← hexToU64 (← okOr (tx.index "transactionIndex".toList).asStr
    (.infra ("tx ".toList ++ txHash ++ " has no transactionIndex".toList)))
  let block ← (env.rpcCall "eth_getBlockByNumber".toList
    (.array [.string blockNumber, .bool false])).mapError
      fun e => .infra ("failed to fetch block ".toList ++ blockNumber ++ ": ".toList ++ e)
  let headerRlp ← (headerRlpBytes L block).mapError fun e =>
    .infra ("failed to encode block ".toList ++ blockNumber ++ " header: ".toList ++ e)
  let blockTimestamp ← hexToU64 (← okOr (block.index "timestamp".toList).asStr
    (.infra ("block ".toList ++ blockNumber ++ " has no timestamp".toList)))
  let receipts ← (getBlockReceipts env blockNumber block).mapError fun e =>
    .infra ("failed to fetch receipts for block ".toList ++ blockNumber ++ ": ".toList ++ e)
  let receiptsArr ← okOr receipts.asArray
    (.infra ("receipts for block ".toList ++ blockNumber ++ " not an array".toList))
  let trie ← receiptsArr.foldlM (insertReceipt L) L.trie.new
  let targetReceipt ← okOr (receiptsArr.find? (hasIndex txIndex))
    (.infra ("target receipt (tx_index ".toList ++ decimal txIndex.toNat ++
      ") not found in block ".toList ++ blockNumber ++ " receipts".toList))
  let status ← hexToU64 (← okOr (targetReceipt.index "status".toList).asStr
    (.infra "target receipt has no status field".toList))
  require (status = 1) (.semantic ("transaction reverted (receipt status = ".toList ++
    decimal status.toNat ++ ", expected 1)".toList))
  let logs ← okOr (targetReceipt.index "logs".toList).asArray
    (.infra "target receipt has no logs array".toList)
  let (log, logPos) ← findLog L targetContract logs
  checkLog L env blockTimestamp log
  let (_, trie) ← (L.trie.rootHash trie).mapError fun e =>
    .infra ("proof construction failed (root_hash): ".toList ++ e)
  let proof ← (L.trie.getProof trie (L.rlpEncode txIndex)).mapError fun e =>
    .infra ("proof construction failed (get_proof): ".toList ++ e)
  let expectedContract ← (h2b20 L targetContract).mapError fun e =>
    .infra ("bad ARBITRUM_INTENT_MANAGER_ADDRESS value: ".toList ++ e)
  return {
    headerRlp
    receiptProofNodes := proof
    txIndex
    logIndex := UInt64.ofNat logPos
    expectedContract }

end Program

end Maat.Prove
