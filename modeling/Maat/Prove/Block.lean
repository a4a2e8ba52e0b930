import Maat.Prove.Precheck

/-!
# A block and what is said of it

A block as data, with the bytes that stand for its header and the trie of its receipts, and when an
RPC node's answers are true of it. A quantity is written with any number of zeros in front, and a
digit is in either case.
-/

namespace Maat.Prove

open Rlp Bytes Json Js
open Guest (Log Receipt IntentCreated ProofInput ProofOutput trieKey)

/-- The fields of a header, in the order of their encoding. -/
structure Header where
  parentHash : Fixed 32
  sha3Uncles : Fixed 32
  miner : Fixed 20
  stateRoot : Fixed 32
  transactionsRoot : Fixed 32
  receiptsRoot : Fixed 32
  logsBloom : Fixed 256
  difficulty : Nat
  number : Nat
  gasLimit : Nat
  gasUsed : Nat
  timestamp : Nat
  extraData : List UInt8
  mixHash : Fixed 32
  nonce : Fixed 8
  baseFeePerGas : Nat

def Header.toItem (h : Header) : Item :=
  .list [.bytes h.parentHash.val, .bytes h.sha3Uncles.val, .bytes h.miner.val,
    .bytes h.stateRoot.val, .bytes h.transactionsRoot.val, .bytes h.receiptsRoot.val,
    .bytes h.logsBloom.val, .bytes (scalar h.difficulty), .bytes (scalar h.number),
    .bytes (scalar h.gasLimit), .bytes (scalar h.gasUsed), .bytes (scalar h.timestamp),
    .bytes h.extraData, .bytes h.mixHash.val, .bytes h.nonce.val, .bytes (scalar h.baseFeePerGas)]

/-- A header and the receipts of the transactions in their order. -/
structure Block where
  header : Header
  receipts : List Receipt

/-- The header is encoded, and its receipts root is the root of the trie that has each receipt under
the index of its transaction. -/
structure Block.CommitsTo (keccak256 : List UInt8 → Fixed 32) (block : Block) (trie : Trie) :
    Prop where
  header : block.header.toItem.Fits
  standard : trie.Standard keccak256
  receipts : ∀ path v, trie.get path = some v ↔
    ∃ i : UInt64, path = trieKey i ∧ ∃ r, block.receipts[i.toNat]? = some r ∧ v = r.encode
  root : block.header.receiptsRoot = trie.root keccak256

/-! ## True answers -/

/-- A text for bytes. -/
def IsData (v : Value) (bs : List UInt8) : Prop :=
  ∃ digits, v = .string ('0' :: 'x' :: digits) ∧ Hex.Spells digits bs

/-- A text for a number. -/
def IsQuantity (v : Value) (n : Nat) : Prop :=
  ∃ digits, v = .string ('0' :: 'x' :: digits) ∧ Hex.bigInt digits = some n

structure IsHeader (v : Value) (h : Header) : Prop where
  parentHash : IsData (v.index "parentHash".toList) h.parentHash.val
  sha3Uncles : IsData (v.index "sha3Uncles".toList) h.sha3Uncles.val
  miner : IsData (v.index "miner".toList) h.miner.val
  stateRoot : IsData (v.index "stateRoot".toList) h.stateRoot.val
  transactionsRoot : IsData (v.index "transactionsRoot".toList) h.transactionsRoot.val
  receiptsRoot : IsData (v.index "receiptsRoot".toList) h.receiptsRoot.val
  logsBloom : IsData (v.index "logsBloom".toList) h.logsBloom.val
  difficulty : IsQuantity (v.index "difficulty".toList) h.difficulty
  number : IsQuantity (v.index "number".toList) h.number
  gasLimit : IsQuantity (v.index "gasLimit".toList) h.gasLimit
  gasUsed : IsQuantity (v.index "gasUsed".toList) h.gasUsed
  timestamp : IsQuantity (v.index "timestamp".toList) h.timestamp
  extraData : IsData (v.index "extraData".toList) h.extraData
  mixHash : IsData (v.index "mixHash".toList) h.mixHash.val
  nonce : IsData (v.index "nonce".toList) h.nonce.val
  baseFeePerGas : IsQuantity (v.index "baseFeePerGas".toList) h.baseFeePerGas

structure IsLog (v : Value) (log : Log) : Prop where
  address : IsData (v.index "address".toList) log.address.val
  topics : ∃ topics, v.index "topics".toList = .array topics ∧
    topics.Forall₂ (fun t topic => IsData t topic.val) log.topics
  data : IsData (v.index "data".toList) log.data

/-- Type 0 is a legacy receipt. -/
def receiptType (n : Fin 0x80) : Option (Fin 0x80) := if n = 0 then none else some n

structure IsReceipt (v : Value) (txIndex : Nat) (r : Receipt) : Prop where
  transactionIndex : IsQuantity (v.index "transactionIndex".toList) txIndex
  type : ∃ n : Fin 0x80, IsQuantity (v.index "type".toList) n ∧ r.type = receiptType n
  status : IsQuantity (v.index "status".toList) r.status.toNat
  cumulativeGasUsed : IsQuantity (v.index "cumulativeGasUsed".toList) r.cumulativeGasUsed
  logsBloom : IsData (v.index "logsBloom".toList) r.logsBloom.val
  logs : ∃ logs, v.index "logs".toList = .array logs ∧ logs.Forall₂ IsLog r.logs

/-- Every answer tells of a receipt of the block, and every receipt is told of. -/
def TellsOf {α : Type} (answers : List α) (tells : α → Nat → Receipt → Prop) (block : Block) :
    Prop :=
  (∀ a ∈ answers, ∃ i r, block.receipts[i]? = some r ∧ tells a i r) ∧
    ∀ i r, block.receipts[i]? = some r → ∃ a ∈ answers, tells a i r

/-- What the node answers is true of transaction `txIndex` of the block, whatever it fails to
answer. -/
structure Env.Truthful (env : Env) (txHash : Str) (block : Block) (txIndex : Nat) : Prop where
  transaction : ∀ tx, env.rpcCall "eth_getTransactionByHash".toList (.array [.string txHash]) =
    .ok tx → tx = .null ∨ IsQuantity (tx.index "transactionIndex".toList) txIndex ∧
      ∀ number, tx.index "blockNumber".toList = .string number →
        (∀ v, env.rpcCall "eth_getBlockByNumber".toList (.array [.string number, .bool false]) =
          .ok v → IsHeader v block.header ∧
            ∃ hashes, v.index "transactions".toList = .array hashes ∧
              TellsOf hashes (fun h i r => ∀ v, env.rpcCall "eth_getTransactionReceipt".toList
                (.array [h]) = .ok v → IsReceipt v i r) block) ∧
        ∀ v, env.rpcCall "eth_getBlockReceipts".toList (.array [.string number]) = .ok v →
          ∃ receipts, v = .array receipts ∧ TellsOf receipts IsReceipt block

/-! ## What the crates are relied on for -/

/-- What `eth_trie` was given for a path last. -/
def lastInserted (entries : List (List UInt8 × List UInt8)) (path : List Nibble) :
    Option (List UInt8) :=
  (entries.reverse.find? fun e => Guest.nibblesOf e.1 = path).map Prod.snd

/-- The library holds the standard trie of what it was given, once its root was computed, and lists
the nodes of a proof from the root on. -/
def EthTrie.Correct (keccak256 : List UInt8 → Fixed 32) (E : EthTrie) : Prop :=
  ∀ entries t t' root, (∀ e ∈ entries, e.2 ≠ []) →
    entries.foldlM (fun t e => E.insert t e.1 e.2) E.new = .ok t → E.rootHash t = .ok (root, t') →
    ∃ trie : Trie, trie.Standard keccak256 ∧ trie.get = lastInserted entries ∧
      root = trie.root keccak256 ∧
      ∀ key proof, E.getProof t' key = .ok proof →
        proof = trie.inclusionProof keccak256 (Guest.nibblesOf key)

structure Libraries.Correct (keccak256 : List UInt8 → Fixed 32) (L : Libraries) : Prop where
  hexDecode : ∀ s bs, L.hexDecode s = .ok bs ↔ Hex.Spells s bs
  lowercase : ∀ s : Str, (∀ c ∈ s, c.toNat < 128) → L.lowercase s = s.map Char.toLower
  rlpEncode : ∀ n, L.rlpEncode n = (Item.bytes (minBytes n.toNat)).encode
  rlpOut : ∀ item, item.Fits → L.rlpOut item = item.encode
  trie : L.trie.Correct keccak256

end Maat.Prove
