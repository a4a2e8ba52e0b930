import Maat.Laws.Prove.Texts

/-!
# A node and the crates

What is asked of an RPC node and of the crates can be met: there is a node that tells of any block
(`node_truthful`), and crates that do what they are relied on for, with a trie library that holds
one trie (`libraries_correct`).
-/

namespace Maat.Prove

open Rlp Bytes Json Js
open Guest (Log Receipt)

variable {keccak256 : List UInt8 → Fixed 32}

/-! ## Answers about a block -/

/-- Bytes as the JSON-RPC interface writes them. -/
def dataText (bs : List UInt8) : Value := .string ('0' :: 'x' :: Hex.toHex bs)

/-- A number as the JSON-RPC interface writes it, without leading zeros. -/
def quantityText (n : Nat) : Value := .string ('0' :: 'x' :: Nat.toDigits 16 n)

theorem isData_dataText (bs : List UInt8) : IsData (dataText bs) bs :=
  ⟨_, rfl, Hex.spells_toHex bs⟩

theorem isQuantity_quantityText (n : Nat) : IsQuantity (quantityText n) n :=
  ⟨_, rfl, Hex.bigInt_toDigits n⟩

/-- What a node answers about a block. -/
def Header.json (h : Header) (hashes : List Value) : Value :=
  .object [("parentHash".toList, dataText h.parentHash.val),
    ("sha3Uncles".toList, dataText h.sha3Uncles.val), ("miner".toList, dataText h.miner.val),
    ("stateRoot".toList, dataText h.stateRoot.val),
    ("transactionsRoot".toList, dataText h.transactionsRoot.val),
    ("receiptsRoot".toList, dataText h.receiptsRoot.val),
    ("logsBloom".toList, dataText h.logsBloom.val),
    ("difficulty".toList, quantityText h.difficulty), ("number".toList, quantityText h.number),
    ("gasLimit".toList, quantityText h.gasLimit), ("gasUsed".toList, quantityText h.gasUsed),
    ("timestamp".toList, quantityText h.timestamp), ("extraData".toList, dataText h.extraData),
    ("mixHash".toList, dataText h.mixHash.val), ("nonce".toList, dataText h.nonce.val),
    ("baseFeePerGas".toList, quantityText h.baseFeePerGas),
    ("transactions".toList, .array hashes)]

def logJson (log : Log) : Value :=
  .object [("address".toList, dataText log.address.val),
    ("topics".toList, .array (log.topics.map fun t => dataText t.val)),
    ("data".toList, dataText log.data)]

/-- The type of a legacy receipt is 0. -/
def typeNumber (r : Receipt) : Fin 0x80 := r.type.getD 0

/-- What a node answers about a receipt, at its place in the block. -/
def receiptJson (txIndex : Nat) (r : Receipt) : Value :=
  .object [("transactionIndex".toList, quantityText txIndex),
    ("type".toList, quantityText (typeNumber r)), ("status".toList, quantityText r.status.toNat),
    ("cumulativeGasUsed".toList, quantityText r.cumulativeGasUsed),
    ("logsBloom".toList, dataText r.logsBloom.val),
    ("logs".toList, .array (r.logs.map logJson))]

/-- The answer about a block has the header's fields. -/
theorem isHeader_json (h : Header) (hashes : List Value) : IsHeader (h.json hashes) h where
  parentHash := isData_dataText _
  sha3Uncles := isData_dataText _
  miner := isData_dataText _
  stateRoot := isData_dataText _
  transactionsRoot := isData_dataText _
  receiptsRoot := isData_dataText _
  logsBloom := isData_dataText _
  difficulty := isQuantity_quantityText _
  number := isQuantity_quantityText _
  gasLimit := isQuantity_quantityText _
  gasUsed := isQuantity_quantityText _
  timestamp := isQuantity_quantityText _
  extraData := isData_dataText _
  mixHash := isData_dataText _
  nonce := isData_dataText _
  baseFeePerGas := isQuantity_quantityText _

theorem isLog_json (log : Log) : IsLog (logJson log) log where
  address := isData_dataText _
  topics := by
    refine ⟨_, rfl, ?_⟩
    rw [List.forall₂_map_left_iff, List.forall₂_same]
    exact fun t _ => isData_dataText t.val
  data := isData_dataText _

/-- The answer about a receipt has the receipt's fields, unless its type is written out as 0. -/
theorem isReceipt_json (txIndex : Nat) {r : Receipt} (h : r.type ≠ some 0) :
    IsReceipt (receiptJson txIndex r) txIndex r where
  transactionIndex := isQuantity_quantityText _
  type := by
    refine ⟨typeNumber r, isQuantity_quantityText _, ?_⟩
    rw [typeNumber, receiptType]
    cases htype : r.type with
    | none => rfl
    | some n =>
      have hn : n ≠ 0 := by
        rintro rfl
        exact h htype
      rw [Option.getD_some, if_neg hn]
  status := isQuantity_quantityText _
  cumulativeGasUsed := isQuantity_quantityText _
  logsBloom := isData_dataText _
  logs := by
    refine ⟨_, rfl, ?_⟩
    rw [List.forall₂_map_left_iff, List.forall₂_same]
    exact fun log _ => isLog_json log

/-- A node that knows one block and one of its transactions. -/
def Block.node (block : Block) (txIndex : Nat) (now : UInt64) : Env where
  rpcCall method _ :=
    if method = "eth_getTransactionByHash".toList then
      .ok (.object [("blockNumber".toList, quantityText block.header.number),
        ("transactionIndex".toList, quantityText txIndex)])
    else if method = "eth_getBlockByNumber".toList then
      .ok (block.header.json ((List.range block.receipts.length).map quantityText))
    else if method = "eth_getBlockReceipts".toList then
      .ok (.array (block.receipts.zipIdx.map fun r => receiptJson r.2 r.1))
    else .error "the method does not exist".toList
  now := .ok now

/-- What the node answers is true of the block. -/
theorem node_truthful (block : Block) (htypes : ∀ r ∈ block.receipts, r.type ≠ some 0)
    (txHash : Str) (txIndex : Nat) (now : UInt64) :
    (block.node txIndex now).Truthful txHash block txIndex where
  transaction tx htx := by
    obtain rfl := Except.ok.inj htx
    refine .inr ⟨isQuantity_quantityText _, fun number _ => ⟨?_, ?_⟩⟩
    · intro v hv
      obtain rfl := Except.ok.inj hv
      refine ⟨isHeader_json _ _, _, rfl, ?_, ?_⟩
      · intro hash hhash
        obtain ⟨i, hi, rfl⟩ := List.mem_map.mp hhash
        exact ⟨i, _, List.getElem?_eq_getElem (List.mem_range.mp hi), nofun⟩
      · intro i r hr
        have hi := (List.getElem?_eq_some_iff.mp hr).1
        exact ⟨quantityText i, List.mem_map.mpr ⟨i, List.mem_range.mpr hi, rfl⟩, nofun⟩
    · intro v hv
      obtain rfl := Except.ok.inj hv
      refine ⟨_, rfl, ?_, ?_⟩
      · intro a ha
        obtain ⟨⟨r, i⟩, hr, rfl⟩ := List.mem_map.mp ha
        have hr := List.mk_mem_zipIdx_iff_getElem?.mp hr
        exact ⟨i, r, hr, isReceipt_json i (htypes r (List.mem_of_getElem? hr))⟩
      · intro i r hr
        exact ⟨receiptJson i r,
          List.mem_map.mpr ⟨(r, i), List.mk_mem_zipIdx_iff_getElem?.mpr hr, rfl⟩,
          isReceipt_json i (htypes r (List.mem_of_getElem? hr))⟩

/-! ## Crates -/

/-- `hex::decode` -/
def hexDecode (s : Str) : Except Str (List UInt8) :=
  if s.length = 2 * (Hex.fromHex s).length then .ok (Hex.fromHex s)
  else .error "Invalid character".toList

/-- A library that keeps what was inserted and knows one trie. -/
def EthTrie.holding (keccak256 : List UInt8 → Fixed 32)
    (entries : List (List UInt8 × List UInt8)) (trie : Trie) : EthTrie where
  T := List (List UInt8 × List UInt8)
  new := []
  insert t key value := .ok (t ++ [(key, value)])
  rootHash t :=
    if t = entries then .ok (trie.root keccak256, t) else .error "UnknownTrie".toList
  getProof t key :=
    if t = entries then .ok (trie.inclusionProof keccak256 (Guest.nibblesOf key))
    else .error "UnknownTrie".toList

/-- Inserting keeps what is there and adds each pair at the end. -/
theorem foldlM_keep (inserted start : List (List UInt8 × List UInt8)) :
    inserted.foldlM (fun t e => (.ok (t ++ [(e.1, e.2)]) : Except Str _)) start =
      .ok (start ++ inserted) := by
  induction inserted generalizing start with
  | nil => exact congrArg Except.ok (List.append_nil start).symm
  | cons e inserted ih =>
    rw [List.foldlM_cons]
    refine (ih (start ++ [e])).trans ?_
    rw [List.append_assoc, List.singleton_append]

/-- A library that answers from one trie is correct, if the trie is well-formed and holds the last
of what was inserted. -/
theorem holding_correct {entries : List (List UInt8 × List UInt8)} {trie : Trie}
    (hstandard : trie.Standard keccak256) (hget : trie.get = lastInserted entries) :
    (EthTrie.holding keccak256 entries trie).Correct keccak256 := by
  intro inserted t t' root _ hinsert hroot
  obtain rfl : inserted = t := Except.ok.inj ((foldlM_keep inserted []).symm.trans hinsert)
  have hroot : (if inserted = entries then .ok (trie.root keccak256, inserted)
    else .error "UnknownTrie".toList : Except Str (Fixed 32 × _)) = .ok (root, t') := hroot
  split at hroot
  · next heq =>
    obtain ⟨rfl, rfl⟩ := Prod.mk.inj (Except.ok.inj hroot)
    refine ⟨trie, hstandard, heq ▸ hget, rfl, ?_⟩
    intro key proof hproof
    exact (Except.ok.inj ((if_pos heq).symm.trans hproof)).symm
  · cases hroot

/-- All the crates, with the trie library of one trie. -/
def libraries (keccak256 : List UInt8 → Fixed 32) (entries : List (List UInt8 × List UInt8))
    (trie : Trie) : Libraries where
  hexDecode := hexDecode
  lowercase := toLowerCase
  rlpEncode n := (Item.bytes (minBytes n.toNat)).encode
  rlpOut := Item.encode
  trie := .holding keccak256 entries trie

/-- The crates do what they are relied on for. -/
theorem libraries_correct {entries : List (List UInt8 × List UInt8)} {trie : Trie}
    (hstandard : trie.Standard keccak256) (hget : trie.get = lastInserted entries) :
    (libraries keccak256 entries trie).Correct keccak256 where
  hexDecode s bs := by
    rw [Hex.spells_iff]
    show hexDecode s = .ok bs ↔ _
    rw [hexDecode]
    split
    · next hlength =>
      rw [Except.ok.injEq]
      exact ⟨fun h => ⟨h, h ▸ hlength⟩, fun h => h.1⟩
    · next hlength =>
      refine iff_of_false nofun ?_
      rintro ⟨rfl, h⟩
      exact hlength h
  lowercase _ _ := rfl
  rlpEncode _ := rfl
  rlpOut _ _ := rfl
  trie := holding_correct hstandard hget

end Maat.Prove
