import Maat.Lib.Checks
import Maat.Laws.Guest.Walk

/-!
# What a committed output attests

From an accepted input back to the chain: the header's receipts root is the root of a well-formed
trie of receipts, and the output is read off one log of the receipt that the trie maps the
transaction to (`main_sound`). The guest reads every integer field through its last eight bytes, so
the header's timestamp is compared with the expiry by its low 64 bits only.
-/

namespace Maat.Guest

open Rlp Bytes

/-! ## Integers -/

/-- The guest reads an integer modulo 2^64. -/
theorem toNat_beBytesToU64 (b : List UInt8) : (beBytesToU64 b).toNat = beNat b % 2 ^ 64 := by
  rw [beBytesToU64, UInt64.toNat_ofNat', beNat_zeros]
  rcases Nat.le_total 8 b.length with h8 | h8
  · rw [Nat.min_eq_right h8, beNat_drop h8, show 256 ^ 8 = 2 ^ 64 by norm_num, Nat.mod_mod]
  · rw [Nat.min_eq_left h8, Nat.sub_self, List.drop_zero]

theorem beBytesToU64_minBytes (n : UInt64) : beBytesToU64 (minBytes n.toNat) = n := by
  apply UInt64.toNat_inj.mp
  rw [toNat_beBytesToU64, beNat_minBytes n.toNat_lt, Nat.mod_eq_of_lt n.toNat_lt]

/-! ## Receipts -/

variable {R : Crate} {keccak256 : List UInt8 → Fixed 32}

/-- The first byte of a list tells it from the type of a typed receipt. -/
theorem head_encode_list {items : List Item} (h : (Item.list items).Fits) :
    ∃ b rest, (Item.list items).encode = b :: rest ∧ ¬ b < 0xc0 := by
  rw [Item.Fits, Item.encode, List.length_append] at h
  have hlist := isList_prefixed (encodeAll items).length (by omega) (encodeAll items)
  rw [← Item.encode] at hlist
  cases hbytes : (Item.list items).encode with
  | nil => exact absurd hbytes (encode_ne_nil _)
  | cons b rest =>
    rw [hbytes] at hlist
    refine ⟨b, rest, rfl, ?_⟩
    rw [UInt8.lt_iff_toNat_lt, Nat.not_lt]
    exact of_decide_eq_true hlist

theorem Receipt.fits {r : Receipt} (h : r.encode.length < 2 ^ 64) : r.toItem.Fits := by
  rw [Receipt.encode] at h
  rw [Item.Fits]
  split at h
  · exact h
  · rw [List.length_cons] at h
    omega

/-- What follows the type, if there is one, is the receipt. -/
theorem Receipt.body {r : Receipt} (h : r.toItem.Fits) :
    ∃ first, r.encode[0]? = some first ∧
      (if first < 0xc0 then r.encode.drop 1 else r.encode) = r.toItem.encode := by
  rw [Receipt.encode]
  cases r.type with
  | none =>
    obtain ⟨b, rest, hbytes, hb⟩ := head_encode_list h
    refine ⟨b, ?_, if_neg hb⟩
    rw [Receipt.toItem, hbytes]
    rfl
  | some type =>
    refine ⟨UInt8.ofNat type.val, rfl, if_pos ?_⟩
    have := type.isLt
    rw [UInt8.lt_iff_toNat_lt, UInt8.toNat_ofNat']
    show type.val % 2 ^ 8 < 192
    omega

/-- The guest takes the logs of a receipt, and only of one whose status is 1. -/
theorem decodeReceiptLogs_encode (hR : R.Correct) {r : Receipt} (h : r.encode.length < 2 ^ 64)
    {logs : List (List UInt8)} :
    decodeReceiptLogs R r.encode = some logs ↔
      r.status = 1 ∧ logs = r.logs.map fun log => log.toItem.encode := by
  have hfits := Receipt.fits h
  obtain ⟨first, hfirst, hbody⟩ := Receipt.body hfits
  rw [Receipt.toItem] at hfits hbody
  have hlist : (Item.list (r.logs.map Log.toItem)).Fits :=
    hfits.mem (.tail _ (.tail _ (.tail _ (.head _))))
  have hstatus : field R (Item.list _).encode 0 = some (minBytes r.status.toNat) :=
    field_list hR hfits rfl
  have hlogs := hR.at_list _ 3 hfits
  have hiter := hR.iter_list _ hlist
  simp only [decodeReceiptLogs, hfirst, hbody, hstatus, hlogs, Option.bind_eq_bind,
    Option.bind_some, beBytesToU64_minBytes, Option.bind_eq_some_iff, Option.guard_eq_some',
    exists_const, List.getElem?_cons_succ, List.getElem?_cons_zero, Option.map_some,
    Option.pure_def, Option.some.injEq, hiter, List.map_map]
  exact and_congr_right fun _ => eq_comm

/-! ## Logs -/

/-- The topics of a log are read back. -/
theorem topics_of_log (hR : R.Correct) {log : Log} (hfits : log.toItem.Fits) :
    ∃ topicsRlp, R.at_ log.toItem.encode 1 = some topicsRlp ∧
      (R.iter topicsRlp).mapM R.data = some (log.topics.map Subtype.val) := by
  rw [Log.toItem] at hfits ⊢
  have hlist : (Item.list (log.topics.map fun t => Item.bytes t.val)).Fits :=
    hfits.mem (.tail _ (.head _))
  refine ⟨_, hR.at_list _ _ hfits, ?_⟩
  rw [hR.iter_list _ hlist, List.map_map, List.mapM_map]
  have hread : ∀ t ∈ log.topics, R.data (Item.bytes t.val).encode = some t.val := fun t ht =>
    hR.data_bytes _ (hlist.mem (List.mem_map.mpr ⟨t, ht, rfl⟩))
  exact Checks.mapM_eq_some hread

/-- The log's members are the ones the guest read. -/
theorem Decoded.of_log (hR : R.Correct) {log : Log} (hfits : log.toItem.Fits) {c : Fixed 20}
    {event : IntentCreated} {topics : List (List UInt8)} {data : List UInt8}
    (d : Decoded R keccak256 c log.toItem.encode event topics data) :
    log.address = c ∧ topics = log.topics.map Subtype.val ∧ data = log.data := by
  obtain ⟨topicsRlp, hat, hmap⟩ := d.topicList
  obtain ⟨topicsRlp', hat', hmap'⟩ := topics_of_log hR hfits
  obtain rfl := Option.some.inj (hat.symm.trans hat')
  rw [Log.toItem] at hfits d
  have haddress := d.address
  rw [field_list hR hfits rfl] at haddress
  have hdata := d.logData
  rw [field_list hR hfits rfl] at hdata
  exact ⟨Subtype.ext (Option.some.inj haddress), Option.some.inj (hmap.symm.trans hmap'),
    (Option.some.inj hdata).symm⟩

/-! ## The output -/

/-- What an output says about the chain: `log` is the log of number `log_index` of a receipt with
status 1 that the trie holds for the transaction, and every field is the log's or the header's.
Integer fields are the low-order bits of the word at their position. -/
structure Attests (R : Crate) (keccak256 : List UInt8 → Fixed 32) (trie : Trie)
    (input : ProofInput) (out : ProofOutput) (r : Receipt) (log : Log) : Prop where
  blockHash : out.blockHash = keccak256 input.headerRlp
  receipt : trie.get (trieKey input.txIndex) = some r.encode
  status : r.status = 1
  logNumber : r.logs[input.logIndex.toNat]? = some log
  contract : log.address = out.contract
  topic0 : log.topics[0]? = some (keccak256 intentCreatedSignature)
  intentId : log.topics[1]? = some out.intentId
  sender : ∃ topic, log.topics[2]? = some topic ∧ out.sender.val = topic.val.drop 12
  dataLength : log.data.length = 192
  amount : out.amount.val = word log.data 0
  tokenAddress : out.tokenAddress.val = (word log.data 1).drop 12
  destinationWallet : out.destinationWallet.val = word log.data 2
  destinationChainId : out.destinationChainId.toNat = beNat (word log.data 3) % 2 ^ 64
  expiry : out.expiry.toNat = beNat (word log.data 4) % 2 ^ 64
  slippageBps : out.slippageBps.toNat = beNat (word log.data 5) % 2 ^ 16
  timestamp : ∃ timestamp, field R input.headerRlp 11 = some timestamp ∧
    beNat timestamp % 2 ^ 64 < out.expiry.toNat

theorem main_sound (R : Crate) (hR : R.Correct) (keccak256 : List UInt8 → Fixed 32)
    (input : ProofInput) (out : ProofOutput) (trie : Trie) (hwf : trie.WellFormed keccak256)
    (hreceipts : ∀ key v, trie.get key = some v → ∃ r : Receipt, v = r.encode)
    (hroot : field R input.headerRlp 5 = some (trie.root keccak256).val)
    (hcoll : { bs | bs ∈ input.receiptProofNodes ∨ bs ∈ trie.encodings keccak256 }.InjOn keccak256)
    (h : main R keccak256 input = some out) :
    ∃ r log, Attests R keccak256 trie input out r log := by
  obtain ⟨header, receiptBytes, logs, logBytes, event, hheader, hwalk, hlogs, hlog, hevent, hlt,
    rfl⟩ := main_eq_some h
  obtain ⟨-, hheaderRoot, -, timestamp, htime, hstamp⟩ := decodeHeader_eq_some hheader
  obtain hsame : header.receiptsRoot = trie.root keccak256 :=
    Subtype.ext (Option.some.inj (hheaderRoot.symm.trans hroot))
  rw [verifyTrieProof, hsame, hR.encodeU64] at hwalk
  have hfound := walk_sound hR hcoll hwf (fun bs hbs => .inr hbs) (fun n hn => .inl hn) hwalk
  rcases hfound with hget | ⟨-, rfl⟩
  · obtain ⟨r, rfl⟩ := hreceipts _ _ hget
    have hlen := Trie.length_of_get hwf hget
    obtain ⟨hstatus, rfl⟩ := (decodeReceiptLogs_encode hR hlen).mp hlogs
    rw [List.getElem?_map] at hlog
    obtain ⟨log, hnumber, rfl⟩ := Option.map_eq_some_iff.mp hlog
    have hlogFits : log.toItem.Fits := by
      have hlist : (Item.list (r.logs.map Log.toItem)).Fits :=
        (Receipt.fits hlen).mem (.tail _ (.tail _ (.tail _ (.head _))))
      exact hlist.mem (List.mem_map.mpr ⟨log, List.mem_of_getElem? hnumber, rfl⟩)
    obtain ⟨topics, data, d⟩ := decodeIntentCreated_eq_some hevent
    obtain ⟨haddress, rfl, rfl⟩ := d.of_log hR hlogFits
    have htopic {i : Nat} {a : Fixed 32}
        (hi : (log.topics.map Subtype.val)[i]? = some a.val) : log.topics[i]? = some a := by
      rw [List.getElem?_map] at hi
      obtain ⟨t, ht, hval⟩ := Option.map_eq_some_iff.mp hi
      rw [ht, Subtype.ext hval]
    obtain ⟨senderBytes, hsender, -, hsenderVal⟩ := d.sender
    rw [List.getElem?_map] at hsender
    obtain ⟨topic, htopic2, rfl⟩ := Option.map_eq_some_iff.mp hsender
    rw [List.take_of_length_le topic.property.le] at hsenderVal
    refine ⟨r, log, ?_⟩
    exact {
      blockHash := rfl
      receipt := hget
      status := hstatus
      logNumber := hnumber
      contract := haddress
      topic0 := htopic d.topic0
      intentId := htopic d.intentId
      sender := ⟨topic, htopic2, hsenderVal⟩
      dataLength := d.length
      amount := d.amount
      tokenAddress := d.tokenAddress
      destinationWallet := d.destinationWallet
      destinationChainId := by rw [d.destinationChainId, toNat_beBytesToU64]
      expiry := by rw [d.expiry, toNat_beBytesToU64]
      slippageBps := by
        rw [d.slippageBps, UInt64.toNat_toUInt16, toNat_beBytesToU64]
        omega
      timestamp := by
        refine ⟨timestamp, htime, ?_⟩
        rw [hstamp, UInt64.lt_iff_toNat_lt, toNat_beBytesToU64] at hlt
        exact hlt }
  · cases hlogs

/-! ## A sample block -/

/-- Two transactions; the second creates an intent. -/
def sampleReceipt : Receipt where
  type := some 2
  status := 1
  cumulativeGasUsed := 21000
  logsBloom := Fixed.replicate 256 0
  logs := [{
    address := Fixed.replicate 20 0x11
    topics := [fixed 32 0x1633e7e54ae0b855365938679d6532826f20b065ed71f076c885b24249decd99,
      fixed 32 7, fixed 32 0x22]
    data := [10 ^ 18, 0, 0x33, 900, 1800003600, 50].flatMap (beBytes 32) }]

def sampleFailedReceipt : Receipt where
  type := none
  status := 0
  cumulativeGasUsed := 50000
  logsBloom := Fixed.replicate 256 0
  logs := []

def sampleTrie : Trie :=
  .branch (fun i => if i = 0 then .leaf [1] sampleReceipt.encode
    else if i = 8 then .leaf [0] sampleFailedReceipt.encode else .empty) none

def sampleLeaf : List UInt8 :=
  (Item.list [.bytes (hexPrefix true [1]), .bytes sampleReceipt.encode]).encode

def sampleFailedLeaf : List UInt8 :=
  (Item.list [.bytes (hexPrefix true [0]), .bytes sampleFailedReceipt.encode]).encode

/-- The forms of the absent children between two present ones. -/
def absent (n : Nat) : List Item := List.replicate n (.bytes [])

def sampleBranch : List UInt8 :=
  (Item.list (
    .bytes (beBytes 32 0x4fbd800a7a77c71996f685ef35e941b20b8c66516cb4a22c07afa1da78576422) ::
      absent 7 ++
    .bytes (beBytes 32 0x3a2a12cde06d99d0b43a724a818e895794f98cdd9f2c01fb65607c9a976ba1b0) ::
      absent 8)).encode

def sampleHeader (timestamp : List UInt8) : List UInt8 :=
  (Item.list [.bytes (beBytes 32 0), .bytes (beBytes 32 0), .bytes (beBytes 20 0),
    .bytes (beBytes 32 0), .bytes (beBytes 32 0),
    .bytes (beBytes 32 0x3659c652a439eb12b97ea26f052c7fe30aa1e102e4c6906434c3d01bf32d10e9),
    .bytes (List.replicate 256 0), .bytes [1], .bytes (minBytes 123456), .bytes (minBytes (2 ^ 50)),
    .bytes (minBytes 21000), .bytes timestamp, .bytes (beBytes 32 0), .bytes (beBytes 32 0),
    .bytes (beBytes 8 0), .bytes (minBytes 100000000)]).encode

/-- A timestamp field of nine bytes. -/
def nineByteTimestamp : List UInt8 := beBytes 9 (2 ^ 64 + 1800000000)

/-- keccak256 on the strings of the sample. -/
def sampleKeccak256 (bs : List UInt8) : Fixed 32 :=
  ⟨beBytes 32 (
    if bs = intentCreatedSignature then
      0x1633e7e54ae0b855365938679d6532826f20b065ed71f076c885b24249decd99
    else if bs = sampleLeaf then
      0x4fbd800a7a77c71996f685ef35e941b20b8c66516cb4a22c07afa1da78576422
    else if bs = sampleFailedLeaf then
      0x3a2a12cde06d99d0b43a724a818e895794f98cdd9f2c01fb65607c9a976ba1b0
    else if bs = sampleBranch then
      0x3659c652a439eb12b97ea26f052c7fe30aa1e102e4c6906434c3d01bf32d10e9
    else if bs = sampleHeader (minBytes 1800000000) then
      0x3d1d4cc4bd2b74b8a728819a358584831236da26a813bb30a5f5cfb015d72fd0
    else if bs = sampleHeader nineByteTimestamp then
      0x722258af3076b9e0583bac074cf3c988b057436d00f42e6ad8b1fd03b756d6c0
    else 0), by simp⟩

def sampleInput (timestamp : List UInt8) : ProofInput where
  headerRlp := sampleHeader timestamp
  receiptProofNodes := [sampleBranch, sampleLeaf]
  txIndex := 1
  logIndex := 0
  expectedContract := Fixed.replicate 20 0x11

def sampleOutput (timestamp : List UInt8) : ProofOutput where
  blockHash := sampleKeccak256 (sampleHeader timestamp)
  blockNumber := 123456
  blockTimestamp := 1800000000
  contract := Fixed.replicate 20 0x11
  intentId := fixed 32 7
  sender := fixed 20 0x22
  amount := fixed 32 (10 ^ 18)
  tokenAddress := fixed 20 0
  destinationWallet := fixed 32 0x33
  destinationChainId := 900
  expiry := 1800003600
  slippageBps := 50

theorem sampleTrie_wellFormed : sampleTrie.WellFormed sampleKeccak256 := by
  refine ⟨.inl ⟨0, by simp⟩, ?_, by simp, ?_⟩
  · intro i
    dsimp only
    split
    · exact ⟨by decide +kernel, by rw [Item.Fits]; decide +kernel⟩
    · split
      · exact ⟨by decide +kernel, by rw [Item.Fits]; decide +kernel⟩
      · exact True.intro
  · rw [Item.Fits]
    decide +kernel

theorem sampleTrie_receipts (key : List Nibble) (v : List UInt8)
    (h : sampleTrie.get key = some v) : ∃ r : Receipt, v = r.encode := by
  cases key with
  | nil => cases h
  | cons nibble key =>
    rw [sampleTrie, Trie.get] at h
    split at h
    · rw [Trie.get] at h
      split at h
      · exact ⟨_, (Option.some.inj h).symm⟩
      · cases h
    · split at h
      · rw [Trie.get] at h
        split at h
        · exact ⟨_, (Option.some.inj h).symm⟩
        · cases h
      · cases h

/-- The strings of the sample that are hashed. -/
def sampleStrings : List (List UInt8) :=
  [sampleHeader (minBytes 1800000000), sampleBranch, sampleLeaf, sampleFailedLeaf, [0x80]]

/-- The trie's nodes are among these strings, which have different hashes. -/
theorem sampleStrings_hashed :
    (∀ bs ∈ sampleTrie.encodings sampleKeccak256, bs ∈ sampleStrings) ∧
      ∀ a ∈ sampleStrings, ∀ b ∈ sampleStrings, sampleKeccak256 a = sampleKeccak256 b → a = b := by
  decide +kernel

theorem sampleKeccak256_injOn (timestamp : List UInt8) :
    { bs | bs ∈ (sampleInput timestamp).receiptProofNodes ∨
      bs ∈ sampleTrie.encodings sampleKeccak256 }.InjOn sampleKeccak256 := by
  have hlisted : ∀ bs, bs ∈ (sampleInput timestamp).receiptProofNodes ∨
      bs ∈ sampleTrie.encodings sampleKeccak256 → bs ∈ sampleStrings := by
    rintro bs (hbs | hbs)
    · have hbs : bs ∈ [sampleBranch, sampleLeaf] := hbs
      exact .tail _ (List.mem_append_left [sampleFailedLeaf, [0x80]] hbs)
    · exact sampleStrings_hashed.1 bs hbs
  intro a ha b hb hab
  exact sampleStrings_hashed.2 a (hlisted a ha) b (hlisted b hb) hab

/-- The sample is accepted under either timestamp. -/
theorem sampleInput_accepted : ∀ timestamp ∈ [minBytes 1800000000, nineByteTimestamp],
    field reference (sampleHeader timestamp) 5 = some (sampleTrie.root sampleKeccak256).val ∧
      field reference (sampleHeader timestamp) 11 = some timestamp ∧
      main reference sampleKeccak256 (sampleInput timestamp) = some (sampleOutput timestamp) := by
  decide +kernel

theorem main_sound_sample :
    ∃ r log, Attests reference sampleKeccak256 sampleTrie (sampleInput (minBytes 1800000000))
      (sampleOutput (minBytes 1800000000)) r log := by
  obtain ⟨hroot, -, haccepted⟩ := sampleInput_accepted _ (.head _)
  exact main_sound reference reference_correct sampleKeccak256 _ _ sampleTrie sampleTrie_wellFormed
    sampleTrie_receipts hroot (sampleKeccak256_injOn _) haccepted

/-- The header's timestamp field need not fit 64 bits, and then the expiry need not be after it. -/
theorem expiry_before_timestamp :
    ¬ ∀ (R : Crate) (keccak256 : List UInt8 → Fixed 32) (input : ProofInput) (out : ProofOutput)
      (trie : Trie), R.Correct → trie.WellFormed keccak256 →
      (∀ key v, trie.get key = some v → ∃ r : Receipt, v = r.encode) →
      field R input.headerRlp 5 = some (trie.root keccak256).val →
      { bs | bs ∈ input.receiptProofNodes ∨ bs ∈ trie.encodings keccak256 }.InjOn keccak256 →
      main R keccak256 input = some out →
      ∃ timestamp, field R input.headerRlp 11 = some timestamp ∧
        beNat timestamp < out.expiry.toNat := by
  intro hclaim
  obtain ⟨hroot, hread, haccepted⟩ := sampleInput_accepted nineByteTimestamp (.tail _ (.head _))
  obtain ⟨timestamp, hfield, hlt⟩ := hclaim reference sampleKeccak256
    (sampleInput nineByteTimestamp) (sampleOutput nineByteTimestamp) sampleTrie reference_correct
    sampleTrie_wellFormed sampleTrie_receipts hroot (sampleKeccak256_injOn _) haccepted
  obtain rfl := Option.some.inj (hread.symm.trans hfield)
  have hval : beNat nineByteTimestamp = 2 ^ 64 + 1800000000 :=
    (beNat_beBytes 9 _).trans (Nat.mod_eq_of_lt (by decide))
  have hexpiry : (sampleOutput nineByteTimestamp).expiry.toNat = 1800003600 := rfl
  omega

end Maat.Guest
