import Maat.Laws.Guest.Embedded
import Maat.Laws.Guest.Event
import Maat.Laws.Prove.Node
import Maat.Laws.Prove.Precheck

/-!
# Host and guest agree

An input that the host makes of true answers is one the guest accepts, and what the guest commits is
what the block has (`host_guest_agree`). The trie that the library builds of the receipts is the
trie that the header commits to, as a mapping has one standard trie only, so the proof leads from
the receipts root to the receipt. The guest keeps the low 64 bits of the block number.
-/

namespace Maat.Prove

open Rlp Bytes Json Js Checks
open Guest (Log Receipt IntentCreated ProofInput ProofOutput trieKey beBytesToU64 field field_list)

variable {R : Crate} {keccak256 : List UInt8 → Fixed 32} {L : Libraries} {env : Env}
  {block : Block} {trie : Trie}

/-! ## The receipts trie -/

/-- A receipt has its bloom filter at least. -/
theorem length_encode_receipt (r : Receipt) : hashLength ≤ r.encode.length := by
  have hbloom : r.logsBloom.val.length ≤ r.toItem.encode.length :=
    Trie.length_le_encode_list (.tail _ (.tail _ (.head _)))
  rw [r.logsBloom.property] at hbloom
  have hlong : hashLength ≤ r.toItem.encode.length := le_trans (by decide) hbloom
  rw [Receipt.encode]
  split
  · exact hlong
  · rw [List.length_cons]
    omega

theorem Block.CommitsTo.get (h : block.CommitsTo keccak256 trie) {i : UInt64} {r : Receipt}
    (hr : block.receipts[i.toNat]? = some r) : trie.get (trieKey i) = some r.encode :=
  (h.receipts _ _).mpr ⟨i, rfl, r, hr, rfl⟩

theorem Block.CommitsTo.wellFormed (h : block.CommitsTo keccak256 trie) :
    trie.WellFormed keccak256 := by
  refine h.standard.wellFormed ?_
  intro key v hget
  obtain ⟨i, -, r, -, rfl⟩ := (h.receipts key v).mp hget
  exact length_encode_receipt r

theorem Block.CommitsTo.length_receipt (h : block.CommitsTo keccak256 trie) {i : UInt64}
    {r : Receipt} (hr : block.receipts[i.toNat]? = some r) : r.encode.length < 2 ^ 64 :=
  Trie.length_of_get h.wellFormed (h.get hr)

theorem nibblesOf_rlpEncode (hL : L.Correct keccak256) (i : UInt64) :
    Guest.nibblesOf (L.rlpEncode i) = trieKey i := by
  rw [hL.rlpEncode, trieKey]

/-- What is inserted for the receipts is what the trie of the block has. -/
theorem lastInserted_entries (hL : L.Correct keccak256) (hblock : block.CommitsTo keccak256 trie)
    {rs : List Value} (htells : TellsOf rs IsReceipt block)
    {entries : List (List UInt8 × List UInt8)} (henters : List.Forall₂ (Enters L) rs entries) :
    (∀ e ∈ entries, e.2 ≠ []) ∧ trie.get = lastInserted entries := by
  obtain ⟨htold, hall⟩ := htells
  have hentry : ∀ e ∈ entries, ∃ (u : UInt64) (r : Receipt), block.receipts[u.toNat]? = some r ∧
      Guest.nibblesOf e.1 = trieKey u ∧ e.2 = r.encode := by
    intro e he
    obtain ⟨k, hk⟩ := List.mem_iff_getElem?.mp he
    obtain ⟨v, hv, u, hkey, henter⟩ := counterpart henters.flip hk
    obtain ⟨i, r, hr, htrue⟩ := htold v (List.mem_of_getElem? hv)
    obtain ⟨rfl, hvalue⟩ := henter i r htrue
    refine ⟨u, r, hr, by rw [hkey, nibblesOf_rlpEncode hL], hvalue ?_⟩
    exact Guest.Receipt.fits (hblock.length_receipt hr)
  refine ⟨?_, ?_⟩
  · intro e he hnil
    obtain ⟨u, r, -, -, hvalue⟩ := hentry e he
    have hlong := length_encode_receipt r
    rw [← hvalue, hnil] at hlong
    exact absurd hlong (by decide)
  · funext path
    rw [lastInserted]
    cases hfind : entries.reverse.find? fun e => Guest.nibblesOf e.1 = path with
    | some e =>
      have hpath := List.find?_some hfind
      rw [decide_eq_true_eq] at hpath
      obtain ⟨u, r, hr, hkey, hvalue⟩ :=
        hentry e (List.mem_reverse.mp (List.mem_of_find?_eq_some hfind))
      rw [Option.map_some, ← hpath, hkey, hvalue, hblock.get hr]
    | none =>
      rw [Option.map_none]
      by_contra hne
      obtain ⟨v, hget⟩ := Option.ne_none_iff_exists'.mp hne
      obtain ⟨u, rfl, r, hr, -⟩ := (hblock.receipts path v).mp hget
      obtain ⟨a, ha, htrue⟩ := hall u.toNat r hr
      obtain ⟨k, hk⟩ := List.mem_iff_getElem?.mp ha
      obtain ⟨e, he, u', hkey, henter⟩ := counterpart henters hk
      have hsame : u' = u := UInt64.toNat_inj.mp (henter u.toNat r htrue).1
      have hnot := List.find?_eq_none.mp hfind e (List.mem_reverse.mpr (List.mem_of_getElem? he))
      exact hnot (decide_eq_true (by rw [hkey, hsame, nibblesOf_rlpEncode hL]))

/-- The library's proofs are those of the trie that the header commits to. -/
theorem getProof_block (hL : L.Correct keccak256) (hblock : block.CommitsTo keccak256 trie)
    {rs : List Value} (htells : TellsOf rs IsReceipt block) {t t' : L.trie.T} {root : Fixed 32}
    (hloop : rs.foldlM (insertReceipt L) L.trie.new = .ok t)
    (hroot : L.trie.rootHash t = .ok (root, t')) {i : UInt64} {proof : List (List UInt8)}
    (hproof : L.trie.getProof t' (L.rlpEncode i) = .ok proof) :
    proof = trie.inclusionProof keccak256 (trieKey i) := by
  obtain ⟨entries, henters, hentries⟩ := insertReceipts_eq_ok hL hloop
  obtain ⟨hvalues, hget⟩ := lastInserted_entries hL hblock htells henters
  obtain ⟨built, hstandard, hbuilt, -, hproofs⟩ := hL.trie entries t t' root hvalues hentries hroot
  obtain rfl := hstandard.unique hblock.standard (hbuilt.trans hget.symm)
  rw [hproofs _ _ hproof, nibblesOf_rlpEncode hL]

/-! ## The guest -/

/-- The guest reads the header that the host encoded. -/
theorem decodeHeader_header (hR : R.Correct) {h : Header} (hfits : h.toItem.Fits) :
    Guest.decodeHeader R h.toItem.encode =
      some ⟨h.receiptsRoot, beBytesToU64 (scalar h.number), beBytesToU64 (scalar h.timestamp)⟩ := by
  rw [Header.toItem] at hfits ⊢
  have hroot : field R (Item.list _).encode 5 = some h.receiptsRoot.val := field_list hR hfits rfl
  have hnumber : field R (Item.list _).encode 8 = some (scalar h.number) :=
    field_list hR hfits rfl
  have htime : field R (Item.list _).encode 11 = some (scalar h.timestamp) :=
    field_list hR hfits rfl
  simp only [Guest.decodeHeader, hR.itemCount_list _ hfits, hroot, hnumber, htime,
    Option.bind_eq_bind, Option.bind_some, Guest.copyFromSlice_val]
  rfl

theorem toNat_beBytesToU64_scalar (n : Nat) : (beBytesToU64 (scalar n)).toNat = n % 2 ^ 64 := by
  rw [Guest.toNat_beBytesToU64, beNat_scalar]

/-- The values of the event in an output. -/
def eventOf (out : ProofOutput) : IntentCreated where
  intentId := out.intentId
  sender := out.sender
  amount := out.amount
  tokenAddress := out.tokenAddress
  destinationWallet := out.destinationWallet
  destinationChainId := out.destinationChainId
  expiry := out.expiry
  slippageBps := out.slippageBps

/-- The receipt has one log of the event from the contract, with these values. -/
def OnlyIntent (keccak256 : List UInt8 → Fixed 32) (r : Receipt) (contract : Fixed 20)
    (event : IntentCreated) (k : Nat) : Prop :=
  r.logs[k]? = some (event.emit keccak256 contract) ∧
    ∀ (j : Nat) (log : Log), r.logs[j]? = some log → log.address = contract →
      log.topics[0]? = some (keccak256 Guest.intentCreatedSignature) → j = k

/-- What the guest commits on the header, the proof and the position of a log of the block. -/
theorem main_block (hR : R.Correct) (hblock : block.CommitsTo keccak256 trie) {input : ProofInput}
    (hheader : input.headerRlp = block.header.toItem.encode)
    (hproof : input.receiptProofNodes = trie.inclusionProof keccak256 (trieKey input.txIndex))
    {r : Receipt} (hr : block.receipts[input.txIndex.toNat]? = some r) (hstatus : r.status = 1)
    {event : IntentCreated}
    (hlog : r.logs[input.logIndex.toNat]? = some (event.emit keccak256 input.expectedContract))
    (htime : block.header.timestamp % 2 ^ 64 < event.expiry.toNat) :
    Guest.main R keccak256 input = some
      ⟨keccak256 block.header.toItem.encode, beBytesToU64 (scalar block.header.number),
        beBytesToU64 (scalar block.header.timestamp), input.expectedContract, event.intentId,
        event.sender, event.amount, event.tokenAddress, event.destinationWallet,
        event.destinationChainId, event.expiry, event.slippageBps⟩ := by
  have hget := hblock.get hr
  have hwalk : Guest.verifyTrieProof R keccak256 block.header.receiptsRoot
      (R.encodeU64 input.txIndex) input.receiptProofNodes = some r.encode := by
    rw [Guest.verifyTrieProof, hproof, hblock.wellFormed.inclusionProof_eq hget, hR.encodeU64,
      hblock.root]
    refine Guest.walk_trail hR hblock.standard hget ?_
    exact fun node hnode => hblock.wellFormed.length_trail hget (List.mem_of_mem_tail hnode)
  have hlogs := (Guest.decodeReceiptLogs_encode hR (hblock.length_receipt hr)).mpr ⟨hstatus, rfl⟩
  have hlt : beBytesToU64 (scalar block.header.timestamp) < event.expiry := by
    rwa [UInt64.lt_iff_toNat_lt, toNat_beBytesToU64_scalar]
  have hindex : (r.logs.map fun log => log.toItem.encode)[input.logIndex.toNat]? =
      some (event.emit keccak256 input.expectedContract).toItem.encode := by
    rw [List.getElem?_map, hlog, Option.map_some]
  simp only [Guest.main, hheader, decodeHeader_header hR hblock.header, hwalk, hlogs, hindex,
    Guest.decode_emit hR, Option.bind_eq_bind, Option.bind_some, guard, gt_iff_lt, hlt, if_true]
  rfl

/-! ## Agreement -/

/-- What the guest commits, and what the block has: the header's hash and fields, and the values of
the only event of the transaction. The block number is its low 64 bits. -/
structure Agrees (keccak256 : List UInt8 → Fixed 32) (block : Block) (txIndex : Nat)
    (intentManager : Fixed 20) (out : ProofOutput) : Prop where
  blockHash : out.blockHash = keccak256 block.header.toItem.encode
  blockNumber : out.blockNumber.toNat = block.header.number % 2 ^ 64
  blockTimestamp : out.blockTimestamp.toNat = block.header.timestamp
  contract : out.contract = intentManager
  event : ∃ r k, block.receipts[txIndex]? = some r ∧ r.status = 1 ∧
    OnlyIntent keccak256 r intentManager (eventOf out) k

/-- What the contract logs as `IntentCreated` is what `submitIntent` emits. -/
def Block.EmitsFrom (keccak256 : List UInt8 → Fixed 32) (block : Block) (contract : Fixed 20) :
    Prop :=
  ∀ r ∈ block.receipts, ∀ log ∈ r.logs, log.address = contract →
    log.topics[0]? = some (keccak256 Guest.intentCreatedSignature) →
      ∃ event : IntentCreated, log = event.emit keccak256 contract

/-- The data that the host checks is the event's: it is not too late, and the time is read in
full. -/
theorem expiry_of_checkLog (hL : L.Correct keccak256) {v : Value} {event : IntentCreated}
    {contract : Fixed 20} (hlog : IsLog v (event.emit keccak256 contract)) {stamp : UInt64}
    (h : checkLog L env stamp v = .ok ()) : stamp < event.expiry := by
  obtain ⟨s, data, hs, hread, -, -, hexpiry, -⟩ := checkLog_eq_ok h
  obtain ⟨s', hs', hdata⟩ := asStr_of_data hlog.data
  obtain rfl := Option.some.inj (hs.symm.trans hs')
  obtain rfl := Except.ok.inj (hread.symm.trans (h2b_data hL hdata))
  have hdecode : Guest.decodeIntentCreated reference keccak256 contract _ = some event :=
    Guest.decode_emit reference_correct contract event
  obtain ⟨topics, data, d⟩ := Guest.decodeIntentCreated_eq_some hdecode
  obtain ⟨-, -, rfl⟩ := d.of_log reference_correct (Guest.emit_fits contract event)
  rw [d.expiry]
  simpa only [Guest.word, List.drop_take] using hexpiry

theorem length_logs {r : Receipt} (h : r.toItem.Fits) : r.logs.length < 2 ^ 64 := by
  have hlist : (Item.list (r.logs.map Log.toItem)).Fits :=
    h.mem (.tail _ (.tail _ (.tail _ (.head _))))
  have hle := length_le_encodeAll (r.logs.map Log.toItem)
  rw [Item.Fits, Item.encode, List.length_append] at hlist
  rw [List.length_map] at hle
  omega

theorem eq_string_of_asStr {v : Value} {s : Str} (h : v.asStr = some s) : v = .string s := by
  cases v with
  | string text => exact congrArg _ (Option.some.inj h)
  | _ => cases h

/-- If the check passes, the guest accepts the input and commits what the block has. -/
theorem host_guest_agree (R : Crate) (hR : R.Correct) (keccak256 : List UInt8 → Fixed 32)
    (L : Libraries) (hL : L.Correct keccak256)
    (htopic0 : IsData (.string INTENT_CREATED_TOPIC0)
      (keccak256 Guest.intentCreatedSignature).val)
    (env : Env) (txHash targetContract : Str) (block : Block) (trie : Trie)
    (hblock : block.CommitsTo keccak256 trie) (txIndex : Nat)
    (henv : env.Truthful txHash block txIndex) (input : ProofInput)
    (hinput : nativePrecheck L env txHash targetContract = .ok input)
    (hemits : block.EmitsFrom keccak256 input.expectedContract) :
    IsData (.string targetContract) input.expectedContract.val ∧
      ∃ out, Guest.main R keccak256 input = some out ∧
        Agrees keccak256 block txIndex input.expectedContract out := by
  obtain ⟨tx, number, index, header, headerRlp, time, blockTimestamp, receipts, rs, t, receipt,
    status, logs, log, k, t', root, htx, hnull, hnumber, hindex, htxIndex, hheader, hrlp, rfl,
    htime, hstamp, hreceipts, hrs, hloop, hreceipt, hstatus, hone, hlogs, hlog, hcheck, hroot,
    hproof, hcontract, hlogIndex⟩ := nativePrecheck_eq_ok hinput
  -- what the node answered
  obtain ⟨htxIndexTrue, htxTrue⟩ := (henv.transaction tx htx).resolve_left
    (by rintro rfl; cases hnull)
  obtain ⟨hblockTrue, hallTrue⟩ := htxTrue number (eq_string_of_asStr hnumber)
  obtain ⟨hheaderTrue, honeTrue⟩ := hblockTrue header hheader
  obtain ⟨rs', rfl, htells⟩ := getBlockReceipts_true honeTrue hallTrue hreceipts
  obtain rfl : rs' = rs := Option.some.inj hrs
  have hi : input.txIndex.toNat = txIndex := toNat_of_read htxIndexTrue hindex htxIndex
  -- the receipt of the transaction
  obtain ⟨i, r, hr, hreceiptTrue⟩ := htells.1 receipt (List.mem_of_find?_eq_some hreceipt)
  obtain rfl := toNat_of_hasIndex hreceiptTrue.transactionIndex (List.find?_some hreceipt)
  have hfits := Guest.Receipt.fits (hblock.length_receipt hr)
  have hsucceeded : r.status = 1 :=
    UInt64.toNat_inj.mp (toNat_of_read hreceiptTrue.status hstatus hone).symm
  obtain ⟨logs', hlogsArray, hall⟩ := hreceiptTrue.logs
  rw [hlogsArray] at hlogs
  obtain rfl : logs' = logs := Option.some.inj hlogs
  -- the log
  obtain ⟨hat, hmatches, honly⟩ := findLog_eq_ok hlog
  obtain ⟨l, hl, hlogTrue⟩ := counterpart hall hat
  obtain ⟨hlower, htopic⟩ := (isIntentCreated_iff hL htopic0 hlogTrue).mp hmatches
  have hread := h2b20_eq_ok hcontract
  have htarget := data_of_lowercase hL hlower hread
  have hsame : l.address = input.expectedContract :=
    Subtype.ext (Except.ok.inj ((h2b_data hL htarget).symm.trans hread))
  obtain ⟨event, rfl⟩ :=
    hemits r (List.mem_of_getElem? hr) l (List.mem_of_getElem? hl) hsame htopic
  have hk : input.logIndex.toNat = k := by
    have hlt := (List.getElem?_eq_some_iff.mp hl).1
    have hlength := length_logs hfits
    rw [hlogIndex, UInt64.toNat_ofNat', Nat.mod_eq_of_lt (by omega)]
  have honlyIntent : OnlyIntent keccak256 r input.expectedContract event k := by
    refine ⟨hl, ?_⟩
    intro j log' hj haddress htopic'
    obtain ⟨v, hv, hvTrue⟩ := counterpart hall.flip hj
    refine honly j v hv ((isIntentCreated_iff hL htopic0 hvTrue).mpr ⟨?_, htopic'⟩)
    rw [haddress]
    exact hlower
  -- the header
  have hheaderRlp : input.headerRlp = block.header.toItem.encode :=
    Except.ok.inj (hrlp.symm.trans (headerRlpBytes_header hL hheaderTrue hblock.header))
  have hstampNumber := toNat_of_read hheaderTrue.timestamp htime hstamp
  have htimeFits : block.header.timestamp % 2 ^ 64 = block.header.timestamp := by
    rw [← hstampNumber]
    exact Nat.mod_eq_of_lt blockTimestamp.toNat_lt
  have hexpiry := UInt64.lt_iff_toNat_lt.mp (expiry_of_checkLog hL hlogTrue hcheck)
  have hmain := main_block hR hblock hheaderRlp
    (getProof_block hL hblock htells hloop hroot hproof) hr hsucceeded (by rw [hk]; exact hl)
    (by rw [htimeFits, ← hstampNumber]; exact hexpiry)
  refine ⟨hsame ▸ htarget, _, hmain, ?_⟩
  exact {
    blockHash := rfl
    blockNumber := toNat_beBytesToU64_scalar _
    blockTimestamp := (toNat_beBytesToU64_scalar _).trans htimeFits
    contract := rfl
    event := ⟨r, k, hi ▸ hr, hsucceeded, honlyIntent⟩ }

/-! ## A sample block -/

def sampleEvent : IntentCreated :=
  { Guest.sampleEvent with destinationChainId := EXPECTED_DESTINATION_CHAIN_ID }

/-- The second log is the event. -/
def sampleReceipt : Receipt where
  type := some 2
  status := 1
  cumulativeGasUsed := 21000
  logsBloom := Fixed.replicate 256 0
  logs := [{
    address := Fixed.replicate 20 0x22
    topics := []
    data := [1, 2, 3] }, {
    address := Guest.sampleContract
    topics := [fixed 32 0x1633e7e54ae0b855365938679d6532826f20b065ed71f076c885b24249decd99,
      sampleEvent.intentId, fixed 32 0x22]
    data := sampleEvent.abiData }]

def sampleTrie : Trie :=
  .branch (fun i => if i = 0 then .leaf [1] sampleReceipt.encode
    else if i = 8 then .leaf [0] Guest.sampleFailedReceipt.encode else .empty) none

def sampleEntries : List (List UInt8 × List UInt8) :=
  [([0x80], Guest.sampleFailedReceipt.encode), ([0x01], sampleReceipt.encode)]

def sampleLeaf : List UInt8 :=
  (Item.list [.bytes (hexPrefix true [1]), .bytes sampleReceipt.encode]).encode

def sampleBranch : List UInt8 :=
  (Item.list (
    .bytes (beBytes 32 0xb464166d36112ac630604739c6b8879ff7c61f34674ddcdb28e8ff21cec081d9) ::
      Guest.absent 7 ++
    .bytes (beBytes 32 0x3a2a12cde06d99d0b43a724a818e895794f98cdd9f2c01fb65607c9a976ba1b0) ::
      Guest.absent 8)).encode

def sampleHeader (number : Nat) : Header where
  parentHash := Fixed.replicate 32 0
  sha3Uncles := Fixed.replicate 32 0
  miner := Fixed.replicate 20 0
  stateRoot := Fixed.replicate 32 0
  transactionsRoot := Fixed.replicate 32 0
  receiptsRoot := fixed 32 0x493401eede0f8e741d2601dd39e8f295d1d5841093fe0da75d942c8e9f3a913d
  logsBloom := Fixed.replicate 256 0
  difficulty := 1
  number
  gasLimit := 2 ^ 50
  gasUsed := 21000
  timestamp := 1800000000
  extraData := List.replicate 32 0
  mixHash := Fixed.replicate 32 0
  nonce := Fixed.replicate 8 0
  baseFeePerGas := 100000000

def sampleBlock (number : Nat) : Block :=
  ⟨sampleHeader number, [Guest.sampleFailedReceipt, sampleReceipt]⟩

/-- A number of more than 64 bits. -/
def wideNumber : Nat := 2 ^ 64 + 123456

/-- keccak256 on the strings of the sample. -/
def sampleKeccak256 (bs : List UInt8) : Fixed 32 :=
  ⟨beBytes 32 (
    if bs = Guest.intentCreatedSignature then
      0x1633e7e54ae0b855365938679d6532826f20b065ed71f076c885b24249decd99
    else if bs = sampleLeaf then
      0xb464166d36112ac630604739c6b8879ff7c61f34674ddcdb28e8ff21cec081d9
    else if bs = Guest.sampleFailedLeaf then
      0x3a2a12cde06d99d0b43a724a818e895794f98cdd9f2c01fb65607c9a976ba1b0
    else if bs = sampleBranch then
      0x493401eede0f8e741d2601dd39e8f295d1d5841093fe0da75d942c8e9f3a913d
    else if bs = (sampleHeader 123456).toItem.encode then
      0x204fda5f4ccc6681c8de3c305554e02345ce98e97bb7fbcc9715020cb48b50f1
    else if bs = (sampleHeader wideNumber).toItem.encode then
      0xb2fabf66c74fde045770ab9a207e380bfb89d4907953ae7ec6f7fd0f055b3032
    else 0), length_beBytes ..⟩

def sampleLibraries : Libraries := libraries sampleKeccak256 sampleEntries sampleTrie

def sampleInput (number : Nat) : ProofInput where
  headerRlp := (sampleHeader number).toItem.encode
  receiptProofNodes := [sampleBranch, sampleLeaf]
  txIndex := 1
  logIndex := 1
  expectedContract := Guest.sampleContract

def sampleTarget : Str := "0x1111111111111111111111111111111111111111".toList

theorem sampleTrie_get (path : List Nibble) :
    sampleTrie.get path = if [0, 1] = path then some sampleReceipt.encode
      else if [8, 0] = path then some Guest.sampleFailedReceipt.encode else none := by
  cases path with
  | nil => rfl
  | cons nibble path =>
    rw [sampleTrie, Trie.get]
    by_cases h0 : nibble = 0
    · simp [h0, Trie.get, eq_comm]
    · by_cases h8 : nibble = 8
      · simp [h8, Trie.get, eq_comm]
      · simp [h0, h8, Trie.get, eq_comm]

theorem sampleTrie_standard : sampleTrie.Standard sampleKeccak256 := by
  refine ⟨⟨0, by simp, .inr ⟨8, by decide, by simp⟩⟩, ?_, by simp, ?_⟩
  · intro i
    dsimp only
    split
    · exact ⟨by decide +kernel, by rw [Item.Fits]; decide +kernel⟩
    · split
      · exact ⟨by decide +kernel, by rw [Item.Fits]; decide +kernel⟩
      · exact True.intro
  · rw [Item.Fits]
    decide +kernel

theorem sampleLibraries_correct : sampleLibraries.Correct sampleKeccak256 := by
  refine libraries_correct sampleTrie_standard (funext fun path => ?_)
  have h1 : Guest.nibblesOf [0x01] = [0, 1] := by decide
  have h80 : Guest.nibblesOf [0x80] = [8, 0] := by decide
  rw [sampleTrie_get, lastInserted, sampleEntries]
  simp only [List.reverse_cons, List.reverse_nil, List.nil_append, List.cons_append,
    List.find?_cons, List.find?_nil, h1, h80]
  split_ifs <;> simp_all

/-- The strings of the sample that are hashed. -/
def sampleStrings : List (List UInt8) :=
  [(sampleHeader 123456).toItem.encode, sampleBranch, sampleLeaf, Guest.sampleFailedLeaf, [0x80]]

/-- The trie's nodes are among these strings, which have different hashes, and its root is the one
in the header. -/
theorem sampleStrings_hashed :
    (∀ bs ∈ sampleTrie.encodings sampleKeccak256, bs ∈ sampleStrings) ∧
      (∀ a ∈ sampleStrings, ∀ b ∈ sampleStrings,
        sampleKeccak256 a = sampleKeccak256 b → a = b) ∧
      (sampleHeader 0).receiptsRoot = sampleTrie.root sampleKeccak256 := by
  decide +kernel

theorem sampleKeccak256_injOn : { bs | bs ∈ sampleStrings }.InjOn sampleKeccak256 :=
  fun a ha b hb hab => sampleStrings_hashed.2.1 a ha b hb hab

theorem sampleHeader_fits :
    ∀ number ∈ [123456, wideNumber], (sampleHeader number).toItem.Fits := by
  simp only [Item.Fits]
  decide +kernel

theorem sampleBlock_commitsTo {number : Nat} (h : (sampleHeader number).toItem.Fits) :
    (sampleBlock number).CommitsTo sampleKeccak256 sampleTrie where
  header := h
  standard := sampleTrie_standard
  receipts path v := by
    have h0 : trieKey 0 = [8, 0] := by decide
    have h1 : trieKey 1 = [0, 1] := by decide
    rw [sampleTrie_get]
    constructor
    · intro hget
      split at hget
      · next hpath => exact ⟨1, hpath ▸ h1.symm, sampleReceipt, rfl, (Option.some.inj hget).symm⟩
      · split at hget
        · next hpath =>
          exact ⟨0, hpath ▸ h0.symm, Guest.sampleFailedReceipt, rfl, (Option.some.inj hget).symm⟩
        · cases hget
    · rintro ⟨i, rfl, r, hr, rfl⟩
      have hlt : i.toNat < 2 := (List.getElem?_eq_some_iff.mp hr).1
      rcases Nat.lt_succ_iff_lt_or_eq.mp hlt with hlt | hone
      · obtain rfl : i = 0 := UInt64.toNat_inj.mp (Nat.lt_one_iff.mp hlt)
        obtain rfl : Guest.sampleFailedReceipt = r := Option.some.inj hr
        rw [h0]
        rfl
      · obtain rfl : i = 1 := UInt64.toNat_inj.mp hone
        obtain rfl : sampleReceipt = r := Option.some.inj hr
        rw [h1]
        rfl
  root := sampleStrings_hashed.2.2

theorem isData_topic0 : IsData (.string INTENT_CREATED_TOPIC0)
    (sampleKeccak256 Guest.intentCreatedSignature).val :=
  ⟨INTENT_CREATED_TOPIC0.drop 2, congrArg Value.string (by decide), by
    rw [Hex.spells_iff]
    decide⟩

theorem sampleBlock_emits (number : Nat) :
    (sampleBlock number).EmitsFrom sampleKeccak256 Guest.sampleContract := by
  have hemitted : ∀ log ∈ sampleReceipt.logs, log.address = Guest.sampleContract →
      ∃ event : IntentCreated, log = event.emit sampleKeccak256 Guest.sampleContract := by
    intro log hlog haddress
    rcases List.mem_cons.mp hlog with rfl | hlog
    · exact absurd haddress (by decide)
    · obtain rfl := List.mem_singleton.mp hlog
      exact ⟨sampleEvent, congrArg (fun topics => Log.mk Guest.sampleContract topics
        sampleEvent.abiData) (by decide)⟩
  intro r hr log hlog haddress _
  rcases List.mem_cons.mp hr with rfl | hr
  · cases hlog
  · obtain rfl := List.mem_singleton.mp hr
    exact hemitted log hlog haddress

theorem sampleNode_truthful (number : Nat) :
    ((sampleBlock number).node 1 1800000001).Truthful "0xaa".toList (sampleBlock number) 1 := by
  refine node_truthful _ ?_ _ _ _
  intro r hr
  rcases List.mem_cons.mp hr with rfl | hr
  · exact nofun
  · obtain rfl := List.mem_singleton.mp hr
    decide

theorem sampleCheck : ∀ number ∈ [123456, wideNumber],
    nativePrecheck sampleLibraries ((sampleBlock number).node 1 1800000001) "0xaa".toList
      sampleTarget = .ok (sampleInput number) := by
  decide +kernel

/-- What the guest commits. -/
def sampleOutput (number : Nat) : ProofOutput where
  blockHash := sampleKeccak256 (sampleHeader number).toItem.encode
  blockNumber := 123456
  blockTimestamp := 1800000000
  contract := Guest.sampleContract
  intentId := sampleEvent.intentId
  sender := sampleEvent.sender
  amount := sampleEvent.amount
  tokenAddress := sampleEvent.tokenAddress
  destinationWallet := sampleEvent.destinationWallet
  destinationChainId := sampleEvent.destinationChainId
  expiry := sampleEvent.expiry
  slippageBps := sampleEvent.slippageBps

theorem sampleInput_committed : ∀ number ∈ [123456, wideNumber],
    Guest.main reference sampleKeccak256 (sampleInput number) = some (sampleOutput number) := by
  decide +kernel

theorem host_guest_agree_sample :
    IsData (.string sampleTarget) Guest.sampleContract.val ∧
      ∃ out, Guest.main reference sampleKeccak256 (sampleInput 123456) = some out ∧
        Agrees sampleKeccak256 (sampleBlock 123456) 1 Guest.sampleContract out :=
  host_guest_agree reference reference_correct sampleKeccak256 sampleLibraries
    sampleLibraries_correct isData_topic0 ((sampleBlock 123456).node 1 1800000001) "0xaa".toList
    sampleTarget (sampleBlock 123456) sampleTrie
    (sampleBlock_commitsTo (sampleHeader_fits _ (.head _))) 1 (sampleNode_truthful 123456)
    (sampleInput 123456) (sampleCheck _ (.head _)) (sampleBlock_emits 123456)

/-- The guest commits the low 64 bits of a block number that has more. -/
theorem wide_number_truncated :
    ¬ ∀ (R : Crate) (keccak256 : List UInt8 → Fixed 32) (L : Libraries) (env : Env)
      (txHash targetContract : Str) (block : Block) (trie : Trie) (txIndex : Nat)
      (input : ProofInput), R.Correct → L.Correct keccak256 →
      IsData (.string INTENT_CREATED_TOPIC0) (keccak256 Guest.intentCreatedSignature).val →
      block.CommitsTo keccak256 trie → env.Truthful txHash block txIndex →
      nativePrecheck L env txHash targetContract = .ok input →
      block.EmitsFrom keccak256 input.expectedContract →
      ∃ out, Guest.main R keccak256 input = some out ∧
        out.blockNumber.toNat = block.header.number := by
  intro hclaim
  have hwide : wideNumber ∈ [123456, wideNumber] := .tail _ (.head _)
  obtain ⟨out, hout, hnumber⟩ := hclaim reference sampleKeccak256 sampleLibraries
    ((sampleBlock wideNumber).node 1 1800000001) "0xaa".toList sampleTarget
    (sampleBlock wideNumber) sampleTrie 1 (sampleInput wideNumber) reference_correct
    sampleLibraries_correct isData_topic0 (sampleBlock_commitsTo (sampleHeader_fits _ hwide))
    (sampleNode_truthful wideNumber) (sampleCheck _ hwide) (sampleBlock_emits wideNumber)
  obtain rfl := Option.some.inj ((sampleInput_committed _ hwide).symm.trans hout)
  cases hnumber

end Maat.Prove
