import Maat.Laws.Prove.Texts

/-!
# Headers and receipts encoded again

What the host encodes of a node's true answers is what the block has: the header
(`headerRlpBytes_header`) and, typed or legacy, each receipt (`encodeReceipt_receipt`).
-/

namespace Maat.Prove

open Rlp Bytes Json Js Checks
open Guest (Log Receipt IntentCreated ProofInput ProofOutput trieKey)

variable {keccak256 : List UInt8 → Fixed 32} {L : Libraries}

/-- `ok_or` succeeds with the value that is there. -/
theorem okOr_eq_ok {ε α : Type} {o : Option α} {e : ε} {a : α} :
    okOr o e = .ok a ↔ o = some a := by
  cases o <;> simp [okOr]

/-! ## The header -/

/-- A field that holds a text is read as that text. -/
theorem headerField_of_index {block : Value} {k s : Str} (h : block.index k = .string s) :
    headerField block k = .ok s := by
  rw [Value.index] at h
  cases hmember : block.member k with
  | none =>
    rw [hmember] at h
    cases h
  | some v =>
    rw [hmember, Option.getD_some] at h
    rw [headerField, hmember, h]
    rfl

theorem headerItem_of_h2b {block : Value} {k s : Str} {bs : List UInt8}
    (form : List UInt8 → List UInt8) (hs : block.index k = .string s) (hread : h2b L s = .ok bs) :
    headerItem L block k form = .ok (.bytes (form bs)) := by
  rw [headerItem, headerField_of_index hs]
  show (h2b L s).bind _ = _
  rw [hread]
  rfl

/-- A field of bytes goes into the header as those bytes. -/
theorem headerItem_data (hL : L.Correct keccak256) {block : Value} {k : Str} {bs : List UInt8}
    (h : IsData (block.index k) bs) : headerItem L block k id = .ok (.bytes bs) := by
  obtain ⟨digits, hs, -⟩ := id h
  rw [hs] at h
  exact headerItem_of_h2b id hs (h2b_data hL h)

/-- A quantity goes into the header as the scalar of its number, however many digits it has. -/
theorem headerItem_quantity (hL : L.Correct keccak256) {block : Value} {k : Str} {n : Nat}
    (h : IsQuantity (block.index k) n) :
    headerItem L block k stripLeadingZeros = .ok (.bytes (scalar n)) := by
  obtain ⟨digits, hs, -⟩ := id h
  rw [hs] at h
  obtain ⟨bs, hread, hstrip⟩ := h2b_quantity hL h
  rw [← hstrip]
  exact headerItem_of_h2b stripLeadingZeros hs hread

/-- The header is encoded as the block has it. -/
theorem headerRlpBytes_header (hL : L.Correct keccak256) {v : Value} {h : Header}
    (hv : IsHeader v h) (hfits : h.toItem.Fits) : headerRlpBytes L v = .ok h.toItem.encode := by
  have hfields : headerFields.mapM (fun field => headerItem L v field.1 field.2) = .ok
      [.bytes h.parentHash.val, .bytes h.sha3Uncles.val, .bytes h.miner.val,
        .bytes h.stateRoot.val, .bytes h.transactionsRoot.val, .bytes h.receiptsRoot.val,
        .bytes h.logsBloom.val, .bytes (scalar h.difficulty), .bytes (scalar h.number),
        .bytes (scalar h.gasLimit), .bytes (scalar h.gasUsed), .bytes (scalar h.timestamp),
        .bytes h.extraData, .bytes h.mixHash.val, .bytes h.nonce.val,
        .bytes (scalar h.baseFeePerGas)] :=
    mapM_eq_ok.mpr <|
      .cons (headerItem_data hL hv.parentHash) <| .cons (headerItem_data hL hv.sha3Uncles) <|
      .cons (headerItem_data hL hv.miner) <| .cons (headerItem_data hL hv.stateRoot) <|
      .cons (headerItem_data hL hv.transactionsRoot) <|
      .cons (headerItem_data hL hv.receiptsRoot) <| .cons (headerItem_data hL hv.logsBloom) <|
      .cons (headerItem_quantity hL hv.difficulty) <|
      .cons (headerItem_quantity hL hv.number) <| .cons (headerItem_quantity hL hv.gasLimit) <|
      .cons (headerItem_quantity hL hv.gasUsed) <|
      .cons (headerItem_quantity hL hv.timestamp) <| .cons (headerItem_data hL hv.extraData) <|
      .cons (headerItem_data hL hv.mixHash) <| .cons (headerItem_data hL hv.nonce) <|
      .cons (headerItem_quantity hL hv.baseFeePerGas) .nil
  rw [headerRlpBytes, hfields]
  exact congrArg Except.ok (hL.rlpOut _ hfits)

/-! ## Receipts -/

theorem asStr_of_data {v : Value} {bs : List UInt8} (h : IsData v bs) :
    ∃ s, v.asStr = some s ∧ IsData (.string s) bs := by
  obtain ⟨digits, rfl, hspells⟩ := h
  exact ⟨_, rfl, digits, rfl, hspells⟩

theorem asStr_of_quantity {v : Value} {n : Nat} (h : IsQuantity v n) :
    ∃ s, v.asStr = some s ∧ IsQuantity (.string s) n := by
  obtain ⟨digits, rfl, hn⟩ := h
  exact ⟨_, rfl, digits, rfl, hn⟩

/-- A topic is encoded as the log has it. -/
theorem encodeTopic_topic (hL : L.Correct keccak256) {v : Value} {bs : List UInt8}
    (h : IsData v bs) : encodeTopic L v = .ok (.bytes bs) := by
  obtain ⟨s, hs, hdata⟩ := asStr_of_data h
  rw [encodeTopic, hs]
  show (h2b L s).bind _ = _
  rw [h2b_data hL hdata]
  rfl

/-- A log is encoded as the receipt has it. -/
theorem encodeLog_log (hL : L.Correct keccak256) {v : Value} {log : Log} (h : IsLog v log) :
    encodeLog L v = .ok log.toItem := by
  obtain ⟨address, haddress, haddressData⟩ := asStr_of_data h.address
  obtain ⟨topics, htopics, hall⟩ := h.topics
  obtain ⟨data, hdata, hdataData⟩ := asStr_of_data h.data
  have htopicItems : topics.mapM (encodeTopic L) =
      .ok (log.topics.map fun t => .bytes t.val) := by
    rw [mapM_eq_ok, List.forall₂_map_right_iff]
    exact hall.imp fun _ _ ht => encodeTopic_topic hL ht
  rw [encodeLog, haddress, htopics, hdata]
  show (h2b L address).bind (fun addr => (h2b L data).bind fun data =>
    (topics.mapM (encodeTopic L)).bind fun topics => _) = _
  rw [h2b_data hL haddressData, h2b_data hL hdataData, htopicItems]
  rfl

/-- A receipt is encoded as the block has it, if it is encoded. -/
theorem encodeReceipt_receipt (hL : L.Correct keccak256) {v : Value} {i : Nat} {r : Receipt}
    (h : IsReceipt v i r) (hfits : r.toItem.Fits) {out : List UInt8}
    (hout : encodeReceipt L v = .ok out) : out = r.encode := by
  obtain ⟨status, hstatus, hstatusNumber⟩ := asStr_of_quantity h.status
  obtain ⟨gas, hgas, hgasNumber⟩ := asStr_of_quantity h.cumulativeGasUsed
  obtain ⟨bloom, hbloom, hbloomData⟩ := asStr_of_data h.logsBloom
  obtain ⟨logs, hlogs, hall⟩ := h.logs
  obtain ⟨n, htype, hkind⟩ := h.type
  obtain ⟨type, htype, digits, htypeText, hn⟩ := asStr_of_quantity htype
  obtain ⟨statusBytes, hstatusRead, hstatusStrip⟩ := h2b_quantity hL hstatusNumber
  obtain ⟨gasBytes, hgasRead, hgasStrip⟩ := h2b_quantity hL hgasNumber
  have hlogItems : logs.mapM (encodeLog L) = .ok (r.logs.map Log.toItem) := by
    rw [mapM_eq_ok, List.forall₂_map_right_iff]
    exact hall.imp fun _ _ hlog => encodeLog_log hL hlog
  rw [encodeReceipt, hstatus, hgas, hbloom, hlogs, htype] at hout
  change (h2b L status).bind (fun status => (h2b L gas).bind fun gas => (h2b L bloom).bind
    fun bloom => (logs.mapM (encodeLog L)).bind fun logs =>
      (fromStrRadix16 (trimStartMatches type)).bind fun typ => _) = _ at hout
  rw [hstatusRead, ok_bind, hgasRead, ok_bind, h2b_data hL hbloomData, ok_bind, hlogItems, ok_bind]
    at hout
  obtain ⟨typ, hread, hrest⟩ := bind_eq_ok.mp hout
  obtain rfl := Value.string.inj htypeText
  obtain ⟨-, ds, hds, -⟩ := bigInt_eq_some.mp hn
  rw [trimStartMatches_digits hds] at hread
  have htyp := fromStrRadix16_digits hn hread
  have hbody : L.rlpOut (.list [.bytes (stripLeadingZeros statusBytes),
      .bytes (stripLeadingZeros gasBytes), .bytes r.logsBloom.val,
      .list (r.logs.map Log.toItem)]) = r.toItem.encode := by
    rw [hstatusStrip, hgasStrip, scalar_eq_minBytes r.status.toNat_lt]
    exact hL.rlpOut _ hfits
  rw [hbody] at hrest
  rw [Receipt.encode, hkind, receiptType]
  have hzero : typ = 0 ↔ n = 0 := by
    rw [← UInt64.toNat_inj, htyp, Fin.ext_iff]
    rfl
  by_cases hn0 : n = 0
  · rw [if_pos hn0]
    rw [if_pos (hzero.mpr hn0)] at hrest
    exact (Except.ok.inj hrest).symm
  · rw [if_neg hn0]
    rw [if_neg (mt hzero.mp hn0)] at hrest
    have hbyte : typ.toUInt8 = UInt8.ofNat n.val := by
      rw [← UInt8.toNat_inj, UInt64.toNat_toUInt8, htyp, UInt8.toNat_ofNat']
    show out = UInt8.ofNat n.val :: r.toItem.encode
    rw [← hbyte]
    exact (Except.ok.inj hrest).symm

end Maat.Prove
