import Maat.Laws.Prove.Encoding

/-!
# What the host's steps accept

One lemma for each step of `native_precheck`: what holds when it succeeds. The proofs about the
whole check are made from these alone.
-/

namespace Maat.Prove

open Rlp Bytes Json Js Checks
open Guest (Log Receipt IntentCreated ProofInput ProofOutput trieKey beBytesToU64)

variable {keccak256 : List UInt8 → Fixed 32} {L : Libraries} {env : Env}

/-! ## Reading -/

/-- The element at the same place of the other list. -/
theorem counterpart {α β : Type} {R : α → β → Prop} {xs : List α} {ys : List β}
    (h : List.Forall₂ R xs ys) {i : Nat} {x : α} (hx : xs[i]? = some x) :
    ∃ y, ys[i]? = some y ∧ R x y := by
  induction h generalizing i with
  | nil => cases hx
  | cons hhead _ ih =>
    cases i with
    | zero =>
      obtain rfl := Option.some.inj hx
      exact ⟨_, rfl, hhead⟩
    | succ i => exact ih hx

/-- A quantity that is read is read as its number. -/
theorem toNat_of_read {v : Value} {n : Nat} (h : IsQuantity v n) {s : Str} (hs : v.asStr = some s)
    {u : UInt64} (hu : hexToU64 s = .ok u) : u.toNat = n := by
  obtain ⟨s', hs', hquantity⟩ := asStr_of_quantity h
  obtain rfl := Option.some.inj (hs.symm.trans hs')
  exact hexToU64_quantity hquantity hu

/-! ## The receipts -/

/-- The receipts that are fetched are those of the block, whichever way they are. -/
theorem getBlockReceipts_true {number : Str} {v receipts : Value} {block : Block}
    (hone : ∃ hashes, v.index "transactions".toList = .array hashes ∧
      TellsOf hashes (fun h i r => ∀ v, env.rpcCall "eth_getTransactionReceipt".toList
        (.array [h]) = .ok v → IsReceipt v i r) block)
    (hall : ∀ v, env.rpcCall "eth_getBlockReceipts".toList (.array [.string number]) = .ok v →
      ∃ receipts, v = .array receipts ∧ TellsOf receipts IsReceipt block)
    (h : getBlockReceipts env number v = .ok receipts) :
    ∃ rs, receipts = .array rs ∧ TellsOf rs IsReceipt block := by
  rw [getBlockReceipts] at h
  split at h
  · next v' hcall =>
    obtain rfl := Except.ok.inj h
    exact hall v' hcall
  · obtain ⟨hashes, hhashes, htold, htells⟩ := hone
    rw [hhashes] at h
    obtain ⟨hashes', hsame, h⟩ := bind_eq_ok.mp h
    obtain rfl : hashes = hashes' := Except.ok.inj hsame
    obtain ⟨rs, hrs, h⟩ := bind_eq_ok.mp h
    have heach := mapM_eq_ok.mp hrs
    refine ⟨rs, (Except.ok.inj h).symm, ?_, ?_⟩
    · intro r hr
      obtain ⟨i, hi⟩ := List.mem_iff_getElem?.mp hr
      obtain ⟨hash, hhash, hcall⟩ := counterpart heach.flip hi
      obtain ⟨j, receipt, hj, htrue⟩ := htold hash (List.mem_of_getElem? hhash)
      exact ⟨j, receipt, hj, htrue r hcall⟩
    · intro j receipt hj
      obtain ⟨hash, hhash, htrue⟩ := htells j receipt hj
      obtain ⟨i, hi⟩ := List.mem_iff_getElem?.mp hhash
      obtain ⟨r, hr, hcall⟩ := counterpart heach hi
      exact ⟨r, List.mem_of_getElem? hr, htrue r hcall⟩

theorem insertReceipt_eq_ok {t t' : L.trie.T} {v : Value} (h : insertReceipt L t v = .ok t') :
    ∃ s u encoded, (v.index "transactionIndex".toList).asStr = some s ∧ hexToU64 s = .ok u ∧
      encodeReceipt L v = .ok encoded ∧ L.trie.insert t (L.rlpEncode u) encoded = .ok t' := by
  obtain ⟨s, hs, h⟩ := bind_eq_ok.mp h
  obtain ⟨u, hu, h⟩ := bind_eq_ok.mp h
  obtain ⟨encoded, hencoded, h⟩ := bind_eq_ok.mp h
  exact ⟨s, u, encoded, okOr_eq_ok.mp hs, hu, mapError_eq_ok.mp hencoded, mapError_eq_ok.mp h⟩

/-- What is inserted for a receipt: it is under its index, as the block has it. -/
def Enters (L : Libraries) (v : Value) (e : List UInt8 × List UInt8) : Prop :=
  ∃ u : UInt64, e.1 = L.rlpEncode u ∧
    ∀ i r, IsReceipt v i r → u.toNat = i ∧ (r.toItem.Fits → e.2 = r.encode)

/-- The loop inserts an entry for each receipt. -/
theorem insertReceipts_eq_ok (hL : L.Correct keccak256) {rs : List Value} {t t' : L.trie.T}
    (h : rs.foldlM (insertReceipt L) t = .ok t') :
    ∃ entries, List.Forall₂ (Enters L) rs entries ∧
      entries.foldlM (fun t e => L.trie.insert t e.1 e.2) t = .ok t' := by
  induction rs generalizing t with
  | nil =>
    obtain rfl : t = t' := Except.ok.inj h
    exact ⟨[], .nil, rfl⟩
  | cons v rs ih =>
    rw [List.foldlM_cons] at h
    obtain ⟨t₁, hinsert, hrest⟩ := bind_eq_ok.mp h
    obtain ⟨entries, henters, hentries⟩ := ih hrest
    obtain ⟨s, u, encoded, hs, hu, hencoded, hinsert⟩ := insertReceipt_eq_ok hinsert
    refine ⟨(L.rlpEncode u, encoded) :: entries, .cons ⟨u, rfl, ?_⟩ henters, ?_⟩
    · intro i r hr
      exact ⟨toNat_of_read hr.transactionIndex hs hu,
        fun hfits => encodeReceipt_receipt hL hr hfits hencoded⟩
    · rw [List.foldlM_cons]
      exact bind_eq_ok.mpr ⟨t₁, hinsert, hentries⟩

/-! ## The log -/

/-- The one log that is found, and that no other matches. -/
theorem findLog_eq_ok {target : Str} {logs : List Value} {log : Value} {k : Nat}
    (h : findLog L target logs = .ok (log, k)) :
    logs[k]? = some log ∧ isIntentCreated L target log = true ∧
      ∀ j v, logs[j]? = some v → isIntentCreated L target v = true → j = k := by
  have hmem : ∀ j v, (v, j) ∈ logs.zipIdx.filter (fun l => isIntentCreated L target l.1) ↔
      logs[j]? = some v ∧ isIntentCreated L target v = true := fun j v => by
    rw [List.mem_filter, List.mk_mem_zipIdx_iff_getElem?]
  unfold findLog at h
  split at h
  · cases h
  · next found hfound =>
    obtain rfl := Except.ok.inj h
    rw [hfound] at hmem
    obtain ⟨hat, hmatches⟩ := (hmem k log).mp (.head _)
    refine ⟨hat, hmatches, ?_⟩
    intro j v hj hv
    exact (Prod.mk.inj (List.mem_singleton.mp ((hmem j v).mpr ⟨hj, hv⟩))).2
  · cases h

/-- A log of the block matches if its contract is written as the target, in lower case, and its
topic 0 is the event's. -/
theorem isIntentCreated_iff (hL : L.Correct keccak256) {topic0 : Fixed 32}
    (htopic0 : IsData (.string INTENT_CREATED_TOPIC0) topic0.val) {target : Str} {v : Value}
    {log : Log} (h : IsLog v log) :
    isIntentCreated L target v = true ↔
      L.lowercase target = '0' :: 'x' :: Hex.toHex log.address.val ∧
        log.topics[0]? = some topic0 := by
  obtain ⟨address, haddress, haddressData⟩ := asStr_of_data h.address
  obtain ⟨topics, htopics, hall⟩ := h.topics
  simp only [isIntentCreated, haddress, htopics, Value.asArray, Option.map_some, Option.bind_some,
    Bool.and_eq_true, decide_eq_true_eq, lowercase_data hL haddressData, lowercase_data hL htopic0]
  refine and_congr (by rw [Option.some.injEq, eq_comm]) ?_
  generalize log.topics = logTopics at hall ⊢
  cases hall with
  | nil => simp
  | @cons t topic _ _ ht _ =>
    obtain ⟨s, hs, hdata⟩ := asStr_of_data ht
    simp only [List.getElem?_cons_zero, Option.bind_some, hs, Option.map_some, Option.some.injEq,
      lowercase_data hL hdata, List.cons.injEq, true_and]
    exact ⟨fun heq => Subtype.ext (toHex_inj heq), fun heq => heq ▸ rfl⟩

theorem checkLog_eq_ok {blockTimestamp : UInt64} {v : Value} {u : Unit}
    (h : checkLog L env blockTimestamp v = .ok u) :
    ∃ s data, (v.index "data".toList).asStr = some s ∧ h2b L s = .ok data ∧ data.length = 192 ∧
      beBytesToU64 ((data.take 128).drop 96) = EXPECTED_DESTINATION_CHAIN_ID ∧
      blockTimestamp < beBytesToU64 ((data.take 160).drop 128) ∧
      ∃ now, env.now = .ok now ∧ now < beBytesToU64 ((data.take 160).drop 128) := by
  obtain ⟨s, hs, h⟩ := bind_eq_ok.mp h
  obtain ⟨data, hdata, h⟩ := bind_eq_ok.mp h
  obtain ⟨_, hlength, h⟩ := bind_eq_ok.mp h
  obtain ⟨_, hchain, h⟩ := bind_eq_ok.mp h
  obtain ⟨_, hexpiry, h⟩ := bind_eq_ok.mp h
  obtain ⟨now, hnow, h⟩ := bind_eq_ok.mp h
  exact ⟨s, data, okOr_eq_ok.mp hs, mapError_eq_ok.mp hdata, require_eq_ok.mp hlength,
    require_eq_ok.mp hchain, require_eq_ok.mp hexpiry, now, mapError_eq_ok.mp hnow,
    require_eq_ok.mp h⟩

theorem h2b20_eq_ok {s : Str} {c : Fixed 20} (h : h2b20 L s = .ok c) : h2b L s = .ok c.val := by
  obtain ⟨v, hv, h⟩ := bind_eq_ok.mp h
  split at h
  · obtain rfl := Except.ok.inj h
    exact hv
  · cases h

/-! ## The check -/

/-- What a transaction went through whose input is made. -/
theorem nativePrecheck_eq_ok {txHash target : Str} {input : ProofInput}
    (h : nativePrecheck L env txHash target = .ok input) :
    ∃ tx number index block header time blockTimestamp receipts rs t receipt status logs log k t'
      root,
      env.rpcCall "eth_getTransactionByHash".toList (.array [.string txHash]) = .ok tx ∧
      tx.isNull = false ∧ (tx.index "blockNumber".toList).asStr = some number ∧
      (tx.index "transactionIndex".toList).asStr = some index ∧
      hexToU64 index = .ok input.txIndex ∧
      env.rpcCall "eth_getBlockByNumber".toList (.array [.string number, .bool false]) =
        .ok block ∧
      headerRlpBytes L block = .ok header ∧ header = input.headerRlp ∧
      (block.index "timestamp".toList).asStr = some time ∧ hexToU64 time = .ok blockTimestamp ∧
      getBlockReceipts env number block = .ok receipts ∧ receipts.asArray = some rs ∧
      rs.foldlM (insertReceipt L) L.trie.new = .ok t ∧
      rs.find? (hasIndex input.txIndex) = some receipt ∧
      (receipt.index "status".toList).asStr = some status ∧ hexToU64 status = .ok 1 ∧
      (receipt.index "logs".toList).asArray = some logs ∧
      findLog L target logs = .ok (log, k) ∧ checkLog L env blockTimestamp log = .ok () ∧
      L.trie.rootHash t = .ok (root, t') ∧
      L.trie.getProof t' (L.rlpEncode input.txIndex) = .ok input.receiptProofNodes ∧
      h2b20 L target = .ok input.expectedContract ∧ input.logIndex = UInt64.ofNat k := by
  obtain ⟨tx, htx, h⟩ := bind_eq_ok.mp h
  obtain ⟨_, hnull, h⟩ := bind_eq_ok.mp h
  obtain ⟨number, hnumber, h⟩ := bind_eq_ok.mp h
  obtain ⟨index, hindex, h⟩ := bind_eq_ok.mp h
  obtain ⟨txIndex, htxIndex, h⟩ := bind_eq_ok.mp h
  obtain ⟨block, hblock, h⟩ := bind_eq_ok.mp h
  obtain ⟨header, hheader, h⟩ := bind_eq_ok.mp h
  obtain ⟨time, htime, h⟩ := bind_eq_ok.mp h
  obtain ⟨blockTimestamp, hstamp, h⟩ := bind_eq_ok.mp h
  obtain ⟨receipts, hreceipts, h⟩ := bind_eq_ok.mp h
  obtain ⟨rs, hrs, h⟩ := bind_eq_ok.mp h
  obtain ⟨t, ht, h⟩ := bind_eq_ok.mp h
  obtain ⟨receipt, hreceipt, h⟩ := bind_eq_ok.mp h
  obtain ⟨status, hstatus, h⟩ := bind_eq_ok.mp h
  obtain ⟨one, hone, h⟩ := bind_eq_ok.mp h
  obtain ⟨_, hsucceeded, h⟩ := bind_eq_ok.mp h
  obtain ⟨logs, hlogs, h⟩ := bind_eq_ok.mp h
  obtain ⟨⟨log, k⟩, hlog, h⟩ := bind_eq_ok.mp h
  obtain ⟨_, hcheck, h⟩ := bind_eq_ok.mp h
  obtain ⟨⟨root, t'⟩, hroot, h⟩ := bind_eq_ok.mp h
  obtain ⟨proof, hproof, h⟩ := bind_eq_ok.mp h
  obtain ⟨contract, hcontract, h⟩ := bind_eq_ok.mp h
  obtain rfl := Except.ok.inj h
  obtain rfl := require_eq_ok.mp hsucceeded
  exact ⟨tx, number, index, block, header, time, blockTimestamp, receipts, rs, t, receipt, status,
    logs, log, k, t', root, mapError_eq_ok.mp htx, require_eq_ok.mp hnull, okOr_eq_ok.mp hnumber,
    okOr_eq_ok.mp hindex, htxIndex, mapError_eq_ok.mp hblock, mapError_eq_ok.mp hheader, rfl,
    okOr_eq_ok.mp htime, hstamp, mapError_eq_ok.mp hreceipts, okOr_eq_ok.mp hrs, ht,
    okOr_eq_ok.mp hreceipt, okOr_eq_ok.mp hstatus, hone, okOr_eq_ok.mp hlogs, hlog, hcheck,
    mapError_eq_ok.mp hroot, mapError_eq_ok.mp hproof, mapError_eq_ok.mp hcontract, rfl⟩

end Maat.Prove
