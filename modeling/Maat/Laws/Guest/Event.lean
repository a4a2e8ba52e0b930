import Maat.Laws.Guest.Soundness

/-!
# The event and its encoding

What the guest decodes from a log, encoded again. A log comes back just when its words are padded
with zeros, as the ABI has it (`event_reproduced_iff`): the guest cuts addresses and integers out of
their words and does not look at the rest.
-/

namespace Maat.Guest

open Rlp Bytes

variable {R : Crate} {keccak256 : List UInt8 → Fixed 32}

/-! ## Words -/

/-- The word of a value of `n` bytes: zeros, then the value. -/
def Padded (n : Nat) (w : List UInt8) : Prop := w.take (32 - n) = List.replicate (32 - n) 0

instance (n : Nat) (w : List UInt8) : Decidable (Padded n w) :=
  inferInstanceAs (Decidable (_ = _))

theorem length_abiWord {bs : List UInt8} (h : bs.length ≤ 32) : (abiWord bs).length = 32 := by
  rw [abiWord, List.length_append, List.length_replicate]
  omega

/-- A word is the encoding of its last bytes just when the others are zeros. -/
theorem abiWord_drop_iff {n k : Nat} {w : List UInt8} (hw : w.length = 32) (hn : n + k = 32) :
    w = abiWord (w.drop k) ↔ Padded n w := by
  have hzeros : 32 - (w.drop k).length = 32 - n := by
    rw [List.length_drop, hw]
    omega
  have hk : 32 - n = k := by omega
  have hsplit := List.take_append_drop k w
  rw [abiWord, hzeros, Padded, hk]
  constructor
  · intro h
    exact List.append_cancel_right (hsplit.trans h)
  · intro h
    rw [← h, hsplit]

/-- The last bytes of a word as an integer, written again. -/
theorem beBytes_u64 {w : List UInt8} (hw : w.length = 32) :
    beBytes 8 (beBytesToU64 w).toNat = w.drop 24 := by
  have hdrop := beNat_drop (by omega : 8 ≤ w.length)
  have hlen : (w.drop 24).length = 8 := by rw [List.length_drop, hw]
  rw [hw] at hdrop
  rw [toNat_beBytesToU64, show 2 ^ 64 = 256 ^ 8 by norm_num, ← hdrop]
  exact beBytes_beNat hlen

theorem beBytes_u16 {w : List UInt8} (hw : w.length = 32) :
    beBytes 2 (beBytesToU64 w).toUInt16.toNat = w.drop 30 := by
  have hdrop := beNat_drop (by omega : 2 ≤ w.length)
  have hlen : (w.drop 30).length = 2 := by rw [List.length_drop, hw]
  have hlow : (beBytesToU64 w).toUInt16.toNat = beNat w % 256 ^ 2 := by
    rw [UInt64.toNat_toUInt16, toNat_beBytesToU64]
    omega
  rw [hw] at hdrop
  rw [hlow, ← hdrop]
  exact beBytes_beNat hlen

theorem length_word {data : List UInt8} {i : Nat} (h : data.length = 192) (hi : i < 6) :
    (word data i).length = 32 := by
  rw [word, List.length_take, List.length_drop, h]
  omega

/-- The data is its six words. -/
theorem eq_words {data : List UInt8} (h : data.length = 192) :
    data = word data 0 ++ word data 1 ++ word data 2 ++ word data 3 ++ word data 4 ++
      word data 5 := by
  have hcut : ∀ i, data.drop (32 * i) = word data i ++ data.drop (32 * (i + 1)) := by
    intro i
    rw [word, Nat.mul_succ, ← List.drop_drop, List.take_append_drop]
  have hend : data.drop (32 * 6) = [] := List.drop_of_length_le (by omega)
  calc data = data.drop (32 * 0) := rfl
    _ = _ := by
      rw [hcut 0, hcut 1, hcut 2, hcut 3, hcut 4, hcut 5, hend]
      simp only [List.append_assoc, List.append_nil]

/-! ## Logs -/

/-- The topics as the guest reads them. -/
def logTopics (R : Crate) (log : List UInt8) : Option (List (List UInt8)) :=
  (R.at_ log 1).bind fun topics => (R.iter topics).mapM R.data

/-- Encoding the fields again gives the indexed topics and the data of the log. -/
def Reproduces (R : Crate) (log : List UInt8) (event : IntentCreated) : Prop :=
  ∃ topics, logTopics R log = some topics ∧ (topics.drop 1).take 2 = event.indexed ∧
    field R log 2 = some event.abiData

/-- The log has its addresses and integers padded to words, as the ABI has them. -/
def IsPadded (R : Crate) (log : List UInt8) : Prop :=
  ∃ topics topic data, logTopics R log = some topics ∧ field R log 2 = some data ∧
    topics[2]? = some topic ∧ topic.length = 32 ∧ Padded 20 topic ∧ Padded 20 (word data 1) ∧
    Padded 8 (word data 3) ∧ Padded 8 (word data 4) ∧ Padded 2 (word data 5)

theorem Decoded.logTopics {c : Fixed 20} {log : List UInt8} {event : IntentCreated}
    {topics : List (List UInt8)} {data : List UInt8}
    (d : Decoded R keccak256 c log event topics data) : logTopics R log = some topics := by
  obtain ⟨topicsRlp, hat, hmap⟩ := d.topicList
  rw [Guest.logTopics, hat]
  exact hmap

/-- The second topic comes back just when it is one word with twelve zeros in front. -/
theorem Decoded.indexed_iff {c : Fixed 20} {log : List UInt8} {event : IntentCreated}
    {topics : List (List UInt8)} {data : List UInt8}
    (d : Decoded R keccak256 c log event topics data) :
    (topics.drop 1).take 2 = event.indexed ↔
      ∃ topic, topics[2]? = some topic ∧ topic.length = 32 ∧ Padded 20 topic := by
  obtain ⟨topic, htopic, hlong, hsender⟩ := d.sender
  have htwo : (topics.drop 1).take 2 = [event.intentId.val, topic] := by
    refine List.ext_getElem? fun i => ?_
    match i with
    | 0 => simpa using d.intentId
    | 1 => simpa using htopic
    | i + 2 => simp
  rw [htwo, IntentCreated.indexed, List.cons_inj_right,
    List.singleton_inj]
  constructor
  · intro h
    have hlen : topic.length = 32 := by
      rw [h, length_abiWord (by rw [event.sender.property]; decide)]
    rw [hsender, ← hlen, List.take_length] at h
    exact ⟨topic, htopic, hlen, (abiWord_drop_iff hlen rfl).mp h⟩
  · rintro ⟨topic', htopic', hlen, hpadded⟩
    obtain rfl := Option.some.inj (htopic.symm.trans htopic')
    rw [hsender, ← hlen, List.take_length]
    exact (abiWord_drop_iff hlen rfl).mpr hpadded

/-- The data comes back just when the words of narrower values are padded. -/
theorem Decoded.data_iff {c : Fixed 20} {log : List UInt8} {event : IntentCreated}
    {topics : List (List UInt8)} {data : List UInt8}
    (d : Decoded R keccak256 c log event topics data) :
    data = event.abiData ↔ Padded 20 (word data 1) ∧ Padded 8 (word data 3) ∧
      Padded 8 (word data 4) ∧ Padded 2 (word data 5) := by
  have hlen := fun i (hi : i < 6) => length_word d.length hi
  rw [← abiWord_drop_iff (hlen 1 (by decide)) (rfl : 20 + 12 = 32),
    ← abiWord_drop_iff (hlen 3 (by decide)) (rfl : 8 + 24 = 32),
    ← abiWord_drop_iff (hlen 4 (by decide)) (rfl : 8 + 24 = 32),
    ← abiWord_drop_iff (hlen 5 (by decide)) (rfl : 2 + 30 = 32),
    ← beBytes_u64 (hlen 3 (by decide)), ← beBytes_u64 (hlen 4 (by decide)),
    ← beBytes_u16 (hlen 5 (by decide)), ← d.tokenAddress, ← d.destinationChainId, ← d.expiry,
    ← d.slippageBps]
  have hwide : ∀ {bs : List UInt8}, bs.length ≤ 32 → (abiWord bs).length = 32 := length_abiWord
  conv_lhs => lhs; rw [eq_words d.length]
  rw [IntentCreated.abiData, d.amount, d.destinationWallet]
  constructor
  · intro h
    obtain ⟨h, h5⟩ := List.append_inj' h (by
      rw [hlen 5 (by decide), hwide (by rw [length_beBytes]; decide)])
    obtain ⟨h, h4⟩ := List.append_inj' h (by
      rw [hlen 4 (by decide), hwide (by rw [length_beBytes]; decide)])
    obtain ⟨h, h3⟩ := List.append_inj' h (by
      rw [hlen 3 (by decide), hwide (by rw [length_beBytes]; decide)])
    have h1 := List.append_cancel_left (List.append_cancel_right h)
    exact ⟨h1, h3, h4, h5⟩
  · rintro ⟨h1, h3, h4, h5⟩
    rw [← h1, ← h3, ← h4, ← h5]

theorem reproduces_iff {c : Fixed 20} {log : List UInt8} {event : IntentCreated}
    (h : decodeIntentCreated R keccak256 c log = some event) :
    Reproduces R log event ↔ IsPadded R log := by
  obtain ⟨topics, data, d⟩ := decodeIntentCreated_eq_some h
  constructor
  · rintro ⟨topics', htopics, hindexed, hdata⟩
    obtain rfl := Option.some.inj (d.logTopics.symm.trans htopics)
    obtain ⟨topic, htopic, hlen, hpadded⟩ := d.indexed_iff.mp hindexed
    exact ⟨topics, topic, data, d.logTopics, d.logData, htopic, hlen, hpadded,
      d.data_iff.mp (Option.some.inj (d.logData.symm.trans hdata))⟩
  · rintro ⟨topics', topic, data', htopics, hdata, htopic, hlen, hpadded, hwords⟩
    obtain rfl := Option.some.inj (d.logTopics.symm.trans htopics)
    obtain rfl := Option.some.inj (d.logData.symm.trans hdata)
    exact ⟨topics, d.logTopics, d.indexed_iff.mpr ⟨topic, htopic, hlen, hpadded⟩,
      d.data_iff.mpr hwords ▸ d.logData⟩

/-! ## Back from the encoding -/

theorem length_abiData (event : IntentCreated) : event.abiData.length = 192 := by
  have hwide : ∀ {bs : List UInt8}, bs.length ≤ 32 → (abiWord bs).length = 32 := length_abiWord
  simp only [IntentCreated.abiData, List.length_append, event.amount.property,
    event.destinationWallet.property]
  rw [hwide (by rw [event.tokenAddress.property]; decide), hwide (by rw [length_beBytes]; decide),
    hwide (by rw [length_beBytes]; decide), hwide (by rw [length_beBytes]; decide)]

/-- What `submitIntent` emits is short. -/
theorem emit_fits (c : Fixed 20) (event : IntentCreated) :
    (event.emit keccak256 c).toItem.Fits := by
  have hword := length_abiWord (by rw [event.sender.property]; decide : event.sender.val.length ≤ 32)
  let topics : List (Fixed 32) :=
    [keccak256 intentCreatedSignature, event.intentId, ⟨abiWord event.sender.val, hword⟩]
  have htopic : ∀ t : Fixed 32, (Item.bytes t.val).encode.length ≤ 41 := by
    intro t
    have := length_encode_bytes_le t.val
    rwa [t.property] at this
  have htopics : (encodeAll (topics.map fun t => Item.bytes t.val)).length ≤ 123 := by
    have h0 := htopic (keccak256 intentCreatedSignature)
    have h1 := htopic event.intentId
    have h2 : (Item.bytes (abiWord event.sender.val)).encode.length ≤ 41 := htopic ⟨_, hword⟩
    simp only [topics, List.map_cons, List.map_nil, encodeAll, List.length_append, List.length_nil]
    omega
  have haddress := length_encode_bytes_le c.val
  have hlist := length_encode_list_le (topics.map fun t => Item.bytes t.val)
  have hdata := length_encode_bytes_le event.abiData
  rw [c.property] at haddress
  rw [length_abiData] at hdata
  have hall := length_encode_list_le [Item.bytes c.val,
    .list (topics.map fun t => Item.bytes t.val), .bytes event.abiData]
  simp only [encodeAll, List.length_append, List.length_nil] at hall
  show (Item.list [Item.bytes c.val, .list (topics.map fun t => Item.bytes t.val),
    .bytes event.abiData]).encode.length < 2 ^ 64
  omega

theorem copyFromSlice_val {n : Nat} (a : Fixed n) : copyFromSlice n a.val = some a :=
  copyFromSlice_eq_some.mpr rfl

theorem word_flatten {ws : List (List UInt8)} (h : ∀ w ∈ ws, w.length = 32) {i : Nat}
    {w : List UInt8} (hi : ws[i]? = some w) : word ws.flatten i = w := by
  induction ws generalizing i with
  | nil => cases hi
  | cons x ws ih =>
    obtain ⟨hx, hws⟩ := List.forall_mem_cons.mp h
    rw [List.flatten_cons, word]
    cases i with
    | zero =>
      obtain rfl := Option.some.inj hi
      rw [Nat.mul_zero, List.drop_zero, ← hx, List.take_left]
    | succ i =>
      have hdrop : (x ++ ws.flatten).drop (32 * (i + 1)) = ws.flatten.drop (32 * i) := by
        rw [Nat.mul_succ, Nat.add_comm, ← List.drop_drop, ← hx, List.drop_left]
      rw [hdrop]
      exact ih hws hi

/-- The words of the encoding. -/
theorem word_abiData (event : IntentCreated) {i : Nat} {w : List UInt8}
    (hi : [event.amount.val, abiWord event.tokenAddress.val, event.destinationWallet.val,
      abiWord (beBytes 8 event.destinationChainId.toNat), abiWord (beBytes 8 event.expiry.toNat),
      abiWord (beBytes 2 event.slippageBps.toNat)][i]? = some w) : word event.abiData i = w := by
  have hwide : ∀ {bs : List UInt8}, bs.length ≤ 32 → (abiWord bs).length = 32 := length_abiWord
  refine (congrArg (word · i) ?_).trans (word_flatten ?_ hi)
  · simp [IntentCreated.abiData]
  · simp only [List.forall_mem_cons]
    exact ⟨event.amount.property, hwide (by simp [event.tokenAddress.property]),
      event.destinationWallet.property, hwide (by simp), hwide (by simp), hwide (by simp), nofun⟩

/-- A word of the data, or its end, as the guest cuts it out. -/
theorem slice_word {data : List UInt8} {i k : Nat} (h : data.length = 192) (hi : i < 6)
    (hk : k ≤ 32) : slice data (32 * i + k) (32 * i + 32) = some ((word data i).drop k) := by
  refine slice_eq_some.mpr ⟨⟨by omega, by omega⟩, ?_⟩
  rw [word, List.drop_take, List.drop_take, List.drop_drop]
  congr 1
  omega

theorem beBytesToU64_abiWord {bs : List UInt8} (h : beNat bs < 2 ^ 64) :
    (beBytesToU64 (abiWord bs)).toNat = beNat bs := by
  rw [toNat_beBytesToU64, abiWord, beNat_zeros, Nat.mod_eq_of_lt h]

/-- The guest decodes what `submitIntent` emits. -/
theorem decode_emit (hR : R.Correct) (c : Fixed 20) (event : IntentCreated) :
    decodeIntentCreated R keccak256 c (event.emit keccak256 c).toItem.encode = some event := by
  have hfits : (event.emit keccak256 c).toItem.Fits := emit_fits c event
  have haddress : field R (event.emit keccak256 c).toItem.encode 0 = some c.val :=
    field_list hR hfits rfl
  have hdata : field R (event.emit keccak256 c).toItem.encode 2 = some event.abiData :=
    field_list hR hfits rfl
  obtain ⟨topicsRlp, hat, hmap⟩ := topics_of_log hR hfits
  have hmap : (R.iter topicsRlp).mapM R.data = some [(keccak256 intentCreatedSignature).val,
    event.intentId.val, abiWord event.sender.val] := hmap
  have hlen := length_abiData event
  have hsender : slice (abiWord event.sender.val) 12 32 = some event.sender.val := by
    refine slice_eq_some.mpr ⟨⟨by decide, ?_⟩, ?_⟩
    · rw [length_abiWord (by simp [event.sender.property])]
    · rw [List.take_of_length_le (by rw [length_abiWord (by simp [event.sender.property])])]
      simp [abiWord, event.sender.property]
  have hamount : slice event.abiData 0 32 = some event.amount.val :=
    (slice_word hlen (by decide : 0 < 6) (by decide : 0 ≤ 32)).trans
      (by rw [word_abiData event rfl]; rfl)
  have htoken : slice event.abiData 44 64 = some event.tokenAddress.val :=
    (slice_word hlen (by decide : 1 < 6) (by decide : 12 ≤ 32)).trans
      (by rw [word_abiData event rfl]; simp [abiWord, event.tokenAddress.property])
  have hwallet : slice event.abiData 64 96 = some event.destinationWallet.val :=
    (slice_word hlen (by decide : 2 < 6) (by decide : 0 ≤ 32)).trans
      (by rw [word_abiData event rfl]; rfl)
  have hchain : slice event.abiData 96 128 =
      some (abiWord (beBytes 8 event.destinationChainId.toNat)) :=
    (slice_word hlen (by decide : 3 < 6) (by decide : 0 ≤ 32)).trans
      (by rw [word_abiData event rfl]; rfl)
  have hexpiry : slice event.abiData 128 160 = some (abiWord (beBytes 8 event.expiry.toNat)) :=
    (slice_word hlen (by decide : 4 < 6) (by decide : 0 ≤ 32)).trans
      (by rw [word_abiData event rfl]; rfl)
  have hslippage : slice event.abiData 160 192 =
      some (abiWord (beBytes 2 event.slippageBps.toNat)) :=
    (slice_word hlen (by decide : 5 < 6) (by decide : 0 ≤ 32)).trans
      (by rw [word_abiData event rfl]; rfl)
  have hchainId : beBytesToU64 (abiWord (beBytes 8 event.destinationChainId.toNat)) =
      event.destinationChainId := by
    have hlt := event.destinationChainId.toNat_lt
    refine UInt64.toNat_inj.mp ?_
    rw [beBytesToU64_abiWord (by rw [beNat_beBytes]; omega), beNat_beBytes,
      Nat.mod_eq_of_lt (by omega)]
  have hexpiresAt : beBytesToU64 (abiWord (beBytes 8 event.expiry.toNat)) = event.expiry := by
    have hlt := event.expiry.toNat_lt
    refine UInt64.toNat_inj.mp ?_
    rw [beBytesToU64_abiWord (by rw [beNat_beBytes]; omega), beNat_beBytes,
      Nat.mod_eq_of_lt (by omega)]
  have hbps : (beBytesToU64 (abiWord (beBytes 2 event.slippageBps.toNat))).toUInt16 =
      event.slippageBps := by
    have hlt := event.slippageBps.toNat_lt
    refine UInt16.toNat_inj.mp ?_
    rw [UInt64.toNat_toUInt16, beBytesToU64_abiWord (by rw [beNat_beBytes]; omega), beNat_beBytes]
    omega
  simp only [decodeIntentCreated, haddress, hat, hmap, hdata, Option.bind_eq_bind, Option.bind_some,
    List.getElem?_cons_zero, List.getElem?_cons_succ, copyFromSlice_val, hsender, hamount, htoken,
    hwallet, hchain, hexpiry, hslippage, hlen, hchainId, hexpiresAt, hbps, guard, if_true]
  rfl

def sampleContract : Fixed 20 := Fixed.replicate 20 0x11

def sampleEvent : IntentCreated where
  intentId := fixed 32 7
  sender := fixed 20 0x22
  amount := fixed 32 (10 ^ 18)
  tokenAddress := fixed 20 0
  destinationWallet := fixed 32 0x33
  destinationChainId := 900
  expiry := 1800003600
  slippageBps := 50

/-- The log of `sampleEvent`, but with `slippage` in the last word. -/
def sampleLog (slippage : Nat) : List UInt8 :=
  (Item.list [.bytes sampleContract.val,
    .list [.bytes (sampleKeccak256 intentCreatedSignature).val, .bytes (beBytes 32 7),
      .bytes (beBytes 32 0x22)],
    .bytes ([10 ^ 18, 0, 0x33, 900, 1800003600, slippage].flatMap (beBytes 32))]).encode

/-- The same indexed topics and the same data. -/
def SameEvent (R : Crate) (log log' : List UInt8) : Prop :=
  (logTopics R log).map (fun topics => (topics.drop 1).take 2) =
      (logTopics R log').map (fun topics => (topics.drop 1).take 2) ∧
    field R log 2 = field R log' 2

/-- An accepted log comes back from its fields just when it is padded, what `submitIntent` emits
always decodes to its fields, and two padded logs with the same fields are the same event. -/
theorem event_reproduced_iff (R : Crate) (hR : R.Correct) (keccak256 : List UInt8 → Fixed 32) :
    (∀ c log event, decodeIntentCreated R keccak256 c log = some event →
      (Reproduces R log event ↔ IsPadded R log)) ∧
    (∀ c event,
      decodeIntentCreated R keccak256 c (event.emit keccak256 c).toItem.encode = some event) ∧
    ∀ c c' log log' event, decodeIntentCreated R keccak256 c log = some event →
      decodeIntentCreated R keccak256 c' log' = some event → IsPadded R log → IsPadded R log' →
      SameEvent R log log' := by
  refine ⟨fun c log event h => reproduces_iff h, fun c event => decode_emit hR c event, ?_⟩
  intro c c' log log' event h h' hpadded hpadded'
  obtain ⟨topics, htopics, hindexed, hdata⟩ := (reproduces_iff h).mpr hpadded
  obtain ⟨topics', htopics', hindexed', hdata'⟩ := (reproduces_iff h').mpr hpadded'
  refine ⟨?_, hdata.trans hdata'.symm⟩
  rw [htopics, htopics', Option.map_some, Option.map_some, hindexed, hindexed']

theorem event_reproduced_sample :
    Reproduces reference (sampleEvent.emit sampleKeccak256 sampleContract).toItem.encode
      sampleEvent :=
  ((event_reproduced_iff reference reference_correct sampleKeccak256).1 sampleContract _ _
    ((event_reproduced_iff reference reference_correct sampleKeccak256).2.1 _ _)).mpr
    ⟨[(sampleKeccak256 intentCreatedSignature).val, beBytes 32 7, beBytes 32 0x22],
      beBytes 32 0x22, sampleEvent.abiData, by decide +kernel, by decide +kernel, rfl,
      by decide, by decide, by decide, by decide,
      by decide, by decide⟩

/-- A slippage word of 2^16 more, which is no `uint16`, gives the same fields. -/
theorem wide_slippage_truncated :
    ∃ log log' event,
      decodeIntentCreated reference sampleKeccak256 sampleContract log = some event ∧
      decodeIntentCreated reference sampleKeccak256 sampleContract log' = some event ∧
      ¬ Reproduces reference log event ∧ ¬ SameEvent reference log log' := by
  have hevaluated :
      (∀ log ∈ [sampleLog (2 ^ 16 + 50), sampleLog 50],
        decodeIntentCreated reference sampleKeccak256 sampleContract log = some sampleEvent) ∧
      field reference (sampleLog (2 ^ 16 + 50)) 2 ≠ some sampleEvent.abiData ∧
      field reference (sampleLog (2 ^ 16 + 50)) 2 ≠ field reference (sampleLog 50) 2 := by
    decide +kernel
  obtain ⟨hdecoded, hdata, hdiffer⟩ := hevaluated
  refine ⟨sampleLog (2 ^ 16 + 50), sampleLog 50, sampleEvent, hdecoded _ (.head _),
    hdecoded _ (.tail _ (.head _)), ?_, fun hsame => hdiffer hsame.2⟩
  rintro ⟨topics, -, -, hreproduced⟩
  exact hdata hreproduced

end Maat.Guest
