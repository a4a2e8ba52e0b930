import Maat.Guest.Main

/-!
# What the guest's steps accept

One inversion lemma for each function of the guest: what holds when it does not panic. The proofs
about whole executions are made from these alone.
-/

namespace Maat.Guest

open Rlp Bytes

theorem copyFromSlice_eq_some {n : Nat} {bs : List UInt8} {a : Fixed n} :
    copyFromSlice n bs = some a ↔ a.val = bs := by
  rw [copyFromSlice]
  split
  · next h =>
    rw [Option.some.injEq]
    exact ⟨fun ha => ha ▸ rfl, fun ha => Subtype.ext ha.symm⟩
  · next h =>
    constructor
    · rintro ⟨⟩
    · rintro rfl
      exact absurd a.property h

theorem slice_eq_some {bs s : List UInt8} {start stop : Nat} :
    slice bs start stop = some s ↔
      (start ≤ stop ∧ stop ≤ bs.length) ∧ s = (bs.take stop).drop start := by
  rw [slice]
  split
  · next h => simp only [Option.some.injEq, h, and_self, true_and, eq_comm]
  · next h => simp only [reduceCtorEq, h, false_and]

variable {R : Crate} {keccak256 : List UInt8 → Fixed 32}

theorem field_eq_some {item v : List UInt8} {i : Nat} :
    field R item i = some v ↔ ∃ part, R.at_ item i = some part ∧ R.data part = some v := by
  rw [field, Option.bind_eq_some_iff]

/-- A followed reference is the data of the item, and never empty. -/
theorem childRef_eq_some {item : List UInt8} {expected : NodeRef} :
    childRef R item = some expected ↔
      ∃ bytes, R.data item = some bytes ∧ bytes ≠ [] ∧
        expected = if h : bytes.length = 32 then .hash ⟨bytes, h⟩ else .inline bytes := by
  simp only [childRef, Option.bind_eq_bind, Option.bind_eq_some_iff, Option.guard_eq_some',
    exists_const]
  refine exists_congr fun bytes => and_congr_right fun _ => and_congr_right fun _ => ?_
  split <;> simp only [Option.pure_def, Option.some.injEq, eq_comm]

/-- What one round of the walk did. -/
inductive Visited (R : Crate) (nodeBytes : List UInt8) : List Nibble → Visit → Prop
  /-- A branch at the end of the key. -/
  | terminal {value : List UInt8} :
      R.itemCount nodeBytes = some 17 → field R nodeBytes 16 = some value →
      Visited R nodeBytes [] (.found value)
  | branch {idx : Nibble} {remaining : List Nibble} {item : List UInt8} {expected : NodeRef} :
      R.itemCount nodeBytes = some 17 → R.at_ nodeBytes idx = some item →
      childRef R item = some expected →
      Visited R nodeBytes (idx :: remaining) (.next expected remaining)
  | leaf {encoded value : List UInt8} {path : List Nibble} :
      R.itemCount nodeBytes = some 2 → field R nodeBytes 0 = some encoded →
      decodeHexPrefix encoded = some (true, path) → field R nodeBytes 1 = some value →
      Visited R nodeBytes path (.found value)
  | extension {encoded item : List UInt8} {path remaining : List Nibble} {expected : NodeRef} :
      R.itemCount nodeBytes = some 2 → field R nodeBytes 0 = some encoded →
      decodeHexPrefix encoded = some (false, path) → R.at_ nodeBytes 1 = some item →
      childRef R item = some expected →
      Visited R nodeBytes (path ++ remaining) (.next expected remaining)

/-- A round that does not panic read the node its parent asked for, in one of four ways. -/
theorem visit_eq_some {expected : NodeRef} {remaining : List Nibble} {nodeBytes : List UInt8}
    {v : Visit} (h : visit R keccak256 expected remaining nodeBytes = some v) :
    expected.Matches keccak256 nodeBytes ∧ Visited R nodeBytes remaining v := by
  simp only [visit, Option.bind_eq_bind, Option.bind_eq_some_iff, Option.guard_eq_some',
    exists_const] at h
  obtain ⟨hmatches, itemCount, hcount, h⟩ := h
  refine ⟨hmatches, ?_⟩
  split at h
  · next h17 =>
    subst h17
    cases remaining with
    | nil =>
      simp only [Option.bind_eq_some_iff, Option.pure_def, Option.some.injEq] at h
      obtain ⟨value, hvalue, rfl⟩ := h
      exact .terminal hcount hvalue
    | cons idx remaining =>
      simp only [Option.bind_eq_some_iff, Option.pure_def, Option.some.injEq] at h
      obtain ⟨item, hitem, expected, hexpected, rfl⟩ := h
      exact .branch hcount hitem hexpected
  · split at h
    · next h2 =>
      subst h2
      simp only [Option.bind_eq_some_iff, Prod.exists, Option.guard_eq_some', exists_const] at h
      obtain ⟨encoded, hencoded, isLeaf, path, hpath, ⟨rest, rfl⟩, h⟩ := h
      rw [List.drop_left] at h
      cases isLeaf with
      | true =>
        simp only [if_true, Option.bind_eq_some_iff, Option.guard_eq_some', exists_const,
          Option.pure_def, Option.some.injEq] at h
        obtain ⟨rfl, value, hvalue, rfl⟩ := h
        rw [List.append_nil]
        exact .leaf hcount hencoded hpath hvalue
      | false =>
        simp only [Bool.false_eq_true, if_false, Option.bind_eq_some_iff, Option.pure_def,
          Option.some.injEq] at h
        obtain ⟨item, hitem, expected, hexpected, rfl⟩ := h
        exact .extension hcount hencoded hpath hitem hexpected
    · cases h

/-- A round on the node its parent asked for does not panic if it can read it in one of these ways. -/
theorem visit_of_visited {expected : NodeRef} {remaining : List Nibble} {nodeBytes : List UInt8}
    {v : Visit} (hmatches : expected.Matches keccak256 nodeBytes)
    (h : Visited R nodeBytes remaining v) :
    visit R keccak256 expected remaining nodeBytes = some v := by
  cases h with
  | terminal hcount hvalue => simp [visit, hmatches, hcount, hvalue]
  | branch hcount hitem hexpected => simp [visit, hmatches, hcount, hitem, hexpected]
  | leaf hcount hencoded hpath hvalue =>
    simp [visit, hmatches, hcount, hencoded, hpath, hvalue]
  | extension hcount hencoded hpath hitem hexpected =>
    simp [visit, hmatches, hcount, hencoded, hpath, hitem, hexpected]

/-- The first node of a walk that ends well was visited. -/
theorem walk_eq_some {expected : NodeRef} {remaining : List Nibble} {nodes : List (List UInt8)}
    {value : List UInt8} (h : walk R keccak256 expected remaining nodes = some value) :
    ∃ node rest v, nodes = node :: rest ∧ visit R keccak256 expected remaining node = some v ∧
      match v with
      | .found found => found = value
      | .next expected remaining => walk R keccak256 expected remaining rest = some value := by
  cases nodes with
  | nil => cases h
  | cons node rest =>
    rw [walk, Option.bind_eq_some_iff] at h
    obtain ⟨v, hv, h⟩ := h
    refine ⟨node, rest, v, rfl, hv, ?_⟩
    cases v with
    | found found => exact Option.some.inj h
    | next expected remaining => exact h

/-- The nodes after the one with the value are not read. -/
theorem walk_append {expected : NodeRef} {remaining : List Nibble} {nodes : List (List UInt8)}
    {value : List UInt8} (extra : List (List UInt8))
    (h : walk R keccak256 expected remaining nodes = some value) :
    walk R keccak256 expected remaining (nodes ++ extra) = some value := by
  induction nodes generalizing expected remaining with
  | nil => cases h
  | cons node rest ih =>
    rw [walk, Option.bind_eq_some_iff] at h
    obtain ⟨v, hv, h⟩ := h
    rw [List.cons_append, walk, hv, Option.bind_some]
    cases v with
    | found found => exact h
    | next expected remaining => exact ih h

theorem decodeHeader_eq_some {headerRlp : List UInt8} {header : Header}
    (h : decodeHeader R headerRlp = some header) :
    R.itemCount headerRlp = some 16 ∧
      field R headerRlp 5 = some header.receiptsRoot.val ∧
      (∃ number, field R headerRlp 8 = some number ∧ header.blockNumber = beBytesToU64 number) ∧
      ∃ timestamp, field R headerRlp 11 = some timestamp ∧
        header.blockTimestamp = beBytesToU64 timestamp := by
  simp only [decodeHeader, Option.bind_eq_bind, Option.bind_eq_some_iff, Option.guard_eq_some',
    exists_const, Option.pure_def, Option.some.injEq] at h
  obtain ⟨count, hcount, rfl, rootBytes, hroot, receiptsRoot, hcopy, number, hnumber, timestamp,
    htime, rfl⟩ := h
  rw [copyFromSlice_eq_some] at hcopy
  exact ⟨hcount, hcopy ▸ hroot, ⟨number, hnumber, rfl⟩, timestamp, htime, rfl⟩

/-- The word at a position of the event's data. -/
def word (data : List UInt8) (i : Nat) : List UInt8 := (data.drop (32 * i)).take 32

/-- What a decoded log is made of. -/
structure Decoded (R : Crate) (keccak256 : List UInt8 → Fixed 32) (expectedContract : Fixed 20)
    (log : List UInt8) (event : IntentCreated) (topics : List (List UInt8)) (data : List UInt8) :
    Prop where
  address : field R log 0 = some expectedContract.val
  topicList : ∃ topicsRlp, R.at_ log 1 = some topicsRlp ∧
    (R.iter topicsRlp).mapM R.data = some topics
  logData : field R log 2 = some data
  topic0 : topics[0]? = some (keccak256 intentCreatedSignature).val
  intentId : topics[1]? = some event.intentId.val
  sender : ∃ topic, topics[2]? = some topic ∧ 32 ≤ topic.length ∧
    event.sender.val = (topic.take 32).drop 12
  length : data.length = 192
  amount : event.amount.val = word data 0
  tokenAddress : event.tokenAddress.val = (word data 1).drop 12
  destinationWallet : event.destinationWallet.val = word data 2
  destinationChainId : event.destinationChainId = beBytesToU64 (word data 3)
  expiry : event.expiry = beBytesToU64 (word data 4)
  slippageBps : event.slippageBps = (beBytesToU64 (word data 5)).toUInt16

theorem decodeIntentCreated_eq_some {expectedContract : Fixed 20} {log : List UInt8}
    {event : IntentCreated}
    (h : decodeIntentCreated R keccak256 expectedContract log = some event) :
    ∃ topics data, Decoded R keccak256 expectedContract log event topics data := by
  obtain ⟨logAddress, haddress, h⟩ := Option.bind_eq_some_iff.mp h
  obtain ⟨_, hsame, h⟩ := Option.bind_eq_some_iff.mp h
  obtain ⟨topicsRlp, htopicsRlp, h⟩ := Option.bind_eq_some_iff.mp h
  obtain ⟨topics, htopics, h⟩ := Option.bind_eq_some_iff.mp h
  obtain ⟨_, hthree, h⟩ := Option.bind_eq_some_iff.mp h
  obtain ⟨topic0, htopic0, h⟩ := Option.bind_eq_some_iff.mp h
  obtain ⟨_, hsignature, h⟩ := Option.bind_eq_some_iff.mp h
  obtain ⟨topic1, htopic1, h⟩ := Option.bind_eq_some_iff.mp h
  obtain ⟨intentId, hintentId, h⟩ := Option.bind_eq_some_iff.mp h
  obtain ⟨topic2, htopic2, h⟩ := Option.bind_eq_some_iff.mp h
  obtain ⟨senderBytes, hsenderBytes, h⟩ := Option.bind_eq_some_iff.mp h
  obtain ⟨sender, hsender, h⟩ := Option.bind_eq_some_iff.mp h
  obtain ⟨data, hdata, h⟩ := Option.bind_eq_some_iff.mp h
  simp only [Option.bind_eq_bind, Option.bind_eq_some_iff, Option.guard_eq_some', exists_const,
    Option.pure_def, Option.some.injEq, copyFromSlice_eq_some, slice_eq_some]
    at h hsame hsignature hintentId hsenderBytes hsender
  obtain ⟨hlength, amountBytes, ⟨-, rfl⟩, amount, hamount, tokenBytes, ⟨-, rfl⟩, token, htoken,
    walletBytes, ⟨-, rfl⟩, wallet, hwallet, chainBytes, ⟨-, rfl⟩, expiryBytes, ⟨-, rfl⟩,
    slippageBytes, ⟨-, rfl⟩, rfl⟩ := h
  subst hsame hsignature hintentId
  obtain ⟨⟨-, hlong⟩, rfl⟩ := hsenderBytes
  exact ⟨topics, data, {
    address := haddress
    topicList := ⟨topicsRlp, htopicsRlp, htopics⟩
    logData := hdata
    topic0 := htopic0
    intentId := htopic1
    sender := ⟨topic2, htopic2, hlong, hsender⟩
    length := hlength
    amount := by simpa only [word, List.drop_take] using hamount
    tokenAddress := by simpa only [word, List.drop_take, List.drop_drop] using htoken
    destinationWallet := by simpa only [word, List.drop_take] using hwallet
    destinationChainId := by simp only [word, List.drop_take]
    expiry := by simp only [word, List.drop_take]
    slippageBps := by simp only [word, List.drop_take] }⟩

/-- What an accepted input went through. -/
theorem main_eq_some {input : ProofInput} {out : ProofOutput}
    (h : main R keccak256 input = some out) :
    ∃ header receiptBytes logs log event,
      decodeHeader R input.headerRlp = some header ∧
      verifyTrieProof R keccak256 header.receiptsRoot (R.encodeU64 input.txIndex)
        input.receiptProofNodes = some receiptBytes ∧
      decodeReceiptLogs R receiptBytes = some logs ∧
      logs[input.logIndex.toNat]? = some log ∧
      decodeIntentCreated R keccak256 input.expectedContract log = some event ∧
      header.blockTimestamp < event.expiry ∧
      out = ⟨keccak256 input.headerRlp, header.blockNumber, header.blockTimestamp,
        input.expectedContract, event.intentId, event.sender, event.amount, event.tokenAddress,
        event.destinationWallet, event.destinationChainId, event.expiry, event.slippageBps⟩ := by
  simp only [main, Option.bind_eq_bind, Option.bind_eq_some_iff, Option.guard_eq_some',
    exists_const, Option.pure_def, Option.some.injEq] at h
  obtain ⟨header, hheader, receiptBytes, hreceipt, logs, hlogs, log, hlog, event, hevent, h⟩ := h
  exact ⟨header, receiptBytes, logs, log, event, hheader, hreceipt, hlogs, hlog, hevent, h.1,
    h.2.symm⟩

/-- More nodes at the end change nothing. -/
theorem main_append {input : ProofInput} {out : ProofOutput} (extra : List (List UInt8))
    (h : main R keccak256 input = some out) :
    main R keccak256 { input with receiptProofNodes := input.receiptProofNodes ++ extra } =
      some out := by
  simp only [main, Option.bind_eq_bind, Option.bind_eq_some_iff] at h ⊢
  obtain ⟨header, hheader, receiptBytes, hreceipt, hrest⟩ := h
  exact ⟨header, hheader, receiptBytes, walk_append extra hreceipt, hrest⟩

end Maat.Guest
