import Maat.Laws.Prove.Agreement

/-!
# What a proof says of a block

Whoever made the input, what the guest commits under the hash of a block's header is an event in a
successful transaction of that block.
-/

namespace Maat.Prove

open Rlp Bytes
open Guest (Log Receipt IntentCreated ProofInput ProofOutput)

variable {R : Crate} {keccak256 : List UInt8 → Fixed 32} {block : Block} {trie : Trie}

/-- A successful transaction of the block emitted the event from the contract. -/
def Block.Emitted (keccak256 : List UInt8 → Fixed 32) (block : Block) (contract : Fixed 20)
    (event : IntentCreated) : Prop :=
  ∃ r ∈ block.receipts, r.status = 1 ∧ event.emit keccak256 contract ∈ r.logs

/-- The byte strings that must not collide: the header and the nodes of the input, and those of the
block. -/
def hashedStrings (keccak256 : List UInt8 → Fixed 32) (input : ProofInput) (block : Block)
    (trie : Trie) : Set (List UInt8) :=
  { bs | bs = input.headerRlp ∨ bs ∈ input.receiptProofNodes ∨ bs = block.header.toItem.encode ∨
    bs ∈ trie.encodings keccak256 }

/-- An accepted input whose output names the block tells of one of its events. -/
theorem emitted_of_accepted (hR : R.Correct) (hblock : block.CommitsTo keccak256 trie)
    {input : ProofInput} {out : ProofOutput}
    (hcoll : (hashedStrings keccak256 input block trie).InjOn keccak256)
    (hmain : Guest.main R keccak256 input = some out)
    (hhash : out.blockHash = keccak256 block.header.toItem.encode)
    (hemits : block.EmitsFrom keccak256 out.contract) :
    block.Emitted keccak256 out.contract (eventOf out) ∧
      out.blockNumber.toNat = block.header.number % 2 ^ 64 := by
  obtain ⟨header, receiptBytes, logs, logBytes, event, hheader, hwalk, hlogs, hlog, hevent, -,
    rfl⟩ := Guest.main_eq_some hmain
  -- the header is the block's
  have hrlp : input.headerRlp = block.header.toItem.encode :=
    hcoll (.inl rfl) (.inr (.inr (.inl rfl))) hhash
  rw [hrlp, decodeHeader_header hR hblock.header] at hheader
  obtain rfl := Option.some.inj hheader
  -- the receipt is one of its
  rw [Guest.verifyTrieProof, hR.encodeU64, hblock.root] at hwalk
  have hfound := Guest.walk_sound hR hcoll hblock.wellFormed
    (fun bs hbs => .inr (.inr (.inr hbs))) (fun n hn => .inr (.inl hn)) hwalk
  rcases hfound with hget | ⟨-, rfl⟩
  case inr => cases hlogs
  obtain ⟨i, -, r, hr, rfl⟩ := (hblock.receipts _ _).mp hget
  have hlength := hblock.length_receipt hr
  obtain ⟨hstatus, rfl⟩ := (Guest.decodeReceiptLogs_encode hR hlength).mp hlogs
  -- the log is what the contract emitted
  rw [List.getElem?_map] at hlog
  obtain ⟨log, hnumber, rfl⟩ := Option.map_eq_some_iff.mp hlog
  have hmem := List.mem_of_getElem? hnumber
  have hlist : (Item.list (r.logs.map Log.toItem)).Fits :=
    (Guest.Receipt.fits hlength).mem (.tail _ (.tail _ (.tail _ (.head _))))
  have hfits : log.toItem.Fits := hlist.mem (List.mem_map.mpr ⟨log, hmem, rfl⟩)
  obtain ⟨topics, data, d⟩ := Guest.decodeIntentCreated_eq_some hevent
  obtain ⟨haddress, rfl, rfl⟩ := d.of_log hR hfits
  have htopic : log.topics[0]? = some (keccak256 Guest.intentCreatedSignature) := by
    have h := d.topic0
    rw [List.getElem?_map] at h
    obtain ⟨t, ht, hval⟩ := Option.map_eq_some_iff.mp h
    rw [ht, Subtype.ext hval]
  obtain ⟨emitted, rfl⟩ := hemits r (List.mem_of_getElem? hr) log hmem haddress htopic
  rw [Guest.decode_emit hR] at hevent
  obtain rfl := Option.some.inj hevent
  refine ⟨⟨r, List.mem_of_getElem? hr, hstatus, hmem⟩, ?_⟩
  exact toNat_beBytesToU64_scalar _

end Maat.Prove
