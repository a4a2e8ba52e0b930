import Maat.Laws.Guest.Soundness

/-!
# A proof is binding

Two accepted inputs with one block hash, transaction index and log index commit the same output.
The two walks start at one root and one key. As keccak256 does not collide on what the inputs
supply, they read the same node in every round, and so they agree in every later round
(`walk_binding`). Neither trie nor library is assumed to be well formed or correct.
-/

namespace Maat.Guest

open Rlp Bytes

variable {R : Crate} {keccak256 : List UInt8 → Fixed 32}

/-- The strings of the input that the guest hashes. -/
def ProofInput.hashed (input : ProofInput) : Set (List UInt8) :=
  { bs | bs ∈ input.headerRlp :: input.receiptProofNodes }

/-- What a parent asks for is one node. -/
theorem NodeRef.Matches.unique {expected : NodeRef} {S : Set (List UInt8)} {n₁ n₂ : List UInt8}
    (hcoll : S.InjOn keccak256) (hn₁ : n₁ ∈ S) (hn₂ : n₂ ∈ S)
    (h₁ : expected.Matches keccak256 n₁) (h₂ : expected.Matches keccak256 n₂) : n₁ = n₂ := by
  cases expected with
  | hash h => exact hcoll hn₁ hn₂ (h₁.trans h₂.symm)
  | inline bytes => exact h₁.trans h₂.symm

/-- Two walks from one reference with one key left find one value. -/
theorem walk_binding {S : Set (List UInt8)} (hcoll : S.InjOn keccak256) {expected : NodeRef}
    {remaining : List Nibble} {nodes₁ nodes₂ : List (List UInt8)} {v₁ v₂ : List UInt8}
    (hn₁ : ∀ n ∈ nodes₁, n ∈ S) (hn₂ : ∀ n ∈ nodes₂, n ∈ S)
    (h₁ : walk R keccak256 expected remaining nodes₁ = some v₁)
    (h₂ : walk R keccak256 expected remaining nodes₂ = some v₂) : v₁ = v₂ := by
  induction nodes₁ generalizing expected remaining nodes₂ with
  | nil => cases h₁
  | cons n₁ rest₁ ih =>
    obtain ⟨_, _, visit₁, ⟨rfl, rfl⟩, hvisit₁, h₁⟩ := walk_eq_some h₁
    obtain ⟨n₂, rest₂, visit₂, rfl, hvisit₂, h₂⟩ := walk_eq_some h₂
    have hsame : n₁ = n₂ := NodeRef.Matches.unique hcoll (hn₁ _ (.head _)) (hn₂ _ (.head _))
      (visit_eq_some hvisit₁).1 (visit_eq_some hvisit₂).1
    subst hsame
    obtain rfl : visit₁ = visit₂ := Option.some.inj (hvisit₁.symm.trans hvisit₂)
    cases visit₁ with
    | found value => exact h₁.symm.trans h₂
    | next expected remaining =>
      exact ih (fun n hn => hn₁ n (.tail _ hn)) (fun n hn => hn₂ n (.tail _ hn)) h₁ h₂

/-- The contract the host expects is the one the log names. -/
theorem expectedContract_unique {c₁ c₂ : Fixed 20} {log : List UInt8} {e₁ e₂ : IntentCreated}
    (h₁ : decodeIntentCreated R keccak256 c₁ log = some e₁)
    (h₂ : decodeIntentCreated R keccak256 c₂ log = some e₂) : c₁ = c₂ := by
  obtain ⟨_, _, d₁⟩ := decodeIntentCreated_eq_some h₁
  obtain ⟨_, _, d₂⟩ := decodeIntentCreated_eq_some h₂
  exact Subtype.ext (Option.some.inj (d₁.address.symm.trans d₂.address))

/-- Accepted inputs that agree on block hash, transaction index and log index commit to the same
output. -/
theorem main_binding (R : Crate) (keccak256 : List UInt8 → Fixed 32) (i₁ i₂ : ProofInput)
    (o₁ o₂ : ProofOutput) (hcoll : (i₁.hashed ∪ i₂.hashed).InjOn keccak256)
    (h₁ : main R keccak256 i₁ = some o₁) (h₂ : main R keccak256 i₂ = some o₂)
    (hblock : o₁.blockHash = o₂.blockHash) (htx : i₁.txIndex = i₂.txIndex)
    (hlog : i₁.logIndex = i₂.logIndex) : o₁ = o₂ := by
  obtain ⟨header₁, receipt₁, logs₁, log₁, event₁, hheader₁, hwalk₁, hlogs₁, hlog₁, hevent₁, -,
    rfl⟩ := main_eq_some h₁
  obtain ⟨header₂, receipt₂, logs₂, log₂, event₂, hheader₂, hwalk₂, hlogs₂, hlog₂, hevent₂, -,
    rfl⟩ := main_eq_some h₂
  have hrlp : i₁.headerRlp = i₂.headerRlp :=
    hcoll (.inl (.head _)) (.inr (.head _)) hblock
  rw [← hrlp] at hheader₂
  obtain rfl : header₁ = header₂ := Option.some.inj (hheader₁.symm.trans hheader₂)
  rw [← htx] at hwalk₂
  obtain rfl : receipt₁ = receipt₂ :=
    walk_binding hcoll (fun _ hn => .inl (.tail _ hn)) (fun _ hn => .inr (.tail _ hn)) hwalk₁ hwalk₂
  obtain rfl : logs₁ = logs₂ := Option.some.inj (hlogs₁.symm.trans hlogs₂)
  rw [← hlog] at hlog₂
  obtain rfl : log₁ = log₂ := Option.some.inj (hlog₁.symm.trans hlog₂)
  have hcontract := expectedContract_unique hevent₁ hevent₂
  rw [← hcontract] at hevent₂
  obtain rfl : event₁ = event₂ := Option.some.inj (hevent₁.symm.trans hevent₂)
  rw [hrlp, hcontract]

/-- The sample input with a node that the walk never reads. -/
def sampleTrailing : ProofInput :=
  { sampleInput (minBytes 1800000000) with
    receiptProofNodes := [sampleBranch, sampleLeaf, sampleFailedLeaf] }

theorem main_sampleTrailing : main reference sampleKeccak256 sampleTrailing =
    some (sampleOutput (minBytes 1800000000)) :=
  main_append [sampleFailedLeaf] (sampleInput_accepted _ (.head _)).2.2

theorem sampleTrailing_accepted :
    (main reference sampleKeccak256 sampleTrailing).isSome = true := by
  rw [main_sampleTrailing, Option.isSome_some]

theorem main_binding_sample :
    sampleOutput (minBytes 1800000000) =
      (main reference sampleKeccak256 sampleTrailing).get sampleTrailing_accepted := by
  refine main_binding reference sampleKeccak256 (sampleInput (minBytes 1800000000)) sampleTrailing
    _ _ ?_ (sampleInput_accepted _ (.head _)).2.2 (Option.some_get _).symm ?_ rfl rfl
  · have hlisted : ∀ bs ∈ (sampleInput (minBytes 1800000000)).hashed ∪ sampleTrailing.hashed,
        bs ∈ sampleStrings := by
      rintro bs (hbs | hbs)
      · have hbs : bs ∈ [sampleHeader (minBytes 1800000000), sampleBranch, sampleLeaf] := hbs
        exact List.mem_append_left [sampleFailedLeaf, [0x80]] hbs
      · have hbs : bs ∈ [sampleHeader (minBytes 1800000000), sampleBranch, sampleLeaf,
          sampleFailedLeaf] := hbs
        exact List.mem_append_left [[0x80]] hbs
    intro a ha b hb hab
    exact sampleStrings_hashed.2 a (hlisted a ha) b (hlisted b hb) hab
  · simp only [main_sampleTrailing, Option.get_some]

end Maat.Guest
