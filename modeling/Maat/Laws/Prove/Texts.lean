import Maat.Prove.Block

/-!
# Hexadecimal texts of an RPC node

The host reads a text for bytes as these bytes, and a text for a number as the number: in 64 bits
(`hexToU64_quantity`), and through its bytes without leading zeros (`h2b_quantity`). An odd number
of digits, zeros in front and upper case make no difference. Two texts for the same bytes are the
same in lower case.
-/

namespace Maat.Prove

open Rlp Bytes Json Js
open Guest (Log Receipt IntentCreated ProofInput ProofOutput trieKey)

variable {keccak256 : List UInt8 → Fixed 32} {L : Libraries}

/-! ## The prefix -/

theorem trimStartMatches_digits {digits : Str} {ds : List Nat}
    (h : digits.mapM Hex.value? = some ds) : trimStartMatches ('0' :: 'x' :: digits) = digits := by
  rw [trimStartMatches]
  match digits with
  | [] => rfl
  | [c] => unfold trimStartMatches; split <;> simp_all
  | c :: c' :: rest =>
    obtain ⟨d, hd⟩ := (Hex.of_mapM h).1 c' (.tail _ (.head _))
    unfold trimStartMatches
    split
    · next heq =>
      obtain ⟨-, heq⟩ := List.cons.inj heq
      obtain ⟨rfl, -⟩ := List.cons.inj heq
      cases hd
    · rfl

theorem len_digits {digits : Str} {ds : List Nat} (h : digits.mapM Hex.value? = some ds) :
    len digits = digits.length := by
  have hchars := (Hex.of_mapM h).1
  clear h
  induction digits with
  | nil => rfl
  | cons c digits ih =>
    obtain ⟨⟨d, hd⟩, hchars⟩ := List.forall_mem_cons.mp hchars
    have hone : c.utf8Size = 1 := by
      have hc : c.toNat < 128 := (Hex.of_value? hd).1
      exact Char.utf8Size_eq_one_iff.mpr (by
        change c.val.toNat < 128 at hc
        exact UInt32.le_iff_toNat_le.mpr (Nat.le_of_lt_succ hc))
    have ih : (digits.map Char.utf8Size).sum = digits.length := ih hchars
    rw [len, List.map_cons, List.sum_cons, hone, ih, List.length_cons, Nat.add_comm]

/-! ## Bytes -/

/-- A text for bytes is read as these bytes. -/
theorem h2b_data (hL : L.Correct keccak256) {s : Str} {bs : List UInt8}
    (h : IsData (.string s) bs) : h2b L s = .ok bs := by
  obtain ⟨digits, hs, hspells⟩ := h
  obtain rfl := Value.string.inj hs
  have heven : ¬ len digits % 2 = 1 := by
    rw [len_digits hspells, hspells.length]
    decide
  simp only [h2b, trimStartMatches_digits hspells, if_neg heven]
  exact (hL.hexDecode digits bs).mpr hspells

theorem bigInt_eq_some {digits : Str} {n : Nat} :
    Hex.bigInt digits = some n ↔
      digits ≠ [] ∧ ∃ ds, digits.mapM Hex.value? = some ds ∧ Radix.value 16 ds = n := by
  rw [Hex.bigInt]
  split
  · next h => simp [h]
  · next h => rw [Option.map_eq_some_iff, and_iff_right h]

/-- A text for a number is read as bytes of the number, with zeros in front or none. -/
theorem h2b_quantity (hL : L.Correct keccak256) {s : Str} {n : Nat}
    (h : IsQuantity (.string s) n) :
    ∃ bs, h2b L s = .ok bs ∧ stripLeadingZeros bs = scalar n := by
  obtain ⟨digits, hs, hn⟩ := h
  obtain rfl := Value.string.inj hs
  obtain ⟨-, ds, hds, rfl⟩ := bigInt_eq_some.mp hn
  obtain ⟨hchars, hlt, hlength, -⟩ := Hex.of_mapM hds
  -- the text that is decoded, with its digits
  obtain ⟨text, hread, ds', hds', heven, hvalue⟩ : ∃ text,
      h2b L ('0' :: 'x' :: digits) = L.hexDecode text ∧ ∃ ds', text.mapM Hex.value? = some ds' ∧
        ds'.length % 2 = 0 ∧ Radix.value 16 ds' = Radix.value 16 ds := by
    by_cases hodd : len digits % 2 = 1
    · refine ⟨'0' :: digits, ?_, 0 :: ds, ?_, ?_, Radix.value_zero_cons ds⟩
      · simp only [h2b, trimStartMatches_digits hds, if_pos hodd]
      · exact Hex.mapM_cons_eq_some.mpr ⟨0, ds, by decide, hds, rfl⟩
      · rw [len_digits hds] at hodd
        rw [List.length_cons]
        omega
    · refine ⟨digits, ?_, ds, hds, ?_, rfl⟩
      · simp only [h2b, trimStartMatches_digits hds, if_neg hodd]
      · rw [len_digits hds] at hodd
        omega
  obtain ⟨bs, hspells, hbs⟩ := Hex.spells_of_even hds' heven
  refine ⟨bs, hread.trans ((hL.hexDecode text bs).mpr hspells), ?_⟩
  rw [← hvalue, ← hbs, ← beNat_eq_value, scalar_beNat, stripLeadingZeros]

/-! ## Numbers -/

theorem foldlM_addDigit {digits : Str} {ds : List Nat} (h : digits.mapM Hex.value? = some ds)
    {n m : Nat} (hn : n < 2 ^ 64) (hfold : digits.foldlM addDigit n = .ok m) :
    m = ds.foldl (fun n d => 16 * n + d) n ∧ m < 2 ^ 64 := by
  induction digits generalizing n ds with
  | nil =>
    obtain rfl : [] = ds := Option.some.inj h
    obtain rfl : n = m := Except.ok.inj hfold
    exact ⟨rfl, hn⟩
  | cons c digits ih =>
    obtain ⟨d, rest, hd, hrest, rfl⟩ := Hex.mapM_cons_eq_some.mp h
    rw [List.foldlM_cons, addDigit, hd] at hfold
    dsimp only at hfold
    split at hfold
    · next hlt => exact ih hrest hlt hfold
    · cases hfold

theorem foldl_digits (ds : List Nat) :
    ds.foldl (fun n d => 16 * n + d) 0 = Radix.value 16 ds := by
  induction ds using List.reverseRecOn with
  | nil => rfl
  | append_singleton ds d ih =>
    rw [List.foldl_append, ih, Radix.value_append_singleton, Nat.mul_comm]
    rfl

theorem fromStrRadix16_digits {digits : Str} {n : Nat} (h : Hex.bigInt digits = some n)
    {u : UInt64} (hu : fromStrRadix16 digits = .ok u) : u.toNat = n := by
  obtain ⟨hne, ds, hds, rfl⟩ := bigInt_eq_some.mp h
  have hfold : (digits.foldlM addDigit 0).map UInt64.ofNat = .ok u := by
    unfold fromStrRadix16 at hu
    split at hu
    · cases hu
    · cases hu
    · obtain ⟨d, hd⟩ := (Hex.of_mapM hds).1 '+' (.head _)
      cases hd
    · exact hu
  cases hm : digits.foldlM addDigit 0 with
  | error e =>
    rw [hm] at hfold
    cases hfold
  | ok m =>
    rw [hm] at hfold
    obtain rfl := Except.ok.inj hfold
    obtain ⟨rfl, hlt⟩ := foldlM_addDigit hds (by decide) hm
    rw [UInt64.toNat_ofNat', Nat.mod_eq_of_lt hlt, foldl_digits]

/-- A text for a number is read as the number, if it is read. -/
theorem hexToU64_quantity {s : Str} {n : Nat} (h : IsQuantity (.string s) n) {u : UInt64}
    (hu : hexToU64 s = .ok u) : u.toNat = n := by
  obtain ⟨digits, hs, hn⟩ := h
  obtain rfl := Value.string.inj hs
  obtain ⟨-, ds, hds, -⟩ := bigInt_eq_some.mp hn
  rw [hexToU64, trimStartMatches_digits hds] at hu
  cases hread : fromStrRadix16 digits with
  | error e =>
    rw [hread] at hu
    cases hu
  | ok u' =>
    rw [hread] at hu
    obtain rfl := Except.ok.inj hu
    exact fromStrRadix16_digits hn hread

/-! ## Lower case -/

/-- Texts for the same bytes are the same in lower case. -/
theorem lowercase_data (hL : L.Correct keccak256) {s : Str} {bs : List UInt8}
    (h : IsData (.string s) bs) : L.lowercase s = '0' :: 'x' :: Hex.toHex bs := by
  obtain ⟨digits, hs, hspells⟩ := h
  obtain rfl := Value.string.inj hs
  have hascii : ∀ c ∈ '0' :: 'x' :: digits, c.toNat < 128 := by
    refine List.forall_mem_cons.mpr ⟨by decide, List.forall_mem_cons.mpr ⟨by decide, ?_⟩⟩
    intro c hc
    obtain ⟨d, hd⟩ := (Hex.of_mapM hspells).1 c hc
    exact (Hex.of_value? hd).1
  rw [hL.lowercase _ hascii, List.map_cons, List.map_cons, hspells.lower]
  rfl

theorem toHex_inj {bs bs' : List UInt8} (h : Hex.toHex bs = Hex.toHex bs') : bs = bs' := by
  rw [← Hex.fromHex_toHex bs, h, Hex.fromHex_toHex]

theorem mem_trimStartMatches {s : Str} {c : Char} (h : c ∈ s) :
    c ∈ trimStartMatches s ∨ c = '0' ∨ c = 'x' := by
  induction s using trimStartMatches.induct with
  | case1 s ih =>
    rw [trimStartMatches]
    rcases List.mem_cons.mp h with rfl | h
    · exact .inr (.inl rfl)
    · rcases List.mem_cons.mp h with rfl | h
      · exact .inr (.inr rfl)
      · exact ih h
  | case2 s hs =>
    rw [trimStartMatches]
    · exact .inl h
    · exact hs

/-- What is decoded has digits only, the prefix apart. -/
theorem digits_of_h2b (hL : L.Correct keccak256) {s : Str} {cs : List UInt8}
    (h : h2b L s = .ok cs) : ∀ c ∈ trimStartMatches s, ∃ d, Hex.value? c = some d := by
  intro c hc
  simp only [h2b] at h
  refine (Hex.of_mapM ((hL.hexDecode _ cs).mp h)).1 c ?_
  split
  · exact .tail _ hc
  · exact hc

/-- A text that is in lower case what a text for bytes is, and can be decoded, is one for the same
bytes. -/
theorem data_of_lowercase (hL : L.Correct keccak256) {s : Str} {bs cs : List UInt8}
    (hlower : L.lowercase s = '0' :: 'x' :: Hex.toHex bs) (hread : h2b L s = .ok cs) :
    IsData (.string s) bs := by
  have hdigits := digits_of_h2b hL hread
  have hascii : ∀ c ∈ s, c.toNat < 128 := by
    intro c hc
    rcases mem_trimStartMatches hc with hc | rfl | rfl
    · obtain ⟨d, hd⟩ := hdigits c hc
      exact (Hex.of_value? hd).1
    · decide
    · decide
  have hzero : ∀ n < 128, (Char.ofNat n).toLower = '0' → Char.ofNat n = '0' := by decide
  have hx : ∀ n < 128, (Char.ofNat n).toLower = 'x' → Char.ofNat n = 'x' ∨ Char.ofNat n = 'X' := by
    decide
  rw [hL.lowercase s hascii] at hlower
  obtain ⟨a, rest, rfl, ha, hrest⟩ := List.map_eq_cons_iff.mp hlower
  obtain ⟨b, digits, rfl, hb, hdigitsLower⟩ := List.map_eq_cons_iff.mp hrest
  obtain ⟨ha128, hrestAscii⟩ := List.forall_mem_cons.mp hascii
  obtain ⟨hb128, hdigitsAscii⟩ := List.forall_mem_cons.mp hrestAscii
  have ha := hzero a.toNat ha128 (by rwa [Char.ofNat_toNat])
  have hb := hx b.toNat hb128 (by rwa [Char.ofNat_toNat])
  rw [Char.ofNat_toNat] at ha hb
  subst ha
  rcases hb with rfl | rfl
  · exact ⟨digits, rfl, Hex.spells_of_lower hdigitsAscii hdigitsLower⟩
  · obtain ⟨d, hd⟩ := hdigits 'X' (.tail _ (.head _))
    cases hd

/-! ## The index of a receipt -/

/-- A receipt that is found by an index has that index. -/
theorem toNat_of_hasIndex {txIndex : UInt64} {r : Value} {i : Nat}
    (hindex : IsQuantity (r.index "transactionIndex".toList) i) (h : hasIndex txIndex r = true) :
    txIndex.toNat = i := by
  obtain ⟨digits, htext, hi⟩ := hindex
  obtain ⟨-, ds, hds, -⟩ := bigInt_eq_some.mp hi
  rw [hasIndex, htext] at h
  have htrim := Option.some.inj (of_decide_eq_true h)
  rw [trimStartMatches_digits hds] at htrim
  rw [htrim, Hex.bigInt_toDigits] at hi
  exact Option.some.inj hi

end Maat.Prove
