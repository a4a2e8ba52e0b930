import Mathlib.Data.List.Induction
import Maat.Lib.Radix

/-!
# Hexadecimal text

`buffer.toString("hex")`, `Buffer.from(text, "hex")` and `BigInt("0x" + text)`. Reading stops at the
first pair that is not two hexadecimal digits, so a last digit alone is left out. What was written
is read back as bytes (`fromHex_toHex`) and as a number (`bigInt_toHex`, `bigInt_toDigits`).

A text may have its digits in either case. `Spells` says which bytes it stands for: texts of the
same bytes differ in case only (`Spells.lower`), and a number of two digits for each byte is the
number of the bytes (`spells_of_even`).
-/

namespace Hex

/-- The digit of a number below 16. -/
def digit (n : Nat) : Char := Char.ofNat (if n < 10 then 48 + n else 87 + n)

/-- The number of a digit in either case. -/
def value? (c : Char) : Option Nat :=
  if '0' ≤ c && c ≤ '9' then some (c.toNat - 48)
  else if 'a' ≤ c && c ≤ 'f' then some (c.toNat - 87)
  else if 'A' ≤ c && c ≤ 'F' then some (c.toNat - 55)
  else none

/-- The text has two digits for each of the bytes. -/
def Spells (text : List Char) (bs : List UInt8) : Prop :=
  text.mapM value? = some (bs.flatMap fun b => [b.toNat / 16, b.toNat % 16])

theorem value?_digit : ∀ d < 16, value? (digit d) = some d := by decide

/-- `buffer.toString("hex")` -/
def toHex : List UInt8 → List Char
  | [] => []
  | b :: bs => digit (b.toNat / 16) :: digit (b.toNat % 16) :: toHex bs

/-- `Buffer.from(text, "hex")` -/
def fromHex : List Char → List UInt8
  | hi :: lo :: text =>
    match value? hi, value? lo with
    | some h, some l => UInt8.ofNat (16 * h + l) :: fromHex text
    | _, _ => []
  | _ => []

/-- `BigInt("0x" + text)`; none where it throws. -/
def bigInt (text : List Char) : Option Nat :=
  if text = [] then none else (text.mapM value?).map (Radix.value 16)

theorem fromHex_toHex (bs : List UInt8) : fromHex (toHex bs) = bs := by
  induction bs with
  | nil => rfl
  | cons b bs ih =>
    have hb := b.toNat_lt
    rw [toHex, fromHex, value?_digit _ (by omega), value?_digit _ (by omega)]
    simp only [ih, Nat.div_add_mod, UInt8.ofNat_toNat]

theorem mapM_toHex (bs : List UInt8) :
    (toHex bs).mapM value? = some (bs.flatMap fun b => [b.toNat / 16, b.toNat % 16]) := by
  induction bs with
  | nil => rfl
  | cons b bs ih =>
    have hb := b.toNat_lt
    rw [toHex, List.mapM_cons, value?_digit _ (by omega), List.mapM_cons,
      value?_digit _ (by omega), ih]
    rfl

/-- Two digits of base 16 are one of base 256. -/
theorem value_pairs (bs : List UInt8) :
    Radix.value 16 (bs.flatMap fun b => [b.toNat / 16, b.toNat % 16]) =
      Radix.value 256 (bs.map UInt8.toNat) := by
  induction bs using List.reverseRecOn with
  | nil => rfl
  | append_singleton bs b ih =>
    rw [List.flatMap_append, List.map_append, List.map_singleton, Radix.value_append_singleton,
      List.flatMap_singleton,
      show ∀ ds, ds ++ [b.toNat / 16, b.toNat % 16] = ds ++ [b.toNat / 16] ++ [b.toNat % 16] by
        simp,
      Radix.value_append_singleton, Radix.value_append_singleton, ih]
    omega

theorem bigInt_toHex {bs : List UInt8} (h : bs ≠ []) :
    bigInt (toHex bs) = some (Radix.value 256 (bs.map UInt8.toNat)) := by
  have hne : toHex bs ≠ [] := by
    cases bs with
    | nil => exact absurd rfl h
    | cons b bs => exact List.cons_ne_nil _ _
  rw [bigInt, if_neg hne, mapM_toHex, Option.map_some, value_pairs]

/-! ## Digits in either case -/

theorem mapM_cons_eq_some {c : Char} {text : List Char} {ds : List Nat} :
    (c :: text).mapM value? = some ds ↔
      ∃ d rest, value? c = some d ∧ text.mapM value? = some rest ∧ ds = d :: rest := by
  simp only [List.mapM_cons, Option.bind_eq_bind, Option.bind_eq_some_iff, Option.pure_def,
    Option.some.injEq]
  constructor
  · rintro ⟨d, hd, rest, hrest, rfl⟩
    exact ⟨d, rest, hd, hrest, rfl⟩
  · rintro ⟨d, rest, hd, hrest, rfl⟩
    exact ⟨d, hd, rest, hrest, rfl⟩

/-- A digit is an ASCII character, in lower case `digit` of its number, which is below 16. -/
theorem of_value? {c : Char} {d : Nat} (h : value? c = some d) :
    c.toNat < 128 ∧ c.toLower = digit d ∧ d < 16 := by
  have hall : ∀ n < 128, ((value? (Char.ofNat n)).all fun d =>
      decide ((Char.ofNat n).toLower = digit d ∧ d < 16)) = true := by decide
  have hsmall : c.toNat < 128 := by
    by_contra hlarge
    have hle : ∀ a : Char, a.toNat < 128 → ¬ c ≤ a := by
      intro a ha hca
      have : c.toNat ≤ a.toNat := hca
      omega
    simp [value?, hle '9' (by decide), hle 'f' (by decide), hle 'F' (by decide)] at h
  have hc := hall c.toNat hsmall
  rw [Char.ofNat_toNat, h, Option.all_some, decide_eq_true_eq] at hc
  exact ⟨hsmall, hc⟩

/-- What stands for two digits is in range. -/
theorem of_mapM {text : List Char} {ds : List Nat} (h : text.mapM value? = some ds) :
    (∀ c ∈ text, ∃ d, value? c = some d) ∧ (∀ d ∈ ds, d < 16) ∧ text.length = ds.length ∧
      text.map Char.toLower = ds.map digit := by
  induction text generalizing ds with
  | nil =>
    obtain rfl : [] = ds := Option.some.inj h
    exact ⟨nofun, nofun, rfl, rfl⟩
  | cons c text ih =>
    obtain ⟨d, rest, hd, hrest, rfl⟩ := mapM_cons_eq_some.mp h
    obtain ⟨hchars, hlt, hlength, hlower⟩ := ih hrest
    obtain ⟨-, hc, hd16⟩ := of_value? hd
    refine ⟨List.forall_mem_cons.mpr ⟨⟨d, hd⟩, hchars⟩,
      List.forall_mem_cons.mpr ⟨hd16, hlt⟩, ?_, ?_⟩
    · rw [List.length_cons, List.length_cons, hlength]
    · rw [List.map_cons, List.map_cons, hc, hlower]

theorem spells_toHex (bs : List UInt8) : Spells (toHex bs) bs := mapM_toHex bs

theorem toHex_eq (bs : List UInt8) :
    toHex bs = (bs.flatMap fun b => [b.toNat / 16, b.toNat % 16]).map digit := by
  induction bs with
  | nil => rfl
  | cons b bs ih => rw [toHex, ih]; rfl

/-- Texts of the same bytes differ in case only. -/
theorem Spells.lower {text : List Char} {bs : List UInt8} (h : Spells text bs) :
    text.map Char.toLower = toHex bs := by
  rw [toHex_eq]
  exact (of_mapM h).2.2.2

/-- A text that is in lower case what bytes are written as spells them. -/
theorem spells_of_lower {text : List Char} {bs : List UInt8} (hascii : ∀ c ∈ text, c.toNat < 128)
    (h : text.map Char.toLower = toHex bs) : Spells text bs := by
  have hread : ∀ n < 128, ∀ d < 16, (Char.ofNat n).toLower = digit d →
      value? (Char.ofNat n) = some d := by decide
  have hall : ∀ ds : List Nat, (∀ d ∈ ds, d < 16) → text.map Char.toLower = ds.map digit →
      text.mapM value? = some ds := by
    intro ds hds hlower
    clear h
    induction text generalizing ds with
    | nil =>
      obtain rfl := List.map_eq_nil_iff.mp hlower.symm
      rfl
    | cons c text ih =>
      obtain ⟨d, rest, rfl, hc, hrest⟩ := List.map_eq_cons_iff.mp hlower.symm
      obtain ⟨hd, hds⟩ := List.forall_mem_cons.mp hds
      obtain ⟨hsmall, hascii⟩ := List.forall_mem_cons.mp hascii
      have hvalue := hread c.toNat hsmall d hd (by rw [Char.ofNat_toNat, hc])
      rw [Char.ofNat_toNat] at hvalue
      exact mapM_cons_eq_some.mpr ⟨d, rest, hvalue, ih hascii rest hds hrest.symm, rfl⟩
  refine hall _ ?_ (by rw [h, toHex_eq])
  exact (of_mapM (mapM_toHex bs)).2.1

theorem Spells.length {text : List Char} {bs : List UInt8} (h : Spells text bs) :
    text.length % 2 = 0 := by
  have hpairs : ∀ bs : List UInt8,
      (bs.flatMap fun b => [b.toNat / 16, b.toNat % 16]).length % 2 = 0 := by
    intro bs
    induction bs with
    | nil => rfl
    | cons b bs ih =>
      rw [List.flatMap_cons, List.length_append]
      simp only [List.length_cons, List.length_nil]
      omega
  rw [(of_mapM h).2.2.1]
  exact hpairs bs

/-- A text of an even number of digits spells bytes, which stand for the same number. -/
theorem spells_of_even {text : List Char} {ds : List Nat} (h : text.mapM value? = some ds)
    (heven : ds.length % 2 = 0) :
    ∃ bs, Spells text bs ∧ Radix.value 256 (bs.map UInt8.toNat) = Radix.value 16 ds := by
  have hpack : ∀ ds : List Nat, (∀ d ∈ ds, d < 16) → ds.length % 2 = 0 →
      ∃ bs : List UInt8, ds = bs.flatMap fun b => [b.toNat / 16, b.toNat % 16] := by
    intro ds
    induction ds using List.twoStepInduction with
    | nil => exact fun _ _ => ⟨[], rfl⟩
    | singleton d => exact fun _ hlength => absurd hlength (by simp)
    | cons_cons hi lo ds ih =>
      intro hlt hlength
      obtain ⟨hhi, hlt⟩ := List.forall_mem_cons.mp hlt
      obtain ⟨hlo, hlt⟩ := List.forall_mem_cons.mp hlt
      obtain ⟨bs, rfl⟩ := ih hlt (by simpa [Nat.add_assoc] using hlength)
      have hbyte : (UInt8.ofNat (16 * hi + lo)).toNat = 16 * hi + lo := by
        rw [UInt8.toNat_ofNat']
        omega
      refine ⟨UInt8.ofNat (16 * hi + lo) :: bs, ?_⟩
      rw [List.flatMap_cons, hbyte, show (16 * hi + lo) / 16 = hi by omega,
        show (16 * hi + lo) % 16 = lo by omega]
      rfl
  obtain ⟨bs, rfl⟩ := hpack ds (of_mapM h).2.1 heven
  exact ⟨bs, h, (value_pairs bs).symm⟩

/-- A text spells what `Buffer.from` reads of it, if it is read to its end. -/
theorem spells_iff {text : List Char} {bs : List UInt8} :
    Spells text bs ↔ fromHex text = bs ∧ text.length = 2 * bs.length := by
  induction text using fromHex.induct generalizing bs with
  | case1 hi lo text h l hlo hhi ih =>
    rw [fromHex, hhi, hlo]
    have hh := (of_value? hhi).2.2
    have hl := (of_value? hlo).2.2
    constructor
    · intro hspells
      obtain ⟨d, rest, hd, hrest, heq⟩ := mapM_cons_eq_some.mp hspells
      obtain ⟨d', rest', hd', hrest', rfl⟩ := mapM_cons_eq_some.mp hrest
      obtain rfl := Option.some.inj (hhi.symm.trans hd)
      obtain rfl := Option.some.inj (hlo.symm.trans hd')
      cases bs with
      | nil => cases heq
      | cons b bs =>
        obtain ⟨hb, heq⟩ := List.cons.inj heq
        obtain ⟨hb', heq⟩ := List.cons.inj heq
        obtain ⟨hread, hlength⟩ := ih.mp (hrest'.trans (congrArg some heq.symm))
        have hbyte : 16 * h + l = b.toNat := by omega
        refine ⟨by simp only [hread, hbyte, UInt8.ofNat_toNat], ?_⟩
        simp only [List.length_cons]
        omega
    · rintro ⟨rfl, hlength⟩
      simp only [List.length_cons] at hlength
      have hrest : Spells text (fromHex text) := ih.mpr ⟨rfl, by omega⟩
      have hbyte : (UInt8.ofNat (16 * h + l)).toNat = 16 * h + l := by
        rw [UInt8.toNat_ofNat']
        omega
      refine mapM_cons_eq_some.mpr ⟨h, _, hhi, mapM_cons_eq_some.mpr ⟨l, _, hlo, hrest, rfl⟩, ?_⟩
      rw [List.flatMap_cons, hbyte, show (16 * h + l) / 16 = h by omega,
        show (16 * h + l) % 16 = l by omega]
      rfl
  | case2 hi lo text hnone =>
    have hread : fromHex (hi :: lo :: text) = [] := by
      rw [fromHex]
      split
      · next h l hhi hlo => exact (hnone h l hhi hlo).elim
      · rfl
    rw [hread]
    constructor
    · intro hspells
      obtain ⟨d, rest, hd, hrest, -⟩ := mapM_cons_eq_some.mp hspells
      obtain ⟨d', rest', hd', -, -⟩ := mapM_cons_eq_some.mp hrest
      exact (hnone d d' hd hd').elim
    · rintro ⟨rfl, hlength⟩
      cases hlength
  | case3 text hne =>
    match text with
    | [] =>
      cases bs with
      | nil => exact ⟨fun _ => ⟨rfl, rfl⟩, fun _ => rfl⟩
      | cons b bs => exact ⟨nofun, fun h => by cases h.1⟩
    | [c] =>
      constructor
      · intro hspells
        cases hspells.length
      · rintro ⟨rfl, hlength⟩
        cases hlength
    | hi :: lo :: text => exact (hne hi lo text rfl).elim

/-- What `BigInt` reads of the digits that a number is written with is the number. -/
theorem bigInt_toDigits (n : Nat) : bigInt (Nat.toDigits 16 n) = some n := by
  have hread : ∀ d < 16, value? (Nat.digitChar d) = some d := by decide
  have hall : ∀ n, ∃ ds, (Nat.toDigits 16 n).mapM value? = some ds ∧ ds ≠ [] ∧
      Radix.value 16 ds = n := by
    intro n
    induction n using Nat.strong_induction_on with
    | _ n ih =>
      rcases Nat.lt_or_ge n 16 with hlt | hge
      · refine ⟨[n], ?_, List.cons_ne_nil _ _, by simp [Radix.value]⟩
        rw [Nat.toDigits_of_lt_base hlt, mapM_cons_eq_some]
        exact ⟨n, [], hread n hlt, rfl, rfl⟩
      · obtain ⟨ds, hds, -, hvalue⟩ := ih (n / 16) (by omega)
        refine ⟨ds ++ [n % 16], ?_, by simp, ?_⟩
        · rw [Nat.toDigits_of_base_le (by decide) hge, List.mapM_append, hds]
          simp [hread (n % 16) (Nat.mod_lt _ (by decide))]
        · rw [Radix.value_append_singleton, hvalue]
          omega
  obtain ⟨ds, hds, hne, hvalue⟩ := hall n
  have htext : Nat.toDigits 16 n ≠ [] := by
    intro hnil
    rw [hnil] at hds
    exact hne (Option.some.inj hds).symm
  rw [bigInt, if_neg htext, hds, Option.map_some, hvalue]

end Hex
