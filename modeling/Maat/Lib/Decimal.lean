import Maat.Lib.Number

/-!
# Decimal numerals

How a numeral of decimal digits is read as a JavaScript number, and how such a number is written:
with the fewest digits that are read back as it. What is written without an exponent is read back
(`ofDigits_integerText`), and an integer below `2^53` is written digit by digit
(`integerText_of_lt`).
-/

namespace Js

/-- `Number(text)` for a text of decimal digits. -/
def Number.ofDigits (digits : Str) : Number :=
  let q := double (Nat.ofDigitChars 10 digits 0 : Nat)
  if q < 2 ^ 1024 then .finite q else .infinity

/-- The multiples of `10^e` on both sides of an integer, the closer one first. -/
def nearMultiples (x e : Nat) : List (Nat × Nat) :=
  let s := x / 10 ^ e
  let rest := 2 * (x % 10 ^ e)
  if rest < 10 ^ e ∨ rest = 10 ^ e ∧ s % 2 = 0 then [(s, e), (s + 1, e)] else [(s + 1, e), (s, e)]

/-- The fewest digits that are read back as the integer, and how many zeros follow them. -/
def shortest (x : Nat) : Nat × Nat :=
  (((List.range ((Nat.toDigits 10 x).length + 1)).reverse.flatMap (nearMultiples x)).find?
    fun c => decide (c.1 ≠ 0 ∧ double ((c.1 * 10 ^ c.2 : Nat) : ℚ) = x)).getD (x, 0)

/-- `${n}` for an integer that is a number and not negative. -/
def integerText (x : Nat) : Str :=
  let (s, e) := shortest x
  let digits := Nat.toDigits 10 s
  let size := digits.length + e
  if size ≤ 21 then digits ++ List.replicate e '0'
  else
    let exponent := 'e' :: '+' :: Nat.toDigits 10 (size - 1)
    match digits with
    | [d] => d :: exponent
    | d :: rest => d :: '.' :: rest ++ exponent
    | [] => []

/-- `${n}` for what `ofDigits` gives. -/
def Number.integerText : Number → Str
  | .finite q => Js.integerText ⌊q⌋.toNat
  | .infinity => "Infinity".toList
  | .negInfinity => "-Infinity".toList
  | .nan => "NaN".toList

/-! ## Reading back -/

theorem double_zero : double 0 = 0 := if_pos le_rfl

/-- Integers of at most 53 bits are doubles. -/
theorem double_natCast {n : Nat} (h : n ≤ 2 ^ 53) : double n = n := by
  rcases Nat.eq_zero_or_pos n with rfl | hpos
  · rw [Nat.cast_zero, double_zero]
  have hq : (0 : ℚ) < n := by exact_mod_cast hpos
  rw [double, if_neg (not_le.mpr hq)]
  have hlow := (lastBit_bounds hq).1
  have hn : (n : ℚ) ≤ 2 ^ (53 : ℤ) := by
    rw [show (2 : ℚ) ^ (53 : ℤ) = ((2 ^ 53 : Nat) : ℚ) by norm_num]
    exact_mod_cast h
  have hexp : lastBit n ≤ 1 := by
    have := (zpow_le_zpow_iff_right₀ (by norm_num : (1 : ℚ) < 2)).mp (hlow.trans hn)
    omega
  have hpow : (2 : ℚ) ^ lastBit n ≠ 0 := (zpow_pos (by norm_num) _).ne'
  -- in units of the last bit the number is an integer
  obtain ⟨m, hm⟩ : ∃ m : ℤ, (n : ℚ) / 2 ^ lastBit n = m := by
    rcases hexp.lt_or_eq with hlt | heq
    · refine ⟨n * 2 ^ (-lastBit n).toNat, ?_⟩
      rw [div_eq_mul_inv, ← zpow_neg]
      push_cast
      rw [← zpow_natCast, Int.toNat_of_nonneg (by omega)]
    · rw [heq] at hlow
      have hn : n = 2 ^ 53 := by
        have : (2 : ℚ) ^ ((1 : ℤ) + 52) = ((2 ^ 53 : Nat) : ℚ) := by norm_num
        rw [this] at hlow
        exact le_antisymm h (by exact_mod_cast hlow)
      refine ⟨2 ^ 52, ?_⟩
      rw [heq, hn]
      norm_num
  rw [hm, roundEven_intCast, ← hm, div_mul_cancel₀ _ hpow]

/-- A double below `2^53` is the double of one natural number only. -/
theorem eq_of_double_natCast {m n : Nat} (hn : n < 2 ^ 53) (h : double m = n) : m = n := by
  rcases Nat.lt_or_ge (2 ^ 53) m with hm | hm
  · have hmono : double ((2 ^ 53 : Nat) : ℚ) ≤ double m := double_mono (by exact_mod_cast hm.le)
    rw [double_natCast le_rfl, h] at hmono
    exact absurd (by exact_mod_cast hmono : 2 ^ 53 ≤ n) (by omega)
  · rw [double_natCast hm] at h
    exact_mod_cast h

/-- The last bit of a number between two neighbouring powers of two. -/
theorem lastBit_eq {q : ℚ} {e : ℤ} (hlow : (2 : ℚ) ^ (e + 52) ≤ q) (hhigh : q < 2 ^ (e + 53)) :
    lastBit q = e := by
  have hq : 0 < q := (zpow_pos (by norm_num) _).trans_le hlow
  obtain ⟨hlow', hhigh'⟩ := lastBit_bounds hq
  have hle := (zpow_lt_zpow_iff_right₀ (by norm_num : (1 : ℚ) < 2)).mp (hlow.trans_lt hhigh')
  have hge := (zpow_lt_zpow_iff_right₀ (by norm_num : (1 : ℚ) < 2)).mp (hlow'.trans_lt hhigh)
  omega

/-- At most 53 bits, in units of a power of two, are a double. -/
theorem double_bits {r e : ℤ} (hlow : 2 ^ 52 ≤ r) (hhigh : r < 2 ^ 53) :
    double ((r : ℚ) * 2 ^ e) = r * 2 ^ e := by
  have hpow : (0 : ℚ) < 2 ^ e := zpow_pos (by norm_num) _
  have hr : (0 : ℚ) < r := by exact_mod_cast (by omega : 0 < r)
  have hbit : lastBit ((r : ℚ) * 2 ^ e) = e := by
    apply lastBit_eq
    · rw [add_comm, zpow_add₀ two_ne_zero]
      exact mul_le_mul_of_nonneg_right (by exact_mod_cast hlow) hpow.le
    · rw [add_comm, zpow_add₀ two_ne_zero]
      exact mul_lt_mul_of_pos_right (by exact_mod_cast hhigh) hpow
  rw [double, if_neg (not_le.mpr (mul_pos hr hpow)), hbit, mul_div_cancel_right₀ _ hpow.ne',
    roundEven_intCast]

/-- The double of a natural number is a natural number and a double. -/
theorem double_natCast_fixed (n : Nat) : ∃ m : Nat, double n = m ∧ double m = m := by
  rcases Nat.lt_or_ge n (2 ^ 53) with hn | hn
  · exact ⟨n, double_natCast hn.le, double_natCast hn.le⟩
  have hq : (0 : ℚ) < n := by exact_mod_cast (by omega : 0 < n)
  obtain ⟨hlow, hhigh⟩ := lastBit_bounds hq
  have hpow : (0 : ℚ) < 2 ^ lastBit n := zpow_pos (by norm_num) _
  have he : 0 < lastBit n := by
    have hge : (2 : ℚ) ^ (53 : ℤ) ≤ n := by
      rw [show (2 : ℚ) ^ (53 : ℤ) = ((2 ^ 53 : Nat) : ℚ) by norm_num]
      exact_mod_cast hn
    have := (zpow_lt_zpow_iff_right₀ (by norm_num : (1 : ℚ) < 2)).mp (hge.trans_lt hhigh)
    omega
  set r := roundEven (n / 2 ^ lastBit n) with hr
  have hdouble : double n = r * 2 ^ lastBit n := if_neg (not_le.mpr hq)
  have hrlow : 2 ^ 52 ≤ r := by
    have hle : ((2 ^ 52 : ℤ) : ℚ) ≤ n / 2 ^ lastBit n := by
      rw [le_div_iff₀ hpow]
      refine le_trans (le_of_eq ?_) hlow
      rw [add_comm, zpow_add₀ two_ne_zero]
      norm_num
    exact (roundEven_intCast _).symm.le.trans (roundEven_mono hle)
  have hrhigh : r ≤ 2 ^ 53 := by
    have hle : (n : ℚ) / 2 ^ lastBit n ≤ ((2 ^ 53 : ℤ) : ℚ) := by
      rw [div_le_iff₀ hpow]
      refine hhigh.le.trans_eq ?_
      rw [add_comm, zpow_add₀ two_ne_zero]
      norm_num
    exact (roundEven_mono hle).trans_eq (roundEven_intCast _)
  refine ⟨r.toNat * 2 ^ (lastBit n).toNat, ?_, ?_⟩
  all_goals
    push_cast
    rw [← zpow_natCast, Int.toNat_of_nonneg he.le, ← Int.cast_natCast r.toNat,
      Int.toNat_of_nonneg (by omega)]
  · exact hdouble
  · rcases hrhigh.lt_or_eq with hlt | heq
    · exact double_bits hrlow hlt
    · -- the next power of two
      have hnext : (r : ℚ) * 2 ^ lastBit n = ((2 ^ 52 : ℤ) : ℚ) * 2 ^ (lastBit n + 1) := by
        rw [heq, zpow_add_one₀ two_ne_zero]
        push_cast
        ring
      rw [hnext]
      exact double_bits le_rfl (by norm_num)

theorem shortest_reads {x : Nat} (hx : double x = x) :
    double (((shortest x).1 * 10 ^ (shortest x).2 : Nat) : ℚ) = x := by
  unfold shortest
  cases hfind : List.find? _ _ with
  | none => simpa only [Option.getD_none, pow_zero, mul_one] using hx
  | some c => exact (of_decide_eq_true (List.find?_some hfind :)).2

theorem isDigit_toDigits {n : Nat} {c : Char} (h : c ∈ Nat.toDigits 10 n) : c.isDigit = true :=
  Nat.isDigit_of_mem_toDigits (by decide) (by decide) h

/-- What has no exponent is the numeral of a multiple of a power of ten. -/
theorem integerText_cases (x : Nat) :
    integerText x =
        Nat.toDigits 10 (shortest x).1 ++ List.replicate (shortest x).2 '0' ∨
      'e' ∈ integerText x ∨ integerText x = [] := by
  unfold integerText
  dsimp only
  split
  · exact .inl rfl
  · split
    · exact .inr (.inl (by simp))
    · exact .inr (.inl (by simp))
    · exact .inr (.inr rfl)

/-- A positive integer below `2^53` is written digit by digit. -/
theorem integerText_of_lt {n : Nat} (hpos : 0 < n) (h : n < 2 ^ 53) :
    integerText n = Nat.toDigits 10 n := by
  have hn : (shortest n).1 * 10 ^ (shortest n).2 = n :=
    eq_of_double_natCast h (shortest_reads (double_natCast h.le))
  have hzeros : ∀ e s : Nat, 0 < s →
      Nat.toDigits 10 s ++ List.replicate e '0' = Nat.toDigits 10 (s * 10 ^ e) := by
    intro e
    induction e with
    | zero => exact fun s _ => by rw [List.replicate_zero, List.append_nil, pow_zero, mul_one]
    | succ e ih =>
      intro s hs
      rw [List.replicate_succ, ← List.singleton_append, ← List.append_assoc,
        show ['0'] = Nat.toDigits 10 0 from rfl,
        Nat.toDigits_append_toDigits (by decide) hs (by decide), ih _ (by omega)]
      congr 1
      ring
  have hs : 0 < (shortest n).1 := by
    rcases Nat.eq_zero_or_pos (shortest n).1 with h0 | h0
    · rw [h0, zero_mul] at hn
      omega
    · exact h0
  have htext := hzeros (shortest n).2 _ hs
  rw [hn] at htext
  have hlen : (Nat.toDigits 10 (shortest n).1).length + (shortest n).2 ≤ 21 := by
    have hle := (Nat.length_toDigits_le_iff (by decide) (by decide : 0 < 21)).mpr
      (h.trans (by norm_num : 2 ^ 53 < 10 ^ 21))
    rwa [← htext, List.length_append, List.length_replicate] at hle
  unfold integerText
  dsimp only
  rw [if_pos hlen, htext]

/-- A text of digits is read back as the number it was written for. -/
theorem ofDigits_integerText {x : Nat} (hx : double x = x)
    (hdigits : ∀ c ∈ integerText x, c.isDigit = true) (hne : integerText x ≠ []) :
    double (Nat.ofDigitChars 10 (integerText x) 0 : Nat) = x := by
  rcases integerText_cases x with htext | he | hnil
  · rw [htext, Nat.ofDigitChars_append, Nat.ofDigitChars_ten_toDigits,
      Nat.ofDigitChars_replicate_zero, mul_comm]
    exact shortest_reads hx
  · exact absurd (hdigits 'e' he) (by decide)
  · exact absurd hnil hne

end Js
