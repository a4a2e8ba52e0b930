import Mathlib.Data.Rat.Floor
import Mathlib.Data.List.Dedup
import Mathlib.Algebra.Order.Floor.Ring

/-!
# JavaScript values

The parts of the language the orchestrator's decisions rest on: strings and their lower-casing,
`Set` of strings in insertion order, the rounding of a quotient to a double, `Math.round`, and
`BigInt` division. Strings are lists of characters.
-/

namespace Js

/-- A string. -/
abbrev Str := List Char

def toLowerCase (s : Str) : Str := s.map Char.toLower

/-- `[...new Set(xs)]`: each element once, where it first stood. -/
def distinct {α : Type} [DecidableEq α] (xs : List α) : List α := xs.reverse.dedup.reverse

theorem nodup_distinct {α : Type} [DecidableEq α] (xs : List α) : (distinct xs).Nodup := by
  rw [distinct, List.nodup_reverse]
  exact List.nodup_dedup _

theorem mem_distinct {α : Type} [DecidableEq α] {x : α} {xs : List α} :
    x ∈ distinct xs ↔ x ∈ xs := by
  rw [distinct, List.mem_reverse, List.mem_dedup, List.mem_reverse]

/-! ## Numbers -/

/-- To the nearest integer, ties to even. -/
def roundEven (q : ℚ) : ℤ :=
  let low := ⌊q⌋
  let rest := q - low
  if rest < 1 / 2 then low
  else if 1 / 2 < rest then low + 1
  else if low % 2 = 0 then low else low + 1

/-- The exponent of the last of 53 significant bits of a positive number. -/
def lastBit (q : ℚ) : ℤ :=
  let k : ℤ := q.num.toNat.log2 - q.den.log2
  (if (2 : ℚ) ^ k ≤ q then k else k - 1) - 52

/-- The double nearest to a quotient of two counts, ties to even. -/
def double (q : ℚ) : ℚ :=
  if q ≤ 0 then 0 else roundEven (q / 2 ^ lastBit q) * 2 ^ lastBit q

/-- `Math.round`. -/
def round (q : ℚ) : ℤ := ⌊q + 1 / 2⌋

/-- `cmpBig`-style three-way comparison. -/
def cmpBig (a b : ℤ) : ℚ := if a < b then -1 else if a > b then 1 else 0

/-- `a || b` on numbers. -/
def orNumber (a b : ℚ) : ℚ := if a ≠ 0 then a else b

theorem roundEven_nonneg {q : ℚ} (h : 0 ≤ q) : 0 ≤ roundEven q := by
  have hfloor : 0 ≤ ⌊q⌋ := Int.floor_nonneg.mpr h
  unfold roundEven
  dsimp only
  split_ifs <;> omega

theorem double_nonneg (q : ℚ) : 0 ≤ double q := by
  unfold double
  split
  · exact le_rfl
  · next h =>
    have hpow : (0 : ℚ) < 2 ^ lastBit q := zpow_pos (by norm_num) _
    have hround := roundEven_nonneg (div_nonneg (le_of_not_ge h) hpow.le)
    exact mul_nonneg (by exact_mod_cast hround) hpow.le

/-! ### Order -/

theorem roundEven_bounds (q : ℚ) : ⌊q⌋ ≤ roundEven q ∧ roundEven q ≤ ⌊q⌋ + 1 := by
  unfold roundEven
  dsimp only
  split_ifs <;> omega

theorem roundEven_mono {a b : ℚ} (h : a ≤ b) : roundEven a ≤ roundEven b := by
  have hfloor : ⌊a⌋ ≤ ⌊b⌋ := Int.floor_le_floor h
  rcases hfloor.lt_or_eq with hlt | heq
  · have ha := (roundEven_bounds a).2
    have hb := (roundEven_bounds b).1
    omega
  · -- the same integer below both, and the rest of `a` is the smaller
    have hrest : a - (⌊a⌋ : ℚ) ≤ b - (⌊b⌋ : ℚ) := by
      rw [heq]
      linarith
    unfold roundEven
    dsimp only
    rw [← heq] at hrest ⊢
    split_ifs <;> first | omega | linarith

theorem roundEven_intCast (n : ℤ) : roundEven n = n := by
  unfold roundEven
  simp

/-- A positive number lies between the powers of two that its last bit gives. -/
theorem lastBit_bounds {q : ℚ} (h : 0 < q) :
    (2 : ℚ) ^ (lastBit q + 52) ≤ q ∧ q < 2 ^ (lastBit q + 53) := by
  have hnum : 0 < q.num := Rat.num_pos.mpr h
  have hn : (q.num.toNat : ℤ) = q.num := Int.toNat_of_nonneg hnum.le
  have hn0 : q.num.toNat ≠ 0 := by omega
  have hd0 : q.den ≠ 0 := q.den_nz
  have hden : (0 : ℚ) < q.den := by exact_mod_cast Nat.pos_of_ne_zero hd0
  have hq : q = q.num.toNat / q.den := by
    rw [← Int.cast_natCast q.num.toNat, hn]
    exact (Rat.num_div_den q).symm
  set a := q.num.toNat.log2 with ha
  set b := q.den.log2 with hb
  have hnlo : (2 : ℚ) ^ a ≤ q.num.toNat := by exact_mod_cast Nat.log2_self_le hn0
  have hnhi : (q.num.toNat : ℚ) < 2 ^ (a + 1) := by exact_mod_cast Nat.lt_log2_self
  have hdlo : (2 : ℚ) ^ b ≤ q.den := by exact_mod_cast Nat.log2_self_le hd0
  have hdhi : (q.den : ℚ) < 2 ^ (b + 1) := by exact_mod_cast Nat.lt_log2_self
  -- the quotient of the two is off by one power at most
  have hlow : (2 : ℚ) ^ ((a : ℤ) - b - 1) < q := by
    have hpow : (2 : ℚ) ^ ((a : ℤ) - b - 1) = 2 ^ a / 2 ^ (b + 1) := by
      rw [sub_sub, zpow_sub₀ two_ne_zero, zpow_natCast]
      norm_cast
    rw [hpow, hq]
    exact div_lt_div₀' hnlo hdhi (by positivity) hden
  have hhigh : q < (2 : ℚ) ^ ((a : ℤ) - b + 1) := by
    have hpow : (2 : ℚ) ^ ((a : ℤ) - b + 1) = 2 ^ (a + 1) / 2 ^ b := by
      rw [show ((a : ℤ) - b + 1) = ((a + 1 : ℕ) : ℤ) - (b : ℤ) by push_cast; ring,
        zpow_sub₀ two_ne_zero, zpow_natCast, zpow_natCast]
    rw [hpow, hq]
    exact div_lt_div₀ hnhi hdlo (by positivity) (by positivity)
  unfold lastBit
  dsimp only
  rw [← ha, ← hb]
  split
  · next hle =>
    constructor
    · rwa [sub_add_cancel]
    · rwa [show ((a : ℤ) - b - 52 + 53) = (a : ℤ) - b + 1 by ring]
  · next hlt =>
    constructor
    · rw [sub_add_cancel]
      exact hlow.le
    · rw [show ((a : ℤ) - b - 1 - 52 + 53) = (a : ℤ) - b by ring]
      exact not_le.mp hlt

theorem lastBit_mono {a b : ℚ} (ha : 0 < a) (h : a ≤ b) : lastBit a ≤ lastBit b := by
  have hlow := (lastBit_bounds ha).1
  have hhigh := (lastBit_bounds (ha.trans_le h)).2
  have hlt : (2 : ℚ) ^ (lastBit a + 52) < 2 ^ (lastBit b + 53) :=
    (hlow.trans h).trans_lt hhigh
  have hexp := (zpow_lt_zpow_iff_right₀ (by norm_num : (1 : ℚ) < 2)).mp hlt
  omega

theorem double_mono {a b : ℚ} (h : a ≤ b) : double a ≤ double b := by
  by_cases ha : a ≤ 0
  · rw [double, if_pos ha]
    exact double_nonneg b
  have ha := not_le.mp ha
  have hb := ha.trans_le h
  have hda : double a = roundEven (a / 2 ^ lastBit a) * 2 ^ lastBit a := if_neg (not_le.mpr ha)
  have hdb : double b = roundEven (b / 2 ^ lastBit b) * 2 ^ lastBit b := if_neg (not_le.mpr hb)
  rw [hda, hdb]
  have hpa : (0 : ℚ) < 2 ^ lastBit a := zpow_pos (by norm_num) _
  have hpb : (0 : ℚ) < 2 ^ lastBit b := zpow_pos (by norm_num) _
  rcases (lastBit_mono ha h).lt_or_eq with hlt | heq
  · -- a power of two of both scales stands between the two
    have hupper : roundEven (a / 2 ^ lastBit a) ≤ 2 ^ 53 := by
      have hle : a / 2 ^ lastBit a ≤ ((2 ^ 53 : ℤ) : ℚ) := by
        rw [div_le_iff₀ hpa]
        refine (lastBit_bounds ha).2.le.trans_eq ?_
        rw [add_comm, zpow_add₀ two_ne_zero]
        norm_num
      exact (roundEven_mono hle).trans_eq (roundEven_intCast _)
    have hlower : 2 ^ 52 ≤ roundEven (b / 2 ^ lastBit b) := by
      have hle : ((2 ^ 52 : ℤ) : ℚ) ≤ b / 2 ^ lastBit b := by
        rw [le_div_iff₀ hpb]
        refine le_trans (le_of_eq ?_) (lastBit_bounds hb).1
        rw [add_comm, zpow_add₀ two_ne_zero]
        norm_num
      exact (roundEven_intCast _).symm.le.trans (roundEven_mono hle)
    calc (roundEven (a / 2 ^ lastBit a) : ℚ) * 2 ^ lastBit a
        ≤ 2 ^ 53 * 2 ^ lastBit a :=
          mul_le_mul_of_nonneg_right (by exact_mod_cast hupper) hpa.le
      _ = 2 ^ 52 * 2 ^ (lastBit a + 1) := by
          rw [zpow_add_one₀ two_ne_zero]
          ring
      _ ≤ 2 ^ 52 * 2 ^ lastBit b :=
          mul_le_mul_of_nonneg_left (zpow_le_zpow_right₀ (by norm_num) hlt) (by norm_num)
      _ ≤ roundEven (b / 2 ^ lastBit b) * 2 ^ lastBit b :=
          mul_le_mul_of_nonneg_right (by exact_mod_cast hlower) hpb.le
  · rw [← heq]
    refine mul_le_mul_of_nonneg_right ?_ hpa.le
    exact_mod_cast roundEven_mono ((div_le_div_iff_of_pos_right hpa).mpr h)

theorem round_mono {a b : ℚ} (h : a ≤ b) : round a ≤ round b := by
  unfold round
  exact Int.floor_le_floor (by linarith)

-- 4/5 and the literal 0.8 are one double, as the gate tests rely on.
example : double (4 / 5) = 3602879701896397 / 4503599627370496 := by decide +kernel

end Js
