import Mathlib.Data.List.TakeWhile
import Mathlib.Data.Nat.Digits.Lemmas

/-!
# Changing the radix

A list of digits, most significant first, may start with zeros, and its value does not show them.
`transcode` writes the value in another radix with as many zeros in front as there were, so that
nothing is lost: the way back gives the digits again (`transcode_transcode`).
-/

namespace Radix

variable {b c : Nat} {ds : List Nat}

/-- The number that digits stand for. -/
def value (b : Nat) (ds : List Nat) : Nat := Nat.ofDigits b ds.reverse

/-- The digits of a number. Zero has none. -/
def digits (b n : Nat) : List Nat := (Nat.digits b n).reverse

/-- The zeros that digits start with. -/
def zeros (ds : List Nat) : List Nat := ds.takeWhile (· = 0)

def transcode (b c : Nat) (ds : List Nat) : List Nat := zeros ds ++ digits c (value b ds)

theorem eq_zero_of_mem_zeros {d : Nat} (h : d ∈ zeros ds) : d = 0 :=
  of_decide_eq_true (List.mem_takeWhile_imp (p := fun d => decide (d = 0)) h)

theorem zeros_append (ds : List Nat) : zeros ds ++ ds.dropWhile (· = 0) = ds :=
  List.takeWhile_append_dropWhile

theorem value_append_singleton (d : Nat) : value b (ds ++ [d]) = value b ds * b + d := by
  rw [value, List.reverse_append, List.reverse_singleton, List.singleton_append, Nat.ofDigits_cons,
    ← value, Nat.mul_comm, Nat.add_comm]

/-- Zeros in front do not count. -/
theorem value_zeros_append (hzeros : ∀ d ∈ zeros ds, d = 0) (es : List Nat) :
    value b (zeros ds ++ es) = value b es := by
  rw [List.eq_replicate_of_mem hzeros, value, List.reverse_append, List.reverse_replicate,
    Nat.ofDigits_append_replicate_zero, value]

theorem value_dropWhile (ds : List Nat) : value b (ds.dropWhile (· = 0)) = value b ds := by
  rw [← value_zeros_append (fun _ => eq_zero_of_mem_zeros) (ds.dropWhile (· = 0)), zeros_append]

theorem value_zero_cons (ds : List Nat) : value b (0 :: ds) = value b ds := by
  rw [← value_dropWhile (0 :: ds), List.dropWhile_cons_of_pos (by decide), value_dropWhile]

theorem value_digits (b n : Nat) : value b (digits b n) = n := by
  rw [value, digits, List.reverse_reverse, Nat.ofDigits_digits]

/-- The last digit is the remainder. -/
theorem digits_of_pos (hb : 1 < b) {n : Nat} (h : 0 < n) :
    digits b n = digits b (n / b) ++ [n % b] := by
  rw [digits, Nat.digits_def' hb h, List.reverse_cons, digits]

theorem lt_of_mem_digits (hb : 1 < b) {n d : Nat} (h : d ∈ digits b n) : d < b :=
  Nat.digits_lt_base hb (List.mem_reverse.mp h)

/-- No digits start with a zero. -/
theorem zeros_digits (b n : Nat) : zeros (digits b n) = [] := by
  rw [zeros, digits, List.takeWhile_eq_nil_iff]
  intro hpos hzero
  have hne : n ≠ 0 := by
    rintro rfl
    simp at hpos
  have hlast := Nat.getLast_digit_ne_zero b hne
  rw [← List.head_reverse (List.ne_nil_of_length_pos hpos)] at hlast
  exact hlast (by simpa [List.head_eq_getElem] using hzero)

/-- The digits of the value are the digits without the zeros in front. -/
theorem digits_value (hb : 1 < b) (hds : ∀ d ∈ ds, d < b) :
    digits b (value b ds) = ds.dropWhile (· = 0) := by
  rw [← value_dropWhile, value, digits, Nat.digits_ofDigits b hb, List.reverse_reverse]
  · exact fun d hd => hds d ((List.dropWhile_suffix _).mem (List.mem_reverse.mp hd))
  · intro hne
    rw [List.getLast_reverse]
    exact of_decide_eq_false (List.head_dropWhile_not (fun d => decide (d = 0)) _)

theorem lt_of_mem_transcode (hc : 1 < c) {d : Nat} (h : d ∈ transcode b c ds) : d < c := by
  rcases List.mem_append.mp h with h | h
  · rw [eq_zero_of_mem_zeros h]
    omega
  · exact lt_of_mem_digits hc h

/-- Nothing is lost on the way to another radix. -/
theorem transcode_transcode (hb : 1 < b) (hds : ∀ d ∈ ds, d < b) :
    transcode c b (transcode b c ds) = ds := by
  have hzeros : zeros (transcode b c ds) = zeros ds := by
    have hall : ∀ d ∈ zeros ds, decide (d = 0) = true := fun d hd =>
      decide_eq_true (eq_zero_of_mem_zeros hd)
    rw [transcode, zeros, List.takeWhile_append_of_pos hall, ← zeros, zeros_digits,
      List.append_nil]
  have hvalue : value c (transcode b c ds) = value b ds := by
    rw [transcode, value_zeros_append (fun _ => eq_zero_of_mem_zeros), value_digits]
  rw [transcode, hzeros, hvalue, digits_value hb hds, zeros_append]

end Radix
