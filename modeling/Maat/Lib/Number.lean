import Maat.Lib.Js

/-!
# JavaScript numbers that may be no number

What `Number(text)` gives: a finite double, an infinity, or `NaN`, which no comparison holds of.
-/

namespace Js

inductive Number where
  | nan
  | negInfinity
  | finite (q : ℚ)
  | infinity
  deriving DecidableEq

namespace Number

/-- `a < b` -/
def lt : Number → Number → Bool
  | nan, _ | _, nan => false
  | negInfinity, negInfinity => false
  | negInfinity, _ => true
  | _, negInfinity => false
  | infinity, _ => false
  | _, infinity => true
  | finite a, finite b => decide (a < b)

/-- `a >= b` -/
def ge : Number → Number → Bool
  | nan, _ | _, nan => false
  | a, b => !lt a b

/-- A sum of finite numbers, as a double. -/
def round (q : ℚ) : ℚ := if 0 ≤ q then double q else -double (-q)

/-- `a + b` -/
def add : Number → Number → Number
  | nan, _ | _, nan => nan
  | negInfinity, infinity | infinity, negInfinity => nan
  | negInfinity, _ | _, negInfinity => negInfinity
  | infinity, _ | _, infinity => infinity
  | finite a, finite b => finite (round (a + b))

/-- `Number.isFinite` -/
def isFinite : Number → Bool
  | finite _ => true
  | _ => false

def ofInt (n : ℤ) : Number := finite n

@[simp] theorem ge_nan (a : Number) : ge a nan = false := by
  cases a <;> rfl

theorem ge_finite {a b : ℚ} : ge (finite a) (finite b) = true ↔ b ≤ a := by
  simp [ge, lt]

end Number

/-- What `setTimeout` makes of a delay: whole milliseconds, and one where it is no number from 1 to
`2^31 - 1`. -/
def timeoutMs : Option Number → ℤ
  | some (.finite q) => if 1 ≤ q ∧ q ≤ 2147483647 then ⌊q⌋ else 1
  | _ => 1

theorem one_le_timeoutMs (delay : Option Number) : 1 ≤ timeoutMs delay := by
  unfold timeoutMs
  split
  · next q =>
    split
    · next h => exact Int.le_floor.mpr (by exact_mod_cast h.1)
    · exact le_rfl
  · exact le_rfl

end Js
