import Mathlib.Data.Nat.Basic
import Mathlib.Data.List.Basic
import Mathlib.Data.List.Induction
import Mathlib.Tactic.Ring

/-!
# Big-endian byte strings

Fixed-width big-endian encoding of a natural number and its reading back. `beNat` reads a byte
string of any length; `beBytes w` writes the low `w` bytes. The two are inverse up to the width
(`beNat_beBytes`), so fixed-width fields laid side by side determine their values
(`beBytes_append_inj`).
-/

namespace Bytes

/-- A byte string of one length. -/
abbrev Fixed (n : Nat) := { bs : List UInt8 // bs.length = n }

/-- The number a big-endian byte string stands for. -/
def beNat (bs : List UInt8) : Nat := bs.foldl (fun n b => n * 256 + b.toNat) 0

/-- The `w` low-order bytes of `n`, most significant first. -/
def beBytes : Nat → Nat → List UInt8
  | 0, _ => []
  | w + 1, n => beBytes w (n / 256) ++ [UInt8.ofNat (n % 256)]

/-- The literals of the types of 160 and of 256 bits. -/
instance neZero_160 : NeZero (2 ^ 160) := ⟨by decide⟩

instance neZero_256 : NeZero (2 ^ 256) := ⟨by decide⟩

@[simp] theorem beNat_nil : beNat [] = 0 := rfl

@[simp] theorem beNat_append_singleton (bs : List UInt8) (b : UInt8) :
    beNat (bs ++ [b]) = beNat bs * 256 + b.toNat := by
  simp only [beNat, List.foldl_append, List.foldl_cons, List.foldl_nil]

theorem beNat_append (bs cs : List UInt8) :
    beNat (bs ++ cs) = beNat bs * 256 ^ cs.length + beNat cs := by
  induction cs using List.reverseRecOn with
  | nil => simp only [List.append_nil, List.length_nil, Nat.pow_zero, Nat.mul_one, beNat_nil,
      Nat.add_zero]
  | append_singleton cs c ih =>
    rw [← List.append_assoc, beNat_append_singleton, ih, beNat_append_singleton,
      List.length_append, List.length_singleton, Nat.pow_succ]
    ring

/-- Zeros in front do not count. -/
theorem beNat_zeros (n : Nat) (bs : List UInt8) : beNat (List.replicate n 0 ++ bs) = beNat bs := by
  have hzeros : beNat (List.replicate n 0) = 0 := by
    induction n with
    | zero => rfl
    | succ n ih => rw [List.replicate_succ', beNat_append_singleton, ih]; rfl
  rw [beNat_append, hzeros, Nat.zero_mul, Nat.zero_add]

theorem beNat_lt (bs : List UInt8) : beNat bs < 256 ^ bs.length := by
  induction bs using List.reverseRecOn with
  | nil => decide
  | append_singleton bs b ih =>
    have := b.toNat_lt
    rw [beNat_append_singleton, List.length_append, List.length_singleton, Nat.pow_succ]
    omega

/-- The last `w` bytes are the number modulo `256 ^ w`. -/
theorem beNat_drop {w : Nat} {bs : List UInt8} (h : w ≤ bs.length) :
    beNat (bs.drop (bs.length - w)) = beNat bs % 256 ^ w := by
  have hlen : (bs.drop (bs.length - w)).length = w := by
    rw [List.length_drop]
    omega
  have hlt := beNat_lt (bs.drop (bs.length - w))
  have hsplit := beNat_append (bs.take (bs.length - w)) (bs.drop (bs.length - w))
  rw [List.take_append_drop, hlen] at hsplit
  rw [hlen] at hlt
  rw [hsplit, Nat.mul_add_mod_self_right, Nat.mod_eq_of_lt hlt]

@[simp] theorem length_beBytes (w n : Nat) : (beBytes w n).length = w := by
  induction w generalizing n with
  | zero => rfl
  | succ w ih => simp only [beBytes, List.length_append, ih, List.length_cons, List.length_nil]

/-- The `w` low-order bytes of `n`, of a known length. -/
def fixed (w n : Nat) : Fixed w := ⟨beBytes w n, length_beBytes w n⟩

/-- One byte, `n` times. -/
def Fixed.replicate (n : Nat) (b : UInt8) : Fixed n := ⟨List.replicate n b, List.length_replicate⟩

/-- Reading back what was written gives the number up to the width. -/
theorem beNat_beBytes (w n : Nat) : beNat (beBytes w n) = n % 256 ^ w := by
  induction w generalizing n with
  | zero => simp only [beBytes, beNat_nil, Nat.pow_zero, Nat.mod_one]
  | succ w ih =>
    have hb : (UInt8.ofNat (n % 256)).toNat = n % 256 := by
      simp only [UInt8.toNat_ofNat', Nat.reducePow, Nat.mod_mod]
    rw [beBytes, beNat_append_singleton, ih, hb, Nat.pow_succ', Nat.mod_mul]
    ring

/-- Writing what was read gives the bytes back. -/
theorem beBytes_beNat {w : Nat} {bs : List UInt8} (h : bs.length = w) :
    beBytes w (beNat bs) = bs := by
  subst h
  induction bs using List.reverseRecOn with
  | nil => rfl
  | append_singleton bs b ih =>
    have hb := b.toNat_lt
    rw [List.length_append, List.length_singleton, beBytes, beNat_append_singleton,
      Nat.add_comm, Nat.add_mul_div_right _ _ (by decide), Nat.div_eq_of_lt hb, Nat.zero_add, ih,
      Nat.add_mul_mod_self_right, Nat.mod_eq_of_lt hb, UInt8.ofNat_toNat]

/-- Two fixed-width fields side by side determine the first number, within the width. -/
theorem beBytes_append_inj {w n m : Nat} {r r' : List UInt8} (hn : n < 256 ^ w)
    (hm : m < 256 ^ w) (h : beBytes w n ++ r = beBytes w m ++ r') : n = m ∧ r = r' := by
  obtain ⟨hfield, hrest⟩ := List.append_inj h (by simp only [length_beBytes])
  have hval : beNat (beBytes w n) = beNat (beBytes w m) := congrArg beNat hfield
  rw [beNat_beBytes, beNat_beBytes, Nat.mod_eq_of_lt hn, Nat.mod_eq_of_lt hm] at hval
  exact ⟨hval, hrest⟩

end Bytes
