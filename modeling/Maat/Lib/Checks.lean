import Mathlib.Data.List.Forall2
import Mathlib.Logic.Basic
import Mathlib.Tactic.Cases

/-!
# Checks that end a computation

`require` is Rust's `require!` with the error it raises, in `Except`. The rules read a successful
computation, or one that fails with a given error, back from its first step.
-/

namespace Checks

variable {ε α β : Type}

/-- Go on if `p` holds, fail with `e` otherwise. -/
def require (p : Prop) [Decidable p] (e : ε) : Except ε Unit := if p then .ok () else .error e

/-- Both steps of a successful computation succeed. -/
theorem bind_eq_ok {x : Except ε α} {f : α → Except ε β} {b : β} :
    x.bind f = .ok b ↔ ∃ a, x = .ok a ∧ f a = .ok b := by
  cases x with
  | error e =>
    refine iff_of_false ?_ ?_
    · intro h
      cases h
    · rintro ⟨a, h, -⟩
      cases h
  | ok a =>
    constructor
    · intro h
      exact ⟨a, rfl, h⟩
    · rintro ⟨a', h, hf⟩
      cases h
      exact hf

/-- A computation fails at its first step or after it. -/
theorem bind_eq_error {x : Except ε α} {f : α → Except ε β} {e : ε} :
    x.bind f = .error e ↔ x = .error e ∨ ∃ a, x = .ok a ∧ f a = .error e := by
  cases x with
  | error e' =>
    constructor
    · intro h
      cases h
      exact Or.inl rfl
    · rintro (h | ⟨a, h, -⟩)
      · cases h
        rfl
      · cases h
  | ok a =>
    constructor
    · intro h
      exact Or.inr ⟨a, rfl, h⟩
    · rintro (h | ⟨a', h, hf⟩)
      · cases h
      · cases h
        exact hf

theorem map_eq_ok {x : Except ε α} {f : α → β} {b : β} :
    x.map f = .ok b ↔ ∃ a, x = .ok a ∧ f a = b := by
  cases x <;> simp [Except.map]

/-- Forgetting the error keeps what succeeds. -/
theorem toOption_eq_some {x : Except ε α} {a : α} : x.toOption = some a ↔ x = .ok a := by
  cases x <;> simp [Except.toOption]

theorem require_eq_ok {p : Prop} [Decidable p] {e : ε} {u : Unit} :
    require p e = .ok u ↔ p := by
  unfold require
  split <;> simp_all

/-- A requirement fails with its own error only. -/
theorem require_eq_error {p : Prop} [Decidable p] {e e' : ε} :
    require p e = .error e' ↔ ¬p ∧ e = e' := by
  unfold require
  split <;> simp_all

theorem ok_bind {a : α} {f : α → Except ε β} : (Except.ok a).bind f = f a := rfl

theorem require_bind_pos {p : Prop} [Decidable p] {e : ε} {f : Unit → Except ε β} (h : p) :
    (require p e).bind f = f () := by
  rw [require, if_pos h]
  rfl

theorem require_bind_neg {p : Prop} [Decidable p] {e : ε} {f : Unit → Except ε β} (h : ¬p) :
    (require p e).bind f = .error e := by
  rw [require, if_neg h]
  rfl

/-- What succeeds after a requirement met it. -/
theorem require_bind_eq_ok {p : Prop} [Decidable p] {e : ε} {f : Unit → Except ε β} {b : β} :
    (require p e).bind f = .ok b ↔ p ∧ f () = .ok b := by
  by_cases h : p
  · rw [require_bind_pos h, and_iff_right h]
  · rw [require_bind_neg h]
    exact iff_of_false nofun fun hp => h hp.1

/-- A failure with another error than that of the requirement comes after it. -/
theorem of_require_bind_error {p : Prop} [Decidable p] {e e' : ε} {f : Unit → Except ε β}
    (h : (require p e).bind f = .error e') (hne : e ≠ e') : p ∧ f () = .error e' := by
  by_cases hp : p
  · exact ⟨hp, by rwa [require_bind_pos hp] at h⟩
  · rw [require_bind_neg hp] at h
    exact absurd (Except.error.inj h) hne

/-- A list of computations succeeds if each of them does. -/
theorem mapM_eq_ok {f : α → Except ε β} {xs : List α} {ys : List β} :
    xs.mapM f = .ok ys ↔ List.Forall₂ (fun x y => f x = .ok y) xs ys := by
  induction xs generalizing ys with
  | nil =>
    rw [List.mapM_nil, List.forall₂_nil_left_iff]
    exact ⟨fun h => (Except.ok.inj h).symm, fun h => congrArg Except.ok h.symm⟩
  | cons x xs ih =>
    rw [List.mapM_cons, List.forall₂_cons_left_iff]
    show (f x).bind (fun y => (xs.mapM f).bind fun ys => .ok (y :: ys)) = .ok ys ↔ _
    rw [bind_eq_ok]
    constructor
    · rintro ⟨y, hy, h⟩
      obtain ⟨rest, hrest, h⟩ := bind_eq_ok.mp h
      exact ⟨y, rest, hy, ih.mp hrest, (Except.ok.inj h).symm⟩
    · rintro ⟨y, rest, hy, hrest, rfl⟩
      exact ⟨y, hy, bind_eq_ok.mpr ⟨rest, ih.mpr hrest, rfl⟩⟩

/-- A partial function with a value at each member of a list has one at the list. -/
theorem mapM_eq_some {f : α → Option β} {g : α → β} {xs : List α}
    (h : ∀ x ∈ xs, f x = some (g x)) : xs.mapM f = some (xs.map g) := by
  induction xs with
  | nil => rfl
  | cons x xs ih =>
    rw [List.mapM_cons, h x (.head _), ih fun y hy => h y (.tail _ hy)]
    rfl

/-- Another error does not change what succeeds. -/
theorem mapError_eq_ok {ε' : Type} {x : Except ε α} {f : ε → ε'} {a : α} :
    x.mapError f = .ok a ↔ x = .ok a := by
  cases x <;> simp [Except.mapError]

end Checks
