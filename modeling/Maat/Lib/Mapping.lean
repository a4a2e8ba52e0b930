import Mathlib.Algebra.GroupWithZero.Nat
import Mathlib.Algebra.Order.BigOperators.Group.Finset
import Mathlib.Data.Fintype.BigOperators

/-!
# Sums over a mapping

A finite mapping that is written at one key changes the sum of a quantity over its values by the
quantity at that key alone. Stated without subtraction, so that `omega` can use it.
-/

namespace Mapping

variable {ι α : Type} [Fintype ι]

/-- The sum of `g` over the values of a mapping written at one key. -/
theorem sum_update [DecidableEq ι] (f : ι → α) (i : ι) (a : α) (g : α → Nat) :
    ∑ x, g (Function.update f i a x) + g (f i) = ∑ x, g (f x) + g a := by
  have split_off (h : ι → Nat) : h i + ∑ x ∈ Finset.univ.erase i, h x = ∑ x, h x :=
    Finset.add_sum_erase _ h (Finset.mem_univ i)
  have rest : ∑ x ∈ Finset.univ.erase i, g (Function.update f i a x) =
      ∑ x ∈ Finset.univ.erase i, g (f x) :=
    Finset.sum_congr rfl fun x hx => by rw [Function.update_of_ne (Finset.ne_of_mem_erase hx)]
  rw [← split_off fun x => g (Function.update f i a x), ← split_off fun x => g (f x), rest,
    Function.update_self]
  ac_rfl

/-- One value is at most the sum. -/
theorem le_sum (f : ι → Nat) (i : ι) : f i ≤ ∑ x, f x :=
  Finset.single_le_sum (fun _ _ => Nat.zero_le _) (Finset.mem_univ i)

/-- Quantities that the members of a list account for, one member each, are at most the list's
sum. -/
theorem sum_le_sum_map {α β γ : Type} [DecidableEq β] {l : List β} (hl : l.Nodup) (X : Finset α)
    {k : β → γ} {name : α → γ} (hname : Function.Injective name) {f : β → Nat} {g : α → Nat}
    (h : ∀ x ∈ X, ∃ y ∈ l, k y = name x ∧ g x ≤ f y) : ∑ x ∈ X, g x ≤ (l.map f).sum := by
  obtain rfl | ⟨x₀, hx₀⟩ := X.eq_empty_or_nonempty
  · exact Nat.zero_le _
  have : Nonempty β := ⟨(h x₀ hx₀).choose⟩
  choose! member hmem hk hle using h
  have hinj : Set.InjOn member (X : Set α) := by
    intro x hx y hy hxy
    apply hname
    rw [← hk x hx, ← hk y hy, hxy]
  have hsub : X.image member ⊆ l.toFinset := by
    intro y hy
    obtain ⟨x, hx, rfl⟩ := Finset.mem_image.mp hy
    exact List.mem_toFinset.mpr (hmem x hx)
  calc ∑ x ∈ X, g x ≤ ∑ x ∈ X, f (member x) := Finset.sum_le_sum hle
    _ = ∑ y ∈ X.image member, f y := (Finset.sum_image hinj).symm
    _ ≤ ∑ y ∈ l.toFinset, f y := Finset.sum_le_sum_of_subset hsub
    _ = (l.map f).sum := List.sum_toFinset f hl

end Mapping
