import Mathlib.Order.Nat

/-!
# Schedules

A system whose step is total, driven by an endless list of events. The rules are the induction of
an invariant along a schedule and of a preorder from one state of it to a later one
(`along_invariant`, `along_later`), and one rule for what happens in the end: a quantity that goes
up from every state where it is below its bound comes to the bound (`eventually`).
-/

namespace Schedule

variable {St Ev : Type} {step : St → Ev → St}

/-- The state before event `n`. -/
def along (step : St → Ev → St) (s : St) (events : Nat → Ev) : Nat → St
  | 0 => s
  | n + 1 => step (along step s events n) (events n)

theorem along_invariant {I : St → Prop} (hstep : ∀ s e, I s → I (step s e)) {s : St} (hs : I s)
    (events : Nat → Ev) (n : Nat) : I (along step s events n) := by
  induction n with
  | zero => exact hs
  | succ n ih => exact hstep _ _ ih

/-- From a state of the run on, steps of a preorder. -/
theorem along_later {R : St → St → Prop} (hrefl : ∀ s, R s s)
    (htrans : ∀ a b c, R a b → R b c → R a c) (hstep : ∀ s e, R s (step s e)) {s : St}
    {events : Nat → Ev} {m n : Nat} (h : m ≤ n) :
    R (along step s events m) (along step s events n) := by
  induction n, h using Nat.le_induction with
  | base => exact hrefl _
  | succ n _ ih => exact htrans _ _ _ ih (hstep _ _)

/-- What goes up again and again comes to its bound. -/
theorem eventually {P : Nat → Nat → Prop} (bound : Nat)
    (hprogress : ∀ k n, P k n → k < bound → ∃ k' m, k < k' ∧ n ≤ m ∧ P k' m) {k n : Nat}
    (h : P k n) : ∃ k' m, bound ≤ k' ∧ n ≤ m ∧ P k' m := by
  generalize hrest : bound - k = r
  induction r using Nat.strong_induction_on generalizing k n with
  | _ r ih =>
    by_cases hk : bound ≤ k
    · exact ⟨k, n, hk, le_rfl, h⟩
    · obtain ⟨k₁, m, hlt, hm, hP⟩ := hprogress k n h (by omega)
      obtain ⟨k', m', hk', hm', hP'⟩ := ih (bound - k₁) (by omega) hP rfl
      exact ⟨k', m', hk', hm.trans hm', hP'⟩

end Schedule
