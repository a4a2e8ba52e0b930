import Mathlib.Logic.Function.Basic
import Mathlib.Data.List.Basic

/-!
# Promises

ECMAScript's promises: a heap of them under names, the reactions that wait for a pending one, and
the queue of microtasks. A reaction to a settled promise, and one whose promise settles, is a
microtask. What a callback does is the program's (`Runtime`, `microtask`).

No operation looks at an outcome, so all of them commute with a map of outcomes (`map_settle`,
`map_andThen`, `map_microtask`).
-/

namespace Promises

variable {σ P H O O' : Type}

inductive Handler (H : Type) where
  /-- The outcome becomes that of the derived promise. -/
  | adopt
  | callback (h : H)

/-- A call of `then` on a promise: what runs when it settles, and the promise that `then` returned. -/
structure Reaction (P H : Type) where
  derived : P
  handler : Handler H

inductive Task (P H O : Type) where
  | react (reaction : Reaction P H) (outcome : O)
  /-- `derived` was resolved with the promise `source`. -/
  | link (derived source : P)

structure Heap (P H O : Type) where
  /-- `none` while the promise is pending. -/
  state : P → Option O
  reactions : P → List (Reaction P H)
  tasks : List (Task P H O)

/-- A program and its promises. -/
structure Runtime (σ P H O : Type) where
  state : σ
  heap : Heap P H O

section

variable [DecidableEq P]

namespace Heap

def empty : Heap P H O := ⟨fun _ => none, fun _ => [], []⟩

/-- A promise settles once. -/
def settle (heap : Heap P H O) (p : P) (outcome : O) : Heap P H O :=
  match heap.state p with
  | some _ => heap
  | none =>
    { state := Function.update heap.state p (some outcome)
      reactions := Function.update heap.reactions p []
      tasks := heap.tasks ++ (heap.reactions p).map fun r => .react r outcome }

/-- `p.then(...)` -/
def andThen (heap : Heap P H O) (p derived : P) (handler : Handler H) : Heap P H O :=
  match heap.state p with
  | some outcome => { heap with tasks := heap.tasks ++ [.react ⟨derived, handler⟩ outcome] }
  | none =>
    { heap with
      reactions := Function.update heap.reactions p (heap.reactions p ++ [⟨derived, handler⟩]) }

/-- A callback has returned the promise `source`. -/
def resolveWith (heap : Heap P H O) (derived source : P) : Heap P H O :=
  { heap with tasks := heap.tasks ++ [.link derived source] }

end Heap

/-- The next microtask, with `call` for the callbacks of the program. -/
def microtask (call : H → P → O → Runtime σ P H O → Runtime σ P H O) (r : Runtime σ P H O) :
    Runtime σ P H O :=
  match r.heap.tasks with
  | [] => r
  | .link derived source :: tasks =>
    { r with heap := { r.heap with tasks := tasks }.andThen source derived .adopt }
  | .react ⟨derived, .adopt⟩ outcome :: tasks =>
    { r with heap := { r.heap with tasks := tasks }.settle derived outcome }
  | .react ⟨derived, .callback h⟩ outcome :: tasks =>
    call h derived outcome { r with heap := { r.heap with tasks := tasks } }

end

/-! ## Microtasks -/

section microtask

variable [DecidableEq P] {call : H → P → O → Runtime σ P H O → Runtime σ P H O}
  {r : Runtime σ P H O} {tasks : List (Task P H O)} {derived source : P} {outcome : O}

theorem microtask_nil (h : r.heap.tasks = []) : microtask call r = r := by rw [microtask, h]

theorem microtask_link (h : r.heap.tasks = .link derived source :: tasks) :
    microtask call r =
      ⟨r.state, Heap.andThen { r.heap with tasks := tasks } source derived .adopt⟩ := by
  rw [microtask, h]

theorem microtask_adopt (h : r.heap.tasks = .react ⟨derived, .adopt⟩ outcome :: tasks) :
    microtask call r = ⟨r.state, Heap.settle { r.heap with tasks := tasks } derived outcome⟩ := by
  rw [microtask, h]

theorem microtask_callback {h : H}
    (htask : r.heap.tasks = .react ⟨derived, .callback h⟩ outcome :: tasks) :
    microtask call r = call h derived outcome ⟨r.state, { r.heap with tasks := tasks }⟩ := by
  rw [microtask, htask]

end microtask

/-! ## Settling -/

section settle

variable [DecidableEq P] {heap : Heap P H O} {p q : P} {outcome : O}

theorem settle_settled (h : heap.state p ≠ none) : heap.settle p outcome = heap := by
  unfold Heap.settle
  split
  · rfl
  · next hnone => exact absurd hnone h

theorem settle_pending (h : heap.state p = none) : heap.settle p outcome =
    { state := Function.update heap.state p (some outcome)
      reactions := Function.update heap.reactions p []
      tasks := heap.tasks ++ (heap.reactions p).map fun r => .react r outcome } := by
  rw [Heap.settle, h]

@[simp] theorem settle_state_of_ne (h : q ≠ p) :
    (heap.settle p outcome).state q = heap.state q := by
  unfold Heap.settle
  split
  · rfl
  · exact Function.update_of_ne h _ _

theorem settle_state_self (h : heap.state p = none) :
    (heap.settle p outcome).state p = some outcome := by
  rw [settle_pending h]
  exact Function.update_self _ _ _

@[simp] theorem settle_reactions_of_ne (h : q ≠ p) :
    (heap.settle p outcome).reactions q = heap.reactions q := by
  unfold Heap.settle
  split
  · rfl
  · exact Function.update_of_ne h _ _

/-- Nothing waits for the promise. -/
theorem settle_alone (h : heap.reactions p = []) :
    (heap.settle p outcome).tasks = heap.tasks ∧
      (heap.settle p outcome).reactions = heap.reactions := by
  unfold Heap.settle
  split
  · exact ⟨rfl, rfl⟩
  · rw [h]
    exact ⟨List.append_nil _, Function.update_eq_self_iff.mpr h.symm⟩

theorem settle_tasks (h : heap.state p = none) : (heap.settle p outcome).tasks =
    heap.tasks ++ (heap.reactions p).map fun r => .react r outcome := by
  rw [settle_pending h]

theorem settle_reactions_self (h : heap.state p = none) :
    (heap.settle p outcome).reactions p = [] := by
  rw [settle_pending h]
  exact Function.update_self _ _ _

/-- What has settled stays so. -/
theorem settle_state_ne_none (h : heap.state q ≠ none) :
    (heap.settle p outcome).state q = heap.state q := by
  by_cases hq : q = p
  · subst hq
    rw [settle_settled h]
  · exact settle_state_of_ne hq

/-! ## Waiting -/

variable {derived : P} {handler : Handler H}

@[simp] theorem andThen_state : (heap.andThen p derived handler).state = heap.state := by
  unfold Heap.andThen
  split <;> rfl

theorem andThen_settled (h : heap.state p = some outcome) :
    heap.andThen p derived handler =
      { heap with tasks := heap.tasks ++ [.react ⟨derived, handler⟩ outcome] } := by
  rw [Heap.andThen, h]

theorem andThen_tasks (h : heap.state p = none) :
    (heap.andThen p derived handler).tasks = heap.tasks := by
  rw [Heap.andThen, h]

theorem andThen_reactions_self (h : heap.state p = none) :
    (heap.andThen p derived handler).reactions p = heap.reactions p ++ [⟨derived, handler⟩] := by
  rw [Heap.andThen, h]
  exact Function.update_self _ _ _

@[simp] theorem andThen_reactions_of_ne (h : q ≠ p) :
    (heap.andThen p derived handler).reactions q = heap.reactions q := by
  unfold Heap.andThen
  split
  · rfl
  · exact Function.update_of_ne h _ _

end settle

/-! ## Other outcomes -/

section map

def Task.map (f : O → O') : Task P H O → Task P H O'
  | .react reaction outcome => .react reaction (f outcome)
  | .link derived source => .link derived source

def Heap.map (f : O → O') (heap : Heap P H O) : Heap P H O' :=
  ⟨fun p => (heap.state p).map f, heap.reactions, heap.tasks.map (Task.map f)⟩

def Runtime.map (f : O → O') (r : Runtime σ P H O) : Runtime σ P H O' := ⟨r.state, r.heap.map f⟩

theorem map_resolveWith (f : O → O') (heap : Heap P H O) (derived source : P) :
    (heap.resolveWith derived source).map f = (heap.map f).resolveWith derived source := by
  simp [Heap.resolveWith, Heap.map, Task.map]

variable [DecidableEq P] (f : O → O') (heap : Heap P H O)

theorem map_settle (p : P) (outcome : O) :
    (heap.settle p outcome).map f = (heap.map f).settle p (f outcome) := by
  cases h : heap.state p with
  | some o =>
    have hmap : (heap.map f).state p ≠ none := by simp [Heap.map, h]
    rw [settle_settled (by simp [h]), settle_settled hmap]
  | none =>
    have hmap : (heap.map f).state p = none := by simp [Heap.map, h]
    rw [settle_pending h, settle_pending hmap]
    simp only [Heap.map, List.map_append, List.map_map, Heap.mk.injEq, true_and]
    refine ⟨funext fun q => ?_, rfl⟩
    by_cases hq : q = p
    · subst hq
      simp
    · simp [Function.update_of_ne hq]

theorem map_andThen (p derived : P) (handler : Handler H) :
    (heap.andThen p derived handler).map f = (heap.map f).andThen p derived handler := by
  cases h : heap.state p with
  | some o =>
    have hmap : (heap.map f).state p = some (f o) := by simp [Heap.map, h]
    rw [andThen_settled h, andThen_settled hmap]
    simp [Heap.map, Task.map]
  | none =>
    have hmap : (heap.map f).state p = none := by simp [Heap.map, h]
    rw [Heap.andThen, Heap.andThen, h, hmap]
    rfl

theorem map_microtask {call : H → P → O → Runtime σ P H O → Runtime σ P H O}
    {call' : H → P → O' → Runtime σ P H O' → Runtime σ P H O'}
    (hcall : ∀ h p o r, (call h p o r).map f = call' h p (f o) (r.map f))
    (r : Runtime σ P H O) : (microtask call r).map f = microtask call' (r.map f) := by
  obtain ⟨state, heapState, reactions, tasks⟩ := r
  cases tasks with
  | nil => rfl
  | cons task tasks =>
    cases task with
    | link derived source =>
      exact congrArg (Runtime.mk state) (map_andThen f ⟨heapState, reactions, tasks⟩ _ _ _)
    | react reaction outcome =>
      obtain ⟨derived, handler⟩ := reaction
      cases handler with
      | adopt => exact congrArg (Runtime.mk state) (map_settle f ⟨heapState, reactions, tasks⟩ _ _)
      | callback h => exact hcall h derived outcome ⟨state, heapState, reactions, tasks⟩

end map

end Promises
