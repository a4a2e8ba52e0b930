import Mathlib.Data.List.AList

/-!
# Maps in the order of first insertion

An association list in which a key that is set again keeps its place and a new one comes last
(`keys_set`). `AList.insert` would bring it to the front. Lookups are those of `insert`.
-/

namespace OrderedMap

universe u v

variable {α : Type u} {β : α → Type v} [DecidableEq α]

/-- The entry of a key replaced where it stands, or put at the end. -/
def setEntries (a : α) (b : β a) : List (Sigma β) → List (Sigma β)
  | [] => [⟨a, b⟩]
  | e :: l => if a = e.1 then ⟨a, b⟩ :: l else e :: setEntries a b l

theorem keys_setEntries (a : α) (b : β a) (l : List (Sigma β)) :
    (setEntries a b l).keys = if a ∈ l.keys then l.keys else l.keys ++ [a] := by
  induction l with
  | nil => rfl
  | cons e l ih =>
    obtain ⟨k, v⟩ := e
    rw [setEntries]
    split
    · next h =>
      obtain rfl : a = k := h
      rw [List.keys_cons, List.keys_cons, if_pos List.mem_cons_self]
    · next h =>
      rw [List.keys_cons, ih, List.keys_cons]
      by_cases ha : a ∈ l.keys
      · rw [if_pos ha, if_pos (List.mem_cons_of_mem _ ha)]
      · rw [if_neg ha, if_neg fun hmem => ha ((List.mem_cons.mp hmem).resolve_left h),
          List.cons_append]

theorem dlookup_setEntries (a : α) (b : β a) (l : List (Sigma β)) :
    (setEntries a b l).dlookup a = some b := by
  induction l with
  | nil => exact List.dlookup_cons_eq _ _ _
  | cons e l ih =>
    rw [setEntries]
    split
    · exact List.dlookup_cons_eq _ _ _
    · next h => rw [List.dlookup_cons_ne _ _ h, ih]

theorem dlookup_setEntries_ne {a a' : α} {b : β a'} (h : a ≠ a') (l : List (Sigma β)) :
    (setEntries a' b l).dlookup a = l.dlookup a := by
  induction l with
  | nil => exact List.dlookup_cons_ne _ _ h
  | cons e l ih =>
    obtain ⟨k, v⟩ := e
    rw [setEntries]
    split
    · next hk =>
      obtain rfl : a' = k := hk
      rw [List.dlookup_cons_ne _ _ h, List.dlookup_cons_ne _ _ h]
    · by_cases ha : a = k
      · subst ha
        rw [List.dlookup_cons_eq, List.dlookup_cons_eq]
      · rw [List.dlookup_cons_ne _ _ ha, List.dlookup_cons_ne _ _ ha, ih]

end OrderedMap

namespace AList

universe u v

variable {α : Type u} {β : α → Type v} [DecidableEq α]

/-- Set a key, which keeps its place if it has one. -/
def set (a : α) (b : β a) (m : AList β) : AList β where
  entries := OrderedMap.setEntries a b m.entries
  nodupKeys := by
    rw [List.NodupKeys, OrderedMap.keys_setEntries]
    split
    · exact m.nodupKeys
    · next h =>
      exact m.nodupKeys.append (List.nodup_singleton a) (List.disjoint_singleton.mpr h)

/-- Keys stand in the order in which they were first set. -/
theorem keys_set (a : α) (b : β a) (m : AList β) :
    (m.set a b).keys = if a ∈ m.keys then m.keys else m.keys ++ [a] :=
  OrderedMap.keys_setEntries a b m.entries

@[simp] theorem lookup_set {a : α} {b : β a} (m : AList β) : (m.set a b).lookup a = some b :=
  OrderedMap.dlookup_setEntries a b m.entries

theorem lookup_set_ne {a a' : α} {b : β a'} {m : AList β} (h : a ≠ a') :
    (m.set a' b).lookup a = m.lookup a :=
  OrderedMap.dlookup_setEntries_ne h m.entries

end AList
