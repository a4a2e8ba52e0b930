import Maat.Lib.Json
import Mathlib.Logic.Function.Basic

/-!
# Directories whose files are replaced

A directory is a list of names with their texts. A writer replaces a file in two calls: it writes
the new text under a name of its own, and `rename` puts that in the file's place. Names are shown
or not, and texts are written under names that are not. What any number of writers at work have of
the directory is `Ready`: beginning, writing, giving up and renaming keep it, and of the shown names
only a rename changes one, to the text its writer began with (`Ready.rename`).
-/

namespace Directory

open Json (put lookup_put)

variable {N T W : Type}

section Files

variable [DecidableEq N]

def remove (name : N) (dir : List (N × T)) : List (N × T) := dir.filter (·.1 ≠ name)

/-- None where the file is not there. -/
def rename [BEq N] (old new : N) (dir : List (N × T)) : Option (List (N × T)) :=
  (dir.lookup old).map fun text => put new text (remove old dir)

theorem lookup_remove [BEq N] [LawfulBEq N] (name other : N) (dir : List (N × T)) :
    (remove name dir).lookup other = if other = name then none else dir.lookup other := by
  induction dir with
  | nil => simp [remove]
  | cons file dir ih =>
    unfold remove at ih ⊢
    rw [List.filter_cons]
    by_cases hfile : file.1 = name
    · rw [if_neg (by simpa using hfile), ih, List.lookup_cons]
      by_cases hother : other = name
      · rw [if_pos hother, if_pos hother]
      · have hne : other ≠ file.1 := fun h => hother (h.trans hfile)
        rw [if_neg hother, if_neg hother, beq_false_of_ne hne]
    · rw [if_pos (by simpa using hfile), List.lookup_cons, List.lookup_cons, ih]
      by_cases hother : other = file.1
      · subst hother
        simp [hfile]
      · rw [beq_false_of_ne hother]

theorem nodup_remove (name : N) {dir : List (N × T)} (h : (dir.map Prod.fst).Nodup) :
    ((remove name dir).map Prod.fst).Nodup :=
  h.sublist (List.filter_sublist.map _)

end Files

/-! ## Writers -/

/-- A file that is being replaced: the name its new text goes under first, and whether all of it is
written there. -/
structure Replacing (N T : Type) where
  file : N
  temp : N
  text : T
  written : Bool

/-- Two directories with the same texts under all names but one. -/
def Except [BEq N] (name : N) (dir dir' : List (N × T)) : Prop :=
  ∀ other, other ≠ name → dir'.lookup other = dir.lookup other

/-- Writers that do not get in each other's way. -/
structure Ready [BEq N] (shown : N → Prop) (dir : List (N × T))
    (writers : W → Option (Replacing N T)) : Prop where
  apart : ∀ w v r q, writers w = some r → writers v = some q → r.temp = q.temp → w = v
  hidden : ∀ w r, writers w = some r → ¬shown r.temp ∧ shown r.file
  written : ∀ w r, writers w = some r → r.written = true → dir.lookup r.temp = some r.text

section Writers

variable [BEq N] {shown : N → Prop} {dir dir' : List (N × T)}
  {writers : W → Option (Replacing N T)} {w : W} {r : Replacing N T}

theorem Ready.of_none (h : ∀ w, writers w = none) : Ready shown dir writers where
  apart := fun w _ r _ hr => by rw [h w] at hr; cases hr
  hidden := fun w r hr => by rw [h w] at hr; cases hr
  written := fun w r hr => by rw [h w] at hr; cases hr

variable [DecidableEq W]

omit [BEq N] in
theorem eq_of_update {next : Option (Replacing N T)} {v : W} {q : Replacing N T}
    (h : Function.update writers w next v = some q) :
    v = w ∧ next = some q ∨ v ≠ w ∧ writers v = some q := by
  by_cases hv : v = w
  · subst hv
    exact .inl ⟨rfl, by simpa using h⟩
  · exact .inr ⟨hv, by simpa [hv] using h⟩

/-- A writer that is done, or gives up; what it leaves is under its own name. -/
theorem Ready.stop (h : Ready shown dir writers) (hr : writers w = some r)
    (hdir : Except r.temp dir dir') : Ready shown dir' (Function.update writers w none) where
  apart := fun v u p q hp hq heq => by
    obtain ⟨-, hnone⟩ | ⟨-, hp⟩ := eq_of_update hp
    · cases hnone
    obtain ⟨-, hnone⟩ | ⟨-, hq⟩ := eq_of_update hq
    · cases hnone
    exact h.apart v u p q hp hq heq
  hidden := fun v q hq => by
    obtain ⟨-, hnone⟩ | ⟨-, hq⟩ := eq_of_update hq
    · cases hnone
    exact h.hidden v q hq
  written := fun v q hq hwritten => by
    obtain ⟨-, hnone⟩ | ⟨hv, hq⟩ := eq_of_update hq
    · cases hnone
    have hne : q.temp ≠ r.temp := fun heq => hv (h.apart v w q r hq hr heq)
    rw [hdir q.temp hne]
    exact h.written v q hq hwritten

theorem Ready.idle (h : Ready shown dir writers) (hr : writers w = none) :
    Ready shown dir (Function.update writers w none) := by
  rwa [← hr, Function.update_eq_self]

theorem Ready.begin (h : Ready shown dir writers) (hnone : writers w = none)
    (hshown : ¬shown r.temp ∧ shown r.file) (hwritten : r.written = false)
    (hapart : ∀ v q, v ≠ w → writers v = some q → q.temp ≠ r.temp) :
    Ready shown dir (Function.update writers w (some r)) where
  apart := fun v u p q hp hq heq => by
    obtain ⟨rfl, hown⟩ | ⟨hv, hthere⟩ := eq_of_update hp
    · cases hown
      obtain ⟨rfl, hown⟩ | ⟨hu, hq⟩ := eq_of_update hq
      · rfl
      · exact absurd heq.symm (hapart u q hu hq)
    · obtain ⟨rfl, hown⟩ | ⟨hu, hq⟩ := eq_of_update hq
      · cases hown
        exact absurd heq (hapart v p hv hthere)
      · exact h.apart v u p q hthere hq heq
  hidden := fun v q hq => by
    obtain ⟨rfl, hown⟩ | ⟨-, hq⟩ := eq_of_update hq
    · cases hown
      exact hshown
    · exact h.hidden v q hq
  written := fun v q hq hall => by
    obtain ⟨rfl, hown⟩ | ⟨-, hq⟩ := eq_of_update hq
    · cases hown
      rw [hwritten] at hall
      cases hall
    · exact h.written v q hq hall

theorem Ready.write (h : Ready shown dir writers) (hr : writers w = some r)
    (hdir : Except r.temp dir dir') (htext : dir'.lookup r.temp = some r.text) :
    Ready shown dir' (Function.update writers w (some { r with written := true })) where
  apart := fun v u p q hp hq heq => by
    obtain ⟨rfl, hown⟩ | ⟨hv, hthere⟩ := eq_of_update hp
    · cases hown
      obtain ⟨rfl, hown⟩ | ⟨hu, hq⟩ := eq_of_update hq
      · rfl
      · exact h.apart v u r q hr hq heq
    · obtain ⟨rfl, hown⟩ | ⟨hu, hq⟩ := eq_of_update hq
      · cases hown
        exact h.apart v u p r hthere hr heq
      · exact h.apart v u p q hthere hq heq
  hidden := fun v q hq => by
    obtain ⟨rfl, hown⟩ | ⟨-, hq⟩ := eq_of_update hq
    · cases hown
      exact h.hidden v r hr
    · exact h.hidden v q hq
  written := fun v q hq hall => by
    obtain ⟨rfl, hown⟩ | ⟨hv, hq⟩ := eq_of_update hq
    · cases hown
      exact htext
    · have hne : q.temp ≠ r.temp := fun heq => hv (h.apart v w q r hq hr heq)
      rw [hdir q.temp hne]
      exact h.written v q hq hall

/-- A rename is of a text that is whole, and changes no other shown name. -/
theorem Ready.rename [DecidableEq N] [LawfulBEq N] (h : Ready shown dir writers)
    (hr : writers w = some r) (hwritten : r.written = true) :
    ∃ dir', rename r.temp r.file dir = some dir' ∧ dir'.lookup r.file = some r.text ∧
      (∀ name, shown name → name ≠ r.file → dir'.lookup name = dir.lookup name) ∧
      Ready shown dir' (Function.update writers w none) := by
  have htext : dir.lookup r.temp = some r.text := h.written w r hr hwritten
  obtain ⟨hhidden, hshown⟩ := h.hidden w r hr
  refine ⟨put r.file r.text (remove r.temp dir), by rw [Directory.rename, htext]; rfl, ?_, ?_, ?_⟩
  · rw [lookup_put, if_pos rfl]
  · intro name hname hne
    have htemp : name ≠ r.temp := fun heq => hhidden (heq ▸ hname)
    rw [lookup_put, if_neg hne, lookup_remove, if_neg htemp]
  · have hstop : Ready shown (remove r.temp dir) (Function.update writers w none) :=
      h.stop hr fun other hother => by rw [lookup_remove, if_neg hother]
    refine ⟨hstop.apart, hstop.hidden, fun v q hq hall => ?_⟩
    have hne : q.temp ≠ r.file := fun heq => (hstop.hidden v q hq).1 (heq ▸ hshown)
    rw [lookup_put, if_neg hne]
    exact hstop.written v q hq hall

end Writers

end Directory
