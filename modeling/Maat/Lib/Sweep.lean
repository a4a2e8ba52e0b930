import Mathlib.Data.List.Nodup
import Maat.Lib.Suspension

/-!
# Loops over the entries of a store

A sweep takes the entries that a loop selects, once, from a store of independent records, and runs
a body for each of them, which works on that entry's record only. The sweep is itself a `Turn`: it
returns when every body has, and is left where the first body throws or waits.

With distinct keys each record and each key's calls come out as the body alone would have them
(`sweep_state`, `callsOf_sweep`), and the sweep returns just when every body does
(`sweep_returned`).
-/

namespace Sweep

open Suspension

variable {ι α σ Point Call ε : Type} [DecidableEq ι]

/-- A body: what it does for an entry, on the record of the entry's key. -/
abbrev Body (ι α σ Point Call ε : Type) : Type := ι → α → σ → Turn σ Point Call ε

/-- What the loop selects, as the store is when it starts. -/
def selected (select : σ → Option α) (keys : List ι) (store : ι → σ) : List (ι × α) :=
  keys.filterMap fun i => (select (store i)).map (i, ·)

def sweep (body : Body ι α σ Point Call ε) :
    List (ι × α) → (ι → σ) → Turn (ι → σ) ι (ι × Call) ε
  | [], store => ⟨store, [], .returned⟩
  | (i, a) :: items, store =>
    let t := body i a (store i)
    let store := Function.update store i t.state
    let calls := t.calls.map (i, ·)
    match t.next with
    | .returned =>
      let t' := sweep body items store
      { t' with calls := calls ++ t'.calls }
    | .threw error => ⟨store, calls, .threw error⟩
    | .await _ => ⟨store, calls, .await i⟩

/-- The calls made for a key. -/
def callsOf (i : ι) (calls : List (ι × Call)) : List Call :=
  calls.filterMap fun call => if call.1 = i then some call.2 else none

/-- What the loop does for one key. -/
def visit (select : σ → Option α) (body : Body ι α σ Point Call ε) (i : ι) (s : σ) :
    Turn σ Point Call ε :=
  match select s with
  | none => ⟨s, [], .returned⟩
  | some a => body i a s

@[simp] theorem callsOf_append (i : ι) (calls calls' : List (ι × Call)) :
    callsOf i (calls ++ calls') = callsOf i calls ++ callsOf i calls' := List.filterMap_append ..

@[simp] theorem callsOf_self (i : ι) (calls : List Call) :
    callsOf i (calls.map (i, ·)) = calls := by
  simp [callsOf, List.filterMap_map]

theorem callsOf_other {i j : ι} (h : j ≠ i) (calls : List Call) :
    callsOf i (calls.map (j, ·)) = [] := by
  simp [callsOf, List.filterMap_map, h]

variable {select : σ → Option α} {body : Body ι α σ Point Call ε} {keys : List ι}
  {items : List (ι × α)} {store : ι → σ}

omit [DecidableEq ι] in
theorem mem_selected {i : ι} {a : α} :
    (i, a) ∈ selected select keys store ↔ i ∈ keys ∧ select (store i) = some a := by
  simp only [selected, List.mem_filterMap, Option.map_eq_some_iff, Prod.mk.injEq]
  constructor
  · rintro ⟨j, hj, b, hb, rfl, rfl⟩
    exact ⟨hj, hb⟩
  · rintro ⟨hi, ha⟩
    exact ⟨i, hi, a, ha, rfl, rfl⟩

omit [DecidableEq ι] in
theorem selected_nodup (hkeys : keys.Nodup) : ((selected select keys store).map Prod.fst).Nodup := by
  have hsub : ((selected select keys store).map Prod.fst).Sublist keys := by
    induction keys with
    | nil => exact List.Sublist.refl _
    | cons i keys ih =>
      have ih := ih (List.nodup_cons.mp hkeys).2
      simp only [selected] at ih ⊢
      rw [List.filterMap_cons]
      cases select (store i) with
      | none => exact ih.cons i
      | some a => exact ih.cons_cons i
  exact hsub.nodup hkeys

/-- A key that is not among the items is left alone. -/
theorem sweep_frame (body : Body ι α σ Point Call ε) (store : ι → σ) {i : ι}
    (hi : i ∉ items.map Prod.fst) :
    (sweep body items store).state i = store i ∧ callsOf i (sweep body items store).calls = [] := by
  induction items generalizing store with
  | nil => exact ⟨rfl, rfl⟩
  | cons item items ih =>
    obtain ⟨j, a⟩ := item
    rw [List.map_cons, List.mem_cons, not_or] at hi
    obtain ⟨hij, hitems⟩ := hi
    have hcalls := callsOf_other (Ne.symm hij) (body j a (store j)).calls
    simp only [sweep]
    split
    · obtain ⟨hstate, hrest⟩ := ih (Function.update store j (body j a (store j)).state) hitems
      exact ⟨hstate.trans (Function.update_of_ne hij _ _), by
        rw [callsOf_append, hcalls, hrest, List.append_nil]⟩
    · exact ⟨Function.update_of_ne hij _ _, hcalls⟩
    · exact ⟨Function.update_of_ne hij _ _, hcalls⟩

theorem sweep_cons_returned {i : ι} {a : α} :
    (sweep body ((i, a) :: items) store).next = .returned ↔
      (body i a (store i)).next = .returned ∧
        (sweep body items (Function.update store i (body i a (store i)).state)).next =
          .returned := by
  simp only [sweep]
  split
  · next h => simp [h]
  · next h => simp [h]
  · next h => simp [h]

/-- With distinct keys no body sees what another wrote. -/
theorem sweep_returned_iff (hitems : (items.map Prod.fst).Nodup) :
    (sweep body items store).next = .returned ↔
      ∀ item ∈ items, (body item.1 item.2 (store item.1)).next = .returned := by
  induction items generalizing store with
  | nil => simp [sweep]
  | cons item items ih =>
    obtain ⟨i, a⟩ := item
    obtain ⟨hi, hitems⟩ := List.nodup_cons.mp hitems
    have hstore (item : ι × α) (hitem : item ∈ items) (s : σ) :
        Function.update store i s item.1 = store item.1 :=
      Function.update_of_ne (fun h => hi (List.mem_map.mpr ⟨item, hitem, h⟩)) _ _
    rw [sweep_cons_returned, ih hitems, List.forall_mem_cons]
    refine and_congr_right fun _ => forall₂_congr fun item hitem => ?_
    rw [hstore item hitem]

/-- The sweep ends in the record and the calls of the body alone. -/
theorem sweep_of_mem (hitems : (items.map Prod.fst).Nodup)
    (hreturned : (sweep body items store).next = .returned) {i : ι} {a : α}
    (hmem : (i, a) ∈ items) :
    (sweep body items store).state i = (body i a (store i)).state ∧
      callsOf i (sweep body items store).calls = (body i a (store i)).calls := by
  induction items generalizing store with
  | nil => cases hmem
  | cons item items ih =>
    obtain ⟨j, b⟩ := item
    obtain ⟨hj, hitems⟩ := List.nodup_cons.mp hitems
    obtain ⟨hbody, hrest⟩ := sweep_cons_returned.mp hreturned
    simp only [sweep, hbody, callsOf_append]
    rcases List.mem_cons.mp hmem with hhead | htail
    · obtain ⟨rfl, rfl⟩ := Prod.mk.inj hhead
      obtain ⟨hstate, hcalls⟩ := sweep_frame body
        (Function.update store i (body i a (store i)).state) hj
      exact ⟨hstate.trans (Function.update_self ..), by
        rw [callsOf_self, hcalls, List.append_nil]⟩
    · have hij : i ≠ j := fun h => hj (List.mem_map.mpr ⟨(i, a), htail, h⟩)
      obtain ⟨hstate, hcalls⟩ := ih hitems hrest htail
      rw [Function.update_of_ne hij] at hstate hcalls
      exact ⟨hstate, by rw [callsOf_other hij.symm, hcalls, List.nil_append]⟩

/-! ## By visits -/

omit [DecidableEq ι] in
theorem visit_of_not_selected {i : ι} {s : σ} (h : select s = none) :
    visit select body i s = ⟨s, [], .returned⟩ := by
  rw [visit, h]

omit [DecidableEq ι] in
theorem visit_of_selected {i : ι} {s : σ} {a : α} (h : select s = some a) :
    visit select body i s = body i a s := by
  rw [visit, h]

theorem sweep_returned (hkeys : keys.Nodup) :
    (sweep body (selected select keys store) store).next = .returned ↔
      ∀ i ∈ keys, (visit select body i (store i)).next = .returned := by
  rw [sweep_returned_iff (selected_nodup hkeys)]
  constructor
  · intro h i hi
    cases hselect : select (store i) with
    | none => rw [visit_of_not_selected hselect]
    | some a =>
      rw [visit_of_selected hselect]
      exact h (i, a) (mem_selected.mpr ⟨hi, hselect⟩)
  · rintro h ⟨i, a⟩ hmem
    obtain ⟨hi, hselect⟩ := mem_selected.mp hmem
    have hvisit := h i hi
    rwa [visit_of_selected hselect] at hvisit

/-- What a sweep that returns leaves of a key is what the visit of that key leaves. -/
theorem sweep_visit (hkeys : keys.Nodup)
    (hreturned : (sweep body (selected select keys store) store).next = .returned) {i : ι}
    (hi : i ∈ keys) :
    (sweep body (selected select keys store) store).state i =
        (visit select body i (store i)).state ∧
      callsOf i (sweep body (selected select keys store) store).calls =
        (visit select body i (store i)).calls := by
  cases hselect : select (store i) with
  | none =>
    rw [visit_of_not_selected hselect]
    refine sweep_frame body store fun hmem => ?_
    obtain ⟨⟨j, a⟩, hja, rfl⟩ := List.mem_map.mp hmem
    rw [(mem_selected.mp hja).2] at hselect
    cases hselect
  | some a =>
    rw [visit_of_selected hselect]
    exact sweep_of_mem (selected_nodup hkeys) hreturned (mem_selected.mpr ⟨hi, hselect⟩)

/-- A key that the loop does not go over is left alone. -/
theorem sweep_of_not_mem {i : ι} (hi : i ∉ keys) :
    (sweep body (selected select keys store) store).state i = store i ∧
      callsOf i (sweep body (selected select keys store) store).calls = [] := by
  refine sweep_frame body store fun hmem => ?_
  obtain ⟨⟨j, a⟩, hja, rfl⟩ := List.mem_map.mp hmem
  exact hi (mem_selected.mp hja).1

/-! ## One loop after another -/

/-- A second sweep, over what the first left, unless that threw or waits. -/
def followed (t : Turn (ι → σ) ι (ι × Call) ε)
    (second : (ι → σ) → Turn (ι → σ) ι (ι × Call) ε) : Turn (ι → σ) ι (ι × Call) ε :=
  match t.next with
  | .returned =>
    let t' := second t.state
    { t' with calls := t.calls ++ t'.calls }
  | _ => t

omit [DecidableEq ι] in
theorem followed_returned {t : Turn (ι → σ) ι (ι × Call) ε}
    {second : (ι → σ) → Turn (ι → σ) ι (ι × Call) ε} :
    (followed t second).next = .returned ↔
      t.next = .returned ∧ (second t.state).next = .returned := by
  unfold followed
  split
  · next h => simp [h]
  · next h => exact ⟨fun h' => absurd h' h, fun h' => absurd h'.1 h⟩

omit [DecidableEq ι] in
theorem followed_of_returned {t : Turn (ι → σ) ι (ι × Call) ε}
    {second : (ι → σ) → Turn (ι → σ) ι (ι × Call) ε} (h : t.next = .returned) :
    (followed t second).state = (second t.state).state ∧
      (followed t second).calls = t.calls ++ (second t.state).calls := by
  unfold followed
  rw [h]
  exact ⟨rfl, rfl⟩

/-! ## Passes, key by key -/

/-- A pass over keys that does for each key what it would do for that key alone: it returns just
when it `returns` for every key, and `leaves` the record and the calls of each. -/
structure KeyWise (pass : List ι → (ι → σ) → Turn (ι → σ) ι (ι × Call) ε)
    (returns : ι → σ → Prop) (leaves : ι → σ → σ × List Call) : Prop where
  returned : ∀ keys store, keys.Nodup →
    ((pass keys store).next = .returned ↔ ∀ i ∈ keys, returns i (store i))
  visited : ∀ keys store, keys.Nodup → (pass keys store).next = .returned → ∀ i ∈ keys,
    ((pass keys store).state i, callsOf i (pass keys store).calls) = leaves i (store i)
  frame : ∀ keys store, ∀ i ∉ keys,
    ((pass keys store).state i, callsOf i (pass keys store).calls) = (store i, [])

theorem keyWise_sweep (select : σ → Option α) (body : Body ι α σ Point Call ε) :
    KeyWise (fun keys store => sweep body (selected select keys store) store)
      (fun i s => (visit select body i s).next = .returned)
      fun i s => ((visit select body i s).state, (visit select body i s).calls) where
  returned _ _ hkeys := sweep_returned hkeys
  visited _ _ hkeys hreturned _ hi :=
    Prod.ext (sweep_visit hkeys hreturned hi).1 (sweep_visit hkeys hreturned hi).2
  frame _ _ _ hi := Prod.ext (sweep_of_not_mem hi).1 (sweep_of_not_mem hi).2

variable {pass second : List ι → (ι → σ) → Turn (ι → σ) ι (ι × Call) ε}
  {returns returns' : ι → σ → Prop} {leaves leaves' : ι → σ → σ × List Call}

theorem KeyWise.followed (hpass : KeyWise pass returns leaves)
    (hsecond : KeyWise second returns' leaves') :
    KeyWise (fun keys store => Sweep.followed (pass keys store) (second keys))
      (fun i s => returns i s ∧ returns' i (leaves i s).1)
      fun i s => ((leaves' i (leaves i s).1).1, (leaves i s).2 ++ (leaves' i (leaves i s).1).2) where
  returned keys store hkeys := by
    rw [followed_returned, hsecond.returned _ _ hkeys, forall₂_and, ← hpass.returned _ _ hkeys]
    refine and_congr_right fun hreturned => forall₂_congr fun i hi => ?_
    rw [← hpass.visited keys store hkeys hreturned i hi]
  visited keys store hkeys hboth i hi := by
    obtain ⟨hreturned, hreturned'⟩ := followed_returned.mp hboth
    have hfirst := hpass.visited keys store hkeys hreturned i hi
    have hlast := hsecond.visited keys _ hkeys hreturned' i hi
    rw [(followed_of_returned hreturned).1, (followed_of_returned hreturned).2, callsOf_append,
      ← hfirst, ← hlast]
  frame keys store i hi := by
    have hfirst := hpass.frame keys store i hi
    by_cases hreturned : (pass keys store).next = .returned
    · have hlast := hsecond.frame keys (pass keys store).state i hi
      rw [Prod.mk.injEq] at hfirst hlast
      rw [(followed_of_returned hreturned).1, (followed_of_returned hreturned).2, callsOf_append,
        hlast.1, hlast.2, hfirst.1, hfirst.2, List.append_nil]
    · rw [Sweep.followed]
      split
      · next h => exact absurd h hreturned
      · exact hfirst

/-- Leaving keys out changes nothing for the others. -/
theorem KeyWise.without (hpass : KeyWise pass returns leaves) (hkeys : keys.Nodup)
    (hreturns : ∀ i ∈ keys, returns i (store i)) (keep : ι → Bool) {store' : ι → σ}
    (hstore : ∀ i, keep i → store' i = store i) :
    (pass (keys.filter keep) store').next = .returned ∧ ∀ i, keep i →
      (pass (keys.filter keep) store').state i = (pass keys store).state i ∧
        callsOf i (pass (keys.filter keep) store').calls = callsOf i (pass keys store).calls := by
  have hreturned' : (pass (keys.filter keep) store').next = .returned := by
    refine (hpass.returned _ _ (hkeys.filter _)).mpr fun i hi => ?_
    obtain ⟨hi, hkeep⟩ := List.mem_filter.mp hi
    rw [hstore i hkeep]
    exact hreturns i hi
  refine ⟨hreturned', fun i hkeep => ?_⟩
  rw [← Prod.mk.injEq]
  by_cases hi : i ∈ keys
  · rw [hpass.visited _ _ (hkeys.filter _) hreturned' i (List.mem_filter.mpr ⟨hi, hkeep⟩),
      hpass.visited _ _ hkeys ((hpass.returned _ _ hkeys).mpr hreturns) i hi, hstore i hkeep]
  · rw [hpass.frame _ _ i fun h => hi (List.mem_of_mem_filter h), hpass.frame _ _ i hi,
      hstore i hkeep]

end Sweep
