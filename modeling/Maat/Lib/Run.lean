import Mathlib.Logic.Basic
import Mathlib.Data.Option.Basic
import Mathlib.Data.List.Induction

/-!
# Runs of an event system

A system is a partial step function: `step s e` is the state after event `e`, or `none` where
`e` cannot happen in `s`. A run is a list of events. The rules here are the two inductions every
safety proof over runs uses: a property that every step keeps holds at the end of every run
(`run_invariant`), and a preorder that every step stays inside relates the two ends of every run
(`run_relates`).
-/

namespace Run

variable {St Ev : Type} {step : St → Ev → Option St}

/-- The state after a list of events, if each of them can happen in turn. -/
def run (step : St → Ev → Option St) : St → List Ev → Option St
  | s, [] => some s
  | s, e :: es => (step s e).bind fun s' => run step s' es

@[simp] theorem run_nil (s : St) : run step s [] = some s := rfl

theorem run_cons_eq_some {s s' : St} {e : Ev} {es : List Ev} :
    run step s (e :: es) = some s' ↔ ∃ t, step s e = some t ∧ run step t es = some s' := by
  simp only [run, Option.bind_eq_some_iff]

/-- A run over a concatenation passes through the state between the two parts. -/
theorem run_append {s s' : St} {es fs : List Ev} :
    run step s (es ++ fs) = some s' ↔ ∃ t, run step s es = some t ∧ run step t fs = some s' := by
  induction es generalizing s with
  | nil => simp only [List.nil_append, run_nil, Option.some.injEq, exists_eq_left']
  | cons e es ih =>
    simp only [List.cons_append, run_cons_eq_some, ih]
    constructor
    · rintro ⟨t, ht, u, hu, hs⟩
      exact ⟨u, ⟨t, ht, hu⟩, hs⟩
    · rintro ⟨u, ⟨t, ht, hu⟩, hs⟩
      exact ⟨t, ht, u, hu, hs⟩

/-- Every step keeps `I`, so every run does. The events allowed may be restricted by `ok`. -/
theorem run_invariant {I : St → Prop} (ok : Ev → Prop)
    (hstep : ∀ s e s', ok e → I s → step s e = some s' → I s')
    {s s' : St} {es : List Ev} (hok : ∀ e ∈ es, ok e) (h : run step s es = some s') (hs : I s) :
    I s' := by
  induction es generalizing s with
  | nil =>
    cases h
    exact hs
  | cons e es ih =>
    obtain ⟨t, ht, hrun⟩ := run_cons_eq_some.mp h
    have hI : I t := hstep s e t (hok e List.mem_cons_self) hs ht
    exact ih (fun f hf => hok f (List.mem_cons_of_mem _ hf)) hrun hI

/-- Every step from an invariant state stays inside the preorder `R`, so every run does. -/
theorem run_relates {I : St → Prop} {R : St → St → Prop} (hrefl : ∀ s, R s s)
    (htrans : ∀ a b c, R a b → R b c → R a c)
    (hstep : ∀ s e s', I s → step s e = some s' → I s' ∧ R s s')
    {s s' : St} {es : List Ev} (h : run step s es = some s') (hs : I s) : R s s' := by
  induction es generalizing s with
  | nil =>
    cases h
    exact hrefl _
  | cons e es ih =>
    obtain ⟨t, ht, hrun⟩ := run_cons_eq_some.mp h
    obtain ⟨hI, hR⟩ := hstep s e t hs ht
    exact htrans _ _ _ hR (ih hrun hI)

/-! ## What happened on the way -/

/-- Some event of the run met `P` in the state where it came. -/
def Happened (step : St → Ev → Option St) (start : St) (es : List Ev) (P : St → Ev → Prop) :
    Prop :=
  ∃ pre e post s, es = pre ++ e :: post ∧ run step start pre = some s ∧ P s e

theorem not_happened_nil {start : St} {P : St → Ev → Prop} : ¬Happened step start [] P := by
  rintro ⟨pre, e, post, s, hes, -, -⟩
  exact absurd hes.symm (by simp)

theorem happened_snoc {start s : St} {es : List Ev} {e : Ev} {P : St → Ev → Prop}
    (h : run step start es = some s) :
    Happened step start (es ++ [e]) P ↔ Happened step start es P ∨ P s e := by
  constructor
  · rintro ⟨pre, e', post, s', hes, hrun, hP⟩
    cases post using List.reverseRecOn with
    | nil =>
      obtain ⟨rfl, he⟩ := List.append_inj' hes rfl
      cases he
      cases h.symm.trans hrun
      exact .inr hP
    | append_singleton post e'' =>
      rw [← List.cons_append, ← List.append_assoc] at hes
      obtain ⟨rfl, -⟩ := List.append_inj' hes rfl
      exact .inl ⟨pre, e', post, s', rfl, hrun, hP⟩
  · rintro (⟨pre, e', post, s', rfl, hrun, hP⟩ | hP)
    · exact ⟨pre, e', post ++ [e], s', by simp, hrun, hP⟩
    · exact ⟨es, e, [], s, rfl, h, hP⟩

/-- What every step keeps of the state and the events so far. -/
theorem run_history {start s : St} {es : List Ev} {I : St → List Ev → Prop}
    (hstep : ∀ past s e s', run step start past = some s → I s past → step s e = some s' →
      I s' (past ++ [e])) (h : run step start es = some s) (hstart : I start []) : I s es := by
  induction es using List.reverseRecOn generalizing s with
  | nil =>
    cases h
    exact hstart
  | append_singleton es e ih =>
    obtain ⟨s₁, hrun, hlast⟩ := run_append.mp h
    obtain ⟨s₂, hs₂, hnil⟩ := run_cons_eq_some.mp hlast
    cases hnil
    exact hstep es s₁ e s hrun (ih hrun) hs₂

/-! ## What a run writes down -/

section Log

variable {α : Type}

/-- What `note` gives of the events of a run, each in the state where it came. -/
def log (step : St → Ev → Option St) (note : St → Ev → Option α) : St → List Ev → List α
  | _, [] => []
  | s, e :: es => (note s e).toList ++ ((step s e).map fun s' => log step note s' es).getD []

theorem log_cons {note : St → Ev → Option α} {s s' : St} {e : Ev} {es : List Ev}
    (h : step s e = some s') :
    log step note s (e :: es) = (note s e).toList ++ log step note s' es := by
  rw [log, h]
  rfl

theorem log_filter (note : St → Ev → Option α) (p : α → Bool) (s : St) (es : List Ev) :
    (log step note s es).filter p = log step (fun s e => (note s e).filter p) s es := by
  induction es generalizing s with
  | nil => rfl
  | cons e es ih =>
    have hnote : (note s e).toList.filter p = ((note s e).filter p).toList := by
      cases note s e with
      | none => rfl
      | some a => cases hp : p a <;> simp [Option.filter, hp]
    rw [log, log, List.filter_append, hnote]
    cases step s e with
    | none => rfl
    | some t => exact congrArg _ (ih t)

theorem log_map {β : Type} (note : St → Ev → Option α) (f : α → β) (s : St) (es : List Ev) :
    (log step note s es).map f = log step (fun s e => (note s e).map f) s es := by
  induction es generalizing s with
  | nil => rfl
  | cons e es ih =>
    have hnote : (note s e).toList.map f = ((note s e).map f).toList := by
      cases note s e <;> rfl
    rw [log, log, List.map_append, hnote]
    cases step s e with
    | none => rfl
    | some t => exact congrArg _ (ih t)

variable {I : St → Prop} (pending : St → List α) (begun ended : St → Ev → Option α)

/-- Where nothing ends that is not pending or begun, what has ended is among what has begun, in the
same order. -/
theorem log_sublist (ok : Ev → Prop)
    (hstep : ∀ s e s', ok e → I s → step s e = some s' → I s' ∧
      ((ended s e).toList ++ pending s').Sublist (pending s ++ (begun s e).toList))
    {s s' : St} {es : List Ev} (hok : ∀ e ∈ es, ok e) (h : run step s es = some s') (hs : I s) :
    (log step ended s es).Sublist (pending s ++ log step begun s es) := by
  induction es generalizing s with
  | nil => exact List.nil_sublist _
  | cons e es ih =>
    obtain ⟨t, ht, hrun⟩ := run_cons_eq_some.mp h
    obtain ⟨hI, hsub⟩ := hstep s e t (hok e List.mem_cons_self) hs ht
    rw [log_cons ht, log_cons ht, ← List.append_assoc]
    have hrest := ih (fun f hf => hok f (List.mem_cons_of_mem _ hf)) hrun hI
    refine ((List.Sublist.refl _).append hrest).trans ?_
    rw [← List.append_assoc]
    exact hsub.append (List.Sublist.refl _)

/-- Where nothing is dropped on the way, all that has begun has ended or is pending, in order. -/
theorem log_exact (ok : Ev → Prop)
    (hstep : ∀ s e s', ok e → I s → step s e = some s' → I s' ∧
      (ended s e).toList ++ pending s' = pending s ++ (begun s e).toList)
    {s s' : St} {es : List Ev} (hok : ∀ e ∈ es, ok e) (h : run step s es = some s') (hs : I s) :
    log step ended s es ++ pending s' = pending s ++ log step begun s es := by
  induction es generalizing s with
  | nil =>
    cases h
    exact (List.append_nil _).symm
  | cons e es ih =>
    obtain ⟨t, ht, hrun⟩ := run_cons_eq_some.mp h
    obtain ⟨hI, heq⟩ := hstep s e t (hok e List.mem_cons_self) hs ht
    rw [log_cons ht, log_cons ht, List.append_assoc,
      ih (fun f hf => hok f (List.mem_cons_of_mem _ hf)) hrun hI, ← List.append_assoc, heq,
      List.append_assoc]

/-- A run is seen as the run of what it writes down, if each step is seen as its note or as
nothing. -/
theorem run_simulates {St' Ev' : Type} {step' : St' → Ev' → Option St'} {view : St → St'}
    {note : St → Ev → Option Ev'} (ok : Ev → Prop)
    (hstep : ∀ s e s', ok e → I s → step s e = some s' → I s' ∧
      run step' (view s) (note s e).toList = some (view s'))
    {s s' : St} {es : List Ev} (hok : ∀ e ∈ es, ok e) (h : run step s es = some s') (hs : I s) :
    run step' (view s) (log step note s es) = some (view s') := by
  induction es generalizing s with
  | nil =>
    cases h
    rfl
  | cons e es ih =>
    obtain ⟨t, ht, hrun⟩ := run_cons_eq_some.mp h
    obtain ⟨hI, hview⟩ := hstep s e t (hok e List.mem_cons_self) hs ht
    rw [log_cons ht]
    exact run_append.mpr
      ⟨view t, hview, ih (fun f hf => hok f (List.mem_cons_of_mem _ hf)) hrun hI⟩

end Log

/-! ## All the way -/

/-- Every event of the run met `P` in the state where it came. -/
def Always (step : St → Ev → Option St) (start : St) (es : List Ev) (P : St → Ev → Prop) : Prop :=
  ∀ pre e post s, es = pre ++ e :: post → run step start pre = some s → P s e

/-- `Q` holds in every state the run comes through. -/
def Throughout (step : St → Ev → Option St) (start : St) (es : List Ev) (Q : St → Prop) : Prop :=
  ∀ pre s, pre <+: es → run step start pre = some s → Q s

theorem always_nil {start : St} {P : St → Ev → Prop} : Always step start [] P := by
  intro pre e post s hes
  exact absurd hes.symm (by simp)

theorem always_cons {start t : St} {e : Ev} {es : List Ev} {P : St → Ev → Prop}
    (ht : step start e = some t) :
    Always step start (e :: es) P ↔ P start e ∧ Always step t es P := by
  constructor
  · intro h
    refine ⟨h [] e es start rfl rfl, fun pre f post s hes hrun => ?_⟩
    exact h (e :: pre) f post s (congrArg (e :: ·) hes) (run_cons_eq_some.mpr ⟨t, ht, hrun⟩)
  · rintro ⟨hfirst, hrest⟩ pre f post s hes hrun
    cases pre with
    | nil =>
      cases hes
      cases hrun
      exact hfirst
    | cons d pre =>
      cases hes
      obtain ⟨t', ht', hrun⟩ := run_cons_eq_some.mp hrun
      obtain rfl : t = t' := Option.some.inj (ht.symm.trans ht')
      exact hrest pre f post s rfl hrun

/-- Steps whose events meet `P` keep `I`, so a run whose events all do keeps it. -/
theorem run_always {I : St → Prop} {P : St → Ev → Prop}
    (hstep : ∀ s e s', P s e → I s → step s e = some s' → I s') {s s' : St} {es : List Ev}
    (halways : Always step s es P) (h : run step s es = some s') (hs : I s) : I s' := by
  induction es generalizing s with
  | nil =>
    cases h
    exact hs
  | cons e es ih =>
    obtain ⟨t, ht, hrun⟩ := run_cons_eq_some.mp h
    obtain ⟨hfirst, hrest⟩ := (always_cons ht).mp halways
    exact ih hrest hrun (hstep s e t hfirst hs ht)

theorem throughout_cons {start t : St} {e : Ev} {es : List Ev} {Q : St → Prop}
    (ht : step start e = some t) :
    Throughout step start (e :: es) Q ↔ Q start ∧ Throughout step t es Q := by
  constructor
  · intro h
    refine ⟨h [] start (List.nil_prefix) rfl, fun pre s hpre hrun => ?_⟩
    exact h (e :: pre) s (List.cons_prefix_cons.mpr ⟨rfl, hpre⟩)
      (run_cons_eq_some.mpr ⟨t, ht, hrun⟩)
  · rintro ⟨hfirst, hrest⟩ pre s hpre hrun
    cases pre with
    | nil =>
      cases hrun
      exact hfirst
    | cons d pre =>
      obtain ⟨rfl, hrestpre⟩ := List.cons_prefix_cons.mp hpre
      obtain ⟨t', ht', hrun⟩ := run_cons_eq_some.mp hrun
      obtain rfl : t = t' := Option.some.inj (ht.symm.trans ht')
      exact hrest pre s hrestpre hrun

/-- Where each step from a good state leads to one exactly if its event meets `P`, a run stays good
exactly if all its events do. The good states may come with an invariant. -/
theorem throughout_iff_always {I Q : St → Prop} {P : St → Ev → Prop}
    (hstep : ∀ s e s', I s → Q s → step s e = some s' → (Q s' ↔ P s e) ∧ (Q s' → I s'))
    {start s : St} {es : List Ev} (h : run step start es = some s) (hI : I start)
    (hQ : Q start) : Throughout step start es Q ↔ Always step start es P := by
  induction es generalizing start with
  | nil =>
    refine ⟨fun _ => always_nil, fun _ pre s' hpre hrun => ?_⟩
    obtain rfl := List.prefix_nil.mp hpre
    cases hrun
    exact hQ
  | cons e es ih =>
    obtain ⟨t, ht, hrun⟩ := run_cons_eq_some.mp h
    obtain ⟨hiff, hkeep⟩ := hstep start e t hI hQ ht
    rw [throughout_cons ht, always_cons ht]
    constructor
    · rintro ⟨-, hrest⟩
      have hgood : Q t := hrest [] t (List.nil_prefix) rfl
      exact ⟨hiff.mp hgood, (ih hrun (hkeep hgood) hgood).mp hrest⟩
    · rintro ⟨hfirst, hrest⟩
      have hgood : Q t := hiff.mpr hfirst
      exact ⟨hQ, (ih hrun (hkeep hgood) hgood).mpr hrest⟩

/-! ## Runs under a condition -/

/-- The steps that a condition on the state and the event allows. -/
def restrict (ok : St → Ev → Bool) (step : St → Ev → Option St) (s : St) (e : Ev) : Option St :=
  if ok s e then step s e else none

theorem restrict_eq_some {ok : St → Ev → Bool} {s s' : St} {e : Ev} :
    restrict ok step s e = some s' ↔ ok s e = true ∧ step s e = some s' := by
  unfold restrict
  split
  · next hok => exact ⟨fun h => ⟨hok, h⟩, fun h => h.2⟩
  · next hok => exact ⟨nofun, fun h => absurd h.1 hok⟩

/-- What every step keeps holds in every state that a run comes to. -/
theorem run_keeps {I : St → Prop} (hstep : ∀ s e s', I s → step s e = some s' → I s')
    {s s' : St} {es : List Ev} (h : run step s es = some s') (hs : I s) : I s' :=
  run_invariant (fun _ => True) (fun s e s' _ => hstep s e s') (fun _ _ => trivial) h hs

end Run
