import Mathlib.Data.Option.Basic
import Mathlib.Data.List.Basic
import Maat.Lib.Run

/-!
# Computations that wait for replies

A computation works on a state, makes calls, and comes to wait at a point, returns or throws
(`Turn`); `resume` is what it does when a reply comes in. Loops that wait in between are points
that come back, so a computation may go on for ever; `drive` is its run over a list of replies.

The rules: an invariant of every turn holds along a run (`drive_invariant`), two computations that
match turn by turn match along a run (`drive_matches`). A computation is part of a larger one by
its turns (`Turn.within`).
-/

namespace Suspension

variable {σ Point Point' Call Reply ε : Type}

inductive Next (Point ε : Type) where
  | await (point : Point)
  | returned
  | threw (error : ε)
  deriving DecidableEq

/-- The state, the calls made so far, and what comes next. -/
structure Turn (σ Point Call ε : Type) where
  state : σ
  calls : List Call
  next : Next Point ε
  deriving DecidableEq

/-- What a computation does with a reply; `none` where the reply is none to what it waits for. -/
abbrev Resume (σ Point Call Reply ε : Type) : Type :=
  σ → Point → Reply → Option (Turn σ Point Call ε)

/-- `t`, then the turn that follows it. -/
def Turn.andThen (t t' : Turn σ Point Call ε) : Turn σ Point Call ε :=
  { t' with calls := t.calls ++ t'.calls }

/-- One reply. A computation that has ended takes none. -/
def feed (resume : Resume σ Point Call Reply ε) (t : Turn σ Point Call ε) (reply : Reply) :
    Option (Turn σ Point Call ε) :=
  match t.next with
  | .await point => (resume t.state point reply).map t.andThen
  | _ => none

/-- All the replies, one after the other. -/
def drive (resume : Resume σ Point Call Reply ε) :
    Turn σ Point Call ε → List Reply → Option (Turn σ Point Call ε)
  | t, [] => some t
  | t, reply :: replies => (feed resume t reply).bind fun t' => drive resume t' replies

section drive

variable {resume : Resume σ Point Call Reply ε} {t t' : Turn σ Point Call ε}

@[simp] theorem andThen_state (t t' : Turn σ Point Call ε) : (t.andThen t').state = t'.state := rfl

@[simp] theorem andThen_calls (t t' : Turn σ Point Call ε) :
    (t.andThen t').calls = t.calls ++ t'.calls := rfl

@[simp] theorem andThen_next (t t' : Turn σ Point Call ε) : (t.andThen t').next = t'.next := rfl

theorem feed_eq_some {reply : Reply} :
    feed resume t reply = some t' ↔ ∃ point t₁, t.next = .await point ∧
      resume t.state point reply = some t₁ ∧ t' = t.andThen t₁ := by
  unfold feed
  split
  · next point hnext =>
    rw [Option.map_eq_some_iff]
    constructor
    · rintro ⟨t₁, hresume, rfl⟩
      exact ⟨point, t₁, hnext, hresume, rfl⟩
    · rintro ⟨point', t₁, hnext', hresume, rfl⟩
      rw [hnext] at hnext'
      cases hnext'
      exact ⟨t₁, hresume, rfl⟩
  · next hended =>
    constructor
    · exact nofun
    · rintro ⟨point, t₁, hnext, -, -⟩
      exact absurd hnext (hended point)

@[simp] theorem drive_nil : drive resume t [] = some t := rfl

theorem drive_cons_eq_some {reply : Reply} {replies : List Reply} :
    drive resume t (reply :: replies) = some t' ↔
      ∃ t₁, feed resume t reply = some t₁ ∧ drive resume t₁ replies = some t' := by
  simp only [drive, Option.bind_eq_some_iff]

theorem drive_append_eq_some {replies replies' : List Reply} :
    drive resume t (replies ++ replies') = some t' ↔
      ∃ t₁, drive resume t replies = some t₁ ∧ drive resume t₁ replies' = some t' := by
  induction replies generalizing t with
  | nil => simp
  | cons reply replies ih =>
    simp only [List.cons_append, drive_cons_eq_some, ih]
    constructor
    · rintro ⟨t₁, hfeed, t₂, hdrive, hrest⟩
      exact ⟨t₂, ⟨t₁, hfeed, hdrive⟩, hrest⟩
    · rintro ⟨t₂, ⟨t₁, hfeed, hdrive⟩, hrest⟩
      exact ⟨t₁, hfeed, t₂, hdrive, hrest⟩

/-- What every reply keeps holds along a run. -/
theorem drive_invariant {I : Turn σ Point Call ε → List Reply → Prop}
    (hstep : ∀ t seen reply t', I t seen → feed resume t reply = some t' →
      I t' (seen ++ [reply])) (seen : List Reply) {replies : List Reply}
    (h : drive resume t replies = some t') (ht : I t seen) : I t' (seen ++ replies) := by
  induction replies generalizing t seen with
  | nil =>
    cases h
    rwa [List.append_nil]
  | cons reply replies ih =>
    obtain ⟨t₁, hfeed, hrest⟩ := drive_cons_eq_some.mp h
    have := ih (seen ++ [reply]) hrest (hstep t seen reply t₁ ht hfeed)
    rwa [List.append_assoc] at this

/-- A computation that has ended takes no reply. -/
theorem drive_of_ended {replies : List Reply} (hended : ∀ point, t.next ≠ .await point)
    (h : drive resume t replies = some t') : replies = [] ∧ t' = t := by
  cases replies with
  | nil =>
    cases h
    exact ⟨rfl, rfl⟩
  | cons reply replies =>
    obtain ⟨t₁, hfeed, -⟩ := drive_cons_eq_some.mp h
    obtain ⟨point, -, hnext, -, -⟩ := feed_eq_some.mp hfeed
    exact absurd hnext (hended point)

/-- A run throws just when one of its replies makes it. -/
theorem drive_threw_iff {Throws : Reply → Prop}
    (hstep : ∀ t reply t', feed resume t reply = some t' →
      ((∃ error, t'.next = .threw error) ↔ Throws reply)) {replies : List Reply}
    (h : drive resume t replies = some t') (ht : ∀ error, t.next ≠ .threw error) :
    (∃ error, t'.next = .threw error) ↔ ∃ reply ∈ replies, Throws reply := by
  induction replies generalizing t with
  | nil =>
    cases h
    simp [ht]
  | cons reply replies ih =>
    obtain ⟨t₁, hfeed, hrest⟩ := drive_cons_eq_some.mp h
    have hfirst := hstep t reply t₁ hfeed
    rw [List.exists_mem_cons_iff]
    by_cases hthrows : Throws reply
    · obtain ⟨error, hthrew⟩ := hfirst.mpr hthrows
      have hended (point : Point) : t₁.next ≠ .await point := by simp [hthrew]
      obtain ⟨-, rfl⟩ := drive_of_ended hended hrest
      exact iff_of_true ⟨error, hthrew⟩ (.inl hthrows)
    · rw [ih hrest fun error herror => hthrows (hfirst.mp ⟨error, herror⟩)]
      simp [hthrows]

end drive

/-! ## What came on the way -/

section came

variable {resume : Resume σ Point Call Reply ε} {start t : Turn σ Point Call ε}
  {replies : List Reply} {P : σ → Point → Reply → Prop}

theorem drive_eq_run (start : Turn σ Point Call ε) (replies : List Reply) :
    drive resume start replies = Run.run (feed resume) start replies := by
  induction replies generalizing start with
  | nil => rfl
  | cons reply replies ih => simp only [drive, Run.run, ih]

/-- Some reply met `P` with the state and the point where it came. -/
def Came (resume : Resume σ Point Call Reply ε) (start : Turn σ Point Call ε)
    (replies : List Reply) (P : σ → Point → Reply → Prop) : Prop :=
  Run.Happened (feed resume) start replies fun t reply =>
    ∃ point, t.next = .await point ∧ P t.state point reply

theorem not_came_of_ended (hended : ∀ point, start.next ≠ .await point) :
    ¬Came resume start replies P := by
  rintro ⟨pre, reply, post, t, -, hrun, point, hpoint, -⟩
  obtain ⟨-, rfl⟩ := drive_of_ended hended ((drive_eq_run start pre).trans hrun)
  exact hended point hpoint

/-- A property that only an ending turn can break holds at the end just when none did. -/
theorem drive_holds_iff {Q : σ → Prop}
    (hstep : ∀ s point reply t, resume s point reply = some t → Q s →
      (Q t.state ↔ ¬P s point reply))
    (hends : ∀ s point reply t, resume s point reply = some t → P s point reply →
      ∀ point', t.next ≠ .await point')
    (h : drive resume start replies = some t) (hstart : Q start.state) :
    Q t.state ↔ ¬Came resume start replies P := by
  rw [drive_eq_run] at h
  refine (Run.run_history (I := fun t past => (Q t.state ↔ ¬Came resume start past P) ∧
    (Came resume start past P → ∀ point, t.next ≠ .await point)) ?_ h ?_).1
  · intro past t reply t' hrun hI hfeed
    obtain ⟨point, t₁, hnext, hresume, rfl⟩ := feed_eq_some.mp hfeed
    have hnever : ¬Came resume start past P := fun hcame => hI.2 hcame point hnext
    have hcame : Came resume start (past ++ [reply]) P ↔ P t.state point reply := by
      refine (Run.happened_snoc hrun).trans ((or_iff_right hnever).trans ?_)
      constructor
      · rintro ⟨point', hpoint', hP⟩
        cases hnext.symm.trans hpoint'
        exact hP
      · exact fun hP => ⟨point, hnext, hP⟩
    rw [hcame]
    exact ⟨hstep _ _ _ t₁ hresume (hI.1.mpr hnever), hends _ _ _ t₁ hresume⟩
  · exact ⟨iff_of_true hstart Run.not_happened_nil, fun h => absurd h Run.not_happened_nil⟩

/-- A property that nothing breaks holds at the end just when it did at first or was gained. -/
theorem drive_gains_iff {Q : σ → Prop}
    (hstep : ∀ s point reply t, resume s point reply = some t →
      (Q t.state ↔ Q s ∨ P s point reply))
    (h : drive resume start replies = some t) :
    Q t.state ↔ Q start.state ∨ Came resume start replies P := by
  rw [drive_eq_run] at h
  refine Run.run_history (I := fun t past => Q t.state ↔ Q start.state ∨ Came resume start past P)
    ?_ h ?_
  · intro past t reply t' hrun hI hfeed
    obtain ⟨point, t₁, hnext, hresume, rfl⟩ := feed_eq_some.mp hfeed
    have hcame : Came resume start (past ++ [reply]) P ↔
        Came resume start past P ∨ P t.state point reply := by
      refine (Run.happened_snoc hrun).trans (or_congr_right ?_)
      constructor
      · rintro ⟨point', hpoint', hP⟩
        cases hnext.symm.trans hpoint'
        exact hP
      · exact fun hP => ⟨point, hnext, hP⟩
    rw [hcame, ← or_assoc, ← hI]
    exact hstep _ _ _ t₁ hresume
  · exact (or_iff_left Run.not_happened_nil).symm

end came

/-- Two computations that answer every reply alike match along every run. -/
theorem drive_rel {σ' Call' : Type} (resume : Resume σ Point Call Reply ε)
    (resume' : Resume σ' Point' Call' Reply ε)
    {R : Turn σ Point Call ε → Turn σ' Point' Call' ε → Prop}
    (hstep : ∀ t u reply, R t u → Option.Rel R (feed resume t reply) (feed resume' u reply))
    {t : Turn σ Point Call ε} {u : Turn σ' Point' Call' ε} (h : R t u) (replies : List Reply) :
    Option.Rel R (drive resume t replies) (drive resume' u replies) := by
  induction replies generalizing t u with
  | nil => exact .some h
  | cons reply replies ih =>
    have hfeed := hstep t u reply h
    simp only [drive]
    cases ht : feed resume t reply with
    | none =>
      rw [ht] at hfeed
      cases hu : feed resume' u reply with
      | none => exact .none
      | some u₁ =>
        rw [hu] at hfeed
        cases hfeed
    | some t₁ =>
      rw [ht] at hfeed
      cases hu : feed resume' u reply with
      | none =>
        rw [hu] at hfeed
        cases hfeed
      | some u₁ =>
        rw [hu] at hfeed
        cases hfeed with
        | some hrel => exact ih hrel

/-! ## Parts -/

/-- The same turn on another state. -/
def Turn.mapState {σ' : Type} (f : σ → σ') (t : Turn σ Point Call ε) : Turn σ' Point Call ε :=
  ⟨f t.state, t.calls, t.next⟩

/-- The same turn, with its points as points of a larger computation. -/
def Turn.within (f : Point → Point') (t : Turn σ Point Call ε) : Turn σ Point' Call ε where
  state := t.state
  calls := t.calls
  next :=
    match t.next with
    | .await point => .await (f point)
    | .returned => .returned
    | .threw error => .threw error

@[simp] theorem within_state (f : Point → Point') (t : Turn σ Point Call ε) :
    (t.within f).state = t.state := rfl

@[simp] theorem within_calls (f : Point → Point') (t : Turn σ Point Call ε) :
    (t.within f).calls = t.calls := rfl

/-- What is thrown is caught, and the computation returns instead. -/
def Turn.caught (t : Turn σ Point Call ε) : Turn σ Point Call ε :=
  match t.next with
  | .threw _ => { t with next := .returned }
  | _ => t

@[simp] theorem caught_calls (t : Turn σ Point Call ε) : t.caught.calls = t.calls := by
  unfold Turn.caught
  split <;> rfl

@[simp] theorem caught_state (t : Turn σ Point Call ε) : t.caught.state = t.state := by
  unfold Turn.caught
  split <;> rfl

theorem caught_awaits {t : Turn σ Point Call ε} {point : Point} :
    t.caught.next = .await point ↔ t.next = .await point := by
  unfold Turn.caught
  split
  · next h => simp [h]
  · rfl

theorem caught_never_threw (t : Turn σ Point Call ε) (error : ε) : t.caught.next ≠ .threw error := by
  unfold Turn.caught
  split
  · simp
  · next h => exact h error

theorem within_next (f : Point → Point') (t : Turn σ Point Call ε) :
    (t.within f).next = match t.next with
      | .await point => .await (f point)
      | .returned => .returned
      | .threw error => .threw error := rfl

theorem within_awaits {f : Point → Point'} {t : Turn σ Point Call ε} {point' : Point'} :
    (t.within f).next = .await point' ↔ ∃ point, t.next = .await point ∧ point' = f point := by
  rw [within_next]
  cases t.next with
  | await point => simp [eq_comm]
  | returned => simp
  | threw error => simp

theorem within_threw {f : Point → Point'} {t : Turn σ Point Call ε} :
    (∃ error, (t.within f).next = .threw error) ↔ ∃ error, t.next = .threw error := by
  rw [within_next]
  cases t.next <;> simp

end Suspension
