import Mathlib.Algebra.GroupWithZero.Nat
import Mathlib.Order.Nat
import Maat.Lib.Run

/-!
# A counter over tumbling windows

Amounts are accepted one after another. The counter keeps the start of the running window and the
sum accepted in it; the first acceptance after the window has lapsed starts the next one. Each
acceptance must leave the sum at or below a limit.

Two windows start more than a window's length apart (`run_starts`). An interval of that length meets
two of them at most, and what a run accepts inside it is at most twice the limit (`run_capped`).
-/

namespace Window

structure Entry where
  time : Nat
  amount : Nat
  deriving DecidableEq

/-- What the entries at the times in `p` sum to. -/
def sumOver (p : Nat → Prop) [DecidablePred p] (es : List Entry) : Nat :=
  ((es.filter fun e => decide (p e.time)).map Entry.amount).sum

section sumOver

variable {p q r : Nat → Prop} [DecidablePred p] [DecidablePred q] [DecidablePred r]

@[simp] theorem sumOver_nil : sumOver p [] = 0 := rfl

theorem sumOver_cons (e : Entry) (es : List Entry) :
    sumOver p (e :: es) = (if p e.time then e.amount else 0) + sumOver p es := by
  simp only [sumOver, List.filter_cons, decide_eq_true_eq]
  split <;> simp

theorem sumOver_append (es fs : List Entry) :
    sumOver p (es ++ fs) = sumOver p es + sumOver p fs := by
  simp only [sumOver, List.filter_append, List.map_append, List.sum_append]

theorem sumOver_concat (es : List Entry) (e : Entry) :
    sumOver p (es ++ [e]) = sumOver p es + if p e.time then e.amount else 0 := by
  rw [sumOver_append, sumOver_cons, sumOver_nil, Nat.add_zero]

/-- Times covered by two sets. -/
theorem sumOver_le_add {es : List Entry} (h : ∀ e ∈ es, p e.time → q e.time ∨ r e.time) :
    sumOver p es ≤ sumOver q es + sumOver r es := by
  induction es with
  | nil => exact Nat.zero_le _
  | cons e es ih =>
    have hrest := ih fun f hf => h f (List.mem_cons_of_mem _ hf)
    have he := h e List.mem_cons_self
    simp only [sumOver_cons]
    by_cases hp : p e.time
    · rcases he hp with hq | hr
      · rw [if_pos hp, if_pos hq]
        omega
      · rw [if_pos hp, if_pos hr]
        omega
    · rw [if_neg hp]
      omega

theorem sumOver_mono {es : List Entry} (h : ∀ e ∈ es, p e.time → q e.time) :
    sumOver p es ≤ sumOver q es := by
  induction es with
  | nil => exact Nat.le_refl _
  | cons e es ih =>
    have hrest := ih fun f hf => h f (List.mem_cons_of_mem _ hf)
    have he := h e List.mem_cons_self
    simp only [sumOver_cons]
    by_cases hp : p e.time
    · rw [if_pos hp, if_pos (he hp)]
      omega
    · rw [if_neg hp]
      omega

end sumOver

/-! ## The counter -/

structure Counter where
  /-- When the running window started. -/
  start : Nat
  /-- What was accepted in it. -/
  volume : Nat
  now : Nat
  /-- Everything ever accepted. -/
  book : List Entry

inductive Event where
  | tick (now : Nat)
  | accept (amount : Nat)

/-- Book an amount now, in a new window if the running one has lapsed. -/
def Counter.count (length : Nat) (c : Counter) (amount : Nat) : Counter :=
  if c.start + length < c.now then
    { c with start := c.now, volume := amount, book := c.book ++ [⟨c.now, amount⟩] }
  else { c with volume := c.volume + amount, book := c.book ++ [⟨c.now, amount⟩] }

def step (length limit : Nat) (c : Counter) : Event → Option Counter
  | .tick now => if c.now ≤ now then some { c with now } else none
  | .accept amount =>
    if (c.count length amount).volume ≤ limit then some (c.count length amount) else none

variable {length limit : Nat}

/-- The two ways of booking an amount. -/
theorem step_accept {c c' : Counter} {amount : Nat}
    (h : step length limit c (.accept amount) = some c') :
    c'.now = c.now ∧ c'.book = c.book ++ [⟨c.now, amount⟩] ∧ c'.volume ≤ limit ∧
      (c.start + length < c.now ∧ c'.start = c.now ∧ c'.volume = amount ∨
        ¬ c.start + length < c.now ∧ c'.start = c.start ∧ c'.volume = c.volume + amount) := by
  simp only [step] at h
  split at h
  case isFalse => cases h
  next hlimit =>
    obtain rfl := Option.some.inj h
    simp only [Counter.count] at hlimit ⊢
    split
    · next hlapsed =>
      rw [if_pos hlapsed] at hlimit
      exact ⟨rfl, rfl, hlimit, .inl ⟨hlapsed, rfl, rfl⟩⟩
    · next hrunning =>
      rw [if_neg hrunning] at hlimit
      exact ⟨rfl, rfl, hlimit, .inr ⟨hrunning, rfl, rfl⟩⟩

theorem step_tick {c c' : Counter} {now : Nat} (h : step length limit c (.tick now) = some c') :
    c.now ≤ now ∧ c' = { c with now } := by
  simp only [step] at h
  split at h
  case isFalse => cases h
  next hle => exact ⟨hle, (Option.some.inj h).symm⟩

/-! ## What every counter satisfies -/

/-- The volume is the sum of what was accepted since the window started. -/
structure Counter.Sound (length : Nat) (c : Counter) : Prop where
  start_le : c.start ≤ c.now
  times : ∀ e ∈ c.book, e.time ≤ c.now
  /-- Nothing is booked in a lapsed window. -/
  lapses : ∀ e ∈ c.book, e.time ≤ c.start + length
  volume : c.volume = sumOver (c.start ≤ ·) c.book

theorem step_sound {c c' : Counter} {e : Event} (h : c.Sound length)
    (hstep : step length limit c e = some c') : c'.Sound length := by
  cases e with
  | tick now =>
    obtain ⟨hle, rfl⟩ := step_tick hstep
    exact ⟨h.start_le.trans hle, fun e he => (h.times e he).trans hle, h.lapses, h.volume⟩
  | accept amount =>
    obtain ⟨hnow, hbook, -, hwindow⟩ := step_accept hstep
    have htimes : ∀ e ∈ c'.book, e.time ≤ c'.now := by
      intro e he
      rw [hbook] at he
      rw [hnow]
      rcases List.mem_append.mp he with he | he
      · exact h.times e he
      · obtain rfl := List.mem_singleton.mp he
        exact Nat.le_refl c.now
    rcases hwindow with ⟨hlapsed, hstart, hvolume⟩ | ⟨hrunning, hstart, hvolume⟩
    · refine ⟨(hstart.trans hnow.symm).le, htimes, fun e he => ?_, ?_⟩
      · have := htimes e he
        omega
      · -- nothing booked so far is as late as the new window
        have hold : sumOver (c.now ≤ ·) c.book = 0 := by
          rw [sumOver, List.filter_eq_nil_iff.mpr, List.map_nil, List.sum_nil]
          intro e he hlate
          have hlate := of_decide_eq_true hlate
          have := h.lapses e he
          omega
        rw [hvolume, hstart, hbook, sumOver_concat, hold, if_pos (Nat.le_refl _), Nat.zero_add]
    · have hlate := h.start_le
      refine ⟨by rw [hstart, hnow]; exact hlate, htimes, fun e he => ?_, ?_⟩
      · have := htimes e he
        omega
      · rw [hvolume, hstart, hbook, sumOver_concat, if_pos hlate, h.volume]

/-! ## Starts -/

/-- The window is the same one, or starts more than a length later. -/
def Counter.Apart (length : Nat) (c c' : Counter) : Prop :=
  c'.start = c.start ∨ c.start + length < c'.start

theorem Counter.Apart.trans {a b c : Counter} (h : a.Apart length b) (h' : b.Apart length c) :
    a.Apart length c := by
  simp only [Apart] at h h' ⊢
  omega

theorem step_apart {c c' : Counter} {e : Event} (hstep : step length limit c e = some c') :
    c.Apart length c' := by
  cases e with
  | tick now =>
    obtain ⟨-, rfl⟩ := step_tick hstep
    exact .inl rfl
  | accept amount =>
    obtain ⟨-, -, -, ⟨hlapsed, hstart, -⟩ | ⟨-, hstart, -⟩⟩ := step_accept hstep
    · exact .inr (hstart ▸ hlapsed)
    · exact .inl hstart

/-! ## The cap -/

/-- From `c₀` on, `fresh` was accepted. In the running window it stays at or below the limit, as
does what it has in the length before that window; in every interval of one length it stays at or
below twice the limit. -/
structure Counter.Capped (length limit : Nat) (c₀ : Counter) (fresh : List Entry) (c : Counter) :
    Prop where
  book : c.book = c₀.book ++ fresh
  running : c.volume ≤ limit ∨ fresh = [] ∧ c.volume = c₀.volume
  before : sumOver (fun t => t < c.start ∧ c.start ≤ t + length) fresh ≤ limit
  interval : ∀ lo, sumOver (fun t => lo ≤ t ∧ t ≤ lo + length) fresh ≤ 2 * limit

theorem Counter.Capped.refl (c : Counter) : c.Capped length limit [] c where
  book := (List.append_nil _).symm
  running := .inr ⟨rfl, rfl⟩
  before := Nat.zero_le _
  interval _ := Nat.zero_le _

/-- What the run has accepted in the running window. -/
theorem Counter.Capped.since_le {c₀ c : Counter} {fresh : List Entry}
    (h : c₀.Capped length limit fresh c) (hs : c.Sound length) :
    sumOver (c.start ≤ ·) fresh ≤ limit := by
  rcases h.running with hle | ⟨rfl, -⟩
  · have hvolume := hs.volume
    rw [h.book, sumOver_append] at hvolume
    omega
  · exact Nat.zero_le _

theorem step_capped {c₀ c c' : Counter} {fresh : List Entry} {e : Event} (hs : c.Sound length)
    (h : c₀.Capped length limit fresh c) (hstep : step length limit c e = some c') :
    ∃ fresh', c₀.Capped length limit fresh' c' := by
  cases e with
  | tick now =>
    obtain ⟨-, rfl⟩ := step_tick hstep
    exact ⟨fresh, h.book, h.running, h.before, h.interval⟩
  | accept amount =>
    have hsince := h.since_le hs
    have hs' := step_sound hs hstep
    obtain ⟨-, hbook, hlimit, hwindow⟩ := step_accept hstep
    have hbook' : c'.book = c₀.book ++ (fresh ++ [⟨c.now, amount⟩]) := by
      rw [hbook, h.book, List.append_assoc]
    have hrunning : sumOver (c'.start ≤ ·) (fresh ++ [⟨c.now, amount⟩]) ≤ limit := by
      have hvolume := hs'.volume
      rw [hbook', sumOver_append] at hvolume
      omega
    have hbefore : sumOver (fun t => t < c'.start ∧ c'.start ≤ t + length)
        (fresh ++ [⟨c.now, amount⟩]) ≤ limit := by
      have hstart := hs.start_le
      have hlast : ¬ (c.now < c'.start ∧ c'.start ≤ c.now + length) := by omega
      rw [sumOver_concat, if_neg hlast, Nat.add_zero]
      rcases hwindow with ⟨hlapsed, hnew, -⟩ | ⟨-, hsame, -⟩
      · -- less than a length before the new window is after the start of the last one
        refine (sumOver_mono fun e _ he => ?_).trans hsince
        have hbefore := he.2
        omega
      · rw [hsame]
        exact h.before
    refine ⟨fresh ++ [⟨c.now, amount⟩], hbook', .inl hlimit, hbefore, fun lo => ?_⟩
    by_cases hin : lo ≤ c.now ∧ c.now ≤ lo + length
    · have hstart : c'.start ≤ c.now := by
        have := hs.start_le
        omega
      have hsplit : sumOver (fun t => lo ≤ t ∧ t ≤ lo + length) (fresh ++ [⟨c.now, amount⟩]) ≤
          sumOver (fun t => t < c'.start ∧ c'.start ≤ t + length) (fresh ++ [⟨c.now, amount⟩]) +
            sumOver (c'.start ≤ ·) (fresh ++ [⟨c.now, amount⟩]) :=
        sumOver_le_add fun e _ he => by omega
      omega
    · rw [sumOver_concat, if_neg hin, Nat.add_zero]
      exact h.interval lo

/-! ## Runs -/

variable {c c' : Counter} {es : List Event}

/-- The windows of two points of a run. -/
theorem run_starts (hrun : Run.run (step length limit) c es = some c') : c.Apart length c' :=
  Run.run_relates (I := fun _ => True) (R := Counter.Apart length) (fun _ => .inl rfl)
    (fun _ _ _ => Counter.Apart.trans) (fun _ _ _ _ hstep => ⟨trivial, step_apart hstep⟩) hrun
    trivial

theorem run_capped (h : c.Sound length) (hrun : Run.run (step length limit) c es = some c') :
    ∃ fresh, c.Capped length limit fresh c' := by
  have hkeeps := Run.run_keeps (I := fun d => d.Sound length ∧ ∃ fresh, c.Capped length limit fresh d)
    (fun d e d' hd hstep => ?_) hrun ⟨h, [], .refl c⟩
  · exact hkeeps.2
  · obtain ⟨hs, fresh, hcapped⟩ := hd
    exact ⟨step_sound hs hstep, step_capped hs hcapped hstep⟩

end Window
