import Maat.Lib.Promise
import Maat.Lib.Schedule
import Mathlib.Data.List.Perm.Subperm
import Mathlib.Data.List.Range
import Mathlib.Data.Nat.Pairing

/-!
# Serialisers of asynchronous jobs

A program that is handed jobs and starts them. The schedule says when jobs are handed to it, when
and how the promise of a started job settles, and when the next microtask runs; it is any endless
list of such events, so a job may hand in others at any point of its work, also before its first
`await`.

`FairMutex` is what a serialiser is for. The rule is `Ranked.fairMutex`: an invariant with a rank
that no event lowers, and that goes up with the next microtask or with the job that runs. Any jobs
can be handed in on a fair schedule (`fair_roundRobin`), and all of them are started
(`FairMutex.started_roundRobin`).
-/

namespace Serialiser

open Promises Schedule

variable {J σ P H O O' : Type}

structure Program (J σ P H O : Type) where
  enqueue : J → Runtime σ P H O → Runtime σ P H O
  call : H → P → O → Runtime σ P H O → Runtime σ P H O
  /-- The promise that the job started as number `n` has returned. -/
  promise : Nat → P
  started : σ → List J

inductive Event (J O : Type) where
  | enqueue (job : J)
  | settle (n : Nat) (outcome : O)
  | microtask

section

variable [DecidableEq P] (S : Program J σ P H O) (start : Runtime σ P H O)

def Program.step (r : Runtime σ P H O) : Event J O → Runtime σ P H O
  | .enqueue job => S.enqueue job r
  | .settle n outcome =>
    if n < (S.started r.state).length then
      { r with heap := r.heap.settle (S.promise n) outcome }
    else r
  | .microtask => microtask S.call r

/-- Started and not settled. -/
def Program.running (r : Runtime σ P H O) : List Nat :=
  (List.range (S.started r.state).length).filter fun n => (r.heap.state (S.promise n)).isNone

/-- Before event `n`. -/
def Program.at (events : Nat → Event J O) (n : Nat) : Runtime σ P H O :=
  along S.step start events n

/-- The jobs handed in before event `n`. -/
def calls (events : Nat → Event J O) : Nat → List J
  | 0 => []
  | n + 1 =>
    match events n with
    | .enqueue job => calls events n ++ [job]
    | _ => calls events n

/-- Every job that runs settles, and microtasks run. -/
structure Fair (events : Nat → Event J O) : Prop where
  settles : ∀ n, ∀ i ∈ S.running (S.at start events n), ∃ m, n ≤ m ∧ ∃ o, events m = .settle i o
  microtasks : ∀ n, (S.at start events n).heap.tasks ≠ [] → ∃ m, n ≤ m ∧ events m = .microtask

def Event.map (f : O → O') : Event J O → Event J O'
  | .enqueue job => .enqueue job
  | .settle n outcome => .settle n (f outcome)
  | .microtask => .microtask

/-- What happens when, without how the jobs end. -/
def Event.shape : Event J O → Event J Unit := Event.map fun _ => ()

structure FairMutex : Prop where
  order : ∀ events n, S.started (S.at start events n).state <+: calls events n
  exclusion : ∀ events n, (S.running (S.at start events n)).length ≤ 1
  starts : ∀ events, Fair S start events → ∀ n k, k < (calls events n).length →
    ∃ m, n ≤ m ∧ k < (S.started (S.at start events m).state).length
  undelayed : ∀ events events', (∀ n, (events n).shape = (events' n).shape) → ∀ n,
    S.started (S.at start events n).state = S.started (S.at start events' n).state ∧
      S.running (S.at start events n) = S.running (S.at start events' n)

/-- The promises that the callers hold: `result n` goes to the caller of job `n`. -/
structure Delivers (result : Nat → P) : Prop where
  own : ∀ events n k o, (S.at start events n).heap.state (result k) = some o →
    (S.at start events n).heap.state (S.promise k) = some o
  delivered : ∀ events, Fair S start events → ∀ n k, k < (calls events n).length →
    ∃ m o, n ≤ m ∧ (S.at start events m).heap.state (result k) = some o

/-! ## Other outcomes -/

/-- The same program on other outcomes. -/
structure Natural (f : O → O') (S : Program J σ P H O) (S' : Program J σ P H O') : Prop where
  enqueue : ∀ job r, (S.enqueue job r).map f = S'.enqueue job (r.map f)
  call : ∀ h p o r, (S.call h p o r).map f = S'.call h p (f o) (r.map f)
  promise : S.promise = S'.promise
  started : S.started = S'.started

variable {S start} {S' : Program J σ P H O'} {f : O → O'}

theorem Natural.step (h : Natural f S S') (r : Runtime σ P H O) (e : Event J O) :
    (S.step r e).map f = S'.step (r.map f) (e.map f) := by
  cases e with
  | enqueue job => exact h.enqueue job r
  | settle n o =>
    simp only [Program.step, Event.map, ← h.promise, ← h.started]
    show _ = if n < (S.started r.state).length then _ else _
    split
    · exact congrArg (Runtime.mk r.state) (map_settle f r.heap (S.promise n) o)
    · rfl
  | microtask => exact map_microtask f h.call r

theorem Natural.at (h : Natural f S S') (events : Nat → Event J O) (n : Nat) :
    (S.at start events n).map f = S'.at (start.map f) (fun n => (events n).map f) n := by
  induction n with
  | zero => rfl
  | succ n ih =>
    rw [Program.at, along, ← Program.at, h.step, ih]
    rfl

omit [DecidableEq P] in
theorem Natural.running (h : Natural f S S') (r : Runtime σ P H O) :
    S.running r = S'.running (r.map f) := by
  unfold Program.running
  rw [← h.started, ← h.promise]
  simp only [Runtime.map, Heap.map, Option.isNone_map]

/-- How jobs end moves nothing. -/
theorem Natural.undelayed {S' : Program J σ P H Unit} (h : Natural (fun _ => ()) S S')
    {events events' : Nat → Event J O} (hshape : ∀ n, (events n).shape = (events' n).shape)
    (n : Nat) :
    S.started (S.at start events n).state = S.started (S.at start events' n).state ∧
      S.running (S.at start events n) = S.running (S.at start events' n) := by
  have heq : (S.at start events n).map (fun _ => ()) = (S.at start events' n).map (fun _ => ()) := by
    rw [h.at, h.at]
    congr 1
    exact funext hshape
  refine ⟨congrArg (fun r => S.started r.state) heq, ?_⟩
  rw [h.running, h.running, heq]

omit [DecidableEq P] in
theorem mem_running {r : Runtime σ P H O} {n : Nat} : n ∈ S.running r ↔
    n < (S.started r.state).length ∧ r.heap.state (S.promise n) = none := by
  rw [Program.running, List.mem_filter, List.mem_range, Option.isNone_iff_eq_none]

omit [DecidableEq P] in
/-- All jobs but one have settled. -/
theorem running_length_le {r : Runtime σ P H O} (k : Nat) (h : ∀ n < (S.started r.state).length,
    n ≠ k → r.heap.state (S.promise n) ≠ none) : (S.running r).length ≤ 1 := by
  have hnodup : (S.running r).Nodup := List.nodup_range.filter _
  have hsubset : S.running r ⊆ [k] := by
    intro n hn
    obtain ⟨hlt, hpending⟩ := mem_running.mp hn
    by_contra hne
    exact h n hlt (fun heq => hne (List.mem_singleton.mpr heq)) hpending
  exact (List.subperm_of_subset hnodup hsubset).length_le

/-! ## Ranks -/

/-- An invariant of the jobs handed in, the state and a rank. Below `weight` for each job handed
in, the rank goes up with the next microtask or when the job settles that runs. -/
structure Ranked (S : Program J σ P H O) (start : Runtime σ P H O) (weight : Nat)
    (I : List J → Runtime σ P H O → Nat → Prop) : Prop where
  start : I [] start 0
  enqueue : ∀ {history r ρ} job, I history r ρ →
    ∃ ρ', ρ ≤ ρ' ∧ I (history ++ [job]) (S.enqueue job r) ρ'
  settle : ∀ {history r ρ} n o, I history r ρ → n < (S.started r.state).length →
    ∃ ρ', ρ ≤ ρ' ∧ I history { r with heap := r.heap.settle (S.promise n) o } ρ'
  microtask : ∀ {history r ρ}, I history r ρ → ∃ ρ', ρ ≤ ρ' ∧ I history (microtask S.call r) ρ'
  advance : ∀ {history r ρ}, I history r ρ → ρ < weight * history.length →
    (r.heap.tasks ≠ [] ∧ ∀ history' r', I history' r' ρ →
      ∃ ρ', ρ < ρ' ∧ I history' (Promises.microtask S.call r') ρ') ∨
    ∃ n ∈ S.running r, ∀ history' r' o, I history' r' ρ →
      n < (S.started r'.state).length ∧
      ∃ ρ', ρ < ρ' ∧ I history' { r' with heap := r'.heap.settle (S.promise n) o } ρ'

variable {weight : Nat} {I : List J → Runtime σ P H O → Nat → Prop}

theorem Ranked.step (h : Ranked S start weight I) (events : Nat → Event J O) {n ρ : Nat}
    (hn : I (calls events n) (S.at start events n) ρ) :
    ∃ ρ', ρ ≤ ρ' ∧ I (calls events (n + 1)) (S.at start events (n + 1)) ρ' := by
  rw [Program.at, along, ← Program.at, calls]
  cases events n with
  | enqueue job => exact h.enqueue job hn
  | settle i o =>
    dsimp only [Program.step]
    by_cases hi : i < (S.started (S.at start events n).state).length
    · rw [if_pos hi]
      exact h.settle i o hn hi
    · rw [if_neg hi]
      exact ⟨ρ, le_rfl, hn⟩
  | microtask => exact h.microtask hn

theorem Ranked.later (h : Ranked S start weight I) {events : Nat → Event J O} {n m ρ : Nat}
    (hle : n ≤ m) (hn : I (calls events n) (S.at start events n) ρ) :
    ∃ ρ', ρ ≤ ρ' ∧ I (calls events m) (S.at start events m) ρ' := by
  induction m, hle using Nat.le_induction with
  | base => exact ⟨ρ, le_rfl, hn⟩
  | succ m _ ih =>
    obtain ⟨ρ₁, hle₁, h₁⟩ := ih
    obtain ⟨ρ₂, hle₂, h₂⟩ := h.step events h₁
    exact ⟨ρ₂, hle₁.trans hle₂, h₂⟩

theorem Ranked.at (h : Ranked S start weight I) (events : Nat → Event J O) (n : Nat) :
    ∃ ρ, I (calls events n) (S.at start events n) ρ := by
  obtain ⟨ρ, -, hρ⟩ : ∃ ρ, _ ∧ I (calls events n) (S.at start events n) ρ :=
    h.later (Nat.zero_le n) h.start
  exact ⟨ρ, hρ⟩

theorem calls_length_mono (events : Nat → Event J O) {n m : Nat} (hle : n ≤ m) :
    (calls events n).length ≤ (calls events m).length := by
  induction m, hle using Nat.le_induction with
  | base => exact le_rfl
  | succ m _ ih =>
    refine ih.trans ?_
    rw [calls]
    split
    · simp
    · exact le_rfl

theorem target_le {first length k : Nat} (hfirst : first ≤ weight) (hk : k < length) :
    weight * k + first ≤ weight * length :=
  calc weight * k + first ≤ weight * k + weight := Nat.add_le_add_left hfirst _
    _ = weight * (k + 1) := (Nat.mul_succ weight k).symm
    _ ≤ weight * length := Nat.mul_le_mul_left _ hk

/-- With fair schedules every rank is reached that the jobs handed in account for. -/
theorem Ranked.reaches (h : Ranked S start weight I) {events : Nat → Event J O}
    (hfair : Fair S start events) {n τ : Nat} (hτ : τ ≤ weight * (calls events n).length) :
    ∃ m ρ, n ≤ m ∧ τ ≤ ρ ∧ I (calls events m) (S.at start events m) ρ := by
  obtain ⟨ρ₀, hstart⟩ := h.at events n
  have hprogress : ∀ ρ m, (n ≤ m ∧ I (calls events m) (S.at start events m) ρ) → ρ < τ →
      ∃ ρ' m', ρ < ρ' ∧ m ≤ m' ∧ n ≤ m' ∧ I (calls events m') (S.at start events m') ρ' := by
    rintro ρ m ⟨hm, hI⟩ hlt
    have htop : ρ < weight * (calls events m).length :=
      hlt.trans_le (hτ.trans (Nat.mul_le_mul_left _ (calls_length_mono events hm)))
    -- up to the awaited event the rank goes up by itself, or the event raises it
    rcases h.advance hI htop with ⟨htasks, hup⟩ | ⟨i, hi, hup⟩
    · obtain ⟨m', hm', hevent⟩ := hfair.microtasks m htasks
      obtain ⟨ρ', hle, hI'⟩ := h.later hm' hI
      rcases hle.lt_or_eq with hgt | rfl
      · exact ⟨ρ', m', hgt, hm', hm.trans hm', hI'⟩
      · obtain ⟨ρ'', hgt, hI''⟩ := hup _ _ hI'
        refine ⟨ρ'', m' + 1, hgt, hm'.trans (Nat.le_succ _), hm.trans (hm'.trans (Nat.le_succ _)), ?_⟩
        rw [Program.at, along, ← Program.at, calls, hevent]
        exact hI''
    · obtain ⟨m', hm', o, hevent⟩ := hfair.settles m i hi
      obtain ⟨ρ', hle, hI'⟩ := h.later hm' hI
      rcases hle.lt_or_eq with hgt | rfl
      · exact ⟨ρ', m', hgt, hm', hm.trans hm', hI'⟩
      · obtain ⟨hstarted, ρ'', hgt, hI''⟩ := hup _ _ o hI'
        refine ⟨ρ'', m' + 1, hgt, hm'.trans (Nat.le_succ _), hm.trans (hm'.trans (Nat.le_succ _)), ?_⟩
        rw [Program.at, along, ← Program.at, calls, hevent, Program.step, if_pos hstarted]
        exact hI''
  obtain ⟨ρ, m, hρ, -, hm, hI⟩ := eventually τ hprogress ⟨le_rfl, hstart⟩
  exact ⟨m, ρ, hm, hρ, hI⟩

/-! ## A fair schedule -/

/-- Hand in the jobs one after another, then run a microtask and settle a job in turn, each job
again and again. -/
def roundRobin (jobs : List J) (outcome : O) (n : Nat) : Event J O :=
  match jobs[n]? with
  | some job => .enqueue job
  | none => if n % 2 = 0 then .microtask else .settle (n / 2).unpair.1 outcome

theorem fair_roundRobin (jobs : List J) (outcome : O) : Fair S start (roundRobin jobs outcome) where
  settles n i _ := by
    have hle := Nat.right_le_pair i (n + jobs.length)
    refine ⟨2 * i.pair (n + jobs.length) + 1, by omega, outcome, ?_⟩
    have hodd : (2 * i.pair (n + jobs.length) + 1) % 2 ≠ 0 := by omega
    have hhalf : (2 * i.pair (n + jobs.length) + 1) / 2 = i.pair (n + jobs.length) := by omega
    rw [roundRobin, List.getElem?_eq_none (by omega)]
    dsimp only
    rw [if_neg hodd, hhalf, Nat.unpair_pair]
  microtasks n _ := by
    refine ⟨2 * (n + jobs.length), by omega, ?_⟩
    rw [roundRobin, List.getElem?_eq_none (by omega)]
    exact if_pos (Nat.mul_mod_right 2 _)

theorem calls_roundRobin (jobs : List J) (outcome : O) (n : Nat) :
    calls (roundRobin jobs outcome) n = jobs.take n := by
  induction n with
  | zero => rfl
  | succ n ih =>
    rw [calls, ih, roundRobin, List.take_add_one]
    cases jobs[n]? with
    | some job => rfl
    | none =>
      rw [Option.toList_none, List.append_nil]
      dsimp only
      split
      · next heq => split at heq <;> cases heq
      · rfl

/-- A fair mutex starts any jobs, all of them. -/
theorem FairMutex.started_roundRobin (h : FairMutex S start) (jobs : List J) (outcome : O) :
    ∃ n, S.started (S.at start (roundRobin jobs outcome) n).state = jobs := by
  have hall (k : Nat) (hk : k ≤ jobs.length) : ∃ n, jobs.length ≤ n ∧
      k ≤ (S.started (S.at start (roundRobin jobs outcome) n).state).length := by
    cases k with
    | zero => exact ⟨_, le_rfl, Nat.zero_le _⟩
    | succ k =>
      refine h.starts _ (fair_roundRobin jobs outcome) jobs.length k ?_
      rwa [calls_roundRobin, List.take_length]
  obtain ⟨n, hn, hlength⟩ := hall jobs.length le_rfl
  have horder := h.order (roundRobin jobs outcome) n
  rw [calls_roundRobin, List.take_of_length_le hn] at horder
  exact ⟨n, horder.eq_of_length_le hlength⟩

variable {first : Nat}

/-- A serialiser whose job `k` has started when the rank is `weight * k + first`. -/
theorem Ranked.fairMutex (h : Ranked S start weight I) {S' : Program J σ P H Unit}
    (hnatural : Natural (fun _ => ()) S S')
    (horder : ∀ {history r ρ}, I history r ρ → S.started r.state <+: history)
    (hexclusion : ∀ {history r ρ}, I history r ρ → (S.running r).length ≤ 1)
    (hfirst : first ≤ weight) (hstarted : ∀ {history r ρ k}, I history r ρ →
      weight * k + first ≤ ρ → k < (S.started r.state).length) : FairMutex S start where
  order events n := by
    obtain ⟨ρ, hI⟩ := h.at events n
    exact horder hI
  exclusion events n := by
    obtain ⟨ρ, hI⟩ := h.at events n
    exact hexclusion hI
  starts events hfair n k hk := by
    obtain ⟨m, ρ, hm, hρ, hI⟩ := h.reaches hfair (target_le hfirst hk)
    exact ⟨m, hm, hstarted hI hρ⟩
  undelayed events events' hshape n := hnatural.undelayed hshape n

theorem Ranked.delivers (h : Ranked S start weight I) {result : Nat → P}
    (hown : ∀ {history r ρ k o}, I history r ρ → r.heap.state (result k) = some o →
      r.heap.state (S.promise k) = some o)
    (hfirst : first ≤ weight) (hresult : ∀ {history r ρ k}, I history r ρ →
      weight * k + first ≤ ρ → ∃ o, r.heap.state (result k) = some o) :
    Delivers S start result where
  own events n k o hk := by
    obtain ⟨ρ, hI⟩ := h.at events n
    exact hown hI hk
  delivered events hfair n k hk := by
    obtain ⟨m, ρ, hm, hρ, hI⟩ := h.reaches hfair (target_le hfirst hk)
    obtain ⟨o, ho⟩ := hresult hI hρ
    exact ⟨m, o, hm, ho⟩

end

end Serialiser
