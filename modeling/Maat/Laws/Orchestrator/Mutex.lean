import Maat.Orchestrator.Mutex

/-!
# Fairness of the serialisers

Both start the jobs in the order in which they were handed in, one at a time, each of them once
every job before it has ended, however it ended (`serialisers_fair`).
-/

namespace Maat.Orchestrator

open Promises Serialiser

variable {J O : Type}

namespace ProverQueue

/-- What holds at any time: the queue is what has not been started. -/
structure Common (history : List J) (q : Queue J O) : Prop where
  history : history = q.state.started ++ q.state.queue
  fresh : ∀ n, q.state.started.length ≤ n →
    q.heap.state (.job n) = none ∧ q.heap.reactions (.job n) = []
  unheard : ∀ n, q.heap.reactions (.after n) = []

/-- Nothing runs; a job runs; a job has settled, and the callback is due. -/
inductive Inv (history : List J) (q : Queue J O) : Nat → Prop where
  | idle (common : Common history q) (flag : q.state.running = false)
      (settled : ∀ i < q.state.started.length, q.heap.state (.job i) ≠ none)
      (tasks : q.heap.tasks = []) (queue : q.state.queue = []) :
      Inv history q (3 * q.state.started.length)
  | busy (n : Nat) (common : Common history q) (flag : q.state.running = true)
      (length : q.state.started.length = n + 1)
      (settled : ∀ i < n, q.heap.state (.job i) ≠ none) (tasks : q.heap.tasks = [])
      (pending : q.heap.state (.job n) = none)
      (waits : q.heap.reactions (.job n) = [⟨.after n, .callback .pump⟩]) :
      Inv history q (3 * n + 1)
  | due (n : Nat) (o : O) (common : Common history q) (flag : q.state.running = true)
      (length : q.state.started.length = n + 1)
      (settled : ∀ i < n + 1, q.heap.state (.job i) ≠ none)
      (tasks : q.heap.tasks = [.react ⟨.after n, .callback .pump⟩ o]) :
      Inv history q (3 * n + 2)

variable {history : List J} {q : Queue J O}

theorem pump_next {next : J} {queue started : List J} {heap : Heap Name Callback O} :
    pump ⟨⟨next :: queue, false, started⟩, heap⟩ = ⟨⟨queue, true, started ++ [next]⟩,
      heap.andThen (.job started.length) (.after started.length) (.callback .pump)⟩ := rfl

/-- A pump with the flag down starts the next job. -/
theorem pump_inv (common : Common history q) (flag : q.state.running = false)
    (settled : ∀ i < q.state.started.length, q.heap.state (.job i) ≠ none)
    (tasks : q.heap.tasks = []) :
    ∃ ρ, 3 * q.state.started.length ≤ ρ ∧ Inv history (pump q) ρ := by
  obtain ⟨⟨queue, running, started⟩, heap⟩ := q
  dsimp only at flag
  subst flag
  cases queue with
  | nil => exact ⟨_, le_rfl, .idle common rfl settled tasks rfl⟩
  | cons next queue =>
    obtain ⟨hpending, halone⟩ := common.fresh started.length le_rfl
    refine ⟨3 * started.length + 1, Nat.le_succ _, ?_⟩
    rw [pump_next]
    refine .busy started.length ⟨?_, fun n hn => ?_, fun n => ?_⟩ rfl (by simp) ?_ ?_ ?_ ?_
    · rw [common.history, List.append_cons]
    · have hlt : started.length < n := by simpa [Nat.succ_le_iff] using hn
      obtain ⟨hstate, hreactions⟩ := common.fresh n hlt.le
      have hne : Name.job n ≠ .job started.length := by
        rintro ⟨⟩
        exact hlt.false
      exact ⟨by rwa [andThen_state], by rwa [andThen_reactions_of_ne hne]⟩
    · rw [andThen_reactions_of_ne (by simp)]
      exact common.unheard n
    · rwa [andThen_state]
    · rwa [andThen_tasks hpending]
    · rwa [andThen_state]
    · rw [andThen_reactions_self hpending, halone, List.nil_append]

theorem pump_running (flag : q.state.running = true) : pump q = q := by
  rw [pump, if_pos flag]

/-- The promise of `finally` is of no consequence. -/
theorem Inv.settle_after {ρ : Nat} (h : Inv history q ρ) (n : Nat) (o : O) :
    Inv history { q with heap := q.heap.settle (.after n) o } ρ := by
  have hstate : ∀ i, (q.heap.settle (.after n) o).state (.job i) = q.heap.state (.job i) :=
    fun i => settle_state_of_ne (by simp)
  have hcommon : ∀ common : Common history q,
      Common history { q with heap := q.heap.settle (.after n) o } ∧
        (q.heap.settle (.after n) o).tasks = q.heap.tasks ∧
        (q.heap.settle (.after n) o).reactions = q.heap.reactions := by
    intro common
    obtain ⟨htasks, hreactions⟩ : (q.heap.settle (.after n) o).tasks = q.heap.tasks ∧
        (q.heap.settle (.after n) o).reactions = q.heap.reactions :=
      settle_alone (common.unheard n)
    refine ⟨⟨common.history, fun i hi => ?_, fun i => ?_⟩, htasks, hreactions⟩
    · dsimp only
      rw [hstate, hreactions]
      exact common.fresh i hi
    · dsimp only
      rw [hreactions]
      exact common.unheard i
  cases h with
  | idle common flag settled tasks queue =>
    obtain ⟨hcommon, htasks, -⟩ := hcommon common
    exact .idle hcommon flag (fun i hi => by rw [hstate]; exact settled i hi)
      (htasks.trans tasks) queue
  | busy n common flag length settled tasks pending waits =>
    obtain ⟨hcommon, htasks, hreactions⟩ := hcommon common
    exact .busy n hcommon flag length (fun i hi => by rw [hstate]; exact settled i hi)
      (htasks.trans tasks) ((hstate n).trans pending) (by rw [hreactions]; exact waits)
  | due n o common flag length settled tasks =>
    obtain ⟨hcommon, htasks, -⟩ := hcommon common
    exact .due n o hcommon flag length (fun i hi => by rw [hstate]; exact settled i hi)
      (htasks.trans tasks)

theorem Inv.enqueue {ρ : Nat} (h : Inv history q ρ) (job : J) :
    ∃ ρ', ρ ≤ ρ' ∧ Inv (history ++ [job]) (enqueue job q) ρ' := by
  have hcommon : Common history q → Common (history ++ [job])
      { q with state := { q.state with queue := q.state.queue ++ [job] } } := by
    intro common
    exact ⟨by rw [common.history, List.append_assoc], common.fresh, common.unheard⟩
  have hwaits : q.state.running = true → ProverQueue.enqueue job q =
      { q with state := { q.state with queue := q.state.queue ++ [job] } } :=
    fun flag => pump_running flag
  cases h with
  | idle common flag settled tasks queue => exact pump_inv (hcommon common) flag settled tasks
  | busy n common flag length settled tasks pending waits =>
    rw [hwaits flag]
    exact ⟨_, le_rfl, .busy n (hcommon common) flag length settled tasks pending waits⟩
  | due n o common flag length settled tasks =>
    rw [hwaits flag]
    exact ⟨_, le_rfl, .due n o (hcommon common) flag length settled tasks⟩

/-- The job that runs settles. -/
theorem Inv.settles {n : Nat} (h : Inv history q (3 * n + 1)) (o : O) :
    n < q.state.started.length ∧
      Inv history { q with heap := q.heap.settle (.job n) o } (3 * n + 2) := by
  generalize hρ : 3 * n + 1 = ρ at h
  cases h with
  | idle => omega
  | due => omega
  | busy k common flag length settled tasks pending waits =>
    obtain rfl : n = k := by omega
    refine ⟨by omega, .due n o ⟨common.history, fun i hi => ?_, fun i => ?_⟩ flag length
      (fun i hi => ?_) ?_⟩
    · have hne : Name.job i ≠ .job n := by
        rintro ⟨⟩
        exact absurd hi (by dsimp only; omega)
      dsimp only
      rw [settle_state_of_ne hne, settle_reactions_of_ne hne]
      exact common.fresh i hi
    · dsimp only
      rw [settle_reactions_of_ne (by simp)]
      exact common.unheard i
    · rcases Nat.lt_succ_iff_lt_or_eq.mp hi with hi | rfl
      · dsimp only
        rw [settle_state_ne_none (settled i hi)]
        exact settled i hi
      · simp [settle_state_self pending]
    · simp [settle_tasks pending, tasks, waits]

/-- The callback of `finally` runs. -/
theorem Inv.calls {n : Nat} (h : Inv history q (3 * n + 2)) :
    ∃ ρ, 3 * n + 2 < ρ ∧ Inv history (microtask ProverQueue.call q) ρ := by
  generalize hρ : 3 * n + 2 = ρ at h
  cases h with
  | idle => omega
  | busy => omega
  | due k o common flag length settled tasks =>
    obtain rfl : n = k := by omega
    have hcommon : Common history
        { state := { q.state with running := false }, heap := { q.heap with tasks := [] } } :=
      ⟨common.history, common.fresh, common.unheard⟩
    obtain ⟨ρ, hle, hpump⟩ := pump_inv hcommon rfl (by simpa [length] using settled) rfl
    dsimp only at hle
    refine ⟨ρ, by omega, ?_⟩
    rw [microtask_callback tasks]
    exact hpump.settle_after n o

theorem ranked : Ranked (program (J := J) (O := O)) start 3 Inv where
  start := .idle ⟨rfl, fun _ _ => ⟨rfl, rfl⟩, fun _ => rfl⟩ rfl nofun rfl rfl
  enqueue job h := h.enqueue job
  settle := by
    intro history q ρ n o h hn
    change n < q.state.started.length at hn
    by_cases hpending : q.heap.state (.job n) = none
    · cases h with
      | idle common flag settled => exact absurd hpending (settled n hn)
      | busy k common flag length settled tasks pending waits =>
        rcases Nat.lt_or_eq_of_le (Nat.le_of_lt_succ (length ▸ hn)) with hlt | rfl
        · exact absurd hpending (settled n hlt)
        · have h : Inv history q (3 * n + 1) :=
            .busy n common flag length settled tasks pending waits
          exact ⟨_, Nat.le_succ _, (h.settles o).2⟩
      | due k _ common flag length settled => exact absurd hpending (settled n (length ▸ hn))
    · refine ⟨ρ, le_rfl, ?_⟩
      show Inv history { q with heap := q.heap.settle (.job n) o } ρ
      rwa [settle_settled hpending]
  microtask := by
    intro history q ρ h
    cases h with
    | idle common flag settled tasks queue =>
      refine ⟨_, le_rfl, ?_⟩
      rw [microtask_nil tasks]
      exact .idle common flag settled tasks queue
    | busy n common flag length settled tasks pending waits =>
      refine ⟨_, le_rfl, ?_⟩
      rw [microtask_nil tasks]
      exact .busy n common flag length settled tasks pending waits
    | due n o common flag length settled tasks =>
      have h : Inv history q (3 * n + 2) := .due n o common flag length settled tasks
      obtain ⟨ρ, hlt, hcalls⟩ := h.calls
      exact ⟨ρ, hlt.le, hcalls⟩
  advance := by
    intro history q ρ h htop
    cases h with
    | idle common flag settled tasks queue =>
      rw [common.history, queue, List.append_nil] at htop
      exact absurd htop (Nat.lt_irrefl _)
    | busy n common flag length settled tasks pending waits =>
      refine .inr ⟨n, ?_, fun history' q' o h' => ⟨(h'.settles o).1, _, Nat.lt_succ_self _,
        (h'.settles o).2⟩⟩
      simp [Program.running, program, length, pending]
    | due n o common flag length settled tasks =>
      refine .inl ⟨by simp [tasks], fun history' q' h' => h'.calls⟩

theorem natural {O' : Type} (f : O → O') :
    Natural f (program (J := J) (O := O)) (program (J := J) (O := O')) := by
  have hpump : ∀ q : Queue J O, (pump q).map f = pump (q.map f) := by
    intro q
    obtain ⟨⟨queue, running, started⟩, heap⟩ := q
    cases running with
    | true => rfl
    | false =>
      cases queue with
      | nil => rfl
      | cons next queue => exact congrArg (Runtime.mk _) (map_andThen f heap _ _ _)
  refine ⟨fun job q => hpump _, fun h p o q => ?_, rfl, rfl⟩
  cases h with
  | pump =>
    let down : Queue J O := { q with state := { q.state with running := false } }
    show Runtime.map f { pump down with heap := (pump down).heap.settle p o } =
      { pump (down.map f) with heap := (pump (down.map f)).heap.settle p (f o) }
    rw [← hpump]
    exact congrArg (Runtime.mk _) (map_settle f _ p o)

theorem fair : FairMutex (program (J := J) (O := O)) start := by
  refine ranked.fairMutex (natural _) (fun {history q ρ} h => ?_) (fun {history q ρ} h => ?_)
    (by decide : 1 ≤ 3) (fun {history q ρ k} h hk => ?_)
  · have hhistory : history = q.state.started ++ q.state.queue := by
      cases h with
      | idle common => exact common.history
      | busy _ common => exact common.history
      | due _ _ common => exact common.history
    exact ⟨q.state.queue, hhistory.symm⟩
  · cases h with
    | idle _ _ settled => exact running_length_le 0 fun n hn _ => settled n hn
    | busy n _ _ length settled =>
      refine running_length_le n fun i hi hne => settled i ?_
      change i < q.state.started.length at hi
      omega
    | due n _ _ _ length settled =>
      refine running_length_le n fun i hi _ => settled i ?_
      change i < q.state.started.length at hi
      omega
  · show k < q.state.started.length
    cases h with
    | idle => omega
    | busy n _ _ length => omega
    | due n _ _ _ length => omega

/-- On a fair schedule the queue comes to start all the jobs it was handed. -/
theorem starts_all (jobs : List J) (outcome : O) :
    ∃ n, (program.at start (roundRobin jobs outcome) n).state.started = jobs :=
  fair.started_roundRobin jobs outcome

end ProverQueue

namespace RunExclusive

variable {undefined : O}

/-- The chain when the locks up to `k` have settled, the first `j` calls have their outcomes and the
first `m` jobs have been started. -/
structure Common (undefined : O) (history : List J) (c : Chain J O) (k j m : Nat) : Prop where
  number : c.state.lock = history.length
  locks : ∀ i, c.heap.state (.lock i) = if i ≤ k then some undefined else none
  waits : ∀ i job, k < i → history[i]? = some job →
    c.heap.reactions (.lock i) = [⟨.run i, .callback (.fn job)⟩]
  lastLock : ∀ i, k < i → history.length ≤ i → c.heap.reactions (.lock i) = []
  done : ∀ i < j, ∃ o, c.heap.state (.job i) = some o ∧ c.heap.state (.run i) = some o
  runs : ∀ i, j ≤ i → i < history.length → c.heap.state (.run i) = none ∧
    c.heap.reactions (.run i) = [⟨.lock (i + 1), .callback .ignore⟩]
  freshRuns : ∀ i, history.length ≤ i → c.heap.state (.run i) = none ∧ c.heap.reactions (.run i) = []
  freshJobs : ∀ i, m ≤ i → c.heap.state (.job i) = none ∧ c.heap.reactions (.job i) = []
  started : c.state.started = history.take m
  bound : m ≤ history.length

/-- No call is left; the job is about to be called; what it returned is about to be looked at; the
job runs; its outcome goes to the caller; it goes on to the lock. -/
inductive Inv (undefined : O) (history : List J) (c : Chain J O) : Nat → Prop where
  | idle (k : Nat) (common : Common undefined history c k k k) (all : history.length = k)
      (tasks : c.heap.tasks = []) : Inv undefined history c (6 * k)
  | queued (k : Nat) (job : J) (o : O) (common : Common undefined history c k k k)
      (next : history[k]? = some job)
      (tasks : c.heap.tasks = [.react ⟨.run k, .callback (.fn job)⟩ o]) :
      Inv undefined history c (6 * k + 1)
  | linking (k : Nat) (common : Common undefined history c k k (k + 1))
      (alone : c.heap.reactions (.job k) = []) (tasks : c.heap.tasks = [.link (.run k) (.job k)]) :
      Inv undefined history c (6 * k + 2)
  | waiting (k : Nat) (common : Common undefined history c k k (k + 1))
      (pending : c.heap.state (.job k) = none)
      (waits : c.heap.reactions (.job k) = [⟨.run k, .adopt⟩]) (tasks : c.heap.tasks = []) :
      Inv undefined history c (6 * k + 3)
  | adopting (k : Nat) (o : O) (common : Common undefined history c k k (k + 1))
      (settled : c.heap.state (.job k) = some o)
      (tasks : c.heap.tasks = [.react ⟨.run k, .adopt⟩ o]) : Inv undefined history c (6 * k + 4)
  | ignoring (k : Nat) (o : O) (common : Common undefined history c k (k + 1) (k + 1))
      (tasks : c.heap.tasks = [.react ⟨.lock (k + 1), .callback .ignore⟩ o]) :
      Inv undefined history c (6 * k + 5)

variable {history : List J} {c : Chain J O} {k j m : Nat}

theorem Common.length (h : Common undefined history c k j m) : c.state.started.length = m := by
  rw [h.started, List.length_take, Nat.min_eq_left h.bound]

/-- A further call leaves the chain before it as it is. -/
theorem Common.enqueue (h : Common undefined history c k j m) (job : J) :
    Common undefined (history ++ [job]) (runExclusive job c) k j m := by
  have hn := h.number
  have hrun : (c.heap.andThen (.lock history.length) (.run history.length)
      (.callback (.fn job))).state (.run history.length) = none := by
    rw [andThen_state]
    exact (h.freshRuns _ le_rfl).1
  have hother : ∀ i, i ≠ history.length →
      (runExclusive job c).heap.reactions (.lock i) = c.heap.reactions (.lock i) ∧
        (runExclusive job c).heap.reactions (.run i) = c.heap.reactions (.run i) := by
    intro i hi
    simp [runExclusive, hn, hi]
  have hstate : (runExclusive job c).heap.state = c.heap.state := by simp [runExclusive]
  refine ⟨?_, fun i => ?_, fun i job' hi hget => ?_, fun i hi hlen => ?_, fun i hi => ?_,
    fun i hi hlen => ?_, fun i hlen => ?_, fun i hi => ?_, ?_, ?_⟩
  · simp [runExclusive, hn]
  · rw [hstate]
    exact h.locks i
  · rcases Nat.lt_or_ge i history.length with hlt | hge
    · rw [(hother i hlt.ne).1]
      rw [List.getElem?_append_left hlt] at hget
      exact h.waits i job' hi hget
    · have hi' := (List.getElem?_eq_some_iff.mp hget).1
      rw [List.length_append, List.length_singleton] at hi'
      obtain rfl : i = history.length := by omega
      rw [List.getElem?_concat_length] at hget
      cases hget
      have hlock : c.heap.state (.lock history.length) = none := by
        rw [h.locks, if_neg (by omega)]
      simp only [runExclusive, hn]
      rw [andThen_reactions_of_ne (by simp), andThen_reactions_self hlock,
        h.lastLock _ hi le_rfl, List.nil_append]
  · rw [List.length_append, List.length_singleton] at hlen
    rw [(hother i (by omega)).1]
    exact h.lastLock i hi (by omega)
  · rw [hstate]
    exact h.done i hi
  · rw [hstate]
    rw [List.length_append, List.length_singleton] at hlen
    rcases Nat.lt_succ_iff_lt_or_eq.mp hlen with hlt | rfl
    · rw [(hother i hlt.ne).2]
      exact h.runs i hi hlt
    · refine ⟨(h.freshRuns _ le_rfl).1, ?_⟩
      simp only [runExclusive, hn, andThen_reactions_self hrun]
      rw [andThen_reactions_of_ne (by simp), (h.freshRuns _ le_rfl).2, List.nil_append]
  · rw [hstate]
    rw [List.length_append, List.length_singleton] at hlen
    rw [(hother i (by omega)).2]
    exact h.freshRuns i (by omega)
  · simpa [runExclusive] using h.freshJobs i hi
  · rw [List.take_append_of_le_length h.bound]
    exact h.started
  · rw [List.length_append]
    exact Nat.le_add_right_of_le h.bound

/-- While a call is left, a further one waits. -/
theorem Common.enqueue_tasks (h : Common undefined history c k j m) (hk : k < history.length)
    (job : J) : (runExclusive job c).heap.tasks = c.heap.tasks := by
  have hlock : c.heap.state (.lock c.state.lock) = none := by
    rw [h.locks, h.number, if_neg (by omega)]
  have hrun : (c.heap.andThen (.lock c.state.lock) (.run c.state.lock)
      (.callback (.fn job))).state (.run c.state.lock) = none := by
    rw [andThen_state, h.number]
    exact (h.freshRuns _ le_rfl).1
  rw [runExclusive, andThen_tasks hrun, andThen_tasks hlock]

/-- With no call left, the job is queued. -/
theorem Common.enqueue_idle (h : Common undefined history c k j m) (hk : history.length = k)
    (job : J) : (runExclusive job c).heap.tasks =
      c.heap.tasks ++ [.react ⟨.run k, .callback (.fn job)⟩ undefined] := by
  have hlock : c.heap.state (.lock c.state.lock) = some undefined := by
    rw [h.locks, h.number, if_pos hk.le]
  have hrun : (c.heap.andThen (.lock c.state.lock) (.run c.state.lock)
      (.callback (.fn job))).state (.run c.state.lock) = none := by
    rw [andThen_state, h.number]
    exact (h.freshRuns _ le_rfl).1
  rw [runExclusive, andThen_tasks hrun, andThen_settled hlock, h.number, hk]

theorem enqueue_job (job : J) (i : Nat) :
    (runExclusive job c).heap.state (.job i) = c.heap.state (.job i) ∧
      (runExclusive job c).heap.reactions (.job i) = c.heap.reactions (.job i) := by
  simp [runExclusive]

theorem Inv.enqueue {ρ : Nat} (h : Inv undefined history c ρ) (job : J) :
    ∃ ρ', ρ ≤ ρ' ∧ Inv undefined (history ++ [job]) (runExclusive job c) ρ' := by
  cases h with
  | idle k common all tasks =>
    have hnext : (history ++ [job])[k]? = some job := by simp [← all]
    refine ⟨_, Nat.le_succ _, .queued k job undefined (common.enqueue job) hnext ?_⟩
    rw [common.enqueue_idle all, tasks, List.nil_append]
  | queued k job' o common next tasks =>
    have hk := (List.getElem?_eq_some_iff.mp next).1
    refine ⟨_, le_rfl, .queued k job' o (common.enqueue job) ?_ ?_⟩
    · rw [List.getElem?_append_left hk, next]
    · rw [common.enqueue_tasks hk, tasks]
  | linking k common alone tasks =>
    have hk : k < history.length := common.bound
    refine ⟨_, le_rfl, .linking k (common.enqueue job) ?_ ?_⟩
    · rw [(enqueue_job job k).2, alone]
    · rw [common.enqueue_tasks hk, tasks]
  | waiting k common pending waits tasks =>
    have hk : k < history.length := common.bound
    refine ⟨_, le_rfl, .waiting k (common.enqueue job) ?_ ?_ ?_⟩
    · rw [(enqueue_job job k).1, pending]
    · rw [(enqueue_job job k).2, waits]
    · rw [common.enqueue_tasks hk, tasks]
  | adopting k o common settled tasks =>
    have hk : k < history.length := common.bound
    refine ⟨_, le_rfl, .adopting k o (common.enqueue job) ?_ ?_⟩
    · rw [(enqueue_job job k).1, settled]
    · rw [common.enqueue_tasks hk, tasks]
  | ignoring k o common tasks =>
    have hk : k < history.length := common.bound
    refine ⟨_, le_rfl, .ignoring k o (common.enqueue job) ?_⟩
    rw [common.enqueue_tasks hk, tasks]

/-- A job that has been started settles, or has done so before. -/
theorem Common.settle (h : Common undefined history c k j m) {n : Nat} (hn : n < m) (o : O) :
    Common undefined history { c with heap := c.heap.settle (.job n) o } k j m := by
  refine ⟨h.number, fun i => ?_, fun i job hi hget => ?_, fun i hi hlen => ?_, fun i hi => ?_,
    fun i hi hlen => ?_, fun i hlen => ?_, fun i hi => ?_, h.started, h.bound⟩
  all_goals dsimp only
  · rw [settle_state_of_ne (by simp)]
    exact h.locks i
  · rw [settle_reactions_of_ne (by simp)]
    exact h.waits i job hi hget
  · rw [settle_reactions_of_ne (by simp)]
    exact h.lastLock i hi hlen
  · obtain ⟨o', hjob, hrun⟩ := h.done i hi
    refine ⟨o', ?_, ?_⟩
    · rw [settle_state_ne_none (by simp [hjob]), hjob]
    · rw [settle_state_of_ne (by simp), hrun]
  · rw [settle_state_of_ne (by simp), settle_reactions_of_ne (by simp)]
    exact h.runs i hi hlen
  · rw [settle_state_of_ne (by simp), settle_reactions_of_ne (by simp)]
    exact h.freshRuns i hlen
  · have hne : Name.job i ≠ .job n := by
      rintro ⟨⟩
      omega
    rw [settle_state_of_ne hne, settle_reactions_of_ne hne]
    exact h.freshJobs i hi

/-- Only the job of the call that is at work may be pending. -/
theorem Common.settled (h : Common undefined history c k j m) {n : Nat} (hn : n < j) :
    c.heap.state (.job n) ≠ none := by
  obtain ⟨o, ho, -⟩ := h.done n hn
  simp [ho]

/-- The job that runs settles. -/
theorem Inv.settles {n : Nat} (h : Inv undefined history c (6 * n + 3)) (o : O) :
    n < c.state.started.length ∧
      Inv undefined history { c with heap := c.heap.settle (.job n) o } (6 * n + 4) := by
  generalize hρ : 6 * n + 3 = ρ at h
  cases h with
  | waiting k common pending waits tasks =>
    obtain rfl : n = k := by omega
    refine ⟨by rw [common.length]; omega, .adopting n o (common.settle (Nat.lt_succ_self n) o) ?_ ?_⟩
    · exact settle_state_self pending
    · dsimp only
      rw [settle_tasks pending, tasks, waits]
      rfl
  | _ => omega

theorem Inv.settle {ρ n : Nat} (h : Inv undefined history c ρ) (hn : n < c.state.started.length)
    (o : O) : ∃ ρ', ρ ≤ ρ' ∧
      Inv undefined history { c with heap := c.heap.settle (.job n) o } ρ' := by
  by_cases hpending : c.heap.state (.job n) = none
  · cases h with
    | idle k common =>
      exact absurd hpending (common.settled (common.length ▸ hn))
    | queued k _ _ common =>
      exact absurd hpending (common.settled (common.length ▸ hn))
    | linking k common alone tasks =>
      rw [common.length] at hn
      rcases Nat.lt_succ_iff_lt_or_eq.mp hn with hlt | rfl
      · exact absurd hpending (common.settled hlt)
      · refine ⟨_, le_rfl, .linking n (common.settle hn o) (settle_reactions_self hpending) ?_⟩
        dsimp only
        rw [settle_tasks hpending, alone, tasks]
        rfl
    | waiting k common pending waits tasks =>
      rw [common.length] at hn
      rcases Nat.lt_succ_iff_lt_or_eq.mp hn with hlt | rfl
      · exact absurd hpending (common.settled hlt)
      · have h : Inv undefined history c (6 * n + 3) := .waiting n common pending waits tasks
        exact ⟨_, Nat.le_succ _, (h.settles o).2⟩
    | adopting k _ common settled =>
      rw [common.length] at hn
      rcases Nat.lt_succ_iff_lt_or_eq.mp hn with hlt | rfl
      · exact absurd hpending (common.settled hlt)
      · rw [settled] at hpending
        cases hpending
    | ignoring k _ common =>
      exact absurd hpending (common.settled (common.length ▸ hn))
  · refine ⟨ρ, le_rfl, ?_⟩
    rwa [settle_settled hpending]

/-- What the microtasks do to the tasks and the names that the chain is not at. -/
theorem Common.tasks (h : Common undefined history c k j m)
    (tasks : List (Task Name (Callback J) O)) :
    Common undefined history { c with heap := { c.heap with tasks := tasks } } k j m :=
  ⟨h.number, h.locks, h.waits, h.lastLock, h.done, h.runs, h.freshRuns, h.freshJobs, h.started,
    h.bound⟩

/-- The job is called. -/
theorem Common.call (h : Common undefined history c k k k) {job : J} (next : history[k]? = some job)
    (o : O) : Common undefined history (call undefined (.fn job) (.run k) o c) k k (k + 1) := by
  have hk := (List.getElem?_eq_some_iff.mp next).1
  refine ⟨h.number, h.locks, h.waits, h.lastLock, h.done, h.runs, h.freshRuns,
    fun i hi => h.freshJobs i (Nat.le_of_succ_le hi), ?_, hk⟩
  rw [List.take_add_one, next, ← h.started]
  rfl

/-- The promise of the job is looked at. -/
theorem Common.link (h : Common undefined history c k k (k + 1)) :
    Common undefined history
      { c with heap := c.heap.andThen (.job k) (.run k) .adopt } k k (k + 1) := by
  refine ⟨h.number, fun i => ?_, fun i job hi hget => ?_, fun i hi hlen => ?_, fun i hi => ?_,
    fun i hi hlen => ?_, fun i hlen => ?_, fun i hi => ?_, h.started, h.bound⟩
  all_goals dsimp only
  · rw [andThen_state]
    exact h.locks i
  · rw [andThen_reactions_of_ne (by simp)]
    exact h.waits i job hi hget
  · rw [andThen_reactions_of_ne (by simp)]
    exact h.lastLock i hi hlen
  · rw [andThen_state]
    exact h.done i hi
  · rw [andThen_state, andThen_reactions_of_ne (by simp)]
    exact h.runs i hi hlen
  · rw [andThen_state, andThen_reactions_of_ne (by simp)]
    exact h.freshRuns i hlen
  · have hne : Name.job i ≠ .job k := by
      rintro ⟨⟩
      omega
    rw [andThen_state, andThen_reactions_of_ne hne]
    exact h.freshJobs i hi

/-- The caller gets the outcome of the job. -/
theorem Common.adopt (h : Common undefined history c k k (k + 1)) {o : O}
    (settled : c.heap.state (.job k) = some o) :
    Common undefined history { c with heap := c.heap.settle (.run k) o } k (k + 1) (k + 1) := by
  have hpending := (h.runs k le_rfl h.bound).1
  refine ⟨h.number, fun i => ?_, fun i job hi hget => ?_, fun i hi hlen => ?_, fun i hi => ?_,
    fun i hi hlen => ?_, fun i hlen => ?_, fun i hi => ?_, h.started, h.bound⟩
  all_goals dsimp only
  · rw [settle_state_of_ne (by simp)]
    exact h.locks i
  · rw [settle_reactions_of_ne (by simp)]
    exact h.waits i job hi hget
  · rw [settle_reactions_of_ne (by simp)]
    exact h.lastLock i hi hlen
  · rw [settle_state_of_ne (by simp)]
    rcases Nat.lt_succ_iff_lt_or_eq.mp hi with hi | rfl
    · obtain ⟨o', hjob, hrun⟩ := h.done i hi
      exact ⟨o', hjob, by rw [settle_state_ne_none (by simp [hrun]), hrun]⟩
    · exact ⟨o, settled, settle_state_self hpending⟩
  · have hne : Name.run i ≠ .run k := by
      rintro ⟨⟩
      omega
    rw [settle_state_of_ne hne, settle_reactions_of_ne hne]
    exact h.runs i (Nat.le_of_succ_le hi) hlen
  · have hne : Name.run i ≠ .run k := by
      rintro ⟨⟩
      exact absurd h.bound (by omega)
    rw [settle_state_of_ne hne, settle_reactions_of_ne hne]
    exact h.freshRuns i hlen
  · rw [settle_state_of_ne (by simp), settle_reactions_of_ne (by simp)]
    exact h.freshJobs i hi

/-- The next lock settles. -/
theorem Common.release (h : Common undefined history c k (k + 1) (k + 1)) :
    Common undefined history { c with heap := c.heap.settle (.lock (k + 1)) undefined }
      (k + 1) (k + 1) (k + 1) := by
  have hpending : c.heap.state (.lock (k + 1)) = none := by rw [h.locks, if_neg (by omega)]
  have hne : ∀ i, i ≠ k + 1 → Name.lock i ≠ .lock (k + 1) := by
    rintro i hi ⟨⟩
    exact hi rfl
  refine ⟨h.number, fun i => ?_, fun i job hi hget => ?_, fun i hi hlen => ?_, fun i hi => ?_,
    fun i hi hlen => ?_, fun i hlen => ?_, fun i hi => ?_, h.started, h.bound⟩
  all_goals dsimp only
  · by_cases hi : i = k + 1
    · subst hi
      rw [settle_state_self hpending, if_pos le_rfl]
    · rw [settle_state_of_ne (hne i hi), h.locks]
      simp only [show i ≤ k ↔ i ≤ k + 1 by omega]
  · rw [settle_reactions_of_ne (hne i hi.ne')]
    exact h.waits i job (Nat.lt_of_succ_lt hi) hget
  · rw [settle_reactions_of_ne (hne i hi.ne')]
    exact h.lastLock i (Nat.lt_of_succ_lt hi) hlen
  · rw [settle_state_of_ne (by simp), settle_state_of_ne (by simp)]
    exact h.done i hi
  · rw [settle_state_of_ne (by simp), settle_reactions_of_ne (by simp)]
    exact h.runs i hi hlen
  · rw [settle_state_of_ne (by simp), settle_reactions_of_ne (by simp)]
    exact h.freshRuns i hlen
  · rw [settle_state_of_ne (by simp), settle_reactions_of_ne (by simp)]
    exact h.freshJobs i hi

/-- With a task in the queue, the next microtask goes on. -/
theorem Inv.goes_on {ρ : Nat} (h : Inv undefined history c ρ) (htasks : c.heap.tasks ≠ []) :
    ∃ ρ', ρ < ρ' ∧ Inv undefined history (microtask (call undefined) c) ρ' := by
  obtain ⟨state, heap⟩ := c
  -- the same chain without the task
  let rest : Heap Name (Callback J) O := { heap with tasks := [] }
  cases h with
  | idle k common all tasks => exact absurd tasks htasks
  | waiting k common pending waits tasks => exact absurd tasks htasks
  | queued k job o common next tasks =>
    have hrest := common.tasks []
    rw [microtask_callback tasks]
    refine ⟨_, Nat.lt_succ_self _, .linking k (hrest.call next o) (common.freshJobs k le_rfl).2 ?_⟩
    have hlength : state.started.length = k := common.length
    show [] ++ [Task.link (Name.run k) (Name.job state.started.length)] = _
    rw [hlength]
    rfl
  | linking k common alone tasks =>
    have hrest : Common undefined history ⟨state, rest⟩ k k (k + 1) := common.tasks []
    rw [microtask_link tasks]
    cases hjob : rest.state (.job k) with
    | none =>
      refine ⟨_, Nat.lt_succ_self _, .waiting k hrest.link ?_ ?_ (andThen_tasks hjob)⟩
      · exact (congrFun andThen_state _).trans hjob
      · exact (andThen_reactions_self hjob).trans (congrArg (· ++ _) alone)
    | some o =>
      refine ⟨_, Nat.lt_add_of_pos_right (by decide : 0 < 2), .adopting k o hrest.link ?_ ?_⟩
      · exact (congrFun andThen_state _).trans hjob
      · exact congrArg Heap.tasks (andThen_settled hjob)
  | adopting k o common settled tasks =>
    have hrest : Common undefined history ⟨state, rest⟩ k k (k + 1) := common.tasks []
    obtain ⟨hpending, hwaits⟩ := hrest.runs k le_rfl hrest.bound
    rw [microtask_adopt tasks]
    refine ⟨_, Nat.lt_succ_self _, .ignoring k o (hrest.adopt settled) ?_⟩
    refine (settle_tasks hpending).trans ?_
    rw [hwaits]
    rfl
  | ignoring k o common tasks =>
    have hrest : Common undefined history ⟨state, rest⟩ k (k + 1) (k + 1) := common.tasks []
    have hpending : rest.state (.lock (k + 1)) = none := by
      rw [hrest.locks, if_neg (by omega)]
    rw [microtask_callback tasks]
    cases hget : history[k + 1]? with
    | none =>
      have hall : history.length = k + 1 :=
        Nat.le_antisymm (List.getElem?_eq_none_iff.mp hget) common.bound
      refine ⟨6 * (k + 1), by omega, .idle (k + 1) hrest.release hall ?_⟩
      refine (settle_tasks hpending).trans ?_
      rw [hrest.lastLock (k + 1) (Nat.lt_succ_self k) hall.le]
      rfl
    | some job =>
      refine ⟨6 * (k + 1) + 1, by omega, .queued (k + 1) job undefined hrest.release hget ?_⟩
      refine (settle_tasks hpending).trans ?_
      rw [hrest.waits (k + 1) job (Nat.lt_succ_self k) hget]
      rfl

theorem start_inv : Inv undefined ([] : List J) (start undefined) 0 := by
  have hpending : (Heap.empty : Heap Name (Callback J) O).state (.lock 0) = none := rfl
  have hempty : ∀ p, p ≠ .lock 0 → (start (J := J) undefined).heap.state p = none ∧
      (start (J := J) undefined).heap.reactions p = [] := by
    intro p hp
    show (Heap.settle Heap.empty (.lock 0) undefined).state p = none ∧
      (Heap.settle Heap.empty (.lock 0) undefined).reactions p = []
    rw [settle_state_of_ne hp, settle_reactions_of_ne hp]
    exact ⟨rfl, rfl⟩
  refine .idle 0 ⟨rfl, fun i => ?_, nofun, fun i hi _ => ?_, nofun, nofun,
    fun i _ => hempty _ (by simp), fun i _ => hempty _ (by simp), rfl, le_rfl⟩ rfl rfl
  · cases i with
    | zero => exact settle_state_self hpending
    | succ i => exact (hempty _ (by simp)).1
  · refine (hempty _ ?_).2
    rintro ⟨⟩
    exact absurd hi (Nat.lt_irrefl _)

theorem ranked : Ranked (program (J := J) undefined) (start undefined) 6 (Inv undefined) where
  start := start_inv
  enqueue job h := h.enqueue job
  settle n o h hn := h.settle hn o
  microtask := by
    intro history c ρ h
    by_cases htasks : c.heap.tasks = []
    · refine ⟨ρ, le_rfl, ?_⟩
      rwa [microtask_nil htasks]
    · obtain ⟨ρ', hlt, h'⟩ := h.goes_on htasks
      exact ⟨ρ', hlt.le, h'⟩
  advance := by
    intro history c ρ h htop
    have hgoes : c.heap.tasks ≠ [] → (∀ k, ρ ≠ 6 * k + 3) → (∀ k, ρ ≠ 6 * k) →
        c.heap.tasks ≠ [] ∧ ∀ (history' : List J) (c' : Chain J O), Inv undefined history' c' ρ →
          ∃ ρ', ρ < ρ' ∧ Inv undefined history' (microtask (call undefined) c') ρ' := by
      intro htasks hwaiting hidle
      refine ⟨htasks, fun history' c' h' => h'.goes_on fun hnil => ?_⟩
      cases h' with
      | idle k => exact hidle k rfl
      | waiting k => exact hwaiting k rfl
      | queued _ _ _ _ _ tasks | linking _ _ _ tasks | adopting _ _ _ _ tasks
      | ignoring _ _ _ tasks =>
        rw [tasks] at hnil
        cases hnil
    cases h with
    | idle k common all => exact absurd htop (by omega)
    | waiting k common pending waits tasks =>
      refine .inr ⟨k, ?_, fun history' c' o h' => ⟨(h'.settles o).1, _, Nat.lt_succ_self _,
        (h'.settles o).2⟩⟩
      refine (mem_running (S := program undefined)).mpr ⟨?_, pending⟩
      exact common.length ▸ Nat.lt_succ_self k
    | queued k job o common next tasks =>
      exact .inl (hgoes (by simp [tasks]) (by omega) (by omega))
    | linking k common alone tasks =>
      exact .inl (hgoes (by simp [tasks]) (by omega) (by omega))
    | adopting k o common settled tasks =>
      exact .inl (hgoes (by simp [tasks]) (by omega) (by omega))
    | ignoring k o common tasks =>
      exact .inl (hgoes (by simp [tasks]) (by omega) (by omega))

theorem natural {O' : Type} (f : O → O') :
    Natural f (program (J := J) undefined) (program (J := J) (f undefined)) := by
  refine ⟨fun job c => ?_, fun h p o c => ?_, rfl, rfl⟩
  · refine congrArg (Runtime.mk _) ((map_andThen f _ _ _ _).trans ?_)
    rw [map_andThen]
    rfl
  · cases h with
    | fn job => exact congrArg (Runtime.mk _) (map_resolveWith f c.heap _ _)
    | ignore => exact congrArg (Runtime.mk _) (map_settle f c.heap _ _)

/-- Where the chain is. -/
theorem Inv.common {ρ : Nat} (h : Inv undefined history c ρ) :
    ∃ k j m, Common undefined history c k j m ∧ k ≤ j ∧ j ≤ m ∧ m ≤ k + 1 ∧
      (∀ i, 6 * i + 2 ≤ ρ → i < m) ∧ ∀ i, 6 * i + 5 ≤ ρ → i < j := by
  cases h with
  | idle k common => exact ⟨k, k, k, common, le_rfl, le_rfl, Nat.le_succ k, by omega, by omega⟩
  | queued k _ _ common =>
    exact ⟨k, k, k, common, le_rfl, le_rfl, Nat.le_succ k, by omega, by omega⟩
  | linking k common =>
    exact ⟨k, k, k + 1, common, le_rfl, Nat.le_succ k, le_rfl, by omega, by omega⟩
  | waiting k common =>
    exact ⟨k, k, k + 1, common, le_rfl, Nat.le_succ k, le_rfl, by omega, by omega⟩
  | adopting k _ common =>
    exact ⟨k, k, k + 1, common, le_rfl, Nat.le_succ k, le_rfl, by omega, by omega⟩
  | ignoring k _ common =>
    exact ⟨k, k + 1, k + 1, common, Nat.le_succ k, le_rfl, le_rfl, by omega, by omega⟩

theorem fair : FairMutex (program (J := J) undefined) (start undefined) := by
  refine ranked.fairMutex (natural _) (fun {history c ρ} h => ?_) (fun {history c ρ} h => ?_)
    (by decide : 2 ≤ 6) (fun {history c ρ i} h hi => ?_)
  · obtain ⟨k, j, m, common, -⟩ := h.common
    show c.state.started <+: history
    rw [common.started]
    exact List.take_prefix m history
  · obtain ⟨k, j, m, common, hkj, hjm, hmk, -⟩ := h.common
    refine running_length_le k fun n hn hne => common.settled ?_
    change n < c.state.started.length at hn
    rw [common.length] at hn
    omega
  · obtain ⟨k, j, m, common, -, -, -, hstarted, -⟩ := h.common
    exact common.length.symm ▸ hstarted i hi

/-- On a fair schedule all the jobs that were handed in come to start. -/
theorem starts_all (jobs : List J) (outcome : O) :
    ∃ n, ((program undefined).at (start undefined) (roundRobin jobs outcome) n).state.started =
      jobs :=
  fair.started_roundRobin jobs outcome

/-- Each caller gets the outcome of its own job. -/
theorem delivers : Delivers (program (J := J) undefined) (start undefined) Name.run := by
  refine ranked.delivers (fun {history c ρ i o} h hrun => ?_) (by decide : 5 ≤ 6)
    (fun {history c ρ i} h hi => ?_)
  · obtain ⟨k, j, m, common, -⟩ := h.common
    rcases Nat.lt_or_ge i j with hlt | hge
    · obtain ⟨o', hjob, hrun'⟩ := common.done i hlt
      rw [hrun'] at hrun
      rwa [← hrun]
    · rcases Nat.lt_or_ge i history.length with hlt | hlen
      · rw [(common.runs i hge hlt).1] at hrun
        cases hrun
      · rw [(common.freshRuns i hlen).1] at hrun
        cases hrun
  · obtain ⟨k, j, m, common, -, -, -, -, hdone⟩ := h.common
    obtain ⟨o, -, hrun⟩ := common.done i (hdone i hi)
    exact ⟨o, hrun⟩

end RunExclusive

/-- Both serialisers are fair mutexes, and `runExclusive` gives each caller what its own job came
to. -/
theorem serialisers_fair {J τ ε : Type} (undefined : τ) :
    FairMutex (ProverQueue.program (J := J) (O := Except ε τ)) ProverQueue.start ∧
      FairMutex (RunExclusive.program (J := J) (O := Except ε τ) (.ok undefined))
        (RunExclusive.start (.ok undefined)) ∧
      Delivers (RunExclusive.program (J := J) (O := Except ε τ) (.ok undefined))
        (RunExclusive.start (.ok undefined)) RunExclusive.Name.run :=
  ⟨ProverQueue.fair, RunExclusive.fair, RunExclusive.delivers⟩

end Maat.Orchestrator
