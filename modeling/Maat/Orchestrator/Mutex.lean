import Maat.Lib.Serialiser

/-!
# Two serialisers

`ProverQueue` of `orchestrator/src/prover_pipeline.ts`, a flag and a queue that the callback of
`finally` pumps again, and `ReservationBook.runExclusive` of `orchestrator/src/solver_routing.ts`,
a chain of promises. The promises are named by what they belong to; the jobs are the caller's.
-/

namespace Maat.Orchestrator

open Promises Serialiser

variable {J O : Type}

namespace ProverQueue

inductive Name where
  /-- What the job returned that was started as number `n`. -/
  | job (n : Nat)
  /-- What `finally` returned. -/
  | after (n : Nat)
  deriving DecidableEq

/-- The callback of `finally`. -/
inductive Callback where
  | pump

/-- `queue` and `running`, and the jobs that have been started. -/
structure State (J : Type) where
  queue : List J
  running : Bool
  started : List J

abbrev Queue (J O : Type) : Type := Runtime (State J) Name Callback O

def pump (q : Queue J O) : Queue J O :=
  if q.state.running then q
  else
    match q.state.queue with
    | [] => q
    | next :: queue =>
      { state := ⟨queue, true, q.state.started ++ [next]⟩
        heap := q.heap.andThen (.job q.state.started.length) (.after q.state.started.length)
          (.callback .pump) }

def enqueue (job : J) (q : Queue J O) : Queue J O :=
  pump { q with state := { q.state with queue := q.state.queue ++ [job] } }

/-- After the callback the promise of `finally` settles as that of the job did. -/
def call : Callback → Name → O → Queue J O → Queue J O
  | .pump, derived, outcome, q =>
    let q := pump { q with state := { q.state with running := false } }
    { q with heap := q.heap.settle derived outcome }

def program : Program J (State J) Name Callback O := ⟨enqueue, call, .job, State.started⟩

def start : Queue J O := ⟨⟨[], false, []⟩, .empty⟩

end ProverQueue

namespace RunExclusive

inductive Name where
  /-- What `this.lock` was set to by the call before number `n`. -/
  | lock (n : Nat)
  /-- What call number `n` returned. -/
  | run (n : Nat)
  | job (n : Nat)
  deriving DecidableEq

inductive Callback (J : Type) where
  | fn (job : J)
  /-- `() => undefined` -/
  | ignore

/-- `this.lock` is the promise `lock n`. -/
structure State (J : Type) where
  lock : Nat
  started : List J

abbrev Chain (J O : Type) : Type := Runtime (State J) Name (Callback J) O

def runExclusive (fn : J) (c : Chain J O) : Chain J O :=
  let n := c.state.lock
  { state := { c.state with lock := n + 1 }
    heap := (c.heap.andThen (.lock n) (.run n) (.callback (.fn fn))).andThen (.run n) (.lock (n + 1))
      (.callback .ignore) }

variable (undefined : O)

def call : Callback J → Name → O → Chain J O → Chain J O
  | .fn job, derived, _, c =>
    { state := { c.state with started := c.state.started ++ [job] }
      heap := c.heap.resolveWith derived (.job c.state.started.length) }
  | .ignore, derived, _, c => { c with heap := c.heap.settle derived undefined }

def program : Program J (State J) Name (Callback J) O :=
  ⟨runExclusive, call undefined, .job, State.started⟩

/-- `this.lock` is `Promise.resolve()`. -/
def start : Chain J O := ⟨⟨0, []⟩, Heap.empty.settle (.lock 0) undefined⟩

end RunExclusive

end Maat.Orchestrator
