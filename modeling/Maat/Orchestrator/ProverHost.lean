import Maat.Lib.Run
import Maat.Orchestrator.ProverPipeline

/-!
# The host of the provers

Jobs of any number of listener processes on one machine: `flock` lets one prover run at a time, all
of them write into one directory, and a prover or a listener may be killed at any moment.
-/

namespace Maat.Orchestrator.Pipeline

open Js Suspension
open Prove (Sdk Disk)

/-- A prover that runs for a job. -/
structure Process (S : Sdk) where
  holder : Nat
  vkey : Str
  args : Prove.Args
  point : Prove.Point S

structure Host (S : Sdk) where
  disk : Disk S
  prover : Option (Process S)
  jobs : Nat → Option (Job × JobTurn)

inductive Event (S : Sdk) where
  /-- the queue starts a job -/
  | start (k : Nat) (job : Job)
  /-- `flock` lets job `k` have the lock -/
  | spawn (k : Nat) (config : Prove.Config)
  /-- the running prover gets an answer; `stderrTail` is read if it exits -/
  | prover (reply : Prove.Reply S) (stderrTail : Str)
  /-- the running prover is killed -/
  | kill (code : Nat) (stderrTail : Str)
  /-- what a killed prover leaves of a temporary file -/
  | torn (path : Str) (file : Prove.File S)
  /-- job `k` gets an answer other than a prover's exit, or `flock` does not start -/
  | answer (k : Nat) (reply : Reply S)
  /-- the process of job `k` ends, or a write of its display state throws -/
  | crash (k : Nat)

/-- The command line: prove mode, no corruption. -/
def proverArgs (txHash : Str) : List Str := ["prove".toList, txHash]

section

variable {S : Sdk} (L : Prove.Libraries) (dataOffset : List UInt8 → Nat → Option Nat)
  (toBase58 : List UInt8 → Option Str) (sha256 : List UInt8 → Bytes.Fixed 32)

/-- A job gets an answer. -/
def Host.feed (host : Host S) (k : Nat) (reply : Reply S) : Option (Host S) :=
  match host.jobs k with
  | none => none
  | some (job, turn) =>
    (Suspension.feed (resume toBase58 sha256 job) turn reply).map fun turn =>
      { host with jobs := Function.update host.jobs k (some (job, turn)) }

/-- The prover is gone with its lock, and its job, if it is still there, is told. -/
def Host.release (host : Host S) (k code : Nat) (stderrTail : Str) : Host S :=
  let host := { host with prover := none }
  (host.feed toBase58 sha256 k (.exited code stderrTail host.disk)).getD host

/-- The exit code of a spawn that failed is 1. -/
def Reply.ofOutside : Reply S → Bool
  | .exited code _ _ => code == 1
  | _ => true

def Host.step (host : Host S) : Event S → Option (Host S)
  | .start k job =>
    if host.jobs k = none then
      some { host with jobs := Function.update host.jobs k (some (job, Pipeline.start job)) }
    else none
  | .spawn k config =>
    match host.prover, host.jobs k with
    | none, some (job, ⟨_, _, .await (.proving _)⟩) =>
      match Prove.begin_ S config (proverArgs job.txHash),
        Prove.parseArgs (proverArgs job.txHash) with
      | .await point, some args =>
        some { host with prover := some ⟨k, config.vkey, args, point⟩ }
      | .exit code, _ => some (host.release toBase58 sha256 k code [])
      | _, _ => none
    | _, _ => none
  | .prover reply stderrTail =>
    match host.prover with
    | none => none
    | some process =>
      (Prove.resume L dataOffset process.vkey process.args host.disk process.point reply).map
        fun r =>
          let host := { host with disk := r.1 }
          match r.2 with
          | .await point => { host with prover := some { process with point } }
          | .exit code => host.release toBase58 sha256 process.holder code stderrTail
  | .kill code stderrTail =>
    match host.prover with
    | none => none
    | some process =>
      if code = 0 then none
      else some (host.release toBase58 sha256 process.holder code stderrTail)
  | .torn path file =>
    if host.prover.isNone then some { host with disk := host.disk.write (Prove.tmp path) file }
    else none
  | .answer k reply =>
    if reply.ofOutside then host.feed toBase58 sha256 k reply else none
  | .crash k => some { host with jobs := Function.update host.jobs k none }

end

/-- An empty directory, and no job. -/
def Host.initial (S : Sdk) : Host S where
  disk _ := none
  prover := none
  jobs _ := none

end Maat.Orchestrator.Pipeline
