import Mathlib.Data.List.Infix
import Maat.Lib.Js
import Maat.Lib.Run

/-!
# RPC rotation

`orchestrator/src/rpc_rotation.ts`: the transports of one process with any number of requests at a
time. They share what they know of a URL's health. What a post gives is a parameter, a cooldown is a
whole number of seconds, and the clock never goes back.
-/

namespace Maat.Orchestrator.RpcRotation

open Js

def DEFAULT_SWEEP_RETRY_COUNT : Nat := 3

def DEFAULT_SWEEP_RETRY_DELAY_MS : Nat := 150

/-- `coolDownUntilMs` of each URL. -/
abbrev Health : Type := Str → Nat

/-- `isCapacityError` of an error with this message. -/
def isCapacityError (message : Str) : Bool :=
  ["429", "capacity", "rate limit", "too many requests"].any fun text =>
    decide (text.toList <:+: toLowerCase message)

/-- Round-robin from `startIndex`, without the URLs that cool down; if all do, those first that have
done so for longest. -/
def rotationOrder (health : Health) (urls : List Str) (startIndex nowMs : Nat) : List Nat :=
  let order := (List.range urls.length).map fun i => (startIndex + i) % urls.length
  let coolDownUntilMs (i : Nat) : Nat := health (urls.getD i [])
  let available := order.filter fun i => decide (coolDownUntilMs i ≤ nowMs)
  if available ≠ [] then available
  else order.mergeSort fun a b => decide (coolDownUntilMs a ≤ coolDownUntilMs b)

/-- Without a URL `createRotatingHttpTransport` throws. -/
structure Transport where
  urls : List Str
  configured : urls ≠ []

inductive Call where
  /-- sweep `attempt` of request `k` tries a URL -/
  | rpcPost (k attempt idx : Nat)
  | sleep (k ms : Nat)
  /-- the line that a URL cools down until then -/
  | warn (url : Str) (coolDownUntilMs : Nat)
  deriving DecidableEq

/-- What a request waits for, in sweep `attempt`. -/
inductive Point where
  | rpcPost (attempt idx : Nat) (rest : List Nat)
  | sleep (attempt : Nat)
  | returned
  | threw (message : Str)
  deriving DecidableEq

structure Request where
  transport : Nat
  point : Point
  deriving DecidableEq

structure State where
  nowMs : Nat
  healthByUrl : Health
  nextStartIndex : Nat → Nat
  requests : Nat → Option Request
  calls : List Call

inductive Event where
  | tick (ms : Nat)
  | request (k transport : Nat)
  | answer (k : Nat) (result : Except Str Unit)
  | slept (k : Nat)

def State.initial (nowMs : Nat) : State where
  nowMs
  healthByUrl _ := 0
  nextStartIndex _ := 0
  requests _ := none
  calls := []

section

variable (transports : Nat → Transport) (cooldownSec : Nat)

/-- Request `k` comes to a point with a call. -/
def State.goOn (s : State) (k transport : Nat) (point : Point) (calls : List Call) : State :=
  { s with
    requests := Function.update s.requests k (some ⟨transport, point⟩)
    calls := s.calls ++ calls }

/-- A sweep has failed. -/
def State.failed (s : State) (k transport attempt : Nat) (message : Str) : State :=
  if attempt < DEFAULT_SWEEP_RETRY_COUNT then
    s.goOn k transport (.sleep attempt) [.sleep k (2 ^ attempt * DEFAULT_SWEEP_RETRY_DELAY_MS)]
  else s.goOn k transport (.threw message) []

/-- The next URL of a sweep. -/
def State.tryNext (s : State) (k transport attempt : Nat) (lastErr : Str) : List Nat → State
  | [] => s.failed k transport attempt lastErr
  | idx :: rest => s.goOn k transport (.rpcPost attempt idx rest) [.rpcPost k attempt idx]

/-- `attemptSweep` up to its first post. -/
def State.attemptSweep (s : State) (k transport attempt : Nat) : State :=
  s.tryNext k transport attempt "undefined".toList
    (rotationOrder s.healthByUrl (transports transport).urls (s.nextStartIndex transport) s.nowMs)

def State.recordCapacityError (s : State) (url : Str) : State :=
  let coolDownUntilMs := s.nowMs + cooldownSec * 1000
  { s with
    healthByUrl := Function.update s.healthByUrl url coolDownUntilMs
    calls := s.calls ++
      if s.nowMs < s.healthByUrl url then [] else [.warn url coolDownUntilMs] }

def step (s : State) : Event → Option State
  | .tick ms => some { s with nowMs := s.nowMs + ms }
  | .request k transport =>
    if s.requests k = none then some (s.attemptSweep transports k transport 0) else none
  | .answer k result =>
    match s.requests k with
    | some ⟨transport, .rpcPost attempt idx rest⟩ =>
      let urls := (transports transport).urls
      match result with
      | .ok _ => some
          { s.goOn k transport .returned [] with
            nextStartIndex := Function.update s.nextStartIndex transport ((idx + 1) % urls.length) }
      | .error message =>
        let s := if isCapacityError message then
          s.recordCapacityError cooldownSec (urls.getD idx []) else s
        some (s.tryNext k transport attempt message rest)
    | _ => none
  | .slept k =>
    match s.requests k with
    | some ⟨transport, .sleep attempt⟩ =>
      some (s.attemptSweep transports k transport (attempt + 1))
    | _ => none

end

end Maat.Orchestrator.RpcRotation
