import Maat.Lib.Run
import Maat.IntentManager.Contract

/-!
# The chain around the contract

A machine that runs the contract against everybody else. Its state is the world and the stack of
contract calls that wait for a callee; its events are what the outside can do: call the contract
(at top level, or from inside a callee that the contract is paying), let the waiting callee
return or revert, move tokens, force ETH in, let time pass.

Reverts are the EVM's: a callee that reverts takes the world back to where the contract called
it, and a contract call that reverts takes it back to where that call began. The value of an
outgoing ETH call leaves before the callee runs; a token's ledger is debited at some moment
while the callee runs (`Event.debit`). `Env.tracked` names the tokens whose ledger moves only by
transfers; any other token may answer anything.
-/

namespace Maat.IntentManager

open Resumption

/-- A contract call that waits for a callee. -/
structure Frame where
  /-- The world before the call, `msg.value` still with the caller. -/
  saved : World
  msg : Msg
  call : Call
  /-- The world when the callee was called, before any value left. -/
  asked : World
  ext : ExtCall
  /-- What an outgoing token transfer has still to debit from the contract's tokens. -/
  due : Nat
  resume : World → Option Nat → Res World Answer Err Unit

structure Machine where
  world : World
  /-- Innermost call first. -/
  stack : List Frame

inductive Event where
  | call (msg : Msg) (call : Call)
  /-- The callee returns `word`. -/
  | reply (word : Nat)
  /-- The callee reverts. -/
  | fail
  /-- The callee, a token, debits the outgoing transfer. -/
  | debit
  /-- A token credits the contract. -/
  | tokenIn (token : Address) (amount : Nat)
  /-- ETH arrives without a call into the contract. -/
  | forceEth (amount : Nat)
  | tick (timestamp : Nat)
  deriving DecidableEq

def ExtCall.target : ExtCall → Address
  | .sendEth recipient _ => recipient
  | .balanceOf token => token
  | .transferFrom token _ _ => token
  | .transfer token _ _ => token

/-- `balanceOf` is a `view` function, so it is reached by `STATICCALL`. -/
def ExtCall.isStatic : ExtCall → Bool
  | .balanceOf _ => true
  | _ => false

def ExtCall.ethValue : ExtCall → Nat
  | .sendEth _ value => value
  | _ => 0

/-- The tokens an outgoing transfer must debit. -/
def ExtCall.tokensDue : ExtCall → Nat
  | .transfer _ _ amount => amount
  | _ => 0

/-- What the call pays, seen from the contract. -/
def ExtCall.payment (call : Call) : ExtCall → List Payment
  | .sendEth recipient value => [⟨call, recipient, 0, value⟩]
  | .transfer token recipient amount => [⟨call, recipient, token, amount⟩]
  | _ => []

/-- The world in which the callee starts: the ETH has moved and the payment is on record. -/
def depart (call : Call) (ext : ExtCall) (w : World) : World :=
  { w with balance := w.balance - ext.ethValue, payments := w.payments ++ ext.payment call }

/-- The callee can be entered at all: the contract has the ETH, and the callee is not the
contract itself, which has neither a `receive` function nor the ERC-20 ones. -/
def Env.reachable (E : Env) (ext : ExtCall) (w : World) : Bool :=
  decide (ext.target ≠ E.self) && decide (ext.ethValue ≤ w.balance)

/-- What the machine comes to when a contract call that began in `saved` has come to a result:
finished, reverted, or waiting for a callee. A callee that cannot be entered counts as
reverted. -/
def settle (E : Env) (saved : World) (msg : Msg) (call : Call) (stack : List Frame) :
    Res World Answer Err Unit → Machine
  | .ret w _ => ⟨w, stack⟩
  | .throw _ _ => ⟨saved, stack⟩
  | .ask w ext k =>
    if E.reachable ext w then
      ⟨depart call ext w,
        { saved, msg, call, asked := w, ext, due := ext.tokensDue, resume := k } :: stack⟩
    else settle E saved msg call stack (k w none)

/-- State may change: no `STATICCALL` is running. -/
def Machine.writable (m : Machine) : Bool :=
  match m.stack with
  | [] => true
  | frame :: _ => !frame.ext.isStatic

/-- The arguments fit their ABI types. -/
def Call.inRange : Call → Bool
  | .submitIntent _ amount _ _ _ _ => decide (amount < 2 ^ 256)
  | .setDailyVolumeLimit newLimit => decide (newLimit < 2 ^ 256)
  | _ => true

/-- The caller is a real account other than the contract, and the ETH in existence fits in 256
bits. -/
def Env.admits (E : Env) (m : Machine) (msg : Msg) (call : Call) : Bool :=
  m.writable && call.inRange && decide (msg.sender ≠ 0) && decide (msg.sender ≠ E.self) &&
    decide (m.world.balance + msg.value < 2 ^ 256)

/-- A tracked token answers for its ledger, and has debited what it was asked to send. -/
def Env.answers (E : Env) (m : Machine) (frame : Frame) (word : Nat) : Bool :=
  decide (word < 2 ^ 256) &&
    (!E.tracked frame.ext.target || match frame.ext with
      | .balanceOf token => decide (word = m.world.tokenBalance token)
      | .transfer _ _ _ => decide (frame.due = 0)
      | _ => true)

/-- The contract waits for a `transferFrom` of `token`. -/
def Machine.pulling (m : Machine) (token : Address) : Bool :=
  match m.stack with
  | { ext := .transferFrom asset _ _, .. } :: _ => decide (asset = token)
  | _ => false

/-- One event. A run in which two hashed strings collide does not count: `step` below drops
it. -/
def rawStep (E : Env) (m : Machine) : Event → Option Machine
  | .call msg call =>
    if E.admits m msg call then
      some (settle E m.world msg call m.stack
        (exec E msg call { m.world with balance := m.world.balance + msg.value }))
    else none
  | .reply word =>
    match m.stack with
    | [] => none
    | frame :: stack =>
      if E.answers m frame word then
        some (settle E frame.saved frame.msg frame.call stack (frame.resume m.world (some word)))
      else none
  | .fail =>
    match m.stack with
    | [] => none
    | frame :: stack =>
      some (settle E frame.saved frame.msg frame.call stack (frame.resume frame.asked none))
  | .debit =>
    match m.stack with
    | [] => none
    | frame :: stack =>
      if frame.due ≠ 0 ∧ frame.due ≤ m.world.tokenBalance frame.ext.target then
        some
          ⟨{ m.world with
              tokenBalance := Function.update m.world.tokenBalance frame.ext.target
                (m.world.tokenBalance frame.ext.target - frame.due) },
            { frame with due := 0 } :: stack⟩
      else none
  | .tokenIn token amount =>
    if m.writable then
      some { m with
        world := { m.world with
          tokenBalance := Function.update m.world.tokenBalance token
            (m.world.tokenBalance token + amount)
          donated := if m.pulling token then m.world.donated else
            Function.update m.world.donated token (m.world.donated token + amount) } }
    else none
  | .forceEth amount =>
    if m.writable ∧ m.world.balance + amount < 2 ^ 256 then
      some { m with
        world := { m.world with
          balance := m.world.balance + amount
          forced := m.world.forced + amount } }
    else none
  | .tick timestamp =>
    if m.stack = [] ∧ m.world.timestamp ≤ timestamp then
      some { m with world := { m.world with timestamp } }
    else none

/-- No two of the strings hashed so far have the same hash. -/
def Env.collisionFree (E : Env) (hashed : List (List UInt8)) : Prop :=
  ∀ x ∈ hashed, ∀ y ∈ hashed, E.keccak256 x = E.keccak256 y → x = y

instance (E : Env) (hashed : List (List UInt8)) : Decidable (E.collisionFree hashed) :=
  inferInstanceAs (Decidable (∀ x ∈ hashed, ∀ y ∈ hashed, _ → _))

/-- One event of a run in which `keccak256` shows no collision. -/
def step (E : Env) (m : Machine) (e : Event) : Option Machine :=
  (rawStep E m e).filter fun m' => decide (E.collisionFree m'.world.hashed)

/-- The machine right after the constructor ran. -/
def deployed (storage : Storage) (timestamp : Nat) : Machine :=
  { world :=
      { storage with
        balance := 0, tokenBalance := fun _ => 0, forced := 0, donated := fun _ => 0, timestamp,
        logs := [], payments := [], hashed := [] }
    stack := [] }

/-- A machine reached by some run from a deployment. -/
def Reachable (E : Env) (m : Machine) : Prop :=
  ∃ orchestrator treasury owner timestamp storage events,
    constructor orchestrator treasury owner timestamp = some storage ∧
      Run.run (step E) (deployed storage timestamp) events = some m

end Maat.IntentManager
