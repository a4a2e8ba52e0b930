import Maat.Lib.Utf8
import Maat.Lib.Js

/-!
# The settling-signature handshake

Both ends of `SETTLING_SIG`: the stdout handler of `runSolanaPayout` (`orchestrator/src/listener.ts`)
and `waitForGo` of the child it spawns (`orchestrator/settle_intent.js`). Each end reads a stream that
arrives in chunks of any size. The parent keeps what it has read and looks for the line in all of
it; the child looks at each chunk alone.
-/

namespace Maat.Orchestrator

def ascii (s : String) : List UInt8 := s.toList.map fun c => UInt8.ofNat c.toNat

/-- A code point that `\s` matches. -/
def isSpace (c : Nat) : Bool :=
  decide (9 ≤ c ∧ c ≤ 13 ∨ c = 0x20 ∨ c = 0xA0 ∨ c = 0x1680 ∨ 0x2000 ≤ c ∧ c ≤ 0x200A ∨
    c = 0x2028 ∨ c = 0x2029 ∨ c = 0x202F ∨ c = 0x205F ∨ c = 0x3000 ∨ c = 0xFEFF)

/-- `SETTLING_SIG:` -/
def marker : List UInt8 := ascii "SETTLING_SIG:"

/-- The text after `pre`, if `pre` is what it starts with. -/
def after? : List Nat → List Nat → Option (List Nat)
  | [], t => some t
  | _ :: _, [] => none
  | p :: pre, c :: t => if p = c then after? pre t else none

/-- `text.match(/SETTLING_SIG:(\S+)/)`, group 1: the first place where something other than a space
follows the marker, and all of it up to the next space. -/
def matchSig : List Nat → Option (List Nat)
  | [] => none
  | c :: t =>
    match after? (marker.map UInt8.toNat) (c :: t) with
    | none => matchSig t
    | some rest =>
      match rest.takeWhile fun x => !isSpace x with
      | [] => matchSig t
      | x :: sig => some (x :: sig)

/-! ## The parent -/

/-- `GO\n` -/
def goMessage : List UInt8 := ascii "GO\n"

/-- What the handler does to the ledger, the display state and the child. -/
inductive HandshakeCall where
  | markSettling (intentId : Js.Str) (sig : List Nat)
  | setSettling (intentId : Js.Str) (sig : List Nat)
  /-- `settler.stdin.end(data)` -/
  | endStdin (data : List UInt8)
  deriving DecidableEq

/-- The handler's variables, and its calls so far. -/
structure Settler where
  settleOut : List Nat
  sigHandled : Bool
  settlingSig : Option (List Nat)
  calls : List HandshakeCall

def Settler.spawned : Settler :=
  { settleOut := [], sigHandled := false, settlingSig := none, calls := [] }

/-- `settler.stdout.on("data", ...)` -/
def Settler.onData (intentId : Js.Str) (s : Settler) (d : List UInt8) : Settler :=
  let settleOut := s.settleOut ++ Utf8.toString d
  if s.sigHandled then { s with settleOut }
  else
    match matchSig settleOut with
    | none => { s with settleOut }
    | some sig =>
      { settleOut, sigHandled := true, settlingSig := some sig
        calls := s.calls ++
          [.markSettling intentId sig, .setSettling intentId sig, .endStdin goMessage] }

/-- The handler over a whole stream. -/
def Settler.read (intentId : Js.Str) (s : Settler) (chunks : List (List UInt8)) : Settler :=
  chunks.foldl (Settler.onData intentId) s

/-! ## The child -/

/-- The promise of `waitForGo`. -/
inductive GoState where
  | pending
  | resolved
  /-- The timer went first. -/
  | rejected
  deriving DecidableEq

inductive GoEvent where
  | data (chunk : List UInt8)
  | timeout
  deriving DecidableEq

/-- `chunk.toString().includes('GO')` -/
def includesGo (chunk : List UInt8) : Bool :=
  decide ((ascii "GO").map UInt8.toNat <:+: Utf8.toString chunk)

def waitForGo : GoState → GoEvent → GoState
  | .pending, .data chunk => if includesGo chunk then .resolved else .pending
  | .pending, .timeout => .rejected
  | settled, _ => settled

end Maat.Orchestrator
