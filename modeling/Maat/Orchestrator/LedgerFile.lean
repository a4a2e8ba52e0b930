import Maat.Lib.Js
import Maat.Lib.Json

/-!
# The settled ledger and its file

`loadLedger`, `persistLedger`, `markSettling` and `markSettled` of
`orchestrator/src/prover_pipeline.ts`, with the parts of `runSolanaPayout` and of the
reconciliations that call them. The ledger is a map in memory, and each change writes the whole of
it over the file in place. A write may fail or the process may die at any point of it. A file is
its text.
-/

namespace Maat.Orchestrator.LedgerFile

open Js Json

/-- From an intent in lower case to its entry, in the order of a `Map`. A file may hold any value as
an entry. -/
abbrev Ledger := List (Str × Value)

def settling : Str := "settling".toList

def settled : Str := "settled".toList

/-- `entry?.status`, if it is a string. -/
def statusOf (entry : Value) : Option Str :=
  match entry.member "status".toList with
  | some (.string status) => some status
  | _ => none

/-- `settledLedger.get(intentId.toLowerCase())` -/
def getLedgerEntry (ledger : Ledger) (intentId : Str) : Option Value :=
  ledger.lookup (toLowerCase intentId)

def statusIs (ledger : Ledger) (intentId status : Str) : Bool :=
  (getLedgerEntry ledger intentId).bind statusOf == some status

def isAlreadySettled (ledger : Ledger) (intentId : Str) : Bool := statusIs ledger intentId settled

/-! ## Reading the file -/

/-- An entry of the older format, an array of settled intents. -/
def legacyEntry : Value :=
  .object [("status".toList, .string settled),
    ("updatedAt".toList, .string "1970-01-01T00:00:00.000Z".toList)]

/-- `toLowerCase` throws at the first item that is no string; what was read before stays. -/
def loadIds (ledger : Ledger) : List Value → Ledger
  | .string id :: ids => loadIds (put (toLowerCase id) legacyEntry ledger) ids
  | _ => ledger

/-- The code units of a character. -/
def units (c : Char) : List Str :=
  if c.toNat < 0x10000 then [[c]] else [[replacement], [replacement]]

/-- `Object.entries(raw)`; none where it throws. -/
def entries : Value → Option (List (Str × Value))
  | .null => none
  | .bool _ | .number _ => some []
  | .string text =>
    some ((text.flatMap units).zipIdx.map fun u => (Nat.toDigits 10 u.2, .string u.1))
  | .array items => some (items.zipIdx.map fun v => (Nat.toDigits 10 v.2, v.1))
  | .object members => some members

/-- A file that is missing or cannot be parsed reads as an empty ledger. -/
def loadLedger (file : Option Str) : Ledger :=
  match file.bind parse with
  | none => []
  | some (.array ids) => loadIds [] ids
  | some raw =>
    ((entries raw).getD []).foldl (fun ledger e => put (toLowerCase e.1) e.2 ledger) []

/-! ## Writing the file -/

/-- How much of a new text is in the file in the end. The file is cut first and written from the
start; a part lacks the last character at least. -/
inductive Left where
  | untouched
  | part (n : Nat)
  | whole
  deriving DecidableEq

def Left.file (old : Option Str) (text : Str) : Left → Option Str
  | .untouched => old
  | .part n => some (text.dropLast.take n)
  | .whole => some text

/-- How `fs.writeFileSync` ends. It returns only when all is written; when it throws, `persistLedger`
alerts and goes on. -/
inductive WriteEnd where
  | returned
  | threw (left : Left)
  | died (left : Left)
  deriving DecidableEq

def WriteEnd.left : WriteEnd → Left
  | .returned => .whole
  | .threw left => left
  | .died left => left

/-- The running `settle_intent.js` of this process, and the signature it printed. -/
structure Settler where
  intentId : Str
  settlingSig : Option Str

structure Process where
  settledLedger : Ledger
  settler : Option Settler

/-- `sent` are the payouts whose child was told to broadcast, `known` the intents that have been in
a ledger. -/
structure Host where
  file : Option Str
  process : Option Process
  sent : List (Str × Str)
  known : List Str

def start (file : Option Str) : Host :=
  ⟨file, none, [], (loadLedger file).map Prod.fst⟩

/-- `settledLedger.set(...)` for an intent, then `persistLedger(intentId)`. -/
def Host.persist (h : Host) (p : Process) (intentId : Str) (entry : Value) (write : WriteEnd) :
    Host :=
  let settledLedger := put (toLowerCase intentId) entry p.settledLedger
  let file := write.left.file h.file (stringify (.object settledLedger))
  match write with
  | .died _ => { h with file, process := none }
  | _ =>
    { h with
      file
      process := some { p with settledLedger }
      known := toLowerCase intentId :: h.known }

def settlingEntry (solanaSig updatedAt : Str) : Value :=
  .object [("status".toList, .string settling), ("solanaSig".toList, .string solanaSig),
    ("updatedAt".toList, .string updatedAt)]

/-- An `undefined` signature is not written. -/
def settledEntry (existing : Option Value) (updatedAt : Str) : Value :=
  let solanaSig := existing.bind (Value.member "solanaSig".toList)
  .object (("status".toList, .string settled) ::
    (solanaSig.map fun sig => ("solanaSig".toList, sig)).toList ++
      [("updatedAt".toList, .string updatedAt)])

def Host.markSettling (h : Host) (p : Process) (intentId solanaSig updatedAt : Str)
    (write : WriteEnd) : Host :=
  h.persist p intentId (settlingEntry solanaSig updatedAt) write

def Host.markSettled (h : Host) (p : Process) (intentId updatedAt : Str) (write : WriteEnd) :
    Host :=
  h.persist p intentId (settledEntry (getLedgerEntry p.settledLedger intentId) updatedAt) write

/-! ## Events -/

inductive Event where
  | boot
  | crash
  /-- `runSolanaPayout` comes to spawn the child. -/
  | spawn (intentId : Str)
  /-- The child's signature is read; `shown` is false when writing the display state throws. -/
  | settlingSig (sig updatedAt : Str) (write : WriteEnd) (shown : Bool)
  /-- The child ends, with code 0 or not. -/
  | close (ok : Bool) (updatedAt : Str) (write : WriteEnd)
  /-- A payout that was settling is seen to have landed; it may have been settled since. -/
  | landed (intentId updatedAt : Str) (write : WriteEnd)

/-- The child's `GO`, if the process is still there and nothing threw on the way. -/
def Host.go (h : Host) (intentId sig : Str) (shown : Bool) : Host :=
  match h.process with
  | none => h
  | some p =>
    { h with
      process := some { p with settler := some ⟨intentId, some sig⟩ }
      sent := if shown then (toLowerCase intentId, sig) :: h.sent else h.sent }

def step (h : Host) : Event → Option Host
  | .boot =>
    match h.process with
    | some _ => none
    | none =>
      let settledLedger := loadLedger h.file
      some { h with
        process := some ⟨settledLedger, none⟩
        known := settledLedger.map Prod.fst ++ h.known }
  | .crash => h.process.map fun _ => { h with process := none }
  | .spawn intentId =>
    match h.process with
    | some p =>
      if p.settler.isNone ∧ isAlreadySettled p.settledLedger intentId = false ∧
          statusIs p.settledLedger intentId settling = false then
        some { h with process := some { p with settler := some ⟨intentId, none⟩ } }
      else none
    | none => none
  | .settlingSig sig updatedAt write shown =>
    match h.process with
    | some p =>
      match p.settler with
      | some ⟨intentId, none⟩ =>
        some ((h.markSettling p intentId sig updatedAt write).go intentId sig shown)
      | _ => none
    | none => none
  | .close ok updatedAt write =>
    match h.process with
    | some p =>
      match p.settler with
      | some settler =>
        let p := { p with settler := none }
        some (if ok then h.markSettled p settler.intentId updatedAt write
          else { h with process := some p })
      | none => none
    | none => none
  | .landed intentId updatedAt write =>
    match h.process with
    | some p =>
      if statusIs p.settledLedger intentId settling ∨ isAlreadySettled p.settledLedger intentId then
        some (h.markSettled p intentId updatedAt write)
      else none
    | none => none

end Maat.Orchestrator.LedgerFile
