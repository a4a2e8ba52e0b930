import Maat.Lib.OrderedMap
import Maat.Lib.Js

/-!
# The settled ledger

The ledger of Solana payouts in `orchestrator/src/prover_pipeline.ts`: an intent is `settling`
from when its payout is signed, with the signature, and `settled` once the payout is known to
have landed.
-/

namespace Maat.Orchestrator

open Js

inductive LedgerStatus where
  | settling
  | settled
  deriving DecidableEq, Repr

structure LedgerEntry where
  status : LedgerStatus
  solanaSig : Option Str
  deriving DecidableEq, Repr

/-- From an intent's key, its id in lower case, to its entry. -/
abbrev SettledLedger (ι : Type) := AList fun _ : ι => LedgerEntry

namespace SettledLedger

variable {ι : Type} [DecidableEq ι]

def isAlreadySettled (ledger : SettledLedger ι) (key : ι) : Bool :=
  (ledger.lookup key).any fun entry => entry.status == .settled

/-- Called after the payout is signed and before it is sent. -/
def markSettling (ledger : SettledLedger ι) (key : ι) (solanaSig : Str) : SettledLedger ι :=
  ledger.set key ⟨.settling, some solanaSig⟩

/-- The signature stays. -/
def markSettled (ledger : SettledLedger ι) (key : ι) : SettledLedger ι :=
  ledger.set key ⟨.settled, (ledger.lookup key).bind LedgerEntry.solanaSig⟩

/-- Payouts that were signed and whose fate is not known. -/
def getSettlingEntries (ledger : SettledLedger ι) : List (ι × Str) :=
  ledger.entries.filterMap fun e =>
    match e.2 with
    | ⟨.settling, some solanaSig⟩ => some (e.1, solanaSig)
    | _ => none

theorem mem_getSettlingEntries {ledger : SettledLedger ι} {key : ι} {solanaSig : Str} :
    (key, solanaSig) ∈ ledger.getSettlingEntries ↔
      ledger.lookup key = some ⟨.settling, some solanaSig⟩ := by
  unfold getSettlingEntries
  rw [List.mem_filterMap]
  constructor
  · rintro ⟨⟨k, entry⟩, mem, he⟩
    obtain ⟨status, sig⟩ := entry
    cases status with
    | settled => cases he
    | settling =>
      cases sig with
      | none => cases he
      | some sig =>
        cases he
        exact AList.mem_lookup_iff.mpr mem
  · intro hget
    exact ⟨⟨key, _⟩, AList.mem_lookup_iff.mp hget, rfl⟩

end SettledLedger

end Maat.Orchestrator
