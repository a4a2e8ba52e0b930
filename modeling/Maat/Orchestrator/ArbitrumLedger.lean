import Maat.Lib.OrderedMap
import Maat.Orchestrator.SolverStats

/-!
# The Arbitrum ledger

`orchestrator/src/arbitrum_ledger.ts`: how far each intent's collateral, confirmation or slashing
has come. A stage that follows a broadcast is written with the transaction's hash before it is
sent.
-/

namespace Maat.Orchestrator

open Js

inductive ArbitrumStage where
  | posting_collateral
  | collateral_posted
  | collateral_failed
  | confirming
  | confirmed
  | awaiting_expiry_slash
  | slashing
  | slashed
  deriving DecidableEq, Repr

/-- `expiry` is the proof's, in seconds; `solver` is the account that posts the collateral and
`collateralWei` its value. -/
structure ArbitrumLedgerEntry where
  stage : ArbitrumStage
  collateralTxHash : Option Str := none
  confirmTxHash : Option Str := none
  slashTxHash : Option Str := none
  expiry : Option Int := none
  solver : Option Str := none
  collateralWei : Option Nat := none
  deriving DecidableEq, Repr

/-- From an intent's key to its entry. A key is the id without `0x` in lower case (`keyOf`). -/
abbrev ArbitrumLedger (ι : Type) := AList fun _ : ι => ArbitrumLedgerEntry

namespace ArbitrumLedger

variable {ι : Type} [DecidableEq ι]

/-- The fields of the patch replace the entry's, and the stage is set, whatever it was. -/
def setArbitrumStage (ledger : ArbitrumLedger ι) (key : ι) (stage : ArbitrumStage)
    (patch : ArbitrumLedgerEntry → ArbitrumLedgerEntry) : ArbitrumLedger ι :=
  ledger.set key { patch ((ledger.lookup key).getD { stage }) with stage }

/-- The entries in some stages, with their keys. -/
def entriesAt (ledger : ArbitrumLedger ι) (stages : List ArbitrumStage) :
    List (ι × ArbitrumLedgerEntry) :=
  ledger.entries.filterMap fun e => if e.2.stage ∈ stages then some (e.1, e.2) else none

/-- A transaction was signed and its outcome was never seen. -/
def getMidSequenceEntries (ledger : ArbitrumLedger ι) : List (ι × ArbitrumLedgerEntry) :=
  ledger.entriesAt [.posting_collateral, .confirming, .slashing]

/-- Collateral that may be leaving a solver's account. -/
def getPostingCollateralEntries (ledger : ArbitrumLedger ι) : List (ι × ArbitrumLedgerEntry) :=
  ledger.entriesAt [.posting_collateral]

def getAwaitingExpirySlashEntries (ledger : ArbitrumLedger ι) :
    List (ι × ArbitrumLedgerEntry) :=
  ledger.entriesAt [.awaiting_expiry_slash]

/-- Collateral was posted and nothing followed. -/
def getCollateralPostedEntries (ledger : ArbitrumLedger ι) : List (ι × ArbitrumLedgerEntry) :=
  ledger.entriesAt [.collateral_posted]

@[simp] theorem lookup_setArbitrumStage_self (ledger : ArbitrumLedger ι) (key : ι)
    (stage : ArbitrumStage) (patch : ArbitrumLedgerEntry → ArbitrumLedgerEntry) :
    (ledger.setArbitrumStage key stage patch).lookup key =
      some { patch ((ledger.lookup key).getD { stage }) with stage } :=
  AList.lookup_set ledger

theorem lookup_setArbitrumStage_of_ne {ledger : ArbitrumLedger ι} {key key' : ι}
    (h : key' ≠ key) (stage : ArbitrumStage)
    (patch : ArbitrumLedgerEntry → ArbitrumLedgerEntry) :
    (ledger.setArbitrumStage key stage patch).lookup key' = ledger.lookup key' :=
  AList.lookup_set_ne h

theorem mem_entriesAt {ledger : ArbitrumLedger ι} {stages : List ArbitrumStage} {key : ι}
    {entry : ArbitrumLedgerEntry} :
    (key, entry) ∈ ledger.entriesAt stages ↔
      ledger.lookup key = some entry ∧ entry.stage ∈ stages := by
  unfold entriesAt
  rw [List.mem_filterMap]
  constructor
  · rintro ⟨e, mem, he⟩
    split at he
    · next hstage =>
      cases he
      exact ⟨AList.mem_lookup_iff.mpr mem, hstage⟩
    · cases he
  · rintro ⟨hget, hstage⟩
    exact ⟨⟨key, entry⟩, AList.mem_lookup_iff.mp hget, if_pos hstage⟩

omit [DecidableEq ι] in
/-- The entries at some stages are of different intents. -/
theorem nodup_entriesAt (ledger : ArbitrumLedger ι) (stages : List ArbitrumStage) :
    ((ledger.entriesAt stages).map Prod.fst).Nodup := by
  have hsub : ((ledger.entriesAt stages).map Prod.fst).Sublist ledger.keys := by
    show List.Sublist _ (ledger.entries.map Sigma.fst)
    unfold entriesAt
    induction ledger.entries with
    | nil => exact .slnil
    | cons e rest ih =>
      rw [List.filterMap_cons, List.map_cons]
      split
      · exact ih.cons _
      · next b hb =>
        split at hb
        · cases hb
          exact ih.cons_cons _
        · cases hb
  exact hsub.nodup ledger.nodupKeys

end ArbitrumLedger

end Maat.Orchestrator
