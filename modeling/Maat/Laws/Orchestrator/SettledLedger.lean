import Maat.Laws.Orchestrator.LedgerFile
import Maat.Orchestrator.SettledLedger

/-!
# The settled ledger of the flows

The flows work on a `SettledLedger` that survives their process. The code keeps a map of JSON values
in memory and writes the whole of it over a file. As long as each write returns, both stand for what
the marks made so far, taken in order, make of the first ledger, entry by entry and in the order of
the `Map` (`ledger_survives`).
-/

namespace Maat.Orchestrator.LedgerFile

open Js Json

/-! ## What an entry stands for -/

/-- `entry.solanaSig`, if it is a string. -/
def sigOf (entry : Value) : Option Str :=
  match entry.member "solanaSig".toList with
  | some (.string sig) => some sig
  | _ => none

/-- An entry in one of the two states. -/
def readEntry (entry : Value) : Option LedgerEntry :=
  if statusOf entry = some settling then some ⟨.settling, sigOf entry⟩
  else if statusOf entry = some settled then some ⟨.settled, sigOf entry⟩
  else none

/-- The map of JSON values stands for the ledger of the flows, in the same order. -/
def Represents (ledger : Ledger) (view : SettledLedger Str) : Prop :=
  ledger.map (fun e => (e.1, readEntry e.2)) = view.entries.map fun e => (e.1, some e.2)

theorem lookup_of_represents {ledger : Ledger} {view : SettledLedger Str}
    (h : Represents ledger view) (key : Str) :
    (ledger.lookup key).map readEntry = (view.lookup key).map some := by
  unfold Represents at h
  rw [AList.lookup]
  generalize view.entries = es at h
  induction ledger generalizing es with
  | nil =>
    obtain rfl := List.map_eq_nil_iff.mp h.symm
    rfl
  | cons e ledger ih =>
    cases es with
    | nil => cases h
    | cons seen es =>
      obtain ⟨hfirst, hrest⟩ := List.cons.inj h
      obtain ⟨hname, hread⟩ := Prod.mk.inj hfirst
      obtain ⟨name, seen⟩ := seen
      by_cases hkey : key = e.1
      · rw [List.lookup_cons, beq_iff_eq.mpr hkey]
        obtain rfl : key = name := hkey.trans hname
        rw [List.dlookup_cons_eq]
        exact congrArg some hread
      · rw [List.lookup_cons, beq_false_of_ne hkey, List.dlookup_cons_ne _ _ (hname ▸ hkey)]
        exact ih es hrest

/-- A key that is set keeps its place on both sides. -/
theorem map_put {ledger : Ledger} {es : List (Σ _ : Str, LedgerEntry)}
    (h : ledger.map (fun e => (e.1, readEntry e.2)) = es.map fun e => (e.1, some e.2)) {key : Str}
    {entry : Value} {seen : LedgerEntry} (hentry : readEntry entry = some seen) :
    (put key entry ledger).map (fun e => (e.1, readEntry e.2)) =
      (OrderedMap.setEntries key seen es).map fun e => (e.1, some e.2) := by
  induction ledger generalizing es with
  | nil =>
    obtain rfl := List.map_eq_nil_iff.mp h.symm
    rw [put, OrderedMap.setEntries, List.map_singleton, List.map_singleton, hentry]
  | cons e ledger ih =>
    cases es with
    | nil => cases h
    | cons old es =>
      obtain ⟨hfirst, hrest⟩ := List.cons.inj h
      have hname : e.1 = old.1 := (Prod.mk.inj hfirst).1
      rw [put, OrderedMap.setEntries]
      by_cases hkey : e.1 = key
      · rw [if_pos hkey, if_pos (hkey.symm.trans hname), List.map_cons, List.map_cons, hentry,
          hrest]
      · rw [if_neg hkey, if_neg fun hsame => hkey (hname.trans hsame.symm)]
        exact congrArg₂ List.cons hfirst (ih hrest)

theorem represents_put {ledger : Ledger} {view : SettledLedger Str} (h : Represents ledger view)
    {key : Str} {entry : Value} {seen : LedgerEntry} (hentry : readEntry entry = some seen) :
    Represents (put key entry ledger) (view.set key seen) :=
  map_put h hentry

theorem sigOf_settledEntry (existing : Option Value) (updatedAt : Str) :
    sigOf (settledEntry existing updatedAt) = existing.bind sigOf := by
  unfold settledEntry
  cases existing with
  | none => rfl
  | some entry =>
    rw [Option.bind_some, Option.bind_some, sigOf.eq_def entry]
    cases entry.member "solanaSig".toList with
    | none => rfl
    | some sig => cases sig <;> rfl

/-- What an entry in one of the two states has been read from. -/
theorem of_readEntry {entry : Value} {seen : LedgerEntry} (h : readEntry entry = some seen) :
    (statusOf entry = some settled ↔ seen.status = .settled) ∧ sigOf entry = seen.solanaSig := by
  unfold readEntry at h
  split at h
  · next hstatus =>
    cases h
    refine ⟨iff_of_false ?_ nofun, rfl⟩
    rw [hstatus]
    decide
  split at h
  · next hstatus =>
    cases h
    exact ⟨iff_of_true hstatus rfl, rfl⟩
  · cases h

/-- An intent is in neither ledger, or in both, with an entry that reads as the other. -/
theorem getLedgerEntry_of_represents {ledger : Ledger} {view : SettledLedger Str}
    (h : Represents ledger view) (intentId : Str) :
    (getLedgerEntry ledger intentId = none ∧ view.lookup (toLowerCase intentId) = none) ∨
      ∃ entry seen, getLedgerEntry ledger intentId = some entry ∧
        view.lookup (toLowerCase intentId) = some seen ∧ readEntry entry = some seen := by
  have hkey := lookup_of_represents h (toLowerCase intentId)
  rw [getLedgerEntry]
  cases hentry : ledger.lookup (toLowerCase intentId) with
  | none =>
    rw [hentry, Option.map_none, eq_comm, Option.map_eq_none_iff] at hkey
    exact .inl ⟨rfl, hkey⟩
  | some entry =>
    rw [hentry, Option.map_some, eq_comm, Option.map_eq_some_iff] at hkey
    obtain ⟨seen, hseen, hread⟩ := hkey
    exact .inr ⟨entry, seen, rfl, hseen, hread.symm⟩

theorem represents_markSettled {ledger : Ledger} {view : SettledLedger Str}
    (h : Represents ledger view) (intentId updatedAt : Str) :
    Represents
      (put (toLowerCase intentId) (settledEntry (getLedgerEntry ledger intentId) updatedAt) ledger)
      (view.markSettled (toLowerCase intentId)) := by
  refine represents_put h ?_
  have hstatus : statusOf (settledEntry (getLedgerEntry ledger intentId) updatedAt) =
      some settled := rfl
  have hsig : (getLedgerEntry ledger intentId).bind sigOf =
      (view.lookup (toLowerCase intentId)).bind LedgerEntry.solanaSig := by
    rcases getLedgerEntry_of_represents h intentId with
      ⟨hentry, hseen⟩ | ⟨entry, seen, hentry, hseen, hread⟩
    · rw [hentry, hseen]
      rfl
    · rw [hentry, hseen, Option.bind_some, Option.bind_some, (of_readEntry hread).2]
  rw [readEntry, hstatus, if_neg (by decide), if_pos rfl, sigOf_settledEntry, hsig]

/-- What the code asks of its map is what the flows ask of their ledger. -/
theorem isAlreadySettled_of_represents {ledger : Ledger} {view : SettledLedger Str}
    (h : Represents ledger view) (intentId : Str) :
    isAlreadySettled ledger intentId = view.isAlreadySettled (toLowerCase intentId) := by
  rw [isAlreadySettled, statusIs, SettledLedger.isAlreadySettled]
  rcases getLedgerEntry_of_represents h intentId with
    ⟨hentry, hseen⟩ | ⟨entry, seen, hentry, hseen, hread⟩
  · rw [hentry, hseen]
    rfl
  · rw [hentry, hseen, Option.bind_some, Option.any_some, Bool.eq_iff_iff, beq_iff_eq, beq_iff_eq]
    exact (of_readEntry hread).1

/-! ## Marks -/

/-- A call of `markSettling` or `markSettled`. -/
inductive Mark where
  | settling (key sig : Str)
  | settled (key : Str)
  deriving DecidableEq

def Mark.apply (view : SettledLedger Str) : Mark → SettledLedger Str
  | .settling key sig => view.markSettling key sig
  | .settled key => view.markSettled key

/-- The mark that an event makes. -/
def mark (h : Host) (e : Event) : Option Mark :=
  h.process.bind fun p =>
    match e with
    | .settlingSig sig _ _ _ => p.settler.map fun s => .settling (toLowerCase s.intentId) sig
    | .close true _ _ => p.settler.map fun s => .settled (toLowerCase s.intentId)
    | .landed intentId _ _ => some (.settled (toLowerCase intentId))
    | _ => none

/-- The ledger after the marks of a run. -/
def marked (view : SettledLedger Str) (h : Host) (es : List Event) : SettledLedger Str :=
  (Run.log step mark h es).foldl Mark.apply view

/-- If the event writes the file, the write returns. -/
def Returns (h : Host) (e : Event) : Prop :=
  ∀ p ∈ h.process, ∀ w ∈ writes p e, w.write = .returned

/-- File and memory stand for the ledger of the flows. -/
structure Carries (h : Host) (view : SettledLedger Str) : Prop where
  memory : ∀ p ∈ h.process, p.settledLedger = loadLedger h.file
  file : Represents (loadLedger h.file) view

/-- A write that returns carries the ledger on. -/
theorem Carries.persist {h : Host} {view : SettledLedger Str} {p : Process}
    (hmemory : p.settledLedger = loadLedger h.file) {intentId : Str} {entry : Value}
    (hentry : entry.WellFormed)
    (hview : Represents (put (toLowerCase intentId) entry p.settledLedger) view) :
    Carries (h.persist p intentId entry .returned) view := by
  have hkeyed : Keyed p.settledLedger := hmemory ▸ keyed_loadLedger h.file
  have hfile : loadLedger (h.persist p intentId entry .returned).file =
      put (toLowerCase intentId) entry p.settledLedger :=
    loadLedger_write (hkeyed.put hentry intentId) h.file .whole
  refine ⟨fun q hq => ?_, by rwa [hfile]⟩
  rw [hfile, process_persist hq]

/-- Telling the child leaves file and memory. -/
theorem Carries.go {h : Host} {view : SettledLedger Str} (hc : Carries h view) (intentId sig : Str)
    (shown : Bool) : Carries (h.go intentId sig shown) view := by
  cases hprocess : h.process with
  | none => rwa [Host.go, hprocess]
  | some p =>
    rw [Host.go, hprocess]
    refine ⟨fun q hq => ?_, hc.file⟩
    obtain rfl := Option.mem_some_iff.mp hq
    exact hc.memory p hprocess

theorem step_carries {h h' : Host} {view : SettledLedger Str} {e : Event} (hc : Carries h view)
    (hreturns : Returns h e) (hstep : step h e = some h') :
    Carries h' ((mark h e).toList.foldl Mark.apply view) := by
  cases hprocess : h.process with
  | none =>
    cases e with
    | boot =>
      simp only [step, hprocess, Option.some.injEq] at hstep
      subst hstep
      simp only [mark, hprocess, Option.bind_none, Option.toList_none, List.foldl_nil]
      refine ⟨fun q hq => ?_, hc.file⟩
      obtain rfl := Option.mem_some_iff.mp hq
      rfl
    | _ => simp [step, hprocess] at hstep
  | some p =>
    have hmemory := hc.memory p hprocess
    have hreturns := hreturns p hprocess
    have hkeyed : Keyed p.settledLedger := hmemory ▸ keyed_loadLedger h.file
    have hview : Represents p.settledLedger view := hmemory ▸ hc.file
    simp only [mark, hprocess, Option.bind_some]
    cases e with
    | boot => simp [step, hprocess] at hstep
    | crash =>
      simp only [step, hprocess, Option.map_some, Option.some.injEq] at hstep
      subst hstep
      exact ⟨fun q hq => absurd hq (Option.not_mem_none q), hc.file⟩
    | spawn intentId =>
      simp only [step, hprocess] at hstep
      split at hstep <;> cases hstep
      refine ⟨fun q hq => ?_, hc.file⟩
      obtain rfl := Option.mem_some_iff.mp hq
      exact hmemory
    | settlingSig sig updatedAt write shown =>
      simp only [step, hprocess] at hstep
      split at hstep
      · next intentId hsettler =>
        obtain rfl := Option.some.inj hstep
        obtain rfl : write = .returned := hreturns ⟨intentId, write, shown⟩ (by
          rw [writes, hsettler]; rfl)
        rw [hsettler]
        exact (Carries.persist hmemory (settlingEntry_wellFormed sig updatedAt)
          (represents_put hview rfl)).go intentId sig shown
      · cases hstep
    | close ok updatedAt write =>
      simp only [step, hprocess] at hstep
      split at hstep
      · next settler hsettler =>
        obtain rfl := Option.some.inj hstep
        cases ok with
        | false =>
          refine ⟨fun q hq => ?_, hc.file⟩
          obtain rfl := Option.mem_some_iff.mp hq
          exact hmemory
        | true =>
          obtain rfl : write = .returned := hreturns ⟨settler.intentId, write, false⟩ (by
            rw [writes, hsettler]; rfl)
          rw [hsettler]
          exact Carries.persist (p := { p with settler := none }) hmemory
            (follows_settled hkeyed settler.intentId updatedAt).wellFormed
            (represents_markSettled hview settler.intentId updatedAt)
      · cases hstep
    | landed intentId updatedAt write =>
      simp only [step, hprocess] at hstep
      split at hstep
      · obtain rfl := Option.some.inj hstep
        obtain rfl : write = .returned := hreturns ⟨intentId, write, false⟩ rfl
        exact Carries.persist hmemory (follows_settled hkeyed intentId updatedAt).wellFormed
          (represents_markSettled hview intentId updatedAt)
      · cases hstep

theorem run_carries {h h' : Host} {view : SettledLedger Str} {es : List Event}
    (hc : Carries h view) (hreturns : Run.Always step h es Returns)
    (hrun : Run.run step h es = some h') : Carries h' (marked view h es) := by
  induction es generalizing h view with
  | nil =>
    cases hrun
    exact hc
  | cons e es ih =>
    obtain ⟨t, ht, hrun⟩ := Run.run_cons_eq_some.mp hrun
    obtain ⟨hfirst, hrest⟩ := (Run.always_cons ht).mp hreturns
    rw [marked, Run.log_cons ht, List.foldl_append]
    exact ih (step_carries hc hfirst ht) hrest hrun

/-- In a run whose writes return, through crashes and restarts, what is in memory and what the next
process will read stand for the ledger that the marks so far have made, and the process takes for
settled what that ledger has as settled. -/
theorem ledger_survives {file : Option Str} {view : SettledLedger Str}
    (hfile : Represents (loadLedger file) view) {es : List Event} {h : Host}
    (hreturns : Run.Always step (start file) es Returns)
    (hrun : Run.run step (start file) es = some h) :
    Represents (loadLedger h.file) (marked view (start file) es) ∧
      ∀ p ∈ h.process, Represents p.settledLedger (marked view (start file) es) ∧
        ∀ intentId, isAlreadySettled p.settledLedger intentId =
          (marked view (start file) es).isAlreadySettled (toLowerCase intentId) := by
  have hstart : Carries (start file) view :=
    ⟨fun p hp => absurd hp (Option.not_mem_none p), hfile⟩
  have hend := run_carries hstart hreturns hrun
  refine ⟨hend.file, fun p hp => ?_⟩
  have hmemory : Represents p.settledLedger (marked view (start file) es) :=
    hend.memory p hp ▸ hend.file
  exact ⟨hmemory, isAlreadySettled_of_represents hmemory⟩

/-- A payout is signed, its process dies, and the next one sees it land. -/
theorem ledger_survives_sample :
    ∃ h, Run.run step (start none) resumedRun = some h ∧
      (marked ∅ (start none) resumedRun).entries = [⟨"0xa1".toList, .settled, some "5sig".toList⟩] ∧
      Represents (loadLedger h.file) (marked ∅ (start none) resumedRun) := by
  obtain ⟨h, hrun⟩ := Option.isSome_iff_exists.mp
    (show (Run.run step (start none) resumedRun).isSome by decide)
  have hempty : Represents (loadLedger none) ∅ := rfl
  refine ⟨h, hrun, by decide, (ledger_survives hempty ?_ hrun).1⟩
  intro pre e post _ hes _ p _ w hw
  exact resumedRun_returned (hes ▸ List.mem_append_right pre (.head post)) hw

end Maat.Orchestrator.LedgerFile
