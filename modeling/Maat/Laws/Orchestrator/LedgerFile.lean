import Maat.Orchestrator.LedgerFile
import Maat.Lib.Run

/-!
# Durable before broadcast

What the next boot reads is what the last write left. A text written whole is read back as the
ledger (`loadLedger_stringify`); a part of one cannot be parsed and is read as an empty ledger
(`loadLedger_part`), with every intent that stood in it. So the payouts that were told to broadcast
stay recorded along a run exactly if each of its writes is kept (`durable_iff`).
-/

namespace Maat.Orchestrator.LedgerFile

open Js Json

/-! ## Keys -/

theorem toLower_toLower (c : Char) : c.toLower.toLower = c.toLower := by
  delta Char.toLower
  split
  · next h =>
    rw [dif_neg]
    rintro ⟨-, hle⟩
    have hlow := UInt32.le_iff_toNat_le.mp h.1
    have hhigh := UInt32.le_iff_toNat_le.mp h.2
    have hle := UInt32.le_iff_toNat_le.mp hle
    rw [UInt32.toNat_add] at hle
    simp only [show ('A'.val).toNat = 65 from rfl, show ('Z'.val).toNat = 90 from rfl,
      show ('a'.val - 'A'.val).toNat = 32 from rfl] at hlow hhigh hle
    omega
  · rfl

theorem toLowerCase_toLowerCase (s : Str) : toLowerCase (toLowerCase s) = toLowerCase s := by
  rw [toLowerCase, toLowerCase, List.map_map]
  exact List.map_congr_left fun c _ => toLower_toLower c

/-- What a map with keys in lower case is: entries under different keys, each well formed. -/
structure Keyed (ledger : Ledger) : Prop where
  members : Members ledger
  lower : ∀ e ∈ ledger, toLowerCase e.1 = e.1

theorem keyed_nil : Keyed [] := ⟨members_nil, fun _ h => absurd h List.not_mem_nil⟩

theorem Keyed.put {ledger : Ledger} (h : Keyed ledger) {entry : Value} (hentry : entry.WellFormed)
    (intentId : Str) : Keyed (put (toLowerCase intentId) entry ledger) := by
  refine ⟨members_put h.members hentry _, fun e he => ?_⟩
  rcases mem_put he with rfl | he
  · exact toLowerCase_toLowerCase intentId
  · exact h.lower e he

theorem isSome_lookup {ledger : Ledger} {key : Str} :
    (ledger.lookup key).isSome ↔ key ∈ ledger.map Prod.fst := by
  simp only [List.lookup_isSome_iff, List.mem_map, beq_iff_eq, @eq_comm _ key]

theorem mem_of_lookup {ledger : Ledger} {key : Str} {entry : Value}
    (h : ledger.lookup key = some entry) : (key, entry) ∈ ledger := by
  obtain ⟨before, after, rfl, -⟩ := List.lookup_eq_some_iff.mp h
  exact List.mem_append_right _ (.head _)

/-! ## Reading back -/

/-- Entries under new keys come after the ones that are there. -/
theorem foldl_put {ledger : Ledger} {es : List (Str × Value)}
    (hlower : ∀ e ∈ es, toLowerCase e.1 = e.1) (hnames : ((ledger ++ es).map Prod.fst).Nodup) :
    es.foldl (fun ledger e => put (toLowerCase e.1) e.2 ledger) ledger = ledger ++ es := by
  induction es generalizing ledger with
  | nil => simp
  | cons e es ih =>
    have hfresh : e.1 ∉ ledger.map Prod.fst := by
      rw [List.map_append, List.nodup_append] at hnames
      exact fun h => hnames.2.2 e.1 h e.1 (.head _) rfl
    rw [List.foldl_cons, hlower e (.head _), put_of_notMem hfresh,
      ih (fun x hx => hlower x (.tail _ hx))]
    · simp
    · simpa using hnames

theorem object_wellFormed {ledger : Ledger} (h : Keyed ledger) : (Value.object ledger).WellFormed :=
  .object h.members.1 h.members.2

/-- A ledger that was written whole is read back. -/
theorem loadLedger_stringify {ledger : Ledger} (h : Keyed ledger) :
    loadLedger (some (stringify (.object ledger))) = ledger := by
  simp only [loadLedger, Option.bind_some, parse_stringify (object_wellFormed h), entries,
    Option.getD_some]
  rw [foldl_put h.lower (by simpa using h.members.1), List.nil_append]

/-- The text of an object ends with a brace. -/
theorem stringify_object (ledger : Ledger) :
    ∃ t, stringify (.object ledger) = t ++ ['}'] := by
  cases ledger with
  | nil => exact ⟨['{'], rfl⟩
  | cons e ledger =>
    obtain ⟨name, v⟩ := e
    exact ⟨_, by rw [stringify, write]⟩

/-- Less than the whole is read as an empty ledger. -/
theorem loadLedger_part {ledger : Ledger} (h : Keyed ledger) (n : Nat) :
    loadLedger (some ((stringify (.object ledger)).dropLast.take n)) = [] := by
  obtain ⟨t, ht⟩ := stringify_object ledger
  have hwhole : (parse (t ++ ['}'])).isSome := by
    rw [← ht, parse_stringify (object_wellFormed h)]
    rfl
  rw [loadLedger, Option.bind_some, ht, List.dropLast_concat, parse_cut hwhole (List.take_prefix n t)]

/-! ## What is read -/

theorem keyed_foldl {es : List (Str × Value)} (hes : ∀ e ∈ es, e.2.WellFormed) {ledger : Ledger}
    (h : Keyed ledger) :
    Keyed (es.foldl (fun ledger e => put (toLowerCase e.1) e.2 ledger) ledger) := by
  induction es generalizing ledger with
  | nil => exact h
  | cons e es ih => exact ih (fun x hx => hes x (.tail _ hx)) (h.put (hes e (.head _)) e.1)

theorem legacyEntry_wellFormed : legacyEntry.WellFormed := by
  refine .object (by decide) fun m hm => ?_
  rcases List.mem_cons.mp hm with rfl | hm
  · exact .string _
  · obtain rfl := List.mem_singleton.mp hm
    exact .string _

theorem keyed_loadIds (ids : List Value) {ledger : Ledger} (h : Keyed ledger) :
    Keyed (loadIds ledger ids) := by
  induction ids generalizing ledger with
  | nil => exact h
  | cons id ids ih =>
    cases id with
    | string id => exact ih (h.put legacyEntry_wellFormed id)
    | _ => exact h

theorem entries_wellFormed {raw : Value} (h : raw.WellFormed) :
    ∀ e ∈ (entries raw).getD [], e.2.WellFormed := by
  intro e he
  cases h with
  | null => cases he
  | bool b => cases he
  | number hnumber => cases he
  | string text =>
    obtain ⟨u, -, rfl⟩ := List.mem_map.mp he
    exact .string _
  | array hitems =>
    obtain ⟨v, hv, rfl⟩ := List.mem_map.mp he
    exact hitems v.1 (List.fst_mem_of_mem_zipIdx hv)
  | object hnames hmembers => exact hmembers e he

theorem keyed_loadLedger (file : Option Str) : Keyed (loadLedger file) := by
  unfold loadLedger
  split
  · exact keyed_nil
  · exact keyed_loadIds _ keyed_nil
  · next raw _ hraw =>
    obtain ⟨text, -, hparse⟩ := Option.bind_eq_some_iff.mp hraw
    exact keyed_foldl (entries_wellFormed (parse_wellFormed hparse)) keyed_nil

/-! ## What must be there -/

/-- The intent stands as settling with this signature, or as settled. -/
def Records (ledger : Ledger) (intentId sig : Str) : Prop :=
  ∃ entry, ledger.lookup intentId = some entry ∧ (statusOf entry = some settled ∨
    statusOf entry = some settling ∧ entry.member "solanaSig".toList = some (.string sig))

/-- A boot now would find every payout that may have been broadcast, and every intent that has been
in the ledger. -/
structure Safe (h : Host) : Prop where
  sent : ∀ e ∈ h.sent, Records (loadLedger h.file) e.1 e.2
  known : ∀ key ∈ h.known, ((loadLedger h.file).lookup key).isSome

/-- A write for an intent, whose child is told to broadcast or not. -/
structure Write where
  intentId : Str
  write : WriteEnd
  go : Bool

/-- The write leaves the whole text; or the process dies before the file is touched, or in the
middle when no intent has ever been in the ledger; or it fails before the file is touched, for an
intent that is in the ledger and whose child is not told to broadcast. -/
def Write.Kept (h : Host) (ledger : Ledger) (w : Write) : Prop :=
  match w.write with
  | .returned | .threw .whole | .died .whole | .died .untouched => True
  | .threw .untouched => (getLedgerEntry ledger w.intentId).isSome ∧ w.go = false
  | .threw (.part _) => False
  | .died (.part _) => h.known = []

/-- The write of the ledger that an event makes. -/
def writes (p : Process) : Event → Option Write
  | .settlingSig _ _ write shown => p.settler.map fun s => ⟨s.intentId, write, shown⟩
  | .close true _ write => p.settler.map fun s => ⟨s.intentId, write, false⟩
  | .landed intentId _ write => some ⟨intentId, write, false⟩
  | _ => none

/-- If the event writes the ledger, the write is kept. -/
def Meets (h : Host) (e : Event) : Prop :=
  ∀ p ∈ h.process, ∀ w ∈ writes p e, w.Kept h p.settledLedger

/-- The intent stands as settling or as settled. -/
def Marked (ledger : Ledger) (key : Str) : Prop :=
  ∃ entry, ledger.lookup key = some entry ∧
    (statusOf entry = some settling ∨ statusOf entry = some settled)

/-- What the process of a safe host has in memory. -/
structure Agrees (h : Host) (p : Process) : Prop where
  keyed : Keyed p.settledLedger
  known : ∀ key, key ∈ h.known ↔ (p.settledLedger.lookup key).isSome
  read : ∀ key, ((loadLedger h.file).lookup key).isSome → (p.settledLedger.lookup key).isSome
  marked : ∀ key, Marked (loadLedger h.file) key → Marked p.settledLedger key
  sent : ∀ e ∈ h.sent, Records p.settledLedger e.1 e.2

structure Coherent (h : Host) : Prop where
  sent : ∀ e ∈ h.sent, e.1 ∈ h.known
  process : ∀ p ∈ h.process, Agrees h p

/-- A child that has not signed is for an intent that is neither settling nor settled. -/
def Fresh (p : Process) : Prop :=
  ∀ intentId, p.settler = some ⟨intentId, none⟩ → ¬ Marked p.settledLedger (toLowerCase intentId)

structure Inv (h : Host) : Prop where
  coherent : Coherent h
  fresh : ∀ p ∈ h.process, Fresh p

/-! ## One write -/

/-- Which file a write leaves. -/
theorem loadLedger_write {ledger : Ledger} (hledger : Keyed ledger) (old : Option Str)
    (left : Left) :
    loadLedger (left.file old (stringify (.object ledger))) =
      match left with
      | .untouched => loadLedger old
      | .part _ => []
      | .whole => ledger := by
  cases left with
  | untouched => rfl
  | part n => exact loadLedger_part hledger n
  | whole => exact loadLedger_stringify hledger

/-- An entry that may be written for an intent: it has one of the two states, and if the intent had
one before it is settled now. -/
structure Follows (ledger : Ledger) (intentId : Str) (entry : Value) : Prop where
  wellFormed : entry.WellFormed
  marks : statusOf entry = some settling ∨ statusOf entry = some settled
  settles : Marked ledger (toLowerCase intentId) → statusOf entry = some settled

theorem marked_of_records {ledger : Ledger} {key sig : Str} (h : Records ledger key sig) :
    Marked ledger key := by
  obtain ⟨entry, hentry, hstatus⟩ := h
  exact ⟨entry, hentry, hstatus.symm.imp_left And.left⟩

theorem records_put {ledger : Ledger} {intentId : Str} {entry : Value}
    (hentry : Follows ledger intentId entry) {key sig : Str} (h : Records ledger key sig) :
    Records (put (toLowerCase intentId) entry ledger) key sig := by
  by_cases heq : key = toLowerCase intentId
  · subst heq
    exact ⟨entry, by rw [lookup_put, if_pos rfl], .inl (hentry.settles (marked_of_records h))⟩
  · obtain ⟨old, hold, hstatus⟩ := h
    exact ⟨old, by rw [lookup_put, if_neg heq, hold], hstatus⟩

theorem isSome_lookup_put {ledger : Ledger} {name key : Str} {entry : Value} :
    ((put name entry ledger).lookup key).isSome ↔
      key = name ∨ (ledger.lookup key).isSome := by
  rw [lookup_put]
  by_cases h : key = name
  · simp only [h, if_true, Option.isSome_some, true_or]
  · simp only [h, if_false, false_or]

theorem marked_put {ledger : Ledger} {intentId : Str} {entry : Value}
    (hentry : Follows ledger intentId entry) {key : Str} (h : Marked ledger key) :
    Marked (put (toLowerCase intentId) entry ledger) key := by
  by_cases heq : key = toLowerCase intentId
  · exact ⟨entry, by rw [lookup_put, if_pos heq], hentry.marks⟩
  · obtain ⟨old, hold, hstatus⟩ := h
    exact ⟨old, by rw [lookup_put, if_neg heq, hold], hstatus⟩

section Persist

variable {h : Host} {p : Process} {intentId : Str} {entry : Value}

/-- A write from a safe host leads to a safe one exactly if it is kept. -/
theorem safe_persist (hc : Coherent h) (hsafe : Safe h) (hp : Agrees h p)
    (hentry : Follows p.settledLedger intentId entry) (write : WriteEnd) :
    Safe (h.persist p intentId entry write) ↔
      (Write.mk intentId write false).Kept h p.settledLedger := by
  have hread := loadLedger_write (hp.keyed.put hentry.wellFormed intentId) h.file
  have hwhole : ∀ e ∈ h.sent, Records (put (toLowerCase intentId) entry p.settledLedger) e.1 e.2 :=
    fun e he => records_put hentry (hp.sent e he)
  have hnames : ∀ key ∈ toLowerCase intentId :: h.known,
      ((put (toLowerCase intentId) entry p.settledLedger).lookup key).isSome := by
    intro key hkey
    exact isSome_lookup_put.mpr ((List.mem_cons.mp hkey).imp_right (hp.known key).mp)
  cases write with
  | returned =>
    refine iff_of_true ⟨?_, ?_⟩ trivial
    · simpa only [Host.persist, WriteEnd.left, hread .whole] using hwhole
    · simpa only [Host.persist, WriteEnd.left, hread .whole] using hnames
  | threw left =>
    cases left with
    | untouched =>
      constructor
      · intro hsafe'
        exact ⟨hp.read _ (hsafe'.known (toLowerCase intentId) (.head _)), rfl⟩
      · intro hkept
        refine ⟨hsafe.sent, fun key hkey => ?_⟩
        rcases List.mem_cons.mp hkey with rfl | hkey
        · exact hsafe.known _ ((hp.known _).mpr hkept.1)
        · exact hsafe.known key hkey
    | part n =>
      refine iff_of_false (fun hsafe' => ?_) id
      have hlost := hsafe'.known (toLowerCase intentId) (.head _)
      simp only [Host.persist, WriteEnd.left, hread (.part n), List.lookup_nil,
        Option.isSome_none, Bool.false_eq_true] at hlost
    | whole =>
      refine iff_of_true ⟨?_, ?_⟩ trivial
      · simpa only [Host.persist, WriteEnd.left, hread .whole] using hwhole
      · simpa only [Host.persist, WriteEnd.left, hread .whole] using hnames
  | died left =>
    cases left with
    | untouched => exact iff_of_true ⟨hsafe.sent, hsafe.known⟩ trivial
    | part n =>
      constructor
      · intro hsafe'
        refine List.eq_nil_iff_forall_not_mem.mpr fun key hkey => ?_
        have hlost := hsafe'.known key hkey
        simp only [Host.persist, WriteEnd.left, hread (.part n), List.lookup_nil,
          Option.isSome_none, Bool.false_eq_true] at hlost
      · intro hkept
        have hnone : ∀ key, key ∉ h.known := List.eq_nil_iff_forall_not_mem.mp hkept
        exact ⟨fun e he => absurd (hc.sent e he) (hnone _), fun key hkey => absurd hkey (hnone key)⟩
    | whole =>
      refine iff_of_true ⟨?_, ?_⟩ trivial
      · simpa only [Host.persist, WriteEnd.left, hread .whole] using hwhole
      · intro key hkey
        simpa only [Host.persist, WriteEnd.left, hread .whole] using hnames key (.tail _ hkey)

theorem coherent_persist (hc : Coherent h) (hp : Agrees h p)
    (hentry : Follows p.settledLedger intentId entry) (write : WriteEnd) :
    Coherent (h.persist p intentId entry write) := by
  have hkeyed := hp.keyed.put hentry.wellFormed intentId
  have hread := loadLedger_write hkeyed h.file
  have hagrees : ∀ left : Left, Agrees
      { h with
        file := left.file h.file
          (stringify (.object (put (toLowerCase intentId) entry p.settledLedger)))
        process := some { p with settledLedger := put (toLowerCase intentId) entry p.settledLedger }
        known := toLowerCase intentId :: h.known }
      { p with settledLedger := put (toLowerCase intentId) entry p.settledLedger } := by
    intro left
    refine ⟨hkeyed, fun key => ?_, fun key hkey => ?_, fun key hkey => ?_, fun e he => ?_⟩
    · rw [List.mem_cons, isSome_lookup_put, hp.known key]
    · rw [hread left] at hkey
      cases left with
      | untouched => exact isSome_lookup_put.mpr (.inr (hp.read key hkey))
      | part n => cases hkey
      | whole => exact hkey
    · rw [hread left] at hkey
      cases left with
      | untouched => exact marked_put hentry (hp.marked key hkey)
      | part n =>
        obtain ⟨entry, hentry, -⟩ := hkey
        cases hentry
      | whole => exact hkey
    · exact records_put hentry (hp.sent e he)
  cases write with
  | returned =>
    refine ⟨fun e he => .tail _ (hc.sent e he), fun q hq => ?_⟩
    obtain rfl := Option.mem_some_iff.mp hq
    exact hagrees .whole
  | threw left =>
    refine ⟨fun e he => .tail _ (hc.sent e he), fun q hq => ?_⟩
    obtain rfl := Option.mem_some_iff.mp hq
    exact hagrees left
  | died left => exact ⟨hc.sent, fun q hq => absurd hq (by simp [Host.persist])⟩

end Persist

/-! ## The entries that are written -/

theorem settlingEntry_wellFormed (solanaSig updatedAt : Str) :
    (settlingEntry solanaSig updatedAt).WellFormed := by
  have hnames : ["status".toList, "solanaSig".toList, "updatedAt".toList].Nodup := by decide
  refine .object hnames fun m hm => ?_
  simp only [List.mem_cons, List.not_mem_nil, or_false] at hm
  rcases hm with rfl | rfl | rfl <;> exact .string _

theorem follows_settling {ledger : Ledger} {intentId : Str}
    (hfresh : ¬ Marked ledger (toLowerCase intentId)) (solanaSig updatedAt : Str) :
    Follows ledger intentId (settlingEntry solanaSig updatedAt) where
  wellFormed := settlingEntry_wellFormed solanaSig updatedAt
  marks := .inl rfl
  settles hmarked := absurd hmarked hfresh

theorem member_wellFormed {v w : Value} (h : v.WellFormed) {name : Str}
    (hw : v.member name = some w) : w.WellFormed := by
  cases h with
  | object hnames hmembers => exact hmembers _ (mem_of_lookup hw)
  | _ => cases hw

theorem follows_settled {ledger : Ledger} (h : Keyed ledger) (intentId updatedAt : Str) :
    Follows ledger intentId (settledEntry (getLedgerEntry ledger intentId) updatedAt) where
  wellFormed := by
    unfold settledEntry
    cases hsig : (getLedgerEntry ledger intentId).bind (Value.member "solanaSig".toList) with
    | none =>
      have hnames : ["status".toList, "updatedAt".toList].Nodup := by decide
      refine .object hnames fun m hm => ?_
      have hm : m ∈ [("status".toList, Value.string settled),
        ("updatedAt".toList, .string updatedAt)] := hm
      simp only [List.mem_cons, List.not_mem_nil, or_false] at hm
      rcases hm with rfl | rfl <;> exact .string _
    | some sig =>
      obtain ⟨entry, hentry, hmember⟩ := Option.bind_eq_some_iff.mp hsig
      have hnames : ["status".toList, "solanaSig".toList, "updatedAt".toList].Nodup := by decide
      refine .object hnames fun m hm => ?_
      have hm : m ∈ [("status".toList, Value.string settled), ("solanaSig".toList, sig),
        ("updatedAt".toList, .string updatedAt)] := hm
      simp only [List.mem_cons, List.not_mem_nil, or_false] at hm
      rcases hm with rfl | rfl | rfl
      · exact .string _
      · exact member_wellFormed (h.members.2 _ (mem_of_lookup hentry)) hmember
      · exact .string _
  marks := .inr rfl
  settles _ := rfl

theorem marked_iff_statusIs {ledger : Ledger} {intentId : Str} :
    Marked ledger (toLowerCase intentId) ↔
      statusIs ledger intentId settling = true ∨ isAlreadySettled ledger intentId = true := by
  simp only [isAlreadySettled, statusIs, getLedgerEntry, beq_iff_eq, Marked]
  cases hentry : ledger.lookup (toLowerCase intentId) with
  | none => simp
  | some entry => simp

theorem records_settling (ledger : Ledger) (intentId sig updatedAt : Str) :
    Records (put (toLowerCase intentId) (settlingEntry sig updatedAt) ledger)
      (toLowerCase intentId) sig :=
  ⟨settlingEntry sig updatedAt, by rw [lookup_put, if_pos rfl], .inr ⟨rfl, rfl⟩⟩

/-- The process that goes on after a write has the new ledger, whatever is in the file. -/
theorem process_persist {h : Host} {p q : Process} {intentId : Str} {entry : Value}
    {write : WriteEnd} (hq : (h.persist p intentId entry write).process = some q) :
    q = { p with settledLedger := put (toLowerCase intentId) entry p.settledLedger } := by
  cases write with
  | returned => exact (Option.some.inj hq).symm
  | threw left => exact (Option.some.inj hq).symm
  | died left => cases hq

/-- If the child is told to broadcast after a write that is kept, the file has its signature. -/
theorem records_of_kept {h : Host} {p q : Process} {intentId sig updatedAt : Str}
    {write : WriteEnd} (hp : Agrees h p)
    (hfresh : ¬ Marked p.settledLedger (toLowerCase intentId))
    (hkept : (Write.mk intentId write true).Kept h p.settledLedger)
    (hq : (h.markSettling p intentId sig updatedAt write).process = some q) :
    Records (loadLedger (h.markSettling p intentId sig updatedAt write).file)
      (toLowerCase intentId) sig := by
  have hkeyed := hp.keyed.put (follows_settling hfresh sig updatedAt).wellFormed intentId
  have hread := loadLedger_write hkeyed h.file .whole
  have hwhole : write.left = .whole := by
    cases write with
    | returned => rfl
    | threw left =>
      cases left with
      | untouched => cases hkept.2
      | part n => exact hkept.elim
      | whole => rfl
    | died left => cases hq
  have hfile : (h.markSettling p intentId sig updatedAt write).file =
      Left.whole.file h.file (stringify (.object
        (put (toLowerCase intentId) (settlingEntry sig updatedAt) p.settledLedger))) := by
    rw [← hwhole]
    cases write <;> rfl
  rw [hfile, hread]
  exact records_settling p.settledLedger intentId sig updatedAt

/-! ## The child is told to broadcast -/

theorem safe_of_go {h : Host} {intentId sig : Str} {shown : Bool}
    (hsafe : Safe (h.go intentId sig shown)) : Safe h := by
  unfold Host.go at hsafe
  split at hsafe
  · exact hsafe
  · refine ⟨fun e he => hsafe.sent e ?_, hsafe.known⟩
    cases shown with
    | false => exact he
    | true => exact .tail _ he

/-- Only a write that fails with the file untouched tells whether the child may be told. -/
theorem Write.kept_go {h : Host} {ledger : Ledger} {intentId : Str} {write : WriteEnd}
    {go : Bool} : (Write.mk intentId write go).Kept h ledger ↔
      (Write.mk intentId write false).Kept h ledger ∧ (write = .threw .untouched → go = false) := by
  cases write with
  | returned => simp [Write.Kept]
  | threw left => cases left <;> simp [Write.Kept]
  | died left => cases left <;> simp [Write.Kept]

/-- The child may be told where the process has its signature. -/
theorem coherent_go {h : Host} (hc : Coherent h) {q : Process} (hq : h.process = some q)
    {intentId sig : Str} (hrecords : Records q.settledLedger (toLowerCase intentId) sig)
    (shown : Bool) : Coherent (h.go intentId sig shown) := by
  obtain ⟨hkeyed, hknown, hread, hmarked, hsent⟩ := hc.process q hq
  have hthere : toLowerCase intentId ∈ h.known := by
    obtain ⟨entry, hentry, -⟩ := hrecords
    exact (hknown _).mpr (by rw [hentry]; rfl)
  rw [Host.go, hq]
  refine ⟨fun e he => ?_, fun r hr => ?_⟩
  · cases shown with
    | false => exact hc.sent e he
    | true =>
      rcases List.mem_cons.mp he with rfl | he
      · exact hthere
      · exact hc.sent e he
  · obtain rfl := Option.mem_some_iff.mp hr
    refine ⟨hkeyed, hknown, hread, hmarked, fun e he => ?_⟩
    cases shown with
    | false => exact hsent e he
    | true =>
      rcases List.mem_cons.mp he with rfl | he
      · exact hrecords
      · exact hsent e he

theorem safe_go {h : Host} (hsafe : Safe h) {intentId sig : Str} {shown : Bool}
    (hrecords : shown = true → Records (loadLedger h.file) (toLowerCase intentId) sig) :
    Safe (h.go intentId sig shown) := by
  unfold Host.go
  split
  · exact hsafe
  · refine ⟨fun e he => ?_, hsafe.known⟩
    cases shown with
    | false => exact hsafe.sent e he
    | true =>
      rcases List.mem_cons.mp he with rfl | he
      · exact hrecords rfl
      · exact hsafe.sent e he

/-! ## One event -/

/-- The events that write nothing. -/
theorem meets_of_writes_none {h : Host} {e : Event} (hnone : ∀ p ∈ h.process, writes p e = none) :
    Meets h e := by
  intro p hp w hw
  rw [hnone p hp] at hw
  cases hw

theorem meets_iff {h : Host} {p : Process} {e : Event} {w : Write} (hp : h.process = some p)
    (hwrites : writes p e = some w) : Meets h e ↔ w.Kept h p.settledLedger := by
  constructor
  · exact fun h => h p hp _ hwrites
  · intro hkept q hq w' hw
    obtain rfl := Option.some.inj (hp.symm.trans hq)
    obtain rfl := Option.some.inj (hwrites.symm.trans hw)
    exact hkept

section Step

variable {h h' : Host}

theorem step_boot (hinv : Inv h) (hsafe : Safe h) (hstep : step h .boot = some h') :
    (Safe h' ↔ Meets h .boot) ∧ (Safe h' → Inv h') := by
  simp only [step] at hstep
  split at hstep
  · cases hstep
  · next hdown =>
    cases hstep
    have hmeets : Meets h .boot := meets_of_writes_none fun _ _ => rfl
    refine ⟨iff_of_true ⟨hsafe.sent, fun key hkey => ?_⟩ hmeets, fun _ => ⟨⟨?_, ?_⟩, ?_⟩⟩
    · rcases List.mem_append.mp hkey with hkey | hkey
      · exact isSome_lookup.mpr hkey
      · exact hsafe.known key hkey
    · exact fun e he => List.mem_append_right _ (hinv.coherent.sent e he)
    · intro p hp
      obtain rfl := Option.mem_some_iff.mp hp
      refine ⟨keyed_loadLedger _, fun key => ?_, fun _ hkey => hkey, fun _ hkey => hkey,
        hsafe.sent⟩
      rw [List.mem_append, ← isSome_lookup]
      exact or_iff_left_of_imp (hsafe.known key)
    · intro p hp intentId hsettler
      obtain rfl := Option.mem_some_iff.mp hp
      cases hsettler

theorem step_crash (hinv : Inv h) (hsafe : Safe h) (hstep : step h .crash = some h') :
    (Safe h' ↔ Meets h .crash) ∧ (Safe h' → Inv h') := by
  obtain ⟨p, -, rfl⟩ := Option.map_eq_some_iff.mp hstep
  have hmeets : Meets h .crash := meets_of_writes_none fun _ _ => rfl
  exact ⟨iff_of_true ⟨hsafe.sent, hsafe.known⟩ hmeets, fun _ =>
    ⟨⟨hinv.coherent.sent, fun _ hp => by cases hp⟩, fun _ hp => by cases hp⟩⟩

/-- A change of the process that leaves the ledger alone. -/
theorem coherent_settler {p : Process} (hc : Coherent h) (hp : h.process = some p)
    (settler : Option Settler) :
    Coherent { h with process := some { p with settler } } := by
  refine ⟨hc.sent, fun q hq => ?_⟩
  obtain rfl := Option.mem_some_iff.mp hq
  obtain ⟨hkeyed, hknown, hread, hmarked, hsent⟩ := hc.process p hp
  exact ⟨hkeyed, hknown, hread, hmarked, hsent⟩

theorem step_spawn {intentId : Str} (hinv : Inv h) (hsafe : Safe h)
    (hstep : step h (.spawn intentId) = some h') :
    (Safe h' ↔ Meets h (.spawn intentId)) ∧ (Safe h' → Inv h') := by
  simp only [step] at hstep
  split at hstep
  · next p hp =>
    split at hstep
    · next hguard =>
      cases hstep
      have hmeets : Meets h (.spawn intentId) := meets_of_writes_none fun _ _ => rfl
      refine ⟨iff_of_true ⟨hsafe.sent, hsafe.known⟩ hmeets, fun _ =>
        ⟨coherent_settler hinv.coherent hp _, fun q hq id hsettler => ?_⟩⟩
      obtain rfl := Option.mem_some_iff.mp hq
      cases hsettler
      rw [marked_iff_statusIs, hguard.2.1, hguard.2.2]
      decide
    · cases hstep
  · cases hstep

theorem step_settlingSig {sig updatedAt : Str} {write : WriteEnd} {shown : Bool} (hinv : Inv h)
    (hsafe : Safe h) (hstep : step h (.settlingSig sig updatedAt write shown) = some h') :
    (Safe h' ↔ Meets h (.settlingSig sig updatedAt write shown)) ∧ (Safe h' → Inv h') := by
  simp only [step] at hstep
  split at hstep
  · next p hp =>
    split at hstep
    · next intentId hsettler =>
      cases hstep
      have hagrees := hinv.coherent.process p hp
      have hfresh := hinv.fresh p hp intentId hsettler
      have hfollows := follows_settling hfresh sig updatedAt
      have hsafe_iff : Safe (h.markSettling p intentId sig updatedAt write) ↔
          (Write.mk intentId write false).Kept h p.settledLedger :=
        safe_persist hinv.coherent hsafe hagrees hfollows write
      have hcoherent : Coherent (h.markSettling p intentId sig updatedAt write) :=
        coherent_persist hinv.coherent hagrees hfollows write
      rw [meets_iff hp (show writes p (.settlingSig sig updatedAt write shown) =
        some ⟨intentId, write, shown⟩ by rw [writes, hsettler]; rfl), Write.kept_go, ← hsafe_iff]
      constructor
      · constructor
        · intro hsafe'
          refine ⟨safe_of_go hsafe', fun huntouched => ?_⟩
          by_contra hgo
          obtain rfl := Bool.eq_true_of_not_eq_false hgo
          subst huntouched
          -- the file has no entry of this child, and the child was told to broadcast
          have hrecords := hsafe'.sent (toLowerCase intentId, sig) (.head _)
          exact hfresh (hagrees.marked _ (marked_of_records hrecords))
        · rintro ⟨hsafe', hgo⟩
          cases hq : (h.markSettling p intentId sig updatedAt write).process with
          | none => rwa [Host.go, hq]
          | some q =>
            refine safe_go hsafe' fun hshown => records_of_kept hagrees hfresh ?_ hq
            exact Write.kept_go.mpr ⟨hsafe_iff.mp hsafe', fun hw => hshown ▸ hgo hw⟩
      · intro _
        cases hq : (h.markSettling p intentId sig updatedAt write).process with
        | none =>
          rw [Host.go, hq]
          exact ⟨hcoherent, fun q hq' => by cases hq.symm.trans hq'⟩
        | some q =>
          have hrecords : Records q.settledLedger (toLowerCase intentId) sig := by
            rw [process_persist hq]
            exact records_settling p.settledLedger intentId sig updatedAt
          refine ⟨coherent_go hcoherent hq hrecords shown, fun r hr id hsettler' => ?_⟩
          rw [Host.go, hq] at hr
          obtain rfl := Option.mem_some_iff.mp hr
          cases hsettler'
    · cases hstep
  · cases hstep

theorem step_close {ok : Bool} {updatedAt : Str} {write : WriteEnd} (hinv : Inv h)
    (hsafe : Safe h) (hstep : step h (.close ok updatedAt write) = some h') :
    (Safe h' ↔ Meets h (.close ok updatedAt write)) ∧ (Safe h' → Inv h') := by
  simp only [step] at hstep
  split at hstep
  · next p hp =>
    split at hstep
    · next settler hsettler =>
      cases hstep
      have hagrees : Agrees h { p with settler := none } := by
        obtain ⟨hkeyed, hknown, hread, hmarked, hsent⟩ := hinv.coherent.process p hp
        exact ⟨hkeyed, hknown, hread, hmarked, hsent⟩
      cases ok with
      | false =>
        have hmeets : Meets h (.close false updatedAt write) :=
          meets_of_writes_none fun _ _ => rfl
        refine ⟨iff_of_true ⟨hsafe.sent, hsafe.known⟩ hmeets, fun _ =>
          ⟨coherent_settler hinv.coherent hp none, fun q hq id hnone => ?_⟩⟩
        obtain rfl := Option.mem_some_iff.mp hq
        cases hnone
      | true =>
        have hfollows := follows_settled hagrees.keyed settler.intentId updatedAt
        rw [meets_iff hp (show writes p (.close true updatedAt write) =
          some ⟨settler.intentId, write, false⟩ by rw [writes, hsettler]; rfl)]
        refine ⟨safe_persist hinv.coherent hsafe hagrees hfollows write, fun _ =>
          ⟨coherent_persist hinv.coherent hagrees hfollows write, fun q hq id hnone => ?_⟩⟩
        rw [process_persist hq] at hnone
        cases hnone
    · cases hstep
  · cases hstep

theorem step_landed {intentId updatedAt : Str} {write : WriteEnd} (hinv : Inv h)
    (hsafe : Safe h) (hstep : step h (.landed intentId updatedAt write) = some h') :
    (Safe h' ↔ Meets h (.landed intentId updatedAt write)) ∧ (Safe h' → Inv h') := by
  simp only [step] at hstep
  split at hstep
  · next p hp =>
    split at hstep
    · next hthere =>
      cases hstep
      have hagrees := hinv.coherent.process p hp
      have hfollows := follows_settled hagrees.keyed intentId updatedAt
      rw [meets_iff hp (show writes p (.landed intentId updatedAt write) =
        some ⟨intentId, write, false⟩ from rfl)]
      refine ⟨safe_persist hinv.coherent hsafe hagrees hfollows write, fun _ =>
        ⟨coherent_persist hinv.coherent hagrees hfollows write, fun q hq id hsettler => ?_⟩⟩
      rw [process_persist hq] at hsettler ⊢
      rw [← marked_iff_statusIs] at hthere
      have hfresh := hinv.fresh p hp id hsettler
      have hne : toLowerCase id ≠ toLowerCase intentId := fun heq => hfresh (heq ▸ hthere)
      rintro ⟨entry, hentry, hstatus⟩
      rw [lookup_put, if_neg hne] at hentry
      exact hfresh ⟨entry, hentry, hstatus⟩
    · cases hstep
  · cases hstep

/-- An event leads from a safe host to a safe one exactly if its write is kept. -/
theorem step_safe_iff (h : Host) (e : Event) (h' : Host) (hinv : Inv h) (hsafe : Safe h)
    (hstep : step h e = some h') : (Safe h' ↔ Meets h e) ∧ (Safe h' → Inv h') := by
  cases e with
  | boot => exact step_boot hinv hsafe hstep
  | crash => exact step_crash hinv hsafe hstep
  | spawn intentId => exact step_spawn hinv hsafe hstep
  | settlingSig sig updatedAt write shown => exact step_settlingSig hinv hsafe hstep
  | close ok updatedAt write => exact step_close hinv hsafe hstep
  | landed intentId updatedAt write => exact step_landed hinv hsafe hstep

end Step

/-! ## Runs -/

theorem durable_iff (file : Option Str) (es : List Event) (h : Host)
    (hrun : Run.run step (start file) es = some h) :
    Run.Throughout step (start file) es Safe ↔ Run.Always step (start file) es Meets := by
  refine Run.throughout_iff_always step_safe_iff hrun ⟨⟨?_, ?_⟩, ?_⟩ ⟨?_, ?_⟩
  · exact fun e he => absurd he List.not_mem_nil
  · exact fun p hp => by cases hp
  · exact fun p hp => by cases hp
  · exact fun e he => absurd he List.not_mem_nil
  · exact fun key hkey => isSome_lookup.mpr hkey

/-- A payout is signed and broadcast, the process dies, and the next one sees it land. -/
def resumedRun : List Event :=
  [.boot, .spawn "0xA1".toList, .settlingSig "5sig".toList "t1".toList .returned true, .crash, .boot,
    .landed "0xa1".toList "t2".toList .returned]

theorem resumedRun_returned {e : Event} (he : e ∈ resumedRun) {p : Process} {w : Write}
    (hw : w ∈ writes p e) : w.write = .returned := by
  simp only [resumedRun, List.mem_cons, List.not_mem_nil, or_false] at he
  rcases he with rfl | rfl | rfl | rfl | rfl | rfl
  · cases hw
  · cases hw
  · obtain ⟨settler, -, rfl⟩ := Option.map_eq_some_iff.mp hw
    rfl
  · cases hw
  · cases hw
  · cases hw
    rfl

theorem resumedRun_durable : Run.Throughout step (start none) resumedRun Safe := by
  obtain ⟨h, hrun⟩ := Option.isSome_iff_exists.mp
    (show (Run.run step (start none) resumedRun).isSome by decide)
  refine (durable_iff none resumedRun h hrun).mpr ?_
  intro pre e post _ hes _ p _ w hw
  have hreturned := resumedRun_returned (hes ▸ List.mem_append_right pre (.head post)) hw
  simp only [Write.Kept, hreturned]

/-- The write fails after the file was cut, and the child is told to broadcast all the same. -/
def failedRun : List Event :=
  [.boot, .spawn "0xA1".toList, .settlingSig "5sig".toList "t1".toList (.threw (.part 0)) true]

theorem broadcast_after_failed_write :
    ¬ ∀ (file : Option Str) (es : List Event) (h : Host),
      Run.run step (start file) es = some h → Run.Throughout step (start file) es Safe := by
  intro hclaim
  obtain ⟨h, hrun⟩ := Option.isSome_iff_exists.mp
    (show (Run.run step (start none) failedRun).isSome by decide)
  have hsafe := hclaim none failedRun h hrun failedRun h List.prefix_rfl hrun
  have hsent : (Run.run step (start none) failedRun).map Host.sent =
      some [("0xa1".toList, "5sig".toList)] := by decide
  have hfile : (Run.run step (start none) failedRun).map Host.file = some (some []) := by
    decide
  rw [hrun, Option.map_some, Option.some.injEq] at hsent hfile
  obtain ⟨entry, hentry, -⟩ := hsafe.sent ("0xa1".toList, "5sig".toList) (hsent ▸ .head _)
  rw [hfile] at hentry
  cases hentry

end Maat.Orchestrator.LedgerFile
