import Maat.Laws.Orchestrator.IntentRecord
import Maat.Lib.Run

/-!
# Intent state files

Two processes read, write and rename files in one directory, and may die at any point. If each
writes the files of its own intents only, what a reader sees is a store that whole calls change one
after the other (`stores_atomically`): every file is the whole record of the intent it is named for
(`files_whole`), no call that ends is lost (`no_call_lost`), and what each call keeps of a record
holds of the files.
-/

namespace Maat.Orchestrator.IntentFiles

open Js Json Directory
open LedgerFile (entries WriteEnd Left)

/-! ## Names -/

/-- What a reader of the directory looks at. -/
def Shown (name : Str) : Prop := jsonSuffix <:+ name

theorem shown_iff {name : Str} : Shown name ↔ ∃ key, name = fileName key :=
  ⟨fun ⟨key, h⟩ => ⟨key, h.symm⟩, fun ⟨key, h⟩ => ⟨key, h.symm⟩⟩

theorem shown_filePathOf (intentId : Str) : Shown (filePathOf intentId) :=
  shown_iff.mpr ⟨keyOf intentId, rfl⟩

theorem fileName_inj {key other : Str} (h : fileName key = fileName other) : key = other :=
  List.append_cancel_right h

theorem not_shown_tempName (file : Str) (clock : Clock) : ¬Shown (tempName file clock) := by
  intro hshown
  have htmp : ".tmp".toList <:+ tempName file clock := List.suffix_append _ _
  exact absurd (List.suffix_of_suffix_length_le htmp hshown (by decide)) (by decide)

theorem dot_notMem_toDigits (n : Nat) : '.' ∉ Nat.toDigits 10 n := by
  intro h
  exact absurd (isDigit_toDigits h) (by decide)

/-- The last dot is at one place. -/
theorem lastDot_inj {a b x y : Str} (hx : '.' ∉ x) (hy : '.' ∉ y)
    (h : a ++ '.' :: x = b ++ '.' :: y) : a = b ∧ x = y := by
  have hrev := congrArg List.reverse h
  simp only [List.reverse_append, List.reverse_cons, List.append_assoc, List.singleton_append]
    at hrev
  have hnot {z : Str} (hz : '.' ∉ z) : ∀ c ∈ z.reverse, (c != '.') = true := by
    intro c hc
    rw [bne_iff_ne]
    rintro rfl
    exact hz (List.mem_reverse.mp hc)
  obtain ⟨hxy, hab⟩ := append_unique (hnot hx) (hnot hy) rfl rfl hrev
  exact ⟨List.reverse_inj.mp (List.cons.inj hab).2, List.reverse_inj.mp hxy⟩

theorem file_of_tempName {file other : Str} {clock clock' : Clock}
    (h : tempName file clock = tempName other clock') : file = other := by
  have hdigits := lastDot_inj (dot_notMem_toDigits _) (dot_notMem_toDigits _)
    (List.append_cancel_right h)
  exact (lastDot_inj (dot_notMem_toDigits _) (dot_notMem_toDigits _) hdigits.1).1

/-! ## The store that is seen -/

/-- From a key to the record of the intent. -/
abbrev Store := Str → Option IntentState

/-- A whole call at once. -/
def Store.apply (store : Store) (c : Call × Clock) : Option Store :=
  (IntentFiles.upsert (store (keyOf c.1.intentId)) c.1 c.2).map fun next =>
    Function.update store (keyOf c.1.intentId) (some next)

def view (h : Host) : Store := fun key => readState (h.dir.lookup (fileName key))

theorem view_eq {h h' : Host} (hdir : ∀ name, Shown name → h'.dir.lookup name = h.dir.lookup name) :
    view h' = view h := by
  funext key
  rw [view, view, hdir (fileName key) (shown_iff.mpr ⟨key, rfl⟩)]

@[simp] theorem set_process (h : Host) (role : Role) (p : Process) :
    (h.set role p).process = Function.update h.process role p := rfl

def replacings (h : Host) (role : Role) : Option (Replacing Str Str) :=
  (h.process role).upsert.map Upsert.replacing

theorem replacings_set (h : Host) (role : Role) (p : Process) :
    replacings (h.set role p) =
      Function.update (replacings h) role (p.upsert.map Upsert.replacing) := by
  funext other
  by_cases hother : other = role
  · subst hother
    simp [replacings]
  · simp [replacings, hother]

/-! ## What holds in every state -/

/-- An upsert that will rename what the call makes of the record that is there now. -/
structure Writes (owner : Str → Role) (store : Store) (role : Role) (u : Upsert) : Prop where
  owned : owner (keyOf u.call.intentId) = role
  homed : u.call.Homed owner
  file : u.replacing.file = filePathOf u.call.intentId
  temp : u.replacing.temp = tempName u.replacing.file u.clock
  text : u.replacing.text = stringify (.object u.next)
  next : upsert (store (keyOf u.call.intentId)) u.call u.clock = some u.next

/-- A record that the poll has read: the file still says the same of its block. -/
def Listed (owner : Str → Role) (store : Store) (state : IntentState) : Prop :=
  ∃ intentId record, intentIdOf state = some intentId ∧
    owner (keyOf intentId) = .listener ∧ store (keyOf intentId) = some record ∧
    record.lookup "blockNumber".toList = state.lookup "blockNumber".toList ∧
    record.lookup "sourceChain".toList = some (.string arbitrumSepolia)

/-- What a process has in hand. A poll makes no calls but `setFinal`. -/
structure Process.Sound (owner : Str → Role) (store : Store) (role : Role) (p : Process) :
    Prop where
  writes : ∀ u, p.upsert = some u → Writes owner store role u
  listed : ∀ poll, p.poll = some poll → role = .listener ∧
    (∀ name ∈ poll.names, Shown name) ∧ ∀ state ∈ poll.states, Listed owner store state
  marks : ∀ poll u, p.poll = some poll → p.upsert = some u → ∃ intentId, u.call = .setFinal intentId

theorem Process.Sound.idle (owner : Str → Role) (store : Store) (role : Role) :
    idle.Sound owner store role where
  writes := fun _ hu => by cases hu
  listed := fun _ hp => by cases hp
  marks := fun _ _ hp => by cases hp

structure Sound (owner : Str → Role) (h : Host) : Prop where
  shaped : ∀ key text, h.dir.lookup (fileName key) = some text →
    ∃ record, parse text = some (.object record) ∧ Shaped owner key record
  ready : Ready Shown h.dir (replacings h)
  processes : ∀ role, (h.process role).Sound owner (view h) role

/-- A call comes from the process that the intent belongs to, and marks none final. -/
def Event.Proper (owner : Str → Role) : Event → Prop
  | .call role made _ =>
    owner (keyOf made.intentId) = role ∧ made.Homed owner ∧ ∀ intentId, made ≠ .setFinal intentId
  | _ => True

/-- Nothing runs yet, and the files are whole. -/
structure Start (owner : Str → Role) (h : Host) : Prop where
  idle : ∀ role, h.process role = idle
  shaped : ∀ key text, h.dir.lookup (fileName key) = some text →
    ∃ record, parse text = some (.object record) ∧ Shaped owner key record

theorem sound_start {owner : Str → Role} {h : Host} (hstart : Start owner h) : Sound owner h where
  shaped := hstart.shaped
  ready := .of_none fun role => by rw [replacings, hstart.idle]; rfl
  processes := fun role => by
    rw [hstart.idle]
    exact .idle owner (view h) role

section

variable {owner : Str → Role} {h : Host} {role : Role}

theorem readState_of_parse {text : Str} {record : IntentState}
    (h : parse text = some (.object record)) : readState (some text) = some record := by
  rw [readState, Option.bind_some, h]
  rfl

theorem Sound.shaped_view (hs : Sound owner h) {key : Str} {record : IntentState}
    (hview : view h key = some record) : Shaped owner key record := by
  obtain ⟨raw, hraw, -⟩ := Option.bind_eq_some_iff.mp hview
  obtain ⟨text, htext, -⟩ := Option.bind_eq_some_iff.mp hraw
  obtain ⟨found, hparse, hshaped⟩ := hs.shaped key text htext
  rw [view, htext, readState_of_parse hparse] at hview
  exact Option.some.inj hview ▸ hshaped

/-! ## Steps that no reader sees -/

/-- One process changes, beside files whose shown texts are the same. -/
theorem Sound.quiet (hs : Sound owner h) (dir : List (Str × Str)) {p : Process}
    (hdir : ∀ name, Shown name → dir.lookup name = h.dir.lookup name)
    (hready : Ready Shown dir
      (Function.update (replacings h) role (p.upsert.map Upsert.replacing)))
    (hp : p.Sound owner (view h) role) :
    Sound owner ({ h with dir }.set role p) ∧ view ({ h with dir }.set role p) = view h := by
  have hview : view ({ h with dir }.set role p) = view h := view_eq hdir
  refine ⟨⟨fun key text htext => ?_, ?_, fun other => ?_⟩, hview⟩
  · exact hs.shaped key text (hdir _ (shown_iff.mpr ⟨key, rfl⟩) ▸ htext)
  · rw [replacings_set]
    exact hready
  · rw [hview, set_process]
    by_cases hother : other = role
    · subst hother
      rw [Function.update_self]
      exact hp
    · rw [Function.update_of_ne hother]
      exact hs.processes other

/-- A process that writes nothing, now as before. -/
theorem Sound.still (hs : Sound owner h) {p : Process} (hnone : (h.process role).upsert = none)
    (hstill : p.upsert = none) (hp : p.Sound owner (view h) role) :
    Sound owner (h.set role p) := by
  have hreplacing : replacings h role = none := by rw [replacings, hnone]; rfl
  refine (hs.quiet h.dir (fun _ _ => rfl) ?_ hp).1
  rw [hstill]
  exact hs.ready.idle hreplacing

/-- A process that dies or gives up; what it leaves is not shown. -/
theorem Sound.stopped (hs : Sound owner h) (role : Role) {dir : List (Str × Str)}
    (hdir : ∀ r, replacings h role = some r → Except r.temp h.dir dir)
    (hsame : replacings h role = none → dir = h.dir) :
    Sound owner ({ h with dir }.set role idle) ∧
      view ({ h with dir }.set role idle) = view h := by
  refine hs.quiet dir (p := idle) (fun name hname => ?_) ?_ (.idle owner (view h) role)
  · rcases hreplacing : replacings h role with _ | r
    · rw [hsame hreplacing]
    · exact hdir r hreplacing name fun heq =>
        (hs.ready.hidden role r hreplacing).1 (heq ▸ hname)
  · rcases hreplacing : replacings h role with _ | r
    · rw [hsame hreplacing]
      exact hs.ready.idle hreplacing
    · exact hs.ready.stop hreplacing (hdir r hreplacing)

/-- What a call makes of the record that is there: it does not throw. -/
theorem Sound.begin_eq (hs : Sound owner h) (role : Role) {call : Call} (hhomed : call.Homed owner)
    (poll : Option Poll) (clock : Clock) :
    ∃ next, upsert (view h (keyOf call.intentId)) call clock = some next ∧
      h.begin role poll call clock = h.set role ⟨poll, some ⟨call, clock, next,
        ⟨filePathOf call.intentId, tempName (filePathOf call.intentId) clock,
          stringify (.object next), false⟩⟩⟩ := by
  obtain ⟨next, hnext, hshaped⟩ :=
    shaped_upsert (fun r hr => hs.shaped_view hr) hhomed clock
  obtain ⟨intentId, hid, hkey⟩ := hshaped.intentId
  refine ⟨next, hnext, ?_⟩
  have hread : upsert (readState (h.dir.lookup (filePathOf call.intentId))) call clock =
    some next := hnext
  have hfile : filePathOf intentId = filePathOf call.intentId := congrArg fileName hkey
  simp only [Host.begin, hread, hid, hfile]

/-- A process begins to write a file of its own. -/
theorem Sound.writing (hs : Sound owner h) {p : Process} {u : Upsert}
    (hnone : (h.process role).upsert = none) (hu : p.upsert = some u)
    (hfresh : u.replacing.written = false) (hp : p.Sound owner (view h) role) :
    Sound owner (h.set role p) := by
  have hreplacing : replacings h role = none := by rw [replacings, hnone]; rfl
  have hwrites : Writes owner (view h) role u := hp.writes u hu
  refine (hs.quiet h.dir (fun _ _ => rfl) ?_ hp).1
  rw [hu]
  refine hs.ready.begin hreplacing ⟨?_, ?_⟩ hfresh fun other q hother hq heq => ?_
  · rw [hwrites.temp]
    exact not_shown_tempName _ _
  · rw [hwrites.file]
    exact shown_filePathOf _
  · -- two texts under one name are of one file, which is of one process
    obtain ⟨v, hv, rfl⟩ := Option.map_eq_some_iff.mp hq
    have hother' : Writes owner (view h) other v := (hs.processes other).writes v hv
    rw [hother'.temp, hwrites.temp] at heq
    have hfile := file_of_tempName heq
    rw [hother'.file, hwrites.file] at hfile
    exact hother (hother'.owned.symm.trans
      ((congrArg owner (fileName_inj hfile)).trans hwrites.owned))

/-- The text is written, whole. -/
theorem Sound.written (hs : Sound owner h) {u : Upsert}
    (hu : (h.process role).upsert = some u) :
    Sound owner ({ h with dir := put u.replacing.temp u.replacing.text h.dir }.set role
        ⟨(h.process role).poll,
          some { u with replacing := { u.replacing with written := true } }⟩) ∧
      view ({ h with dir := put u.replacing.temp u.replacing.text h.dir }.set role
        ⟨(h.process role).poll,
          some { u with replacing := { u.replacing with written := true } }⟩) = view h := by
  have hreplacing : replacings h role = some u.replacing := by rw [replacings, hu]; rfl
  have hdir : Except u.replacing.temp h.dir (put u.replacing.temp u.replacing.text h.dir) :=
    fun name hname => by rw [lookup_put, if_neg hname]
  have hp := hs.processes role
  refine hs.quiet _ (fun name hname => ?_) ?_ ⟨fun v hv => ?_, hp.listed, fun poll v hpoll hv => ?_⟩
  · exact hdir name fun heq => (hs.ready.hidden role u.replacing hreplacing).1 (heq ▸ hname)
  · exact hs.ready.write hreplacing hdir (by rw [lookup_put, if_pos rfl])
  · cases hv
    obtain ⟨howned, hhomed, hfile, htemp, htext, hnext⟩ := hp.writes u hu
    exact ⟨howned, hhomed, hfile, htemp, htext, hnext⟩
  · cases hv
    exact hp.marks poll u hpoll hu

/-! ## The step that is seen -/

theorem Listed.update {store : Store} {key : Str} {next state : IntentState}
    (hl : Listed owner store state)
    (hnext : owner key = .listener → ∀ record, store key = some record →
      next.lookup "blockNumber".toList = record.lookup "blockNumber".toList ∧
        next.lookup "sourceChain".toList = record.lookup "sourceChain".toList) :
    Listed owner (Function.update store key (some next)) state := by
  obtain ⟨intentId, record, hid, howned, hrecord, hblock, hchain⟩ := hl
  by_cases hkey : keyOf intentId = key
  · subst hkey
    obtain ⟨hblock', hchain'⟩ := hnext howned record hrecord
    exact ⟨intentId, next, hid, howned, Function.update_self .., hblock'.trans hblock,
      hchain'.trans hchain⟩
  · exact ⟨intentId, record, hid, howned, by rw [Function.update_of_ne hkey, hrecord], hblock,
      hchain⟩

/-- A rename shows the whole call, made on the record that is there now. -/
theorem Sound.renamed (hs : Sound owner h) {u : Upsert} (hu : (h.process role).upsert = some u)
    (hwritten : u.replacing.written = true) :
    ∃ dir, rename u.replacing.temp u.replacing.file h.dir = some dir ∧
      Sound owner ({ h with dir }.set role ⟨(h.process role).poll, none⟩) ∧
      Store.apply (view h) (u.call, u.clock) =
        some (view ({ h with dir }.set role ⟨(h.process role).poll, none⟩)) := by
  have hreplacing : replacings h role = some u.replacing := by rw [replacings, hu]; rfl
  have hp := hs.processes role
  have hwrites : Writes owner (view h) role u := hp.writes u hu
  obtain ⟨dir, hrename, htext, hrest, hready⟩ := hs.ready.rename hreplacing hwritten
  obtain ⟨next, hnext, hshaped⟩ :=
    shaped_upsert (fun r hr => hs.shaped_view hr) hwrites.homed u.clock
  obtain rfl : next = u.next := Option.some.inj (hnext.symm.trans hwrites.next)
  have hparse : parse u.replacing.text = some (.object u.next) := by
    rw [hwrites.text]
    exact parse_stringify (.object hshaped.members.1 hshaped.members.2)
  rw [hwrites.file] at htext hrest
  have hview : view ({ h with dir }.set role ⟨(h.process role).poll, none⟩) =
      Function.update (view h) (keyOf u.call.intentId) (some u.next) := by
    funext key
    have hother : (view ({ h with dir }.set role ⟨(h.process role).poll, none⟩)) key =
        readState (dir.lookup (fileName key)) := rfl
    rw [hother]
    by_cases hkey : key = keyOf u.call.intentId
    · subst hkey
      rw [Function.update_self]
      exact (congrArg readState htext).trans (readState_of_parse hparse)
    · rw [Function.update_of_ne hkey, hrest _ (shown_iff.mpr ⟨key, rfl⟩)
        fun heq => hkey (fileName_inj heq)]
      rfl
  refine ⟨dir, hrename, ⟨fun key text hfound => ?_, ?_, fun other => ?_⟩, ?_⟩
  · by_cases hkey : key = keyOf u.call.intentId
    · subst hkey
      cases hfound.symm.trans htext
      exact ⟨u.next, hparse, hshaped⟩
    · have hsame : dir.lookup (fileName key) = h.dir.lookup (fileName key) :=
        hrest _ (shown_iff.mpr ⟨key, rfl⟩) fun heq => hkey (fileName_inj heq)
      exact hs.shaped key text (hsame ▸ hfound)
  · rw [replacings_set]
    exact hready
  · rw [hview, set_process]
    by_cases hother : other = role
    · subst hother
      rw [Function.update_self]
      refine ⟨fun _ hv => (by cases hv), fun poll hpoll => ?_, fun _ _ _ hv => (by cases hv)⟩
      obtain ⟨hlistener, hnames, hlisted⟩ := hp.listed poll hpoll
      obtain ⟨intentId, hcall⟩ := hp.marks poll u hpoll hu
      refine ⟨hlistener, hnames, fun state hstate =>
        (hlisted state hstate).update fun _ record hr => ?_⟩
      have hfinal := hwrites.next
      rw [hcall] at hfinal hr
      have hprev : prevState (view h (keyOf (Call.setFinal intentId).intentId))
          (.setFinal intentId) u.clock = record := by rw [hr]; rfl
      exact ⟨hprev ▸ lookup_setFinal hfinal "blockNumber" (by decide),
        hprev ▸ lookup_setFinal hfinal "sourceChain" (by decide)⟩
    · rw [Function.update_of_ne hother]
      have hq := hs.processes other
      refine ⟨fun v hv => ?_, fun poll hpoll => ?_, hq.marks⟩
      · obtain ⟨howned, hhomed, hfile, htemp, htext, hnext⟩ := hq.writes v hv
        have hkey : keyOf v.call.intentId ≠ keyOf u.call.intentId := fun heq =>
          hother (howned.symm.trans ((congrArg owner heq).trans hwrites.owned))
        exact ⟨howned, hhomed, hfile, htemp, htext, by rwa [Function.update_of_ne hkey]⟩
      · obtain ⟨hlistener, hnames, hlisted⟩ := hq.listed poll hpoll
        refine ⟨hlistener, hnames, fun state hstate =>
          (hlisted state hstate).update fun howner => ?_⟩
        exact absurd (hlistener.trans (howner.symm.trans hwrites.owned)) hother
  · rw [hview, Store.apply, hwrites.next]
    rfl

end

/-! ## Every step -/

/-- What an event does. -/
inductive Moves (h : Host) : Event → Host → Prop where
  | call {role : Role} {made : Call} {clock : Clock} : h.process role = ⟨none, none⟩ →
    Moves h (.call role made clock) (h.begin role none made clock)
  | written {role : Role} {u : Upsert} : (h.process role).upsert = some u →
    Moves h (.write role .returned)
      ({ h with dir := put u.replacing.temp u.replacing.text h.dir }.set role
        ⟨(h.process role).poll,
          some { u with replacing := { u.replacing with written := true } }⟩)
  | renamed {role : Role} {u : Upsert} {dir : List (Str × Str)} :
    (h.process role).upsert = some u → u.replacing.written = true →
      rename u.replacing.temp u.replacing.file h.dir = some dir →
      Moves h (.rename role true) ({ h with dir }.set role ⟨(h.process role).poll, none⟩)
  /-- The process dies, or a call of it throws. -/
  | stopped {role : Role} {e : Event} (dir : List (Str × Str)) :
    (∀ r, replacings h role = some r → Except r.temp h.dir dir) →
      (replacings h role = none → dir = h.dir) →
      (e = .die role ∨ (∃ write, write ≠ .returned ∧ e = .write role write) ∨
        e = .rename role false ∨ e = .rename role true ∧ ∃ u, (h.process role).upsert = some u ∧
          u.replacing.written = true ∧ rename u.replacing.temp u.replacing.file h.dir = none) →
      Moves h e ({ h with dir }.set role idle)
  | polled {n : Nat} : h.process .listener = ⟨none, none⟩ → Moves h (.poll n)
      (h.set .listener ⟨some ⟨n, (h.dir.map Prod.fst).filter (jsonSuffix.isSuffixOf ·), []⟩, none⟩)
  | read {n : Nat} {name : Str} {names : List Str} {states : List IntentState} {ok : Bool}
      {found : Option IntentState} : h.process .listener = ⟨some ⟨n, name :: names, states⟩, none⟩ →
    (∀ state, found = some state →
      pendingIn arbitrumSepolia (h.dir.lookup name) = some state) →
      Moves h (.read ok) (h.set .listener ⟨some ⟨n, names, states ++ found.toList⟩, none⟩)
  | done {n : Nat} {clock : Clock} : h.process .listener = ⟨some ⟨n, [], []⟩, none⟩ →
    Moves h (.next clock) (h.set .listener idle)
  | marked {n : Nat} {clock : Clock} {state : IntentState} {states : List IntentState}
      {blockNumber : Number} {intentId : Str} :
    h.process .listener = ⟨some ⟨n, [], state :: states⟩, none⟩ →
      blockNumberOf state = some blockNumber →
      isBlockFinal blockNumber (.finite (double n)) = true → intentIdOf state = some intentId →
      Moves h (.next clock)
        (h.begin .listener (some ⟨n, [], states⟩) (.setFinal intentId) clock)
  /-- A record whose intent is no string is no record of ours, and ends the poll. -/
  | unnamed {n : Nat} {clock : Clock} {state : IntentState} {states : List IntentState} :
    h.process .listener = ⟨some ⟨n, [], state :: states⟩, none⟩ → intentIdOf state = none →
      Moves h (.next clock) (h.set .listener idle)
  | passed {n : Nat} {clock : Clock} {state : IntentState} {states : List IntentState}
      {blockNumber : Number} :
    h.process .listener = ⟨some ⟨n, [], state :: states⟩, none⟩ →
      blockNumberOf state = some blockNumber →
      isBlockFinal blockNumber (.finite (double n)) = false →
      Moves h (.next clock) (h.set .listener ⟨some ⟨n, [], states⟩, none⟩)

theorem moves_of_step {h h' : Host} {e : Event} (hstep : step h e = some h') : Moves h e h' := by
  cases e with
  | call role made clock =>
    simp only [step] at hstep
    split at hstep
    · next hp =>
      cases hstep
      exact .call hp
    · cases hstep
  | write role write =>
    simp only [step] at hstep
    split at hstep
    · next poll u hp =>
      have hu : (h.process role).upsert = some u := by rw [hp]
      have hreplacing : replacings h role = some u.replacing := by rw [replacings, hu]; rfl
      split at hstep
      · cases hstep
      · obtain rfl := Option.some.inj hstep
        by_cases hreturned : write = .returned
        · subst hreturned
          rw [if_pos rfl]
          have hpoll : (h.process role).poll = poll := by rw [hp]
          have hmoved := Moves.written hu
          rw [hpoll] at hmoved
          exact hmoved
        · rw [if_neg hreturned]
          refine .stopped _ (fun r hr => ?_) (fun hnone => ?_) (.inr (.inl ⟨write, hreturned, rfl⟩))
          · obtain rfl : u.replacing = r := Option.some.inj (hreplacing.symm.trans hr)
            intro name hname
            split
            · rw [lookup_put, if_neg hname]
            · rfl
          · rw [hreplacing] at hnone
            cases hnone
    · cases hstep
  | rename role ok =>
    simp only [step] at hstep
    split at hstep
    · next poll u hp =>
      have hu : (h.process role).upsert = some u := by rw [hp]
      have hpoll : (h.process role).poll = poll := by rw [hp]
      split at hstep
      · next hwritten =>
        split at hstep
        · next dir hdir =>
          cases hstep
          cases ok with
          | false => cases hdir
          | true =>
            have hmoved := Moves.renamed hu hwritten hdir
            rwa [hpoll] at hmoved
        · next hnone =>
          cases hstep
          refine .stopped h.dir (fun _ _ _ _ => rfl) (fun _ => rfl) ?_
          cases ok with
          | false => exact .inr (.inr (.inl rfl))
          | true => exact .inr (.inr (.inr ⟨rfl, u, hu, hwritten, hnone⟩))
      · cases hstep
    · cases hstep
  | die role =>
    cases hstep
    exact .stopped h.dir (fun _ _ _ _ => rfl) (fun _ => rfl) (.inl rfl)
  | poll n =>
    simp only [step] at hstep
    split at hstep
    · next hp =>
      cases hstep
      exact .polled hp
    · cases hstep
  | read ok =>
    simp only [step] at hstep
    split at hstep
    · next n name names states hp =>
      cases hstep
      refine .read hp fun state hstate => ?_
      split at hstate
      · exact hstate
      · cases hstate
    · cases hstep
  | next clock =>
    simp only [step] at hstep
    split at hstep
    · next n hp =>
      cases hstep
      exact .done hp
    · next n state states hp =>
      obtain ⟨blockNumber, hblock, rfl⟩ := Option.map_eq_some_iff.mp hstep
      split
      · next hfinal =>
        split
        · next intentId hid => exact .marked hp hblock hfinal hid
        · next hid => exact .unnamed hp hid
      · next hfinal => exact .passed hp hblock (Bool.eq_false_iff.mpr hfinal)
    · cases hstep

/-- The call that an event shows. -/
def committed (h : Host) : Event → Option (Role × Call × Clock)
  | .rename role true => (h.process role).upsert.bind fun u =>
    if u.replacing.written then some (role, u.call, u.clock) else none
  | _ => none

/-- The call that an event begins. -/
def began (h : Host) : Event → Option (Role × Call × Clock)
  | .call role made clock => some (role, made, clock)
  | .next clock =>
    match h.process .listener with
    | ⟨some ⟨n, [], state :: _⟩, none⟩ =>
      if (blockNumberOf state).any (isBlockFinal · (.finite (double n))) then
        (intentIdOf state).map fun intentId => (.listener, .setFinal intentId, clock)
      else none
    | _ => none
  | _ => none

section

variable {owner : Str → Role} {h h' : Host} {e : Event}

theorem isString_iff {value : Option Value} {s : Str} :
    isString value s = true ↔ value = some (.string s) := by
  rcases value with _ | (_ | _ | _ | _ | _ | _) <;> simp [isString, Value.asStr]

/-- What the poll takes from a file is what the store has for one of its keys. -/
theorem listed_of_pendingIn (hs : Sound owner h) {name : Str} (hname : Shown name)
    {state : IntentState}
    (hpending : pendingIn arbitrumSepolia (h.dir.lookup name) = some state) :
    Listed owner (view h) state := by
  obtain ⟨key, rfl⟩ := shown_iff.mp hname
  obtain ⟨hread, hkept⟩ := Option.filter_eq_some_iff.mp hpending
  have hshaped : Shaped owner key state := hs.shaped_view hread
  obtain ⟨intentId, hid, rfl⟩ := hshaped.intentId
  have hchain := isString_iff.mp
    (Bool.and_eq_true_iff.mp (Bool.and_eq_true_iff.mp hkept).1).1
  exact ⟨intentId, state, hid, hshaped.sourceChain hchain, hread, rfl, hchain⟩

/-- What each step keeps, and what a reader sees of it. -/
theorem Moves.sound (hs : Sound owner h) (hproper : e.Proper owner) (hm : Moves h e h') :
    Sound owner h' ∧
      Run.run Store.apply (view h) ((committed h e).map Prod.snd).toList = some (view h') := by
  cases hm with
  | @call role made clock hp =>
    obtain ⟨howned, hhomed, -⟩ := hproper
    have hnone : (h.process role).upsert = none := by rw [hp]
    obtain ⟨next, hnext, hbegin⟩ := hs.begin_eq role hhomed none clock
    rw [hbegin]
    refine ⟨hs.writing hnone rfl rfl ⟨fun v hv => ?_, fun _ hq => (by cases hq),
      fun _ _ hq => (by cases hq)⟩, rfl⟩
    cases hv
    exact ⟨howned, hhomed, rfl, rfl, rfl, hnext⟩
  | written hu =>
    obtain ⟨hsound, hview⟩ := hs.written hu
    exact ⟨hsound, congrArg some hview.symm⟩
  | @renamed role u dir hu hwritten hdir =>
    obtain ⟨dir', hdir', hsound, hview⟩ := hs.renamed hu hwritten
    cases hdir.symm.trans hdir'
    refine ⟨hsound, ?_⟩
    have hcommitted : committed h (.rename role true) = some (role, u.call, u.clock) := by
      rw [committed, hu, Option.bind_some, if_pos hwritten]
    rw [hcommitted]
    exact Run.run_cons_eq_some.mpr ⟨_, hview, rfl⟩
  | @stopped role _ dir hdir hsame hhow =>
    obtain ⟨hsound, hview⟩ := hs.stopped role hdir hsame
    have hnothing : committed h e = none := by
      rcases hhow with rfl | ⟨write, -, rfl⟩ | rfl | ⟨rfl, u, hu, hwritten, hfailed⟩
      · rfl
      · rfl
      · rfl
      · obtain ⟨dir', hdir', -⟩ := hs.renamed hu hwritten
        cases hfailed.symm.trans hdir'
    rw [hnothing]
    exact ⟨hsound, congrArg some hview.symm⟩
  | polled hp =>
    refine ⟨hs.still (by rw [hp]) rfl ⟨fun _ hv => (by cases hv), fun poll hpoll => ?_,
      fun _ _ _ hv => (by cases hv)⟩, rfl⟩
    cases hpoll
    refine ⟨rfl, fun name hname => ?_, fun _ hstate => absurd hstate List.not_mem_nil⟩
    exact List.isSuffixOf_iff_suffix.mp (List.mem_filter.mp hname).2
  | @read n name names states ok found hp hfound =>
    refine ⟨hs.still (by rw [hp]) rfl ⟨fun _ hv => (by cases hv), fun poll hpoll => ?_,
      fun _ _ _ hv => (by cases hv)⟩, rfl⟩
    cases hpoll
    obtain ⟨-, hnames, hlisted⟩ := (hs.processes .listener).listed ⟨n, name :: names, states⟩
      (by rw [hp])
    refine ⟨rfl, fun other hother => hnames other (List.mem_cons_of_mem _ hother),
      fun state hstate => ?_⟩
    rcases List.mem_append.mp hstate with hold | hnew
    · exact hlisted state hold
    · exact listed_of_pendingIn hs (hnames name (.head _))
        (hfound state (Option.mem_toList.mp hnew))
  | done hp => exact ⟨hs.still (by rw [hp]) rfl (.idle owner (view h) _), rfl⟩
  | @marked n clock state states blockNumber intentId hp hblock hfinal hid =>
    have hpoll : (h.process .listener).poll = some ⟨n, [], state :: states⟩ := by rw [hp]
    have hnone : (h.process .listener).upsert = none := by rw [hp]
    obtain ⟨-, hnames, hlisted⟩ := (hs.processes .listener).listed _ hpoll
    obtain ⟨intentId', record, hid', howned, -⟩ := hlisted state (.head _)
    cases hid.symm.trans hid'
    have hhomed : (Call.setFinal intentId).Homed owner := fun _ _ hcall => by cases hcall
    obtain ⟨next, hnext, hbegin⟩ :=
      hs.begin_eq .listener hhomed (some ⟨n, [], states⟩) clock
    rw [hbegin]
    refine ⟨hs.writing hnone rfl rfl ⟨fun v hv => ?_, fun poll hq => ?_, fun _ v _ hv => ?_⟩, rfl⟩
    · cases hv
      exact ⟨howned, hhomed, rfl, rfl, rfl, hnext⟩
    · cases hq
      exact ⟨rfl, hnames, fun other hother => hlisted other (List.mem_cons_of_mem _ hother)⟩
    · cases hv
      exact ⟨intentId, rfl⟩
  | unnamed hp hid => exact ⟨hs.still (by rw [hp]) rfl (.idle owner (view h) _), rfl⟩
  | @passed n clock state states blockNumber hp hblock hfinal =>
    have hpoll : (h.process .listener).poll = some ⟨n, [], state :: states⟩ := by rw [hp]
    obtain ⟨-, hnames, hlisted⟩ := (hs.processes .listener).listed _ hpoll
    refine ⟨hs.still (by rw [hp]) rfl ⟨fun _ hv => (by cases hv), fun poll hq => ?_,
      fun _ _ _ hv => (by cases hv)⟩, rfl⟩
    cases hq
    exact ⟨rfl, hnames, fun other hother => hlisted other (List.mem_cons_of_mem _ hother)⟩

/-! ## The order of the calls -/

/-- The calls of a process. -/
def ofRole (role : Role) (c : Role × Call × Clock) : Bool := c.1 = role

/-- The call that a process is in. -/
def pending (role : Role) (h : Host) : List (Role × Call × Clock) :=
  ((h.process role).upsert.map fun u => (role, u.call, u.clock)).toList

def Event.Succeeds : Event → Prop
  | .write _ how => how = .returned
  | .rename _ ok => ok = true
  | .die _ => False
  | _ => True

theorem pending_set (role other : Role) (h : Host) (dir : List (Str × Str)) (p : Process) :
    pending role ({ h with dir }.set other p) = if role = other then
      (p.upsert.map fun u => (role, u.call, u.clock)).toList else pending role h := by
  unfold pending
  rw [set_process]
  by_cases hrole : role = other
  · subst hrole
    rw [Function.update_self, if_pos rfl]
  · rw [Function.update_of_ne hrole, if_neg hrole]

/-- What a step shows and leaves pending was pending or is begun, in this order; nothing is dropped
where the step succeeds. -/
theorem Moves.order (hs : Sound owner h) (hproper : e.Proper owner) (hm : Moves h e h')
    (role : Role) :
    (((committed h e).filter (ofRole role)).toList ++ pending role h').Sublist
        (pending role h ++ ((began h e).filter (ofRole role)).toList) ∧
      (e.Succeeds → ((committed h e).filter (ofRole role)).toList ++ pending role h' =
        pending role h ++ ((began h e).filter (ofRole role)).toList) := by
  have hquiet {other : Role} {p : Process} (hnone : (h.process other).upsert = none)
      (hp : p.upsert = none) (hcommitted : committed h e = none) (hbegan : began h e = none) :
      ((committed h e).filter (ofRole role)).toList ++ pending role (h.set other p) =
        pending role h ++ ((began h e).filter (ofRole role)).toList := by
    rw [hcommitted, hbegan, pending_set role other h h.dir]
    by_cases hrole : role = other
    · subst hrole
      rw [if_pos rfl, hp, pending, hnone]
      rfl
    · rw [if_neg hrole]
      exact (List.append_nil _).symm
  have hopens {other : Role} {made : Call} {clock : Clock} {poll : Option Poll}
      (hnone : (h.process other).upsert = none) (hhomed : made.Homed owner)
      (hcommitted : committed h e = none) (hbegan : began h e = some (other, made, clock)) :
      ((committed h e).filter (ofRole role)).toList ++
          pending role (h.begin other poll made clock) =
        pending role h ++ ((began h e).filter (ofRole role)).toList := by
    obtain ⟨next, -, hbegin⟩ := hs.begin_eq other hhomed poll clock
    rw [hcommitted, hbegan, hbegin, pending_set role other h h.dir]
    by_cases hrole : role = other
    · subst hrole
      rw [if_pos rfl, pending, hnone]
      simp [ofRole, Option.filter]
    · have hne : other ≠ role := fun heq => hrole heq.symm
      rw [if_neg hrole]
      simp [ofRole, Option.filter, hne]
  have both {a b : List (Role × Call × Clock)} (heq : a = b) : a.Sublist b ∧ (e.Succeeds → a = b) :=
    ⟨heq ▸ .refl _, fun _ => heq⟩
  cases hm with
  | @call other made clock hp =>
    exact both (hopens (by rw [hp]) hproper.2.1 rfl rfl)
  | @written other u hu =>
    refine both ?_
    rw [pending_set role other h]
    by_cases hrole : role = other
    · subst hrole
      rw [if_pos rfl, pending, hu]
      rfl
    · rw [if_neg hrole]
      exact (List.append_nil _).symm
  | @renamed other u dir hu hwritten hdir =>
    refine both ?_
    have hcommitted : committed h (.rename other true) = some (other, u.call, u.clock) := by
      rw [committed, hu, Option.bind_some, if_pos hwritten]
    rw [hcommitted, pending_set role other h]
    by_cases hrole : role = other
    · subst hrole
      rw [if_pos rfl, pending, hu]
      simp [ofRole, Option.filter, began]
    · have hne : other ≠ role := fun heq => hrole heq.symm
      rw [if_neg hrole]
      simp [ofRole, Option.filter, began, hne]
  | @stopped other _ dir hdir hsame hhow =>
    have hnothing : committed h e = none ∧ began h e = none ∧ ¬e.Succeeds := by
      rcases hhow with rfl | ⟨write, hfailed, rfl⟩ | rfl | ⟨rfl, u, hu, hwritten, hfailed⟩
      · exact ⟨rfl, rfl, id⟩
      · exact ⟨rfl, rfl, hfailed⟩
      · exact ⟨rfl, rfl, Bool.false_ne_true⟩
      · obtain ⟨dir', hdir', -⟩ := hs.renamed hu hwritten
        cases hfailed.symm.trans hdir'
    refine ⟨?_, fun hsucceeds => absurd hsucceeds hnothing.2.2⟩
    rw [hnothing.1, hnothing.2.1, pending_set role other h]
    by_cases hrole : role = other
    · rw [if_pos hrole]
      exact List.nil_sublist _
    · rw [if_neg hrole]
      exact List.sublist_append_left _ _
  | polled hp => exact both (hquiet (by rw [hp]) rfl rfl rfl)
  | read hp _ => exact both (hquiet (by rw [hp]) rfl rfl rfl)
  | done hp => exact both (hquiet (by rw [hp]) rfl rfl (by simp only [began, hp]))
  | @marked n clock state states blockNumber intentId hp hblock hfinal hid =>
    refine both (hopens (by rw [hp]) (fun _ _ hcall => by cases hcall) rfl ?_)
    simp only [began, hp, hblock, Option.any_some, hfinal, if_true, hid, Option.map_some]
  | unnamed hp hid =>
    refine both (hquiet (by rw [hp]) rfl rfl ?_)
    simp only [began, hp, hid, Option.map_none, ite_self]
  | passed hp hblock hfinal =>
    refine both (hquiet (by rw [hp]) rfl rfl ?_)
    simp only [began, hp, hblock, Option.any_some, hfinal, Bool.false_eq_true, if_false]

end

/-! ## Runs -/

section

variable {owner : Str → Role} {h h' : Host} {es : List Event}

theorem sound_run (hstart : Sound owner h) (hproper : ∀ e ∈ es, e.Proper owner)
    (hrun : Run.run step h es = some h') : Sound owner h' :=
  Run.run_invariant (Event.Proper owner)
    (fun _ _ _ hok hs hstep => ((moves_of_step hstep).sound hs hok).1) hproper hrun hstart

/-- What the files show after any run of both processes is what the calls that were renamed make of
them, each at once on the record that was there, and the calls of a process in the order it made
them. -/
theorem stores_atomically (hstart : Start owner h) (hproper : ∀ e ∈ es, e.Proper owner)
    (hrun : Run.run step h es = some h') :
    Run.run Store.apply (view h) ((Run.log step committed h es).map Prod.snd) = some (view h') ∧
      ∀ role, ((Run.log step committed h es).filter (ofRole role)).Sublist
        ((Run.log step began h es).filter (ofRole role)) := by
  have hs := sound_start hstart
  constructor
  · rw [Run.log_map]
    exact Run.run_simulates (Event.Proper owner)
      (fun _ _ _ hok hs hstep => (moves_of_step hstep).sound hs hok) hproper hrun hs
  · intro role
    have hpending : pending role h = [] := by rw [pending, hstart.idle]; rfl
    rw [Run.log_filter, Run.log_filter]
    have hsub := Run.log_sublist (pending role)
      (fun h e => (began h e).filter (ofRole role))
      (fun h e => (committed h e).filter (ofRole role)) (Event.Proper owner)
      (fun _ _ _ hok hs hstep => ⟨((moves_of_step hstep).sound hs hok).1,
        ((moves_of_step hstep).order hs hok role).1⟩) hproper hrun hs
    rwa [hpending] at hsub

/-- Where no write fails and no process dies, every call that was begun is in the files in the end,
once, in the order of its process. -/
theorem no_call_lost (hstart : Start owner h) (hproper : ∀ e ∈ es, e.Proper owner)
    (hsucceeds : ∀ e ∈ es, e.Succeeds) (hrun : Run.run step h es = some h')
    (hend : ∀ role, (h'.process role).upsert = none) (role : Role) :
    (Run.log step committed h es).filter (ofRole role) =
      (Run.log step began h es).filter (ofRole role) := by
  have hpending : pending role h = [] := by rw [pending, hstart.idle]; rfl
  have hpending' : pending role h' = [] := by rw [pending, hend]; rfl
  have hexact := Run.log_exact (pending role)
    (fun h e => (began h e).filter (ofRole role))
    (fun h e => (committed h e).filter (ofRole role))
    (fun e => e.Proper owner ∧ e.Succeeds)
    (fun _ _ _ hok hs hstep => ⟨((moves_of_step hstep).sound hs hok.1).1,
      ((moves_of_step hstep).order hs hok.1 role).2 hok.2⟩)
    (fun e he => ⟨hproper e he, hsucceeds e he⟩) hrun (sound_start hstart)
  rw [Run.log_filter, Run.log_filter]
  rwa [hpending, hpending', List.append_nil, List.nil_append] at hexact

/-- At any moment, also between the calls of a write and after any crash, a file that a reader of
the directory looks at is the whole record of the intent it is named for. -/
theorem files_whole (hstart : Start owner h) (hproper : ∀ e ∈ es, e.Proper owner)
    (hrun : Run.run step h es = some h') {name text : Str} (hname : jsonSuffix <:+ name)
    (htext : h'.dir.lookup name = some text) :
    ∃ record intentId, parse text = some (.object record) ∧ Members record ∧
      intentIdOf record = some intentId ∧ name = filePathOf intentId := by
  obtain ⟨key, rfl⟩ := shown_iff.mp hname
  obtain ⟨record, hparse, hshaped⟩ :=
    (sound_run (sound_start hstart) hproper hrun).shaped key text htext
  obtain ⟨intentId, hid, rfl⟩ := hshaped.intentId
  exact ⟨record, intentId, hparse, hshaped.members, hid, rfl⟩

/-- A step shows nothing new, or one call on the record of its intent. -/
theorem view_step {e : Event} (hs : Sound owner h) (hproper : e.Proper owner)
    (hstep : step h e = some h') :
    view h' = view h ∨ ∃ role call clock next, committed h e = some (role, call, clock) ∧
      upsert (view h (keyOf call.intentId)) call clock = some next ∧
      view h' = Function.update (view h) (keyOf call.intentId) (some next) := by
  have hview := ((moves_of_step hstep).sound hs hproper).2
  rcases hcommitted : committed h e with _ | ⟨role, call, clock⟩
  · rw [hcommitted] at hview
    exact .inl (Option.some.inj hview).symm
  · rw [hcommitted] at hview
    obtain ⟨store, hstore, hend⟩ := Run.run_cons_eq_some.mp hview
    cases hend
    obtain ⟨next, hnext, heq⟩ := Option.map_eq_some_iff.mp hstore
    exact .inr ⟨role, call, clock, next, rfl, hnext, heq.symm⟩

/-- No reason in any file ever shows an address, if none did at the start. -/
theorem reasons_hide_urls (hstart : Start owner h)
    (hhides : ∀ key record, view h key = some record → Hides record)
    (hproper : ∀ e ∈ es, e.Proper owner) (hrun : Run.run step h es = some h') {key : Str}
    {record : IntentState} (hrecord : view h' key = some record) {reason : Str}
    (hreason : reason ∈ reasonsOf record) : NoUrl reason := by
  refine (Run.run_invariant (I := fun h => Sound owner h ∧
    ∀ key record, view h key = some record → Hides record) (Event.Proper owner) ?_ hproper hrun
    ⟨sound_start hstart, hhides⟩).2 key record hrecord reason hreason
  rintro h e h' hok ⟨hs, hall⟩ hstep
  refine ⟨((moves_of_step hstep).sound hs hok).1, fun key record hrecord => ?_⟩
  rcases view_step hs hok hstep with hsame | ⟨role, call, clock, next, -, hnext, hview⟩
  · exact hall key record (hsame ▸ hrecord)
  · rw [hview] at hrecord
    by_cases hkey : key = keyOf call.intentId
    · subst hkey
      rw [Function.update_self] at hrecord
      cases hrecord
      refine hides_upsert ?_ hnext
      rcases hold : view h (keyOf call.intentId) with _ | old
      · exact hides_blankState call.intentId clock.now
      · exact hall _ old hold
    · rw [Function.update_of_ne hkey] at hrecord
      exact hall key record hrecord

/-- A record never goes away, stays final once it is, keeps the times it has, and keeps the time its
proof was first begun at through every retry. -/
theorem records_advance (hstart : Start owner h) (hproper : ∀ e ∈ es, e.Proper owner)
    (hrun : Run.run step h es = some h') {key : Str} {record : IntentState}
    (hrecord : view h key = some record) :
    ∃ record', view h' key = some record' ∧ Advances record record' := by
  refine (Run.run_invariant (I := fun h' => Sound owner h' ∧
    ∃ record', view h' key = some record' ∧ Advances record record') (Event.Proper owner) ?_
    hproper hrun ⟨sound_start hstart, record, hrecord, .refl record⟩).2
  rintro h e h' hok ⟨hs, old, hold, hadvances⟩ hstep
  refine ⟨((moves_of_step hstep).sound hs hok).1, ?_⟩
  rcases view_step hs hok hstep with hsame | ⟨role, call, clock, next, -, hnext, hview⟩
  · exact ⟨old, hsame ▸ hold, hadvances⟩
  · rw [hview]
    by_cases hkey : key = keyOf call.intentId
    · subst hkey
      rw [Function.update_self]
      have hprev : prevState (view h (keyOf call.intentId)) call clock = old := by
        rw [prevState, hold]
        rfl
      have hlast := advances_upsert (hprev ▸ hs.shaped_view hold) hnext
      exact ⟨next, rfl, hadvances.trans (hprev ▸ hlast)⟩
    · rw [Function.update_of_ne hkey]
      exact ⟨old, hold, hadvances⟩

/-! ## Finality -/

/-- A poll before answered with a finalized block that the block of the record is not past. -/
def Covered (past : List Event) (record : IntentState) : Prop :=
  ∃ (n : Nat) (blockNumber : Number), .poll n ∈ past ∧
    record.lookup "sourceChain".toList = some (.string arbitrumSepolia) ∧
    blockNumberOf record = some blockNumber ∧
    isBlockFinal blockNumber (.finite (double n)) = true

theorem Covered.snoc {past : List Event} {record : IntentState} (h : Covered past record)
    (e : Event) : Covered (past ++ [e]) record := by
  obtain ⟨n, blockNumber, hpoll, hrest⟩ := h
  exact ⟨n, blockNumber, List.mem_append_left _ hpoll, hrest⟩

/-- What the events so far say of the polls and of the calls that mark a record. -/
structure Marking (past : List Event) (h : Host) : Prop where
  polled : ∀ poll, (h.process .listener).poll = some poll →
    .poll poll.finalizedBlockNumber ∈ past
  covered : ∀ role u intentId, (h.process role).upsert = some u → u.call = .setFinal intentId →
    ∃ record, view h (keyOf intentId) = some record ∧ Covered past record

/-- One process changes, and the files show what they did. -/
theorem Marking.set {past : List Event} (hm : Marking past h) {e : Event} {role : Role}
    (dir : List (Str × Str)) {p : Process} (hview : view ({ h with dir }.set role p) = view h)
    (hpolled : ∀ poll, role = .listener → p.poll = some poll →
      .poll poll.finalizedBlockNumber ∈ past ++ [e])
    (hcovered : ∀ u intentId, p.upsert = some u → u.call = .setFinal intentId →
      ∃ record, view h (keyOf intentId) = some record ∧ Covered past record) :
    Marking (past ++ [e]) ({ h with dir }.set role p) := by
  refine ⟨fun poll hpoll => ?_, fun other u intentId hu hcall => ?_⟩
  · rw [set_process] at hpoll
    by_cases hrole : role = .listener
    · subst hrole
      rw [Function.update_self] at hpoll
      exact hpolled poll rfl hpoll
    · rw [Function.update_of_ne fun heq => hrole heq.symm] at hpoll
      exact List.mem_append_left _ (hm.polled poll hpoll)
  · rw [hview]
    rw [set_process] at hu
    have hold : ∃ record, view h (keyOf intentId) = some record ∧ Covered past record := by
      by_cases hother : other = role
      · subst hother
        rw [Function.update_self] at hu
        exact hcovered u intentId hu hcall
      · rw [Function.update_of_ne hother] at hu
        exact hm.covered other u intentId hu hcall
    obtain ⟨record, hrecord, hcov⟩ := hold
    exact ⟨record, hrecord, hcov.snoc e⟩

theorem Marking.step {past : List Event} {e : Event} (hs : Sound owner h)
    (hproper : e.Proper owner) (hm : Marking past h) (hmoves : Moves h e h') :
    Marking (past ++ [e]) h' := by
  cases hmoves with
  | @call role made clock hp =>
    obtain ⟨howned, hhomed, hmark⟩ := hproper
    obtain ⟨next, -, hbegin⟩ := hs.begin_eq role hhomed none clock
    rw [hbegin]
    refine hm.set h.dir rfl (fun _ _ hq => by cases hq) fun u intentId hu hcall => ?_
    cases hu
    exact absurd hcall (hmark intentId)
  | @written role u hu =>
    refine hm.set _ (hs.written hu).2 (fun poll hrole hpoll => ?_) fun v intentId hv hcall => ?_
    · subst hrole
      exact List.mem_append_left _ (hm.polled poll hpoll)
    · cases hv
      exact hm.covered role u intentId hu hcall
  | @renamed role u dir hu hwritten hdir =>
    obtain ⟨dir', hdir', -, hview⟩ := hs.renamed hu hwritten
    cases hdir.symm.trans hdir'
    have hwrites := (hs.processes role).writes u hu
    obtain ⟨next, -, hview⟩ := Option.map_eq_some_iff.mp hview
    refine ⟨fun poll hpoll => ?_, fun other v intentId hv hcall => ?_⟩
    · refine List.mem_append_left _ (hm.polled poll ?_)
      rw [set_process] at hpoll
      by_cases hrole : Role.listener = role
      · subst hrole
        rwa [Function.update_self] at hpoll
      · rwa [Function.update_of_ne hrole] at hpoll
    · rw [set_process] at hv
      by_cases hother : other = role
      · subst hother
        rw [Function.update_self] at hv
        cases hv
      · rw [Function.update_of_ne hother] at hv
        obtain ⟨record, hrecord, hcov⟩ := hm.covered other v intentId hv hcall
        have howned := ((hs.processes other).writes v hv).owned
        rw [hcall] at howned
        have hkey : keyOf intentId ≠ keyOf u.call.intentId := fun heq =>
          hother (howned.symm.trans ((congrArg owner heq).trans hwrites.owned))
        exact ⟨record, by rw [← hview, Function.update_of_ne hkey, hrecord], hcov.snoc _⟩
  | @stopped role _ dir hdir hsame hhow =>
    exact hm.set dir (hs.stopped role hdir hsame).2 (fun _ _ hq => by cases hq)
      fun _ _ hv => by cases hv
  | @polled n hp =>
    refine hm.set h.dir rfl (fun poll _ hpoll => ?_) fun _ _ hv => by cases hv
    cases hpoll
    exact List.mem_append_right _ (.head _)
  | @read n name names states ok found hp hfound =>
    refine hm.set h.dir rfl (fun poll _ hpoll => ?_) fun _ _ hv => by cases hv
    cases hpoll
    exact List.mem_append_left _ (hm.polled ⟨n, name :: names, states⟩ (by rw [hp]))
  | done hp =>
    exact hm.set h.dir rfl (fun _ _ hq => by cases hq) fun _ _ hv => by cases hv
  | @marked n clock state states blockNumber intentId hp hblock hfinal hid =>
    have hpoll : (h.process .listener).poll = some ⟨n, [], state :: states⟩ := by rw [hp]
    obtain ⟨-, -, hlisted⟩ := (hs.processes .listener).listed _ hpoll
    obtain ⟨intentId', record, hid', -, hrecord, hnumber, hchain⟩ := hlisted state (.head _)
    cases hid.symm.trans hid'
    have hhomed : (Call.setFinal intentId).Homed owner := fun _ _ hcall => by cases hcall
    obtain ⟨next, -, hbegin⟩ :=
      hs.begin_eq .listener hhomed (some ⟨n, [], states⟩) clock
    rw [hbegin]
    refine hm.set h.dir rfl (fun poll _ hq => ?_) fun u other hu hcall => ?_
    · cases hq
      exact List.mem_append_left _ (hm.polled ⟨n, [], state :: states⟩ hpoll)
    · cases hu
      cases hcall
      have hsame : blockNumberOf record = blockNumberOf state := by
        rw [blockNumberOf, blockNumberOf, hnumber]
      exact ⟨record, hrecord, n, blockNumber, hm.polled _ hpoll, hchain, hsame.trans hblock, hfinal⟩
  | unnamed hp hid =>
    exact hm.set h.dir rfl (fun _ _ hq => by cases hq) fun _ _ hv => by cases hv
  | @passed n clock state states blockNumber hp hblock hfinal =>
    refine hm.set h.dir rfl (fun poll _ hq => ?_) fun _ _ hv => by cases hv
    cases hq
    exact List.mem_append_left _ (hm.polled ⟨n, [], state :: states⟩ (by rw [hp]))

theorem upsert_of_committed {e : Event} {role : Role} {call : Call} {clock : Clock}
    (hcommitted : committed h e = some (role, call, clock)) :
    ∃ u, (h.process role).upsert = some u ∧ u.call = call := by
  unfold committed at hcommitted
  split at hcommitted
  · obtain ⟨u, hu, hcall⟩ := Option.bind_eq_some_iff.mp hcommitted
    split at hcall
    · cases hcall
      exact ⟨u, hu, rfl⟩
    · cases hcall
  · cases hcommitted

/-- A record becomes final by a rename, of an intent of this chain, and only after a poll was
answered with a finalized block that the block in the record is not past. -/
theorem final_covered (hstart : Start owner h) (hproper : ∀ e ∈ es, e.Proper owner)
    (hrun : Run.run step h es = some h') {key : Str}
    (hbefore : ∀ record, view h key = some record → isFinal record = false)
    {record : IntentState} (hrecord : view h' key = some record) (hfinal : isFinal record = true) :
    ∃ past s before, past <+: es ∧ Run.run step h past = some s ∧ view s key = some before ∧
      isFinal before = false ∧ Covered past before := by
  refine (Run.run_history (I := fun s past => past <+: es →
    Sound owner s ∧ Marking past s ∧ ∀ record, view s key = some record → isFinal record = true →
      ∃ past' s' before, past' <+: past ∧ Run.run step h past' = some s' ∧
        view s' key = some before ∧ isFinal before = false ∧ Covered past' before)
    ?_ hrun fun _ => ⟨sound_start hstart, ⟨fun poll hpoll => ?_, fun role u _ hu => ?_⟩,
      fun record hrecord hfinal => ?_⟩) (List.prefix_refl es) |>.2.2 record hrecord hfinal
  · intro past s e s' hpast ih hstep hpre
    have hok : e.Proper owner := hproper e (hpre.subset (List.mem_append_right _ (.head _)))
    obtain ⟨hs, hm, hall⟩ := ih ((List.prefix_append past [e]).trans hpre)
    have hmoves := moves_of_step hstep
    refine ⟨(hmoves.sound hs hok).1, hm.step hs hok hmoves, fun record hrecord hfinal => ?_⟩
    have hearlier {record : IntentState} (hrecord : view s key = some record)
        (hfinal : isFinal record = true) : ∃ past' s' before, past' <+: past ++ [e] ∧
          Run.run step h past' = some s' ∧ view s' key = some before ∧
          isFinal before = false ∧ Covered past' before := by
      obtain ⟨past', s', before, hpre', hrest⟩ := hall record hrecord hfinal
      exact ⟨past', s', before, hpre'.trans (List.prefix_append past [e]), hrest⟩
    rcases view_step hs hok hstep with hsame | ⟨role, call, clock, next, hcommitted, hnext, hview⟩
    · exact hearlier (hsame ▸ hrecord) hfinal
    · rw [hview] at hrecord
      by_cases hkey : key = keyOf call.intentId
      · subst hkey
        rw [Function.update_self] at hrecord
        cases hrecord
        rcases hold : view s (keyOf call.intentId) with _ | old
        · -- a call that makes a first record does not make it final
          rw [hold] at hnext
          obtain ⟨intentId, rfl⟩ :=
            setFinal_of_isFinal hnext (isFinal_blankState call.intentId clock.now) hfinal
          obtain ⟨u, hu, hcall⟩ := upsert_of_committed hcommitted
          obtain ⟨before, hbefore, -⟩ := hm.covered role u intentId hu hcall
          cases hold.symm.trans hbefore
        · rcases holdfinal : isFinal old
          · have hprev : prevState (view s (keyOf call.intentId)) call clock = old := by
              rw [prevState, hold]
              rfl
            obtain ⟨intentId, rfl⟩ := setFinal_of_isFinal hnext (hprev ▸ holdfinal) hfinal
            obtain ⟨u, hu, hcall⟩ := upsert_of_committed hcommitted
            obtain ⟨before, hbefore, hcov⟩ := hm.covered role u intentId hu hcall
            cases hold.symm.trans hbefore
            exact ⟨past, s, old, List.prefix_append past [e], hpast, hold, holdfinal, hcov⟩
          · exact hearlier hold holdfinal
      · rw [Function.update_of_ne hkey] at hrecord
        exact hearlier hrecord hfinal
  · rw [hstart.idle] at hpoll
    cases hpoll
  · rw [hstart.idle] at hu
    cases hu
  · rw [hbefore record hrecord] at hfinal
    cases hfinal

end

/-! ## A sample run -/

def sampleOwner (key : Str) : Role := if key = "ab".toList then .listener else .tronListener

def sampleFile : Str := stringify (.object (blankState "0xAB".toList "t0".toList))

/-- One file, of an intent that no chain is known for yet. -/
def sampleHost : Host := ⟨[(fileName "ab".toList, sampleFile)], fun _ => idle⟩

def sampleClock : Clock := ⟨"t1".toList, "t2".toList, 7, 100⟩

def sampleFields (intentId sourceChain : Str) : IntentCreatedFields where
  intentId
  sourceChain
  sourceTxHash := "0x01".toList
  blockNumber := some 12
  blockHash := none
  amountWei := "5".toList
  tokenAddress := "0x02".toList
  destinationChainId := "1".toList
  destinationWallet := "w".toList

/-- Both listeners record an intent at once. -/
def sampleCreated : List Event :=
  [.call .listener (.recordIntentCreated (sampleFields "0xAb".toList arbitrumSepolia) .queued)
      sampleClock,
    .call .tronListener (.recordIntentCreated (sampleFields "0xcd".toList "TRON".toList)
      (.skipped "TRON".toList)) sampleClock,
    .write .tronListener .returned, .write .listener .returned, .rename .tronListener true,
    .rename .listener true]

/-- The listener dies in the middle of a write, records a reason, and polls. -/
def sampleEvents : List Event :=
  sampleCreated ++
    [.call .listener (.setProving "0xab".toList) sampleClock, .write .listener (.died (.part 30)),
      .call .listener (.setRejected "0xab".toList "no https://rpc.example/key".toList) sampleClock,
      .write .listener .returned, .rename .listener true, .poll 20, .read true, .read true,
      .next sampleClock, .write .listener .returned, .rename .listener true, .next sampleClock]

theorem start_sampleHost : Start sampleOwner sampleHost where
  idle := fun _ => rfl
  shaped := fun key text htext => by
    obtain ⟨before, after, hdir, -⟩ := List.lookup_eq_some_iff.mp htext
    have hmem : (fileName key, text) ∈ sampleHost.dir := hdir ▸ List.mem_append_right _ (.head _)
    rcases List.mem_singleton.mp hmem with hfile
    obtain rfl : key = "ab".toList := fileName_inj (congrArg Prod.fst hfile)
    obtain rfl : text = sampleFile := congrArg Prod.snd hfile
    have hshaped := shaped_blankState sampleOwner "0xAB".toList "t0".toList
    exact ⟨_, parse_stringify (.object hshaped.members.1 hshaped.members.2), hshaped⟩

theorem homed_of_listener {owner : Str → Role} {call : Call}
    (h : owner (keyOf call.intentId) = .listener) : call.Homed owner := fun _ _ _ _ => h

theorem proper_sampleEvents : ∀ e ∈ sampleEvents, e.Proper sampleOwner := by
  intro e he
  cases e with
  | call role made clock =>
    simp only [sampleEvents, sampleCreated, List.cons_append, List.nil_append, List.mem_cons,
      List.not_mem_nil, or_false, Event.call.injEq, reduceCtorEq, false_or] at he
    rcases he with ⟨rfl, rfl, rfl⟩ | ⟨rfl, rfl, rfl⟩ | ⟨rfl, rfl, rfl⟩ | ⟨rfl, rfl, rfl⟩
    · exact ⟨rfl, homed_of_listener rfl, fun _ hcall => by cases hcall⟩
    · refine ⟨rfl, fun fields proofStatus hcall hchain => ?_, fun _ hcall => by cases hcall⟩
      cases hcall
      exact absurd hchain (by decide)
    · exact ⟨rfl, homed_of_listener rfl, fun _ hcall => by cases hcall⟩
    · exact ⟨rfl, homed_of_listener rfl, fun _ hcall => by cases hcall⟩
  | _ => trivial

/-- In the end the listener's record shows a redacted reason and is final, and the other intent has
its file. -/
theorem sampleEvents_end : ∃ h' record text, Run.run step sampleHost sampleEvents = some h' ∧
    view h' "ab".toList = some record ∧ reasonsOf record = ["no [redacted-url]".toList] ∧
    isFinal record = true ∧ h'.dir.lookup (fileName "cd".toList) = some text := by
  have hend : (Run.run step sampleHost sampleEvents).map (fun h =>
      ((view h "ab".toList).map fun record => (reasonsOf record, isFinal record),
        (h.dir.lookup (fileName "cd".toList)).isSome)) =
      some (some (["no [redacted-url]".toList], true), true) := by decide +kernel
  obtain ⟨h', hrun, hview⟩ := Option.map_eq_some_iff.mp hend
  obtain ⟨hrecord, htext⟩ := Prod.mk.inj hview
  obtain ⟨record, hrecord, hshows⟩ := Option.map_eq_some_iff.mp hrecord
  obtain ⟨hreasons, hfinal⟩ := Prod.mk.inj hshows
  obtain ⟨text, htext⟩ := Option.isSome_iff_exists.mp htext
  exact ⟨h', record, text, hrun, hrecord, hreasons, hfinal, htext⟩

theorem stores_atomically_sample : ∃ h',
    Run.run step sampleHost sampleEvents = some h' ∧
    Run.run Store.apply (view sampleHost)
      ((Run.log step committed sampleHost sampleEvents).map Prod.snd) = some (view h') := by
  obtain ⟨h', -, -, hrun, -⟩ := sampleEvents_end
  exact ⟨h', hrun, (stores_atomically start_sampleHost proper_sampleEvents hrun).1⟩

theorem no_call_lost_sample :
    (Run.log step committed sampleHost sampleCreated).filter (ofRole .tronListener) =
      [(.tronListener, .recordIntentCreated (sampleFields "0xcd".toList "TRON".toList)
        (.skipped "TRON".toList), sampleClock)] := by
  have hend : (Run.run step sampleHost sampleCreated).map (fun h =>
      ((h.process .listener).upsert.isNone, (h.process .tronListener).upsert.isNone)) =
        some (true, true) := by decide +kernel
  obtain ⟨h', hrun, hidle⟩ := Option.map_eq_some_iff.mp hend
  simp only [Prod.mk.injEq, Option.isNone_iff_eq_none] at hidle
  have hproper : ∀ e ∈ sampleCreated, e.Proper sampleOwner := fun e he =>
    proper_sampleEvents e (List.mem_append_left _ he)
  have hsucceeds : ∀ e ∈ sampleCreated, e.Succeeds := by
    intro e he
    simp only [sampleCreated, List.mem_cons, List.not_mem_nil, or_false] at he
    rcases he with rfl | rfl | rfl | rfl | rfl | rfl <;> simp only [Event.Succeeds]
  have hlost := no_call_lost start_sampleHost hproper hsucceeds hrun
    (fun role => by cases role <;> [exact hidle.1; exact hidle.2]) .tronListener
  rw [hlost]
  decide +kernel

theorem files_whole_sample : ∃ h' text record intentId,
    Run.run step sampleHost sampleEvents = some h' ∧
    h'.dir.lookup (fileName "cd".toList) = some text ∧ parse text = some (.object record) ∧
    intentIdOf record = some intentId ∧ fileName "cd".toList = filePathOf intentId := by
  obtain ⟨h', -, text, hrun, -, -, -, htext⟩ := sampleEvents_end
  obtain ⟨record, intentId, hparse, -, hid, hname⟩ :=
    files_whole start_sampleHost proper_sampleEvents hrun (List.suffix_append _ _) htext
  exact ⟨h', text, record, intentId, hrun, htext, hparse, hid, hname⟩

theorem eq_of_view_sampleHost {key : Str} {record : IntentState}
    (h : view sampleHost key = some record) :
    key = "ab".toList ∧ record = blankState "0xAB".toList "t0".toList := by
  have hshaped := shaped_blankState sampleOwner "0xAB".toList "t0".toList
  have hparse : parse sampleFile = some (.object (blankState "0xAB".toList "t0".toList)) :=
    parse_stringify (.object hshaped.members.1 hshaped.members.2)
  by_cases hkey : key = "ab".toList
  · subst hkey
    have hview : view sampleHost "ab".toList = readState (some sampleFile) := rfl
    rw [hview, readState_of_parse hparse] at h
    exact ⟨rfl, (Option.some.inj h).symm⟩
  · have hnone : sampleHost.dir.lookup (fileName key) = none := by
      have hne : fileName key ≠ fileName "ab".toList := fun heq => hkey (fileName_inj heq)
      rw [sampleHost, List.lookup_cons, beq_false_of_ne hne]
      rfl
    rw [view, hnone] at h
    cases h

theorem reasons_hide_urls_sample : ∃ h' record, Run.run step sampleHost sampleEvents = some h' ∧
    view h' "ab".toList = some record ∧ reasonsOf record = ["no [redacted-url]".toList] ∧
    NoUrl "no [redacted-url]".toList := by
  obtain ⟨h', record, -, hrun, hrecord, hreasons, -⟩ := sampleEvents_end
  refine ⟨h', record, hrun, hrecord, hreasons, ?_⟩
  refine reasons_hide_urls start_sampleHost (fun key record hview => ?_) proper_sampleEvents hrun
    hrecord (hreasons ▸ .head _)
  exact (eq_of_view_sampleHost hview).2 ▸ hides_blankState _ _

theorem records_advance_sample : ∃ h' record', Run.run step sampleHost sampleEvents = some h' ∧
    view h' "ab".toList = some record' ∧
    Advances (blankState "0xAB".toList "t0".toList) record' := by
  obtain ⟨h', -, -, hrun, -⟩ := sampleEvents_end
  have hshaped := shaped_blankState sampleOwner "0xAB".toList "t0".toList
  have hview : view sampleHost "ab".toList = some (blankState "0xAB".toList "t0".toList) :=
    readState_of_parse (parse_stringify (.object hshaped.members.1 hshaped.members.2))
  obtain ⟨record', hrecord, hadvances⟩ :=
    records_advance start_sampleHost proper_sampleEvents hrun hview
  exact ⟨h', record', hrun, hrecord, hadvances⟩

theorem final_covered_sample : ∃ past s before, past <+: sampleEvents ∧
    Run.run step sampleHost past = some s ∧ view s "ab".toList = some before ∧
    Covered past before := by
  obtain ⟨h', record, -, hrun, hrecord, -, hfinal, -⟩ := sampleEvents_end
  have hbefore (record : IntentState) (hview : view sampleHost "ab".toList = some record) :
      isFinal record = false := (eq_of_view_sampleHost hview).2 ▸ isFinal_blankState _ _
  obtain ⟨past, s, before, hpast, hrun', hview, -, hcovered⟩ :=
    final_covered start_sampleHost proper_sampleEvents hrun hbefore hrecord hfinal
  exact ⟨past, s, before, hpast, hrun', hview, hcovered⟩

end Maat.Orchestrator.IntentFiles
