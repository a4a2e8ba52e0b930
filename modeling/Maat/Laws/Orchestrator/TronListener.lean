import Mathlib.Logic.Function.Basic
import Mathlib.Data.List.Perm.Subperm
import Maat.Lib.Schedule
import Maat.Orchestrator.TronListener

/-!
# What the TRON listener delivers

For each watched event the responses a cursor gets are pieces of one feed, the events of that name
from the start on, and what has been handled is always an initial part of it (`Reads`). With no
more than 5000 of them the set of keys is never cleared, so none is handled twice; once it has been
cleared, the next answer begins with an event that was handled before. The offset moves on with
every poll unless 200 events of one time fill a page. `delivered_exactly_once` puts the two
together: in every run that goes on polling, the listener delivers exactly once if and only if the
log has neither.
-/

namespace Maat.Orchestrator.TronListener

open Feed

variable {apiKeys startTimestampMs : Nat} {name : WatchedEvent}

/-! ## The log -/

theorem Log.key_inj (log : Log) {e f : TronGridEvent} (he : e ∈ log.events) (hf : f ∈ log.events)
    (h : e.key = f.key) : e = f :=
  List.inj_on_of_nodup_map log.distinct he hf h

theorem grow_isPrefix (log : Log) (ev : TronGridEvent) : log.events <+: (log.grow ev).events := by
  unfold Log.grow
  split
  · exact List.prefix_append _ _
  · exact List.prefix_rfl

theorem due_isPrefix {log log' : Log} (h : log.events <+: log'.events) :
    due name startTimestampMs log <+: due name startTimestampMs log' :=
  h.filter _

theorem isPrefix_of_eq {log log' : Log} (h : log = log') : log.events <+: log'.events :=
  h ▸ List.prefix_rfl

theorem due_ascending (log : Log) :
    Ascending TronGridEvent.block_timestamp (due name startTimestampMs log) :=
  log.ascending.sublist List.filter_sublist

theorem mem_due {log : Log} {e : TronGridEvent} :
    e ∈ due name startTimestampMs log ↔
      e ∈ log.events ∧ e.event_name = name.name ∧ startTimestampMs ≤ e.block_timestamp := by
  rw [due, List.mem_filter, decide_eq_true_iff]

/-- From a mark at or after the start an answer is a page of the feed. -/
theorem answer_eq_page {log : Log} {t : Nat} (h : startTimestampMs ≤ t) :
    log.answer name t =
      page TronGridEvent.block_timestamp limit t (due name startTimestampMs log) := by
  rw [Log.answer, page, page, due, List.filter_filter, List.filter_filter]
  congr 1
  refine List.filter_congr ?_
  intro e _
  simp only [← Bool.decide_and, decide_eq_decide]
  constructor
  · rintro ⟨ht, hname⟩
    exact ⟨ht, hname, h.trans ht⟩
  · rintro ⟨ht, hname, -⟩
    exact ⟨ht, hname⟩

/-! ## One response -/

/-- The cursor remembers only what was handled, and its mark covers it. -/
structure Tracks (acc : EventCursor × List TronGridEvent) : Prop where
  seen : ∀ x ∈ acc.1.seen, x ∈ acc.2.map TronGridEvent.key
  covers : ∀ e ∈ acc.2, e.block_timestamp ≤ acc.1.sinceTimestampMs

/-- What the loop over a response leaves behind. -/
structure Took (acc acc' : EventCursor × List TronGridEvent) (events : List TronGridEvent) :
    Prop where
  tracks : Tracks acc'
  mem : ∀ e, e ∈ acc'.2 ↔ e ∈ acc.2 ∨ e ∈ events
  le : acc.1.sinceTimestampMs ≤ acc'.1.sinceTimestampMs
  reached : acc'.1.sinceTimestampMs = acc.1.sinceTimestampMs ∨
    ∃ e ∈ events, e.block_timestamp = acc'.1.sinceTimestampMs

theorem took_event {log : Log} {acc : EventCursor × List TronGridEvent} {ev : TronGridEvent}
    (h : Tracks acc) (hacc : ∀ e ∈ acc.2, e ∈ log.events) (hev : ev ∈ log.events) :
    Took acc (onEvent acc ev) [ev] := by
  unfold onEvent
  split
  · next hseen =>
    -- the key is known, so this very event was handled before
    have hmem : ev ∈ acc.2 := by
      obtain ⟨e, he, hkey⟩ := List.mem_map.mp (h.seen _ hseen)
      exact log.key_inj (hacc e he) hev hkey ▸ he
    refine ⟨h, ?_, le_rfl, .inl rfl⟩
    intro e
    rw [List.mem_singleton]
    constructor
    · exact .inl
    · rintro (he | rfl)
      · exact he
      · exact hmem
  · refine ⟨⟨?_, ?_⟩, ?_, Nat.le_max_left _ _, ?_⟩
    · intro x hx
      rw [List.map_append, List.mem_append]
      rcases List.mem_append.mp hx with hx | hx
      · exact .inl (h.seen x hx)
      · exact .inr hx
    · intro e he
      rcases List.mem_append.mp he with he | he
      · exact (h.covers e he).trans (Nat.le_max_left _ _)
      · cases List.mem_singleton.mp he
        exact Nat.le_max_right _ _
    · intro e
      rw [List.mem_append]
    · rcases Nat.le_total ev.block_timestamp acc.1.sinceTimestampMs with hle | hle
      · exact .inl (Nat.max_eq_left hle)
      · exact .inr ⟨ev, List.mem_singleton_self _, (Nat.max_eq_right hle).symm⟩

theorem took_events {log : Log} {events : List TronGridEvent}
    (hevents : ∀ e ∈ events, e ∈ log.events) {acc : EventCursor × List TronGridEvent}
    (h : Tracks acc) (hacc : ∀ e ∈ acc.2, e ∈ log.events) :
    Took acc (events.foldl onEvent acc) events := by
  induction events generalizing acc with
  | nil =>
    refine ⟨h, ?_, le_rfl, .inl rfl⟩
    intro e
    simp
  | cons ev events ih =>
    have hev : ev ∈ log.events := hevents ev List.mem_cons_self
    have hfirst := took_event h hacc hev
    have hacc' : ∀ e ∈ (onEvent acc ev).2, e ∈ log.events := by
      intro e he
      rcases (hfirst.mem e).mp he with he | he
      · exact hacc e he
      · cases List.mem_singleton.mp he
        exact hev
    have hrest := ih (fun e he => hevents e (List.mem_cons_of_mem _ he)) hfirst.tracks hacc'
    refine ⟨hrest.tracks, ?_, hfirst.le.trans hrest.le, ?_⟩
    · intro e
      rw [List.foldl_cons, hrest.mem, hfirst.mem, List.mem_singleton, List.mem_cons, or_assoc]
    · rw [List.foldl_cons]
      rcases hrest.reached with hmark | ⟨e, he, hmark⟩
      · rcases hfirst.reached with hmark' | ⟨e, he, hmark'⟩
        · exact .inl (hmark.trans hmark')
        · cases List.mem_singleton.mp he
          exact .inr ⟨ev, List.mem_cons_self, hmark'.trans hmark.symm⟩
      · exact .inr ⟨e, List.mem_cons_of_mem _ he, hmark⟩

/-- The set names exactly what was handled, each once. -/
def Faithful (acc : EventCursor × List TronGridEvent) : Prop :=
  acc.1.seen = acc.2.map TronGridEvent.key ∧ acc.1.seen.Nodup

theorem Faithful.nodup {acc : EventCursor × List TronGridEvent} (h : Faithful acc) :
    acc.2.Nodup :=
  List.Nodup.of_map _ (h.1 ▸ h.2)

theorem Faithful.onEvent {acc : EventCursor × List TronGridEvent} (h : Faithful acc)
    (ev : TronGridEvent) : Faithful (onEvent acc ev) := by
  unfold TronListener.onEvent
  split
  · exact h
  · next hnew =>
    refine ⟨?_, ?_⟩
    · rw [List.map_append, ← h.1]
      rfl
    · refine List.nodup_append.mpr ⟨h.2, List.nodup_singleton _, ?_⟩
      intro a ha b hb hab
      cases List.mem_singleton.mp hb
      exact hnew (hab ▸ ha)

theorem Faithful.events {acc : EventCursor × List TronGridEvent} (h : Faithful acc)
    (events : List TronGridEvent) : Faithful (events.foldl TronListener.onEvent acc) := by
  induction events generalizing acc with
  | nil => exact h
  | cons ev events ih => exact ih (h.onEvent ev)

theorem events_isPrefix (events : List TronGridEvent) (acc : EventCursor × List TronGridEvent) :
    acc.2 <+: (events.foldl onEvent acc).2 := by
  induction events generalizing acc with
  | nil => exact List.prefix_rfl
  | cons ev events ih =>
    refine List.IsPrefix.trans ?_ (ih (onEvent acc ev))
    unfold onEvent
    split
    · exact List.prefix_rfl
    · exact List.prefix_append _ _

/-- With nothing remembered, an answer that begins with a handled event repeats it. -/
theorem repeats_of_forgotten {acc : EventCursor × List TronGridEvent} {ev : TronGridEvent}
    (events : List TronGridEvent) (hseen : acc.1.seen = []) (hev : ev ∈ acc.2) :
    ¬ ((ev :: events).foldl onEvent acc).2.Nodup := by
  intro hnodup
  have hfirst : (onEvent acc ev).2 = acc.2 ++ [ev] := by
    rw [onEvent, if_neg]
    rw [hseen]
    exact List.not_mem_nil
  have hshort := (events_isPrefix events (onEvent acc ev)).sublist.nodup hnodup
  rw [hfirst, List.nodup_append] at hshort
  exact hshort.2.2 ev hev ev (List.mem_singleton_self _) rfl

/-! ## One step -/

section onEvents

variable (s : State) (q : Request) (events : List TronGridEvent)

@[simp] theorem onEvents_cursor : (onEvents s q events).cursors q.eventName =
    boundMemory (events.foldl onEvent (s.cursors q.eventName, s.handled q.eventName)).1 :=
  Function.update_self _ _ _

@[simp] theorem onEvents_handled : (onEvents s q events).handled q.eventName =
    (events.foldl onEvent (s.cursors q.eventName, s.handled q.eventName)).2 :=
  Function.update_self _ _ _

variable {q}

theorem onEvents_cursor_of_ne (h : q.eventName ≠ name) :
    (onEvents s q events).cursors name = s.cursors name :=
  Function.update_of_ne h.symm _ _

theorem onEvents_handled_of_ne (h : q.eventName ≠ name) :
    (onEvents s q events).handled name = s.handled name :=
  Function.update_of_ne h.symm _ _

end onEvents

theorem fulfilled_eq_some {s : State} {id : Nat} {q : Request} {events : List TronGridEvent}
    (h : s.fulfilled id = some (q, events)) : q ∈ s.requests ∧ q.id = id ∧ q.data = some events := by
  obtain ⟨r, hr, hfound⟩ := List.exists_of_findSome?_eq_some h
  split at hfound
  · next hid =>
    obtain ⟨events', hdata, heq⟩ := Option.map_eq_some_iff.mp hfound
    cases heq
    exact ⟨hr, hid, hdata⟩
  · cases hfound

theorem step_log (s : State) (a : Action) : s.log.events <+: (step apiKeys s a).log.events := by
  cases a with
  | grow ev => exact grow_isPrefix _ _
  | tick =>
    simp only [step, tick]
    split <;> exact List.prefix_rfl
  | answer id => exact List.prefix_rfl
  | fail id => exact List.prefix_rfl
  | resolve id =>
    simp only [step]
    split <;> exact List.prefix_rfl

theorem step_log_of_ne_grow {s : State} {a : Action} (h : ∀ ev, a ≠ .grow ev) :
    (step apiKeys s a).log = s.log := by
  cases a with
  | grow ev => exact absurd rfl (h ev)
  | tick =>
    simp only [step, tick]
    split <;> rfl
  | answer id => rfl
  | fail id => rfl
  | resolve id =>
    simp only [step]
    split <;> rfl

theorem step_nextId (s : State) (a : Action) : s.nextId ≤ (step apiKeys s a).nextId := by
  cases a with
  | grow ev => exact le_rfl
  | tick =>
    simp only [step, tick]
    split
    · exact le_rfl
    · exact Nat.le_add_right _ 3
  | answer id => exact le_rfl
  | fail id => exact le_rfl
  | resolve id =>
    simp only [step]
    split <;> exact le_rfl

/-- Only a callback touches the cursors and what was handled. -/
theorem step_cases (apiKeys : Nat) (s : State) (a : Action) :
    (∃ q events, a = .resolve q.id ∧ s.fulfilled q.id = some (q, events) ∧
        step apiKeys s a = onEvents s q events) ∨
      ((step apiKeys s a).cursors = s.cursors ∧ (step apiKeys s a).handled = s.handled) := by
  cases a with
  | grow ev => exact .inr ⟨rfl, rfl⟩
  | tick =>
    refine .inr ?_
    simp only [step, tick]
    split <;> exact ⟨rfl, rfl⟩
  | answer id => exact .inr ⟨rfl, rfl⟩
  | fail id => exact .inr ⟨rfl, rfl⟩
  | resolve id =>
    simp only [step]
    split
    · exact .inr ⟨rfl, rfl⟩
    · next q events hfound =>
      obtain ⟨-, rfl, -⟩ := fulfilled_eq_some hfound
      exact .inl ⟨q, events, rfl, hfound, rfl⟩

/-- What a request of the next state was before. -/
inductive Issued (s s' : State) (q : Request) : Prop where
  /-- It was there, and may have been answered since. -/
  | before (r : Request) (hmem : r ∈ s.requests) (hid : q.id = r.id)
      (hname : q.eventName = r.eventName) (hsince : q.sinceTimestampMs = r.sinceTimestampMs)
      (hdata : q.data = r.data ∨
        q.data = some (s.log.answer r.eventName r.sinceTimestampMs))
  /-- It has just been sent. -/
  | now (hid : s.nextId ≤ q.id) (hnext : q.id < s'.nextId)
      (hsince : q.sinceTimestampMs = (s.cursors q.eventName).sinceTimestampMs)
      (hdata : q.data = none)

theorem mem_requests_step {s : State} {a : Action} {q : Request}
    (h : q ∈ (step apiKeys s a).requests) : Issued s (step apiKeys s a) q := by
  cases a with
  | grow ev => exact .before q h rfl rfl rfl (.inl rfl)
  | tick =>
    simp only [step, tick] at h ⊢
    split at h
    · exact .before q h rfl rfl rfl (.inl rfl)
    · next hidle =>
      rw [if_neg hidle]
      simp only [WATCHED_EVENTS, List.foldl_cons, List.foldl_nil, pollEvent, List.mem_append,
        List.mem_singleton] at h
      rcases h with ((h | rfl) | rfl) | rfl
      · exact .before q h rfl rfl rfl (.inl rfl)
      · exact .now le_rfl (Nat.lt_add_of_pos_right (by decide : 0 < 3)) rfl rfl
      · exact .now (Nat.le_succ _) (Nat.lt_add_of_pos_right (by decide : 0 < 2)) rfl rfl
      · exact .now (Nat.le_add_right _ 2) (Nat.lt_succ_self _) rfl rfl
  | answer id =>
    obtain ⟨r, hr, rfl⟩ := List.mem_map.mp h
    split
    · exact .before r hr rfl rfl rfl (.inr rfl)
    · exact .before r hr rfl rfl rfl (.inl rfl)
  | fail id =>
    obtain ⟨r, hr, hfound⟩ := List.mem_filterMap.mp h
    split at hfound
    · unfold Request.failed at hfound
      split at hfound
      · cases hfound
      · cases hfound
        exact .before r hr rfl rfl rfl (.inl rfl)
    · cases hfound
      exact .before q hr rfl rfl rfl (.inl rfl)
  | resolve id =>
    simp only [step] at h
    split at h
    · exact .before q h rfl rfl rfl (.inl rfl)
    · exact .before q (List.mem_of_mem_filter h) rfl rfl rfl (.inl rfl)

/-! ## The offset -/

/-- The first `k` events of the feed of `log` have been handled, and no others; what is under way
is a piece of the feed from a mark the cursor has had. -/
structure Reads (startTimestampMs : Nat) (log : Log) (name : WatchedEvent) (k : Nat) (s : State) :
    Prop where
  marked : Marked TronGridEvent.block_timestamp startTimestampMs (due name startTimestampMs log) k
    (s.cursors name).sinceTimestampMs
  handled : ∀ e, e ∈ s.handled name ↔ e ∈ (due name startTimestampMs log).take k
  seen : ∀ x ∈ (s.cursors name).seen, x ∈ (s.handled name).map TronGridEvent.key
  requests : ∀ q ∈ s.requests, q.eventName = name → startTimestampMs ≤ q.sinceTimestampMs ∧
    q.sinceTimestampMs ≤ (s.cursors name).sinceTimestampMs ∧
    ∀ events, q.data = some events → events <+:
      page TronGridEvent.block_timestamp limit q.sinceTimestampMs (due name startTimestampMs log)

section Reads

variable {log : Log} {k : Nat} {s : State}

theorem Reads.mem_log (h : Reads startTimestampMs log name k s) {e : TronGridEvent}
    (he : e ∈ s.handled name) : e ∈ due name startTimestampMs log :=
  List.mem_of_mem_take ((h.handled e).mp he)

theorem Reads.pos (h : Reads startTimestampMs log name k s) (hsome : s.handled name ≠ []) :
    0 < k := by
  refine Nat.pos_of_ne_zero ?_
  rintro rfl
  refine hsome (List.eq_nil_iff_forall_not_mem.mpr ?_)
  intro e he
  cases (h.handled e).mp he

theorem Reads.tracks (h : Reads startTimestampMs log name k s) :
    Tracks (s.cursors name, s.handled name) where
  seen := h.seen
  covers e he := h.marked.covers e ((h.handled e).mp he)

theorem start_le_of_mem_due {e : TronGridEvent} (he : e ∈ due name startTimestampMs log) :
    startTimestampMs ≤ e.block_timestamp :=
  (mem_due.mp he).2.2

theorem reads_watchChain (log₀ : Log) :
    Reads startTimestampMs log name 0 (watchChain log₀ startTimestampMs) where
  marked := .initial _
  handled := by
    intro e
    simp [watchChain]
  seen := by
    intro x hx
    cases hx
  requests := by
    intro q hq
    cases hq

@[simp] theorem boundMemory_since (c : EventCursor) :
    (boundMemory c).sinceTimestampMs = c.sinceTimestampMs := by
  unfold boundMemory
  split <;> rfl

theorem mem_seen_boundMemory {c : EventCursor} {x : Js.Str} (h : x ∈ (boundMemory c).seen) :
    x ∈ c.seen := by
  unfold boundMemory at h
  split at h
  · cases h
  · exact h

/-- A callback moves the offset to the end of the page, if that is further. -/
theorem Reads.onEvents (h : Reads startTimestampMs log name k s) {q : Request}
    {events : List TronGridEvent} (hq : q ∈ s.requests) (hdata : q.data = some events)
    (hname : q.eventName = name) :
    Reads startTimestampMs log name
      (max k (before TronGridEvent.block_timestamp q.sinceTimestampMs
        (due name startTimestampMs log) + events.length)) (onEvents s q events) := by
  obtain ⟨-, hle, hpiece⟩ := h.requests q hq hname
  have hpage := hpiece events hdata
  have hmem : ∀ e ∈ events, e ∈ log.events := by
    intro e he
    exact (mem_due.mp (List.mem_of_mem_filter (List.mem_of_mem_take (hpage.subset he)))).1
  have htook := took_events hmem h.tracks fun e he => (mem_due.mp (h.mem_log he)).1
  obtain ⟨hmarked, hread⟩ := h.marked.read (due_ascending log) hpage
    (h.marked.before_le (due_ascending log) (fun e => start_le_of_mem_due) hle) htook.le
    (fun e he => htook.tracks.covers e ((htook.mem e).mpr (.inr he))) htook.reached
  subst hname
  refine ⟨?_, ?_, ?_, ?_⟩
  · simpa using hmarked
  · intro e
    rw [← hread e, ← h.handled e]
    simpa using htook.mem e
  · intro x hx
    simp only [onEvents_cursor, onEvents_handled] at hx ⊢
    exact htook.tracks.seen x (mem_seen_boundMemory hx)
  · intro r hr hrname
    obtain ⟨hstart, hsince, hdata'⟩ := h.requests r (List.mem_of_mem_filter hr) hrname
    refine ⟨hstart, ?_, hdata'⟩
    simpa using hsince.trans htook.le

theorem Reads.onEvents_other (h : Reads startTimestampMs log name k s) {q : Request}
    (events : List TronGridEvent) (hname : q.eventName ≠ name) :
    Reads startTimestampMs log name k (TronListener.onEvents s q events) := by
  have hcursor := onEvents_cursor_of_ne s events hname
  have hhandled := onEvents_handled_of_ne s events hname
  refine ⟨?_, ?_, ?_, ?_⟩
  · rw [hcursor]
    exact h.marked
  · rw [hhandled]
    exact h.handled
  · rw [hcursor, hhandled]
    exact h.seen
  · rw [hcursor]
    intro r hr hrname
    exact h.requests r (List.mem_of_mem_filter hr) hrname

/-- Every step reads on in the feed of any log that the present one grows to, and no further than
the end of a page from a mark the cursor has had. -/
theorem Reads.step (h : Reads startTimestampMs log name k s) (a : Action)
    (hlog : s.log.events <+: log.events) :
    ∃ k', k ≤ k' ∧ Reads startTimestampMs log name k' (TronListener.step apiKeys s a) ∧
      (k' = k ∨ ∃ t, t ≤ (s.cursors name).sinceTimestampMs ∧
        k' ≤ max k (before TronGridEvent.block_timestamp t (due name startTimestampMs log) +
          (page TronGridEvent.block_timestamp limit t (due name startTimestampMs log)).length)) := by
  rcases step_cases apiKeys s a with ⟨q, events, -, hfound, hstep⟩ | ⟨hcursors, hhandled⟩
  · obtain ⟨hq, -, hdata⟩ := fulfilled_eq_some hfound
    rw [hstep]
    by_cases hname : q.eventName = name
    · obtain ⟨-, hle, hpiece⟩ := h.requests q hq hname
      have hlen := (hpiece events hdata).length_le
      refine ⟨_, Nat.le_max_left _ _, h.onEvents hq hdata hname, .inr ⟨_, hle, ?_⟩⟩
      exact max_le_max le_rfl (Nat.add_le_add_left hlen _)
    · exact ⟨k, le_rfl, h.onEvents_other events hname, .inl rfl⟩
  · refine ⟨k, le_rfl, ⟨?_, ?_, ?_, ?_⟩, .inl rfl⟩
    · rw [hcursors]
      exact h.marked
    · rw [hhandled]
      exact h.handled
    · rw [hcursors, hhandled]
      exact h.seen
    · rw [hcursors]
      intro q hq hname
      rcases mem_requests_step hq with ⟨r, hr, -, hrname, hsince, hdata⟩ | ⟨-, -, hsince, hdata⟩
      · have hrname' : r.eventName = name := hrname ▸ hname
        obtain ⟨hstart, hle, hpiece⟩ := h.requests r hr hrname'
        rw [hsince]
        refine ⟨hstart, hle, ?_⟩
        intro events hevents
        rcases hdata with hdata | hdata
        · exact hpiece events (hdata ▸ hevents)
        · rw [hdata, answer_eq_page hstart, hrname'] at hevents
          cases hevents
          exact page_isPrefix (due_isPrefix hlog)
      · rw [hsince, hname]
        refine ⟨h.marked.base, le_rfl, ?_⟩
        intro events hevents
        rw [hdata] at hevents
        cases hevents

end Reads

/-! ## Runs -/

/-- The listener from `startTimestampMs` on. -/
abbrev run (apiKeys startTimestampMs : Nat) (log : Log) (actions : Nat → Action) : Nat → State :=
  Schedule.along (step apiKeys) (watchChain log startTimestampMs) actions

/-- No handler has been passed an event twice, or another handler's. -/
def AtMostOnce (s : State) : Prop :=
  ∀ name, (s.handled name).Nodup ∧ ∀ ev ∈ s.handled name, ev.event_name = name.name

def AllHandled (startTimestampMs : Nat) (s : State) : Prop :=
  ∀ name, ∀ ev ∈ s.log.events, ev.event_name = name.name →
    startTimestampMs ≤ ev.block_timestamp → ev ∈ s.handled name

/-- Polls keep succeeding: for every cursor and every moment, the answer to a request sent later is
handled in the end. -/
def KeepsPolling (states : Nat → State) (actions : Nat → Action) : Prop :=
  ∀ name n, ∃ m q events, n ≤ m ∧ actions m = .resolve q.id ∧
    (states m).fulfilled q.id = some (q, events) ∧ q.eventName = name ∧
    (states n).nextId ≤ q.id

/-- The log stops growing at `final`. -/
def StopsAt (states : Nat → State) (final : Log) : Prop :=
  ∃ n, ∀ m, n ≤ m → (states m).log = final

/-- No more than 5000 events of a name, and none of their times fills a page in front of others. -/
def Fits (startTimestampMs : Nat) (log : Log) : Prop :=
  ∀ name, (due name startTimestampMs log).length ≤ 5000 ∧
    ∀ t, startTimestampMs ≤ t →
      ¬ Stalls TronGridEvent.block_timestamp limit t (due name startTimestampMs log)

section run

variable {log₀ log : Log} {actions : Nat → Action}

theorem run_log {m n : Nat} (h : m ≤ n) :
    (run apiKeys startTimestampMs log₀ actions m).log.events <+:
      (run apiKeys startTimestampMs log₀ actions n).log.events :=
  Schedule.along_later (R := fun s s' : State => s.log.events <+: s'.log.events)
    (fun _ => List.prefix_rfl) (fun _ _ _ => List.IsPrefix.trans) (fun s a => step_log s a) h

theorem run_nextId {m n : Nat} (h : m ≤ n) :
    (run apiKeys startTimestampMs log₀ actions m).nextId ≤
      (run apiKeys startTimestampMs log₀ actions n).nextId :=
  Schedule.along_later (R := fun s s' : State => s.nextId ≤ s'.nextId)
    (fun _ => le_rfl) (fun _ _ _ => Nat.le_trans) (fun s a => step_nextId s a) h

theorem run_numbered (n : Nat) :
    ∀ q ∈ (run apiKeys startTimestampMs log₀ actions n).requests,
      q.id < (run apiKeys startTimestampMs log₀ actions n).nextId := by
  refine Schedule.along_invariant (I := fun s : State => ∀ q ∈ s.requests, q.id < s.nextId)
    ?_ ?_ actions n
  · intro s a hs q hq
    rcases mem_requests_step hq with ⟨r, hr, hid, -, -, -⟩ | ⟨-, hnext, -, -⟩
    · rw [hid]
      exact (hs r hr).trans_le (step_nextId s a)
    · exact hnext
  · intro q hq
    cases hq

/-- Up to a moment, everything read is an initial part of the log's feed then. -/
theorem run_reads (name : WatchedEvent) (n : Nat)
    (hlog : (run apiKeys startTimestampMs log₀ actions n).log.events <+: log.events) :
    ∃ k, Reads startTimestampMs log name k (run apiKeys startTimestampMs log₀ actions n) := by
  induction n with
  | zero => exact ⟨0, reads_watchChain log₀⟩
  | succ n ih =>
    have hbefore := (run_log (Nat.le_succ n)).trans hlog
    obtain ⟨k, hk⟩ := ih hbefore
    obtain ⟨k', -, hk', -⟩ := hk.step (actions n) hbefore
    exact ⟨k', hk'⟩

theorem run_reads_later {m n k : Nat} (h : m ≤ n)
    (hlog : (run apiKeys startTimestampMs log₀ actions n).log.events <+: log.events)
    (hk : Reads startTimestampMs log name k (run apiKeys startTimestampMs log₀ actions m)) :
    ∃ k', k ≤ k' ∧
      Reads startTimestampMs log name k' (run apiKeys startTimestampMs log₀ actions n) := by
  induction n, h using Nat.le_induction with
  | base => exact ⟨k, le_rfl, hk⟩
  | succ n _ ih =>
    have hbefore := (run_log (Nat.le_succ n)).trans hlog
    obtain ⟨k₁, hle, hk₁⟩ := ih hbefore
    obtain ⟨k', hle', hk', -⟩ := hk₁.step (actions n) hbefore
    exact ⟨k', hle.trans hle', hk'⟩

/-! ## Every event is handled -/

theorem run_succ_resolve {n : Nat} {q : Request} {events : List TronGridEvent}
    (haction : actions n = .resolve q.id)
    (hfound : (run apiKeys startTimestampMs log₀ actions n).fulfilled q.id = some (q, events)) :
    run apiKeys startTimestampMs log₀ actions (n + 1) =
      onEvents (run apiKeys startTimestampMs log₀ actions n) q events := by
  simp only [run, Schedule.along, haction, step]
  rw [hfound]

/-- While the log is still, what is sent from a moment on asks from the mark of that moment or
later, and is answered with the whole page. -/
theorem fresh_later {n m : Nat} (h : n ≤ m)
    (hstay : ∀ j, n ≤ j → (run apiKeys startTimestampMs log₀ actions j).log = log) :
    ∀ q ∈ (run apiKeys startTimestampMs log₀ actions m).requests,
      (run apiKeys startTimestampMs log₀ actions n).nextId ≤ q.id → q.eventName = name →
      ((run apiKeys startTimestampMs log₀ actions n).cursors name).sinceTimestampMs ≤
          q.sinceTimestampMs ∧
        ∀ events, q.data = some events → events =
          page TronGridEvent.block_timestamp limit q.sinceTimestampMs
            (due name startTimestampMs log) := by
  have hlater : ∀ j, n ≤ j →
      (run apiKeys startTimestampMs log₀ actions j).log.events <+: log.events :=
    fun j hj => isPrefix_of_eq (hstay j hj)
  obtain ⟨k, hk⟩ := run_reads name n (hlater n le_rfl)
  induction m, h using Nat.le_induction with
  | base =>
    intro q hq hid
    exact absurd (run_numbered n q hq) (Nat.not_lt.mpr hid)
  | succ m hm ih =>
    intro q hq hid hname
    rcases mem_requests_step hq with ⟨r, hr, hrid, hrname, hsince, hdata⟩ | ⟨-, -, hsince, hdata⟩
    · have hrname' : r.eventName = name := hrname ▸ hname
      obtain ⟨hle, hpage⟩ := ih r hr (hrid ▸ hid) hrname'
      rw [hsince]
      refine ⟨hle, ?_⟩
      intro events hevents
      rcases hdata with hdata | hdata
      · exact hpage events (hdata ▸ hevents)
      · rw [hdata, answer_eq_page (hk.marked.base.trans hle), hrname', hstay m hm] at hevents
        cases hevents
        rfl
    · obtain ⟨k', hle, hk'⟩ := run_reads_later hm (hlater m hm) hk
      rw [hsince, hname]
      refine ⟨hk.marked.mono hk'.marked hle, ?_⟩
      intro events hevents
      rw [hdata] at hevents
      cases hevents

/-- A poll of a still log that does not stall reads on. -/
theorem reads_on {n k : Nat}
    (hstay : ∀ j, n ≤ j → (run apiKeys startTimestampMs log₀ actions j).log = log)
    (hpolls : KeepsPolling (run apiKeys startTimestampMs log₀ actions) actions)
    (hgoes : ∀ t, startTimestampMs ≤ t →
      ¬ Stalls TronGridEvent.block_timestamp limit t (due name startTimestampMs log))
    (hk : Reads startTimestampMs log name k (run apiKeys startTimestampMs log₀ actions n))
    (hlt : k < (due name startTimestampMs log).length) :
    ∃ k' m, k < k' ∧ n ≤ m ∧
      Reads startTimestampMs log name k' (run apiKeys startTimestampMs log₀ actions m) := by
  obtain ⟨m, q, events, hm, haction, hfound, hname, hid⟩ := hpolls name n
  have hlog : (run apiKeys startTimestampMs log₀ actions m).log.events <+: log.events :=
    isPrefix_of_eq (hstay m hm)
  obtain ⟨km, hle, hkm⟩ := run_reads_later hm hlog hk
  rcases Nat.lt_or_eq_of_le hle with hlt' | rfl
  · exact ⟨km, m, hlt', hm, hkm⟩
  obtain ⟨hq, -, hdata⟩ := fulfilled_eq_some hfound
  obtain ⟨hsince, hpage⟩ := fresh_later hm hstay q hq hid hname
  obtain ⟨-, hmark, -⟩ := hkm.requests q hq hname
  -- nothing was read in between, so the request asks from the present mark
  have hnow : q.sinceTimestampMs =
      ((run apiKeys startTimestampMs log₀ actions m).cursors name).sinceTimestampMs :=
    Nat.le_antisymm hmark ((hkm.marked.mono hk.marked le_rfl).trans hsince)
  have hgoesOn := hkm.marked.progress (due_ascending log) (fun e => start_le_of_mem_due)
    (by decide : 0 < limit) (hgoes _ hkm.marked.base) hlt
  have hnext := hkm.onEvents hq hdata hname
  rw [← run_succ_resolve haction hfound, hpage events hdata, hnow] at hnext
  exact ⟨_, m + 1, hgoesOn.trans_le (Nat.le_max_right _ _), hm.trans (Nat.le_succ m), hnext⟩

theorem Reads.all_handled {s : State} {k : Nat} (h : Reads startTimestampMs log name k s)
    (hk : (due name startTimestampMs log).length ≤ k) {e : TronGridEvent}
    (he : e ∈ due name startTimestampMs log) : e ∈ s.handled name := by
  rw [h.handled, List.take_of_length_le hk]
  exact he

/-- In the end every event of the name has been handled. -/
theorem handled_eventually {n : Nat}
    (hstay : ∀ j, n ≤ j → (run apiKeys startTimestampMs log₀ actions j).log = log)
    (hpolls : KeepsPolling (run apiKeys startTimestampMs log₀ actions) actions)
    (hgoes : ∀ t, startTimestampMs ≤ t →
      ¬ Stalls TronGridEvent.block_timestamp limit t (due name startTimestampMs log)) :
    ∃ m, n ≤ m ∧ ∀ j, m ≤ j → ∀ e ∈ due name startTimestampMs log,
      e ∈ (run apiKeys startTimestampMs log₀ actions j).handled name := by
  obtain ⟨k, hk⟩ := run_reads name n (isPrefix_of_eq (hstay n le_rfl))
  let P := fun k j => n ≤ j ∧
    Reads startTimestampMs log name k (run apiKeys startTimestampMs log₀ actions j)
  obtain ⟨k', m, hfull, hm, -, hk'⟩ := Schedule.eventually (P := P)
    (due name startTimestampMs log).length (fun k j hP hlt => by
      obtain ⟨k', m, hlt', hm, hk'⟩ := reads_on (fun i hi => hstay i (hP.1.trans hi)) hpolls hgoes
        hP.2 hlt
      exact ⟨k', m, hlt', hm, hP.1.trans hm, hk'⟩) (show P k n from ⟨le_rfl, hk⟩)
  refine ⟨m, hm, ?_⟩
  intro j hj e he
  obtain ⟨kj, hle, hkj⟩ := run_reads_later hj (isPrefix_of_eq (hstay j (hm.trans hj))) hk'
  exact hkj.all_handled (hfull.trans hle) he

/-! ## No event is handled twice -/

theorem length_seen_boundMemory (c : EventCursor) : (boundMemory c).seen.length ≤ 5000 := by
  unfold boundMemory
  split
  · exact Nat.zero_le _
  · next h => exact Nat.le_of_not_gt h

theorem run_seen (apiKeys startTimestampMs : Nat) (log₀ : Log) (actions : Nat → Action)
    (name : WatchedEvent) (n : Nat) :
    ((run apiKeys startTimestampMs log₀ actions n).cursors name).seen.length ≤ 5000 := by
  refine Schedule.along_invariant (I := fun s : State => (s.cursors name).seen.length ≤ 5000)
    ?_ (Nat.zero_le _) actions n
  intro s a hs
  rcases step_cases apiKeys s a with ⟨q, events, -, -, hstep⟩ | ⟨hcursors, -⟩
  · rw [hstep]
    by_cases hname : q.eventName = name
    · subst hname
      rw [onEvents_cursor]
      exact length_seen_boundMemory _
    · rw [onEvents_cursor_of_ne _ _ hname]
      exact hs
  · rw [hcursors]
    exact hs

/-- What the set holds: all that was handled, or nothing after it has been cleared. -/
inductive Remembers (c : EventCursor) (handled : List TronGridEvent) : Prop where
  | all (h : Faithful (c, handled))
  | cleared (hseen : c.seen = []) (hhandled : handled ≠ [])

theorem Faithful.boundMemory {acc : EventCursor × List TronGridEvent} (h : Faithful acc)
    (hlen : acc.2.length ≤ 5000) : Faithful (boundMemory acc.1, acc.2) := by
  have hshort : ¬ acc.1.seen.length > 5000 := by
    rw [h.1, List.length_map]
    omega
  rw [TronListener.boundMemory, if_neg hshort]
  exact h

theorem Faithful.remembers {acc : EventCursor × List TronGridEvent} (h : Faithful acc) :
    Remembers (TronListener.boundMemory acc.1) acc.2 := by
  by_cases hlen : acc.2.length ≤ 5000
  · exact .all (h.boundMemory hlen)
  · have hlong : acc.1.seen.length > 5000 := by
      rw [h.1, List.length_map]
      omega
    refine .cleared ?_ ?_
    · rw [TronListener.boundMemory, if_pos hlong]
    · rintro hnone
      rw [hnone] at hlen
      exact hlen (Nat.zero_le _)

/-- After a clearing an answer with anything in it repeats an event. -/
theorem repeats_of_cleared {s : State} {k : Nat} (h : Reads startTimestampMs log name k s)
    {q : Request} {events : List TronGridEvent} (hq : q ∈ s.requests)
    (hdata : q.data = some events) (hname : q.eventName = name) (hevents : events ≠ [])
    (hseen : (s.cursors name).seen = []) (hhandled : s.handled name ≠ []) :
    ¬ ((onEvents s q events).handled name).Nodup := by
  obtain ⟨e, rest, rfl⟩ := List.exists_cons_of_ne_nil hevents
  obtain ⟨-, hle, hpiece⟩ := h.requests q hq hname
  have hmem : e ∈ s.handled name :=
    (h.handled e).mpr (h.marked.head_read (due_ascending log) (fun e => start_le_of_mem_due)
      (h.pos hhandled) hle (hpiece _ hdata))
  subst hname
  rw [onEvents_handled]
  exact repeats_of_forgotten rest hseen hmem

/-- A set that was cleared stays empty until an event is repeated. -/
theorem cleared_step {s : State} {k : Nat} (h : Reads startTimestampMs log name k s) (a : Action)
    (hseen : (s.cursors name).seen = []) (hsome : s.handled name ≠ [])
    (hnodup : ((step apiKeys s a).handled name).Nodup) :
    ((step apiKeys s a).cursors name).seen = [] ∧ (step apiKeys s a).handled name ≠ [] := by
  rcases step_cases apiKeys s a with ⟨q, events, -, hfound, hstep⟩ | ⟨hcursors, hhandled⟩
  · obtain ⟨hq, -, hdata⟩ := fulfilled_eq_some hfound
    rw [hstep] at hnodup ⊢
    by_cases hname : q.eventName = name
    · have hempty : events = [] := by
        by_contra hevents
        exact repeats_of_cleared h hq hdata hname hevents hseen hsome hnodup
      subst hempty
      subst hname
      rw [onEvents_cursor, onEvents_handled]
      refine ⟨?_, hsome⟩
      rw [boundMemory, List.foldl_nil, if_neg]
      · exact hseen
      · rw [hseen]
        exact Nat.not_lt_zero _
    · rw [onEvents_cursor_of_ne _ _ hname, onEvents_handled_of_ne _ _ hname]
      exact ⟨hseen, hsome⟩
  · rw [hcursors, hhandled]
    exact ⟨hseen, hsome⟩

theorem remembers_step {s : State} {k : Nat} (h : Reads startTimestampMs log name k s)
    (a : Action) (hr : Remembers (s.cursors name) (s.handled name))
    (hnodup : ((step apiKeys s a).handled name).Nodup) :
    Remembers ((step apiKeys s a).cursors name) ((step apiKeys s a).handled name) := by
  rcases hr with hall | ⟨hseen, hsome⟩
  · rcases step_cases apiKeys s a with ⟨q, events, -, -, hstep⟩ | ⟨hcursors, hhandled⟩
    · rw [hstep]
      by_cases hname : q.eventName = name
      · subst hname
        rw [onEvents_cursor, onEvents_handled]
        exact (hall.events events).remembers
      · rw [onEvents_cursor_of_ne _ _ hname, onEvents_handled_of_ne _ _ hname]
        exact .all hall
    · rw [hcursors, hhandled]
      exact .all hall
  · obtain ⟨hseen', hsome'⟩ := cleared_step h a hseen hsome hnodup
    exact .cleared hseen' hsome'

theorem due_nodup (log : Log) : (due name startTimestampMs log).Nodup :=
  (List.Nodup.of_map _ log.distinct).filter _

/-- With few enough events nothing is ever forgotten. -/
theorem run_faithful {n : Nat}
    (hlog : (run apiKeys startTimestampMs log₀ actions n).log.events <+: log.events)
    (hshort : (due name startTimestampMs log).length ≤ 5000) :
    Faithful ((run apiKeys startTimestampMs log₀ actions n).cursors name,
      (run apiKeys startTimestampMs log₀ actions n).handled name) := by
  induction n with
  | zero => exact ⟨rfl, List.nodup_nil⟩
  | succ n ih =>
    have hbefore := (run_log (Nat.le_succ n)).trans hlog
    have hfaithful := ih hbefore
    obtain ⟨k', hk'⟩ := run_reads name (n + 1) hlog
    rcases step_cases apiKeys (run apiKeys startTimestampMs log₀ actions n) (actions n)
      with ⟨q, events, -, -, hstep⟩ | ⟨hcursors, hhandled⟩
    · have hnext : run apiKeys startTimestampMs log₀ actions (n + 1) = _ := hstep
      rw [hnext] at hk' ⊢
      by_cases hname : q.eventName = name
      · subst hname
        have hall := hfaithful.events events
        have hlen : (events.foldl onEvent
            ((run apiKeys startTimestampMs log₀ actions n).cursors q.eventName,
              (run apiKeys startTimestampMs log₀ actions n).handled q.eventName)).2.length ≤
              5000 := by
          refine Nat.le_trans ?_ hshort
          refine (List.subperm_of_subset hall.nodup ?_).length_le
          intro e he
          refine hk'.mem_log ?_
          rw [onEvents_handled]
          exact he
        rw [onEvents_cursor, onEvents_handled]
        exact hall.boundMemory hlen
      · rw [onEvents_cursor_of_ne _ _ hname, onEvents_handled_of_ne _ _ hname]
        exact hfaithful
    · have hcursors' : (run apiKeys startTimestampMs log₀ actions (n + 1)).cursors = _ := hcursors
      have hhandled' : (run apiKeys startTimestampMs log₀ actions (n + 1)).handled = _ := hhandled
      rw [hcursors', hhandled']
      exact hfaithful

theorem atMostOnce_of_short {n : Nat}
    (hshort : ∀ name, (due name startTimestampMs
      (run apiKeys startTimestampMs log₀ actions n).log).length ≤ 5000) :
    AtMostOnce (run apiKeys startTimestampMs log₀ actions n) := by
  intro name
  refine ⟨(run_faithful List.prefix_rfl (hshort name)).nodup, ?_⟩
  intro ev hev
  obtain ⟨k, hk⟩ := run_reads name n List.prefix_rfl
  exact (mem_due.mp (hk.mem_log hev)).2.1

/-! ## Both together -/

theorem allHandled_of_fits {n : Nat}
    (hstay : ∀ j, n ≤ j → (run apiKeys startTimestampMs log₀ actions j).log = log)
    (hpolls : KeepsPolling (run apiKeys startTimestampMs log₀ actions) actions)
    (hfits : Fits startTimestampMs log) :
    ∃ m, ∀ j, m ≤ j →
      AllHandled startTimestampMs (run apiKeys startTimestampMs log₀ actions j) := by
  have heach := fun name => handled_eventually hstay hpolls (hfits name).2
  choose m hm hall using heach
  refine ⟨max (m .intentCreated) (max (m .collateralPosted) (m .intentSettled)), ?_⟩
  intro j hj name ev hev hname hstart
  have hmj : m name ≤ j := by
    cases name <;> omega
  rw [hstay j ((hm name).trans hmj)] at hev
  exact hall name j hmj ev (mem_due.mpr ⟨hev, hname, hstart⟩)

/-- What stands behind a stall is never handled. -/
theorem not_allHandled_of_stalls {n t : Nat}
    (hlog : (run apiKeys startTimestampMs log₀ actions n).log.events <+: log.events)
    (ht : startTimestampMs ≤ t)
    (hstall : Stalls TronGridEvent.block_timestamp limit t (due name startTimestampMs log)) :
    ∃ ev ∈ due name startTimestampMs log,
      ev ∉ (run apiKeys startTimestampMs log₀ actions n).handled name := by
  let last := before TronGridEvent.block_timestamp t (due name startTimestampMs log) + limit
  -- the offset stays at or before the end of the page that is full
  obtain ⟨k, hle, hk⟩ : ∃ k, k ≤ last ∧
      Reads startTimestampMs log name k (run apiKeys startTimestampMs log₀ actions n) := by
    induction n with
    | zero => exact ⟨0, Nat.zero_le _, reads_watchChain log₀⟩
    | succ n ih =>
      have hbefore := (run_log (Nat.le_succ n)).trans hlog
      obtain ⟨k, hle, hk⟩ := ih hbefore
      obtain ⟨k', -, hk', hle'⟩ := hk.step (actions n) hbefore
      refine ⟨k', ?_, hk'⟩
      rcases hle' with rfl | ⟨u, hu, hend⟩
      · exact hle
      · exact hend.trans (Nat.max_le.mpr
          ⟨hle, hk.marked.stalled (due_ascending log) hstall ht hle hu⟩)
  have hmore : last < (due name startTimestampMs log).length := by
    have := hstall.2
    rw [countP_from (due_ascending log)] at this
    simp only [last]
    omega
  refine ⟨(due name startTimestampMs log)[last], List.getElem_mem hmore, ?_⟩
  rw [hk.handled]
  intro hmem
  refine List.disjoint_take_drop (due_nodup log) hle hmem ?_
  exact List.mem_drop_iff_getElem.mpr ⟨0, by simpa using hmore, by simp⟩

theorem run_remembers (n : Nat)
    (honce : ∀ m, AtMostOnce (run apiKeys startTimestampMs log₀ actions m)) :
    Remembers ((run apiKeys startTimestampMs log₀ actions n).cursors name)
      ((run apiKeys startTimestampMs log₀ actions n).handled name) := by
  induction n with
  | zero => exact .all ⟨rfl, List.nodup_nil⟩
  | succ n ih =>
    obtain ⟨k, hk⟩ := run_reads name n List.prefix_rfl
    exact remembers_step hk (actions n) ih (honce (n + 1) name).1

theorem run_cleared {m n : Nat} (h : m ≤ n)
    (honce : ∀ j, AtMostOnce (run apiKeys startTimestampMs log₀ actions j))
    (hseen : ((run apiKeys startTimestampMs log₀ actions m).cursors name).seen = [])
    (hsome : (run apiKeys startTimestampMs log₀ actions m).handled name ≠ []) :
    ((run apiKeys startTimestampMs log₀ actions n).cursors name).seen = [] ∧
      (run apiKeys startTimestampMs log₀ actions n).handled name ≠ [] := by
  induction n, h using Nat.le_induction with
  | base => exact ⟨hseen, hsome⟩
  | succ n _ ih =>
    obtain ⟨k, hk⟩ := run_reads name n List.prefix_rfl
    exact cleared_step hk (actions n) ih.1 ih.2 (honce (n + 1) name).1

/-- A listener that keeps polling and repeats nothing has not cleared its set. -/
theorem faithful_of_once (name : WatchedEvent) {n : Nat}
    (hstay : ∀ j, n ≤ j → (run apiKeys startTimestampMs log₀ actions j).log = log)
    (hpolls : KeepsPolling (run apiKeys startTimestampMs log₀ actions) actions)
    (honce : ∀ j, AtMostOnce (run apiKeys startTimestampMs log₀ actions j)) {m : Nat}
    (hm : n ≤ m) :
    Faithful ((run apiKeys startTimestampMs log₀ actions m).cursors name,
      (run apiKeys startTimestampMs log₀ actions m).handled name) := by
  rcases run_remembers m honce with hall | ⟨hseen, hsome⟩
  · exact hall
  · -- the next poll is answered with a page, and its first event has been handled
    obtain ⟨j, q, events, hj, haction, hfound, hname, hid⟩ := hpolls name m
    obtain ⟨hseen', hsome'⟩ := run_cleared hj honce hseen hsome
    obtain ⟨hq, -, hdata⟩ := fulfilled_eq_some hfound
    obtain ⟨k, hk⟩ := run_reads name j (isPrefix_of_eq (hstay j (hm.trans hj)))
    have hpos : 0 < k := hk.pos hsome'
    obtain ⟨-, hmark, -⟩ := hk.requests q hq hname
    have hevents : events ≠ [] := by
      rw [(fresh_later hj (fun i hi => hstay i (hm.trans hi)) q hq hid hname).2 events hdata]
      exact hk.marked.page_ne_nil (fun e => start_le_of_mem_due) hpos (by decide : 0 < limit) hmark
    have hstep : run apiKeys startTimestampMs log₀ actions (j + 1) =
        onEvents (run apiKeys startTimestampMs log₀ actions j) q events :=
      run_succ_resolve haction hfound
    refine absurd (honce (j + 1) name).1 ?_
    rw [hstep]
    exact repeats_of_cleared hk hq hdata hname hevents hseen' hsome'

/-- In every run the listener hands out no event twice as long as the log holds at most 5000 of a
name from the start on. In every run in which the log stops growing and polls keep succeeding it
hands out each event exactly once if and only if the log fits: it holds at most 5000 events of a
name, and no 200 of one time in front of others. -/
theorem delivered_exactly_once (apiKeys startTimestampMs : Nat) (log₀ : Log)
    (actions : Nat → Action) :
    (∀ n, (∀ name, (due name startTimestampMs
        (run apiKeys startTimestampMs log₀ actions n).log).length ≤ 5000) →
      AtMostOnce (run apiKeys startTimestampMs log₀ actions n)) ∧
    ∀ log, StopsAt (run apiKeys startTimestampMs log₀ actions) log →
      KeepsPolling (run apiKeys startTimestampMs log₀ actions) actions →
      ((∀ n, AtMostOnce (run apiKeys startTimestampMs log₀ actions n)) ∧
          (∃ n, ∀ m, n ≤ m →
            AllHandled startTimestampMs (run apiKeys startTimestampMs log₀ actions m)) ↔
        Fits startTimestampMs log) := by
  refine ⟨fun n => atMostOnce_of_short, ?_⟩
  rintro log ⟨n, hstay⟩ hpolls
  constructor
  · rintro ⟨honce, m, hall⟩ name
    -- a state in which the log is complete and everything has been handled
    have hlater := hstay (max n m) (Nat.le_max_left _ _)
    have hhandled : ∀ ev ∈ due name startTimestampMs log,
        ev ∈ (run apiKeys startTimestampMs log₀ actions (max n m)).handled name := by
      intro ev hev
      obtain ⟨hmem, hname, hstart⟩ := mem_due.mp hev
      exact hall _ (Nat.le_max_right _ _) name ev (hlater ▸ hmem) hname hstart
    refine ⟨?_, ?_⟩
    · have hfaithful := faithful_of_once name hstay hpolls honce (Nat.le_max_left n m)
      have hlen := (List.subperm_of_subset (due_nodup log) hhandled).length_le
      have hseen := run_seen apiKeys startTimestampMs log₀ actions name (max n m)
      rw [hfaithful.1, List.length_map] at hseen
      exact hlen.trans hseen
    · intro t ht hstall
      obtain ⟨ev, hev, hnot⟩ := not_allHandled_of_stalls (isPrefix_of_eq hlater) ht hstall
      exact hnot (hhandled ev hev)
  · intro hfits
    refine ⟨?_, allHandled_of_fits hstay hpolls hfits⟩
    intro m
    refine atMostOnce_of_short ?_
    intro name
    have hlog : (run apiKeys startTimestampMs log₀ actions m).log.events <+: log.events :=
      (run_log (Nat.le_max_right n m)).trans
        (isPrefix_of_eq (hstay (max n m) (Nat.le_max_left _ _)))
    exact (due_isPrefix hlog).length_le.trans (hfits name).1

end run

/-! ## Polls one after another -/

/-- Every tick's requests are answered and handled before the next. -/
def lockstep (n : Nat) : Action :=
  match n % 7 with
  | 0 => .tick
  | 1 => .answer (n / 7 * 3)
  | 2 => .answer (n / 7 * 3 + 1)
  | 3 => .answer (n / 7 * 3 + 2)
  | 4 => .resolve (n / 7 * 3)
  | 5 => .resolve (n / 7 * 3 + 1)
  | _ => .resolve (n / 7 * 3 + 2)

/-- The answered request of a round, from the state at its start. -/
def State.asked (s : State) (apiKeys id : Nat) (name : WatchedEvent) : Request where
  id := id
  eventName := name
  sinceTimestampMs := (s.cursors name).sinceTimestampMs
  attempts := if apiKeys > 0 then apiKeys else 1
  data := some (s.log.answer name (s.cursors name).sinceTimestampMs)

/-- Nothing under way, after `m` ticks. -/
structure Idle (log : Log) (m : Nat) (s : State) : Prop where
  requests : s.requests = []
  idle : s.inFlight = false
  nextId : s.nextId = m * 3
  log : s.log = log

variable {log : Log} {m : Nat} {s : State}

theorem lockstep_asks (h : Idle log m s) :
    step apiKeys (step apiKeys (step apiKeys (step apiKeys s .tick) (.answer (m * 3)))
        (.answer (m * 3 + 1))) (.answer (m * 3 + 2)) =
      { s with
        requests := [s.asked apiKeys (m * 3) .intentCreated,
          s.asked apiKeys (m * 3 + 1) .collateralPosted, s.asked apiKeys (m * 3 + 2) .intentSettled]
        nextId := (m + 1) * 3 } := by
  obtain ⟨hrequests, hidle, hid, -⟩ := h
  obtain ⟨log, cursors, inFlight, requests, nextId, handled⟩ := s
  subst hrequests hidle hid
  have hnext : m * 3 + 1 + 1 ≠ m * 3 := by omega
  simp [step, tick, WATCHED_EVENTS, pollEvent, Request.answered, State.asked, Nat.add_mul, hnext]

/-- The callback of the first request left. -/
theorem lockstep_resolves {s' : State} {q : Request} {events : List TronGridEvent}
    {rest : List Request} (hnext : s' = step apiKeys s (.resolve q.id))
    (hrequests : s.requests = q :: rest) (hdata : q.data = some events)
    (hrest : ∀ r ∈ rest, r.id ≠ q.id) :
    s.fulfilled q.id = some (q, events) ∧ s'.requests = rest ∧ s'.inFlight = s.inFlight ∧
      s'.nextId = s.nextId ∧ s'.log = s.log := by
  have hfound : s.fulfilled q.id = some (q, events) := by
    simp [State.fulfilled, hrequests, hdata]
  have hkept : (rest.filter fun r => decide (r.id ≠ q.id)) = rest := by
    refine List.filter_eq_self.mpr ?_
    intro r hr
    exact decide_eq_true (hrest r hr)
  subst hnext
  simp only [step, hfound, onEvents, hrequests, and_true, true_and]
  rw [List.filter_cons_of_neg (by simp), hkept]

/-- One round: all three polls succeed, and nothing is left under way. -/
theorem lockstep_round {states : Nat → State}
    (hstep : ∀ n, states (n + 1) = step apiKeys (states n) (lockstep n))
    (h : Idle log m (states (m * 7))) :
    Idle log (m + 1) (states (m * 7 + 7)) ∧ ∀ name, ∃ n q events, m * 7 ≤ n ∧
      lockstep n = .resolve q.id ∧ (states n).fulfilled q.id = some (q, events) ∧
      q.eventName = name ∧ m * 3 ≤ q.id := by
  have hdiv : ∀ i < 7, (m * 7 + i) / 7 = m ∧ (m * 7 + i) % 7 = i := by omega
  have hasked : states (m * 7 + 4) = { states (m * 7) with
      requests := [(states (m * 7)).asked apiKeys (m * 3) .intentCreated,
        (states (m * 7)).asked apiKeys (m * 3 + 1) .collateralPosted,
        (states (m * 7)).asked apiKeys (m * 3 + 2) .intentSettled]
      nextId := (m + 1) * 3 } := by
    rw [hstep (m * 7 + 3), hstep (m * 7 + 2), hstep (m * 7 + 1), hstep (m * 7)]
    simp only [lockstep, hdiv 1 (by decide), hdiv 2 (by decide), hdiv 3 (by decide),
      Nat.mul_mod_left]
    exact lockstep_asks h
  have hresolve : ∀ i (hi : i < 3), lockstep (m * 7 + (4 + i)) = .resolve (m * 3 + i) := by
    intro i hi
    obtain ⟨hq, hr⟩ := hdiv (4 + i) (by omega)
    rw [lockstep, hq, hr]
    match i, hi with
    | 0, _ | 1, _ | 2, _ => rfl
  have hafter : ∀ i (hi : i < 3), states (m * 7 + (4 + i) + 1) =
      step apiKeys (states (m * 7 + (4 + i))) (.resolve (m * 3 + i)) := by
    intro i hi
    rw [hstep, hresolve i hi]
  obtain ⟨hfound₁, hreq₁, hidle₁, hid₁, hlog₁⟩ := lockstep_resolves
    (q := (states (m * 7)).asked apiKeys (m * 3) .intentCreated) (hafter 0 (by decide))
    (congrArg State.requests hasked) rfl (by simp [State.asked])
  obtain ⟨hfound₂, hreq₂, hidle₂, hid₂, hlog₂⟩ := lockstep_resolves
    (q := (states (m * 7)).asked apiKeys (m * 3 + 1) .collateralPosted) (hafter 1 (by decide))
    hreq₁ rfl (by simp [State.asked])
  obtain ⟨hfound₃, hreq₃, hidle₃, hid₃, hlog₃⟩ := lockstep_resolves
    (q := (states (m * 7)).asked apiKeys (m * 3 + 2) .intentSettled) (hafter 2 (by decide))
    hreq₂ rfl (by simp [State.asked])
  refine ⟨⟨hreq₃, ?_, ?_, ?_⟩, ?_⟩
  · rw [hidle₃, hidle₂, hidle₁, hasked]
    exact h.idle
  · rw [hid₃, hid₂, hid₁, hasked]
  · rw [hlog₃, hlog₂, hlog₁, hasked]
    exact h.log
  · intro name
    cases name with
    | intentCreated =>
      exact ⟨_, _, _, Nat.le_add_right _ _, hresolve 0 (by decide), hfound₁, rfl, le_rfl⟩
    | collateralPosted =>
      exact ⟨_, _, _, Nat.le_add_right _ _, hresolve 1 (by decide), hfound₂, rfl,
        Nat.le_add_right _ _⟩
    | intentSettled =>
      exact ⟨_, _, _, Nat.le_add_right _ _, hresolve 2 (by decide), hfound₃, rfl,
        Nat.le_add_right _ _⟩

theorem lockstep_idle (apiKeys startTimestampMs : Nat) (log : Log) (m : Nat) :
    Idle log m (run apiKeys startTimestampMs log lockstep (m * 7)) := by
  induction m with
  | zero => exact ⟨rfl, rfl, rfl, rfl⟩
  | succ m ih =>
    rw [Nat.add_mul]
    exact (lockstep_round (fun _ => rfl) ih).1

theorem lockstep_keepsPolling (log : Log) :
    KeepsPolling (run apiKeys startTimestampMs log lockstep) lockstep := by
  intro name n
  have hround := lockstep_idle apiKeys startTimestampMs log n
  obtain ⟨m, q, events, hm, haction, hfound, hname, hid⟩ :=
    (lockstep_round (fun _ => rfl) hround).2 name
  have hle : n ≤ n * 7 := Nat.le_mul_of_pos_right n (by decide)
  refine ⟨m, q, events, hle.trans hm, haction, hfound, hname, ?_⟩
  refine (run_nextId hle).trans ?_
  rw [hround.nextId]
  exact hid

theorem lockstep_ne_grow (n : Nat) (ev : TronGridEvent) : lockstep n ≠ .grow ev := by
  unfold lockstep
  split <;> nofun

theorem lockstep_log (log : Log) (n : Nat) :
    (run apiKeys startTimestampMs log lockstep n).log = log := by
  induction n with
  | zero => rfl
  | succ n ih => exact (step_log_of_ne_grow (lockstep_ne_grow n)).trans ih

theorem lockstep_stopsAt (log : Log) :
    StopsAt (run apiKeys startTimestampMs log lockstep) log :=
  ⟨0, fun m _ => lockstep_log log m⟩

theorem fits_of_short (h : log.events.length < limit) : Fits startTimestampMs log := by
  intro name
  have hlen : (due name startTimestampMs log).length ≤ log.events.length :=
    List.length_filter_le _ _
  refine ⟨hlen.trans (h.le.trans (by decide)), ?_⟩
  rintro t - ⟨hfull, -⟩
  have hcount := List.countP_le_length (p := fun e : TronGridEvent =>
    decide (e.block_timestamp = t)) (l := due name startTimestampMs log)
  omega

def sampleEvent (block_timestamp event_index : Nat) : TronGridEvent where
  block_timestamp := block_timestamp
  event_name := WatchedEvent.intentCreated.name
  transaction_id := "5e".toList
  event_index := event_index

def sampleLog : Log where
  events := [sampleEvent 1200 0, sampleEvent 1200 1, sampleEvent 1500 2]
  ascending := by decide
  distinct := by decide

theorem delivered_exactly_once_sample :
    AtMostOnce (run 1 1000 sampleLog lockstep 40) ∧
      ∃ n, ∀ m, n ≤ m → AllHandled 1000 (run 1 1000 sampleLog lockstep m) := by
  have hboth := ((delivered_exactly_once 1 1000 sampleLog lockstep).2 sampleLog
    (lockstep_stopsAt sampleLog) (lockstep_keepsPolling sampleLog)).mpr (fits_of_short (by decide))
  exact ⟨hboth.1 40, hboth.2⟩

theorem sampleEvent_key {t i j : Nat} (h : (sampleEvent t i).key = (sampleEvent t j).key) :
    i = j := by
  have hdigits : Nat.toDigits 10 i = Nat.toDigits 10 j :=
    (List.cons.inj (List.append_cancel_left h)).2
  rw [← Nat.ofDigitChars_ten_toDigits (n := i), hdigits, Nat.ofDigitChars_ten_toDigits]

/-- 201 events of one block. -/
def fullLog : Log where
  events := (List.range 201).map (sampleEvent 1000)
  ascending := by
    refine List.pairwise_map.mpr (List.Pairwise.imp ?_ List.pairwise_lt_range)
    exact fun _ => le_rfl
  distinct := by
    rw [List.map_map]
    exact List.nodup_range.map fun _ _ => sampleEvent_key

/-- The log is still and every poll succeeds, and the last event is never handled. -/
theorem full_page_stalls :
    StopsAt (run 0 1000 fullLog lockstep) fullLog ∧
      KeepsPolling (run 0 1000 fullLog lockstep) lockstep ∧
      ∀ n, ¬ AllHandled 1000 (run 0 1000 fullLog lockstep n) := by
  refine ⟨lockstep_stopsAt fullLog, lockstep_keepsPolling fullLog, ?_⟩
  intro n hall
  have hstall : Stalls TronGridEvent.block_timestamp limit 1000
      (due .intentCreated 1000 fullLog) := by
    decide +kernel
  have hlog : (run 0 1000 fullLog lockstep n).log = fullLog := lockstep_log fullLog n
  obtain ⟨ev, hev, hnot⟩ := not_allHandled_of_stalls (isPrefix_of_eq hlog) le_rfl hstall
  obtain ⟨hmem, hname, hstart⟩ := mem_due.mp hev
  exact hnot (hall .intentCreated ev (by rwa [hlog]) hname hstart)

end Maat.Orchestrator.TronListener
