import Mathlib.Logic.Function.Basic
import Maat.Lib.Feed
import Maat.Lib.Js

/-!
# The TRON listener

`orchestrator/src/tron_listener.ts`: three cursors, one for each watched event, polled against
TronGrid's REST endpoint. A poll is not awaited, so requests of one cursor may be under way side by
side; TronGrid answers each of them from the log it has then, and the callbacks run in any order.
The handlers catch what they throw, and what one is passed is recorded here.
-/

namespace Maat.Orchestrator.TronListener

inductive WatchedEvent where
  | intentCreated
  | collateralPosted
  | intentSettled
  deriving DecidableEq

def WATCHED_EVENTS : List WatchedEvent := [.intentCreated, .collateralPosted, .intentSettled]

/-- The name as the contract emits it. -/
def WatchedEvent.name : WatchedEvent → Js.Str
  | .intentCreated => "IntentCreated".toList
  | .collateralPosted => "CollateralPosted".toList
  | .intentSettled => "IntentSettled".toList

structure TronGridEvent where
  block_timestamp : Nat
  event_name : Js.Str
  transaction_id : Js.Str
  event_index : Nat
  deriving DecidableEq

/-- `${ev.transaction_id}:${ev.event_index}` -/
def TronGridEvent.key (ev : TronGridEvent) : Js.Str :=
  ev.transaction_id ++ ':' :: Nat.toDigits 10 ev.event_index

/-! ## TronGrid -/

/-- The contract's confirmed events: in the order of their blocks, each once. -/
structure Log where
  events : List TronGridEvent
  ascending : Feed.Ascending TronGridEvent.block_timestamp events
  distinct : (events.map TronGridEvent.key).Nodup

/-- The events a cursor is to be given. -/
def due (eventName : WatchedEvent) (startTimestampMs : Nat) (log : Log) : List TronGridEvent :=
  log.events.filter fun ev =>
    decide (ev.event_name = eventName.name ∧ startTimestampMs ≤ ev.block_timestamp)

/-- The next confirmed event; one that does not continue the log is none. -/
def Log.grow (log : Log) (ev : TronGridEvent) : Log :=
  if h : (∀ e ∈ log.events, e.block_timestamp ≤ ev.block_timestamp) ∧
      ev.key ∉ log.events.map TronGridEvent.key then
    { events := log.events ++ [ev]
      ascending := by
        refine List.pairwise_append.mpr ⟨log.ascending, List.pairwise_singleton _ _, ?_⟩
        intro e he f hf
        cases List.mem_singleton.mp hf
        exact h.1 e he
      distinct := by
        rw [List.map_append, List.nodup_append]
        refine ⟨log.distinct, List.nodup_singleton _, ?_⟩
        intro a ha b hb hab
        cases List.mem_singleton.mp hb
        exact h.2 (hab ▸ ha) }
  else log

/-- `limit=200` -/
def limit : Nat := 200

/-- The answer to `event_name=…&order_by=block_timestamp,asc&min_block_timestamp=…&limit=200`. -/
def Log.answer (log : Log) (eventName : WatchedEvent) (sinceTimestampMs : Nat) :
    List TronGridEvent :=
  Feed.page TronGridEvent.block_timestamp limit sinceTimestampMs
    (log.events.filter fun ev => decide (ev.event_name = eventName.name))

/-! ## The listener -/

structure EventCursor where
  sinceTimestampMs : Nat
  /-- A `Set`, in insertion order. -/
  seen : List Js.Str

/-- A call of `fetchEvents` whose promise has not been handled. -/
structure Request where
  id : Nat
  eventName : WatchedEvent
  sinceTimestampMs : Nat
  /-- API keys not yet given up, the one in use included. -/
  attempts : Nat
  /-- `json.data`, once there -/
  data : Option (List TronGridEvent)

structure State where
  log : Log
  cursors : WatchedEvent → EventCursor
  inFlight : Bool
  requests : List Request
  nextId : Nat
  /-- What `HANDLERS[eventName]` was passed, in order. -/
  handled : WatchedEvent → List TronGridEvent

/-- `watchChain` at `startTimestampMs`. -/
def watchChain (log : Log) (startTimestampMs : Nat) : State where
  log := log
  cursors := fun _ => { sinceTimestampMs := startTimestampMs, seen := [] }
  inFlight := false
  requests := []
  nextId := 0
  handled := fun _ => []

/-- One turn of the loop over a response: the cursor, and what has been handled. -/
def onEvent (acc : EventCursor × List TronGridEvent) (ev : TronGridEvent) :
    EventCursor × List TronGridEvent :=
  if ev.key ∈ acc.1.seen then acc
  else
    ({ sinceTimestampMs := max acc.1.sinceTimestampMs ev.block_timestamp
       seen := acc.1.seen ++ [ev.key] },
      acc.2 ++ [ev])

/-- `if (cursor.seen.size > 5000) cursor.seen.clear()` -/
def boundMemory (cursor : EventCursor) : EventCursor :=
  if cursor.seen.length > 5000 then { cursor with seen := [] } else cursor

/-- `pollEvent`: the request is sent with the mark the cursor has now. -/
def pollEvent (apiKeys : Nat) (s : State) (eventName : WatchedEvent) : State :=
  { s with
    requests := s.requests ++
      [{ id := s.nextId
         eventName := eventName
         sinceTimestampMs := (s.cursors eventName).sinceTimestampMs
         attempts := if apiKeys > 0 then apiKeys else 1
         data := none }]
    nextId := s.nextId + 1 }

/-- The interval's callback. `pollEvent` returns nothing to wait for, so `allSettled` is over
before the next callback of any kind. -/
def tick (apiKeys : Nat) (s : State) : State :=
  if s.inFlight then s
  else { WATCHED_EVENTS.foldl (pollEvent apiKeys) { s with inFlight := true } with
    inFlight := false }

/-- The answered request of that number. -/
def State.fulfilled (s : State) (id : Nat) : Option (Request × List TronGridEvent) :=
  s.requests.findSome? fun q => if q.id = id then q.data.map fun events => (q, events) else none

/-- The callback of `then`. -/
def onEvents (s : State) (q : Request) (events : List TronGridEvent) : State :=
  let acc := events.foldl onEvent (s.cursors q.eventName, s.handled q.eventName)
  { s with
    cursors := Function.update s.cursors q.eventName (boundMemory acc.1)
    handled := Function.update s.handled q.eventName acc.2
    requests := s.requests.filter fun r => decide (r.id ≠ q.id) }

inductive Action where
  /-- The contract's next event is confirmed. -/
  | grow (ev : TronGridEvent)
  /-- `POLL_INTERVAL_MS` have passed. -/
  | tick
  /-- TronGrid answers the attempt under way of a request. -/
  | answer (id : Nat)
  /-- The attempt under way fails: the next key, or the `catch` that logs. -/
  | fail (id : Nat)
  /-- The callback of an answered request runs. -/
  | resolve (id : Nat)

def Request.answered (log : Log) (q : Request) : Request :=
  { q with data := some (log.answer q.eventName q.sinceTimestampMs) }

def Request.failed (q : Request) : Option Request :=
  if q.attempts ≤ 1 then none else some { q with attempts := q.attempts - 1 }

/-- One step; an action on a request that is not there does nothing. -/
def step (apiKeys : Nat) (s : State) : Action → State
  | .grow ev => { s with log := s.log.grow ev }
  | .tick => tick apiKeys s
  | .answer id =>
    { s with
      requests := s.requests.map fun q =>
        if q.id = id ∧ q.data = none then q.answered s.log else q }
  | .fail id =>
    { s with
      requests := s.requests.filterMap fun q =>
        if q.id = id ∧ q.data = none then q.failed else some q }
  | .resolve id =>
    match s.fulfilled id with
    | none => s
    | some (q, events) => onEvents s q events

end Maat.Orchestrator.TronListener
