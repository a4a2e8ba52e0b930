import Maat.Laws.Orchestrator.Routed
import Maat.Orchestrator.Reserved

/-!
# Every reservation is resolved

A dispatch touches the book in three ways: its selection adds the reservation, the outcome of
`postCollateral` puts it on hold or takes it out, and the end of the call takes it out if it is
still unresolved. So along every run the reservation is unresolved, held from the moment of the
success, or gone (`Tracked`), and every other one is what the others make of it.
-/

namespace Maat.Orchestrator.Settlement

open Js Suspension ReservationBook

variable {config : Config} {deps : DispatchDeps} {intentId : Str} {book : ReservationBook}

/-! ## One reservation at a time -/

theorem find_reservedWei_eq (solver : Str) (now : Nat) (s i : Str) :
    (book.reservedWei solver now).2.find s i =
      if s = addrKey solver then (book.find s i).filter fun r => !lapsed now r
      else book.find s i := by
  split
  · next h =>
    subst h
    exact find_reservedWei now i
  · next h =>
    unfold find
    rw [lookup_reservedWei book now h]

/-- What becomes of a reservation depends on no other. -/
theorem find_apply_congr (call : BookCall) {book' : ReservationBook} {s i : Str}
    (h : book.find s i = book'.find s i) :
    (call.apply book).find s i = (call.apply book').find s i := by
  cases call with
  | reserve solver id wei => simp only [BookCall.apply, find_reserve, h]
  | holdFor solver id now hold => simp only [BookCall.apply, find_holdFor, h]
  | release solver id => simp only [BookCall.apply, find_release, h]
  | reservedWei solver now => simp only [BookCall.apply, find_reservedWei_eq, h]

/-- A call for another reservation keeps this one, unless it drops it because it has lapsed. -/
theorem find_apply_other (book : ReservationBook) {call : BookCall} {s i : Str}
    (h : call.isFor s i = false) :
    (call.apply book).find s i = book.find s i ∨
      (call.apply book).find s i = none ∧ ∃ solver now r, call = .reservedWei solver now ∧
        addrKey solver = s ∧ book.find s i = some r ∧ lapsed now r = true := by
  cases call with
  | reserve solver id wei =>
    left
    rw [BookCall.apply, find_reserve, if_neg]
    rintro ⟨rfl, rfl⟩
    simp [BookCall.isFor] at h
  | holdFor solver id now hold =>
    left
    rw [BookCall.apply, find_holdFor, if_neg]
    rintro ⟨rfl, rfl⟩
    simp [BookCall.isFor] at h
  | release solver id =>
    left
    rw [BookCall.apply, find_release, if_neg]
    rintro ⟨rfl, rfl⟩
    simp [BookCall.isFor] at h
  | reservedWei solver now =>
    rw [BookCall.apply, find_reservedWei_eq]
    split
    · next hs =>
      cases hfind : book.find s i with
      | none => exact .inl rfl
      | some r =>
        cases hlapsed : lapsed now r with
        | false => exact .inl (by simp [Option.filter, hlapsed])
        | true => exact .inr ⟨by simp [Option.filter, hlapsed], solver, now, r, rfl, hs.symm, rfl,
            hlapsed⟩
    · exact .inl rfl

/-! ## One turn -/

/-- The collateral is posted, or about to be seen to be. -/
def SequencePoint.posted : SequencePoint → Bool
  | .pay _ => true
  | _ => false

/-- The reply says that `postCollateral` succeeded. -/
def Succeeds (point : SequencePoint) (reply : Reply) : Prop :=
  point = .posting ∧ ∃ txHash, reply.answer = .outcome true txHash

/-- The reply says that it failed, or threw. -/
def Fails (point : SequencePoint) (reply : Reply) : Prop :=
  point = .posting ∧ ((∃ txHash, reply.answer = .outcome false txHash) ∨
    ∃ error, reply.answer = .threw error)

theorem sequence_awaits {job : Job} {card : Card} {point point' : SequencePoint} {reply : Reply}
    {t : Turn Card SequencePoint Call Str}
    (h : sequenceResume config job card point reply = some t) (hnext : t.next = .await point') :
    point'.posted = true ↔ point.posted = true ∨ Succeeds point reply := by
  obtain ⟨now, answer⟩ := reply
  unfold sequenceResume at h
  split at h
  · split at h
    · cases h
      cases hnext
      simp [SequencePoint.posted, Succeeds]
    · cases h
      cases hnext
  · next hanswer =>
    cases hanswer
    cases h
    cases hnext
    simp [SequencePoint.posted, Succeeds]
  · next hanswer =>
    cases hanswer
    cases h
    obtain ⟨_, -, rfl⟩ := within_awaits.mp hnext
    simp [SequencePoint.posted, Succeeds]
  · cases h
    cases hnext
  · obtain ⟨_, -, rfl⟩ := Option.map_eq_some_iff.mp h
    obtain ⟨_, -, rfl⟩ := within_awaits.mp hnext
    simp [SequencePoint.posted]
  · cases h
    cases hnext
  · cases h
    cases hnext
  · cases h

theorem sequence_fails {job : Job} {card : Card} {point : SequencePoint} {reply : Reply}
    {t : Turn Card SequencePoint Call Str}
    (h : sequenceResume config job card point reply = some t) (hfails : Fails point reply)
    (point' : SequencePoint) : t.next ≠ .await point' := by
  obtain ⟨now, answer⟩ := reply
  obtain ⟨rfl, ⟨txHash, rfl⟩ | ⟨error, rfl⟩⟩ := hfails
  · cases h
    exact nofun
  · cases h
    exact nofun

section turn

variable {d : Dispatched} {job : Job} {point : SequencePoint} {reply : Reply} {holdMs : Nat}

theorem releaseReservation_resolved (h : d.reservationResolved = true) :
    d.releaseReservation intentId = d := by
  unfold Dispatched.releaseReservation
  split
  · exact if_pos h
  · rfl

theorem releaseReservation_pending (hjob : d.job = some job) (h : d.reservationResolved = false) :
    d.releaseReservation intentId = { d with
      reservationResolved := true, book := d.book.release job.solverAddress intentId } := by
  unfold Dispatched.releaseReservation
  rw [hjob]
  dsimp only
  rw [h, if_neg Bool.false_ne_true]

theorem afterPost_succeeds (hjob : d.job = some job) (h : Succeeds point reply) :
    d.afterPost intentId holdMs point reply = { d with
      reservationResolved := true
      book := d.book.holdFor job.solverAddress intentId reply.now.toNat holdMs } := by
  obtain ⟨now, answer⟩ := reply
  obtain ⟨rfl, txHash, rfl⟩ := h
  simp only [Dispatched.afterPost, Dispatched.holdReservation, hjob]

theorem afterPost_fails (h : Fails point reply) :
    d.afterPost intentId holdMs point reply = d.releaseReservation intentId := by
  obtain ⟨now, answer⟩ := reply
  obtain ⟨rfl, ⟨txHash, rfl⟩ | ⟨error, rfl⟩⟩ := h
  · rfl
  · rfl

theorem afterPost_other (hsucceeds : ¬Succeeds point reply) (hfails : ¬Fails point reply) :
    d.afterPost intentId holdMs point reply = d := by
  obtain ⟨now, answer⟩ := reply
  unfold Dispatched.afterPost
  split
  · next txHash hanswer => exact absurd ⟨rfl, txHash, hanswer⟩ hsucceeds
  · next txHash hanswer => exact absurd ⟨rfl, .inl ⟨txHash, hanswer⟩⟩ hfails
  · next error hanswer => exact absurd ⟨rfl, .inr ⟨error, hanswer⟩⟩ hfails
  · rfl

theorem afterSequence_ended {next : Suspension.Next SequencePoint Str}
    (h : ∀ point, next ≠ .await point) :
    d.afterSequence intentId next = d.releaseReservation intentId := by
  cases next with
  | await point => exact absurd rfl (h point)
  | returned => rfl
  | threw error => rfl

theorem afterSequence_resolved {next : Suspension.Next SequencePoint Str}
    (h : d.reservationResolved = true) :
    d.afterSequence intentId next = d := by
  cases next with
  | await point => rfl
  | returned => exact releaseReservation_resolved h
  | threw error => exact releaseReservation_resolved h

/-- A call that ends without success removes its reservation, once. -/
theorem afterSequence_unresolved {next : Suspension.Next SequencePoint Str} (hjob : d.job = some job)
    (h : d.reservationResolved = false) (hsucceeds : ¬Succeeds point reply)
    (hended : ∀ point, next ≠ .await point) :
    (d.afterPost intentId holdMs point reply).afterSequence intentId next = { d with
      reservationResolved := true, book := d.book.release job.solverAddress intentId } := by
  by_cases hfails : Fails point reply
  · rw [afterPost_fails hfails, releaseReservation_pending hjob h]
    exact afterSequence_resolved rfl
  · rw [afterPost_other hsucceeds hfails, afterSequence_ended hended]
    exact releaseReservation_pending hjob h

/-- A turn of the call's own, whether or not it throws. -/
inductive OwnTurn (deps : DispatchDeps) (intentId : Str)
    (t : Turn Dispatched SequencePoint Call Str) (reply : Reply)
    (t' : Turn Dispatched SequencePoint Call Str) : Prop where
  | intro (point : SequencePoint) (d : Dispatched) (hpoint : t.next = .await point)
    (hjob : d.job = t.state.job) (hsome : t.state.job.isSome) (hbook : d.book = t.state.book)
    (hresolved : d.reservationResolved = t.state.reservationResolved)
    (state : t'.state = (d.afterPost intentId deps.reservationHoldMs point reply).afterSequence
      intentId t'.next)
    (awaits : ∀ point', t'.next = .await point' →
      (point'.posted = true ↔ point.posted = true ∨ Succeeds point reply))
    (fails : Fails point reply → ∀ point', t'.next ≠ .await point')

theorem ownTurn_reply {t t' : Turn Dispatched SequencePoint Call Str}
    (h : feed (dispatchResume config deps intentId) t reply = some t') :
    OwnTurn deps intentId t reply t' := by
  obtain ⟨point, t₁, hnext, hresume, rfl⟩ := feed_eq_some.mp h
  unfold dispatchResume at hresume
  split at hresume
  · cases hresume
  · next job hjob =>
    obtain ⟨t₂, hsequence, rfl⟩ := Option.map_eq_some_iff.mp hresume
    exact ⟨point, { t.state with card := t₂.state }, hnext, rfl, by rw [hjob]; rfl, rfl, rfl, rfl,
      fun _ => sequence_awaits hsequence, sequence_fails hsequence⟩

theorem ownTurn_broken {t t' : Turn Dispatched SequencePoint Call Str} {card : Card} {error : Str}
    (h : feed (brokenResume config deps intentId card error) t reply = some t') :
    OwnTurn deps intentId t reply t' := by
  obtain ⟨point, t₁, hnext, hresume, rfl⟩ := feed_eq_some.mp h
  unfold brokenResume at hresume
  split at hresume
  · cases hresume
  · next job hjob =>
    obtain ⟨t₂, hsequence, rfl⟩ := Option.map_eq_some_iff.mp hresume
    refine ⟨point, { t.state with card }, hnext, rfl, by rw [hjob]; rfl, rfl, rfl, rfl, ?_, ?_⟩
    · intro point' hpoint'
      dsimp only [andThen_next] at hpoint'
      split at hpoint'
      · next hsigns =>
        cases hpoint'
        refine ⟨.inl, ?_⟩
        rintro (hposted | ⟨-, txHash, hanswer⟩)
        · exact hposted
        · rw [Reply.signs, hanswer] at hsigns
          cases hsigns
      · cases hpoint'
    · rintro ⟨-, hanswer⟩ point'
      dsimp only [andThen_next]
      split
      · next hsigns =>
        obtain ⟨txHash, hanswer⟩ | ⟨error', hanswer⟩ := hanswer
        · rw [Reply.signs, hanswer] at hsigns
          cases hsigns
        · rw [Reply.signs, hanswer] at hsigns
          cases hsigns
      · exact nofun

end turn

/-! ## A run -/

/-- What comes as an answer to what the call waits for. -/
def DispatchEvent.answer : DispatchEvent → Option Reply
  | .reply r | .broken r _ _ => some r
  | .elsewhere _ => none

def DispatchEvent.call : DispatchEvent → Option BookCall
  | .elsewhere c => some c
  | _ => none

/-- What the others did with the book. -/
def elsewhere (events : List DispatchEvent) : List BookCall := events.filterMap DispatchEvent.call

/-- At that time `postCollateral` is seen to succeed. -/
def PostsAt (ms : Nat) (t : Turn Dispatched SequencePoint Call Str) (event : DispatchEvent) :
    Prop :=
  ∃ point reply, t.next = .await point ∧ event.answer = some reply ∧ Succeeds point reply ∧
    reply.now.toNat = ms

/-- The hold runs until then: it is there, or it was dropped when others read it after that. -/
def Held (book : ReservationBook) (s i : Str) (wei until_ : Nat) (others : List BookCall) : Prop :=
  book.find s i = some ⟨wei, some until_⟩ ∨
    book.find s i = none ∧ ∃ solver now, .reservedWei solver now ∈ others ∧ addrKey solver = s ∧
      until_ ≤ now

section run

variable {start t t' : Turn Dispatched SequencePoint Call Str} {past : List DispatchEvent}
variable {event : DispatchEvent} {s i : Str} {wei : Nat}

/-- `postCollateral` has succeeded at that time. -/
def Posted (config : Config) (deps : DispatchDeps) (intentId : Str)
    (start : Turn Dispatched SequencePoint Call Str) (past : List DispatchEvent) (ms : Nat) :
    Prop :=
  Run.Happened (dispatchStep config deps intentId) start past (PostsAt ms)

/-- Where the reservation is, in the course of a run. -/
inductive Tracked (config : Config) (deps : DispatchDeps) (intentId : Str)
    (start : Turn Dispatched SequencePoint Call Str) (s i : Str) (wei : Nat)
    (t : Turn Dispatched SequencePoint Call Str) (past : List DispatchEvent) : Prop where
  | pending (resolved : t.state.reservationResolved = false)
    (awaits : ∃ point, t.next = .await point ∧ point.posted = false)
    (never : ∀ ms, ¬Posted config deps intentId start past ms)
    (reserved : t.state.book.find s i = some ⟨wei, none⟩)
  | held (resolved : t.state.reservationResolved = true)
    (awaits : ∀ point, t.next = .await point → point.posted = true)
    (ms : Nat) (posted : ∀ ms', Posted config deps intentId start past ms' ↔ ms' = ms)
    (hold : Held t.state.book s i wei (ms + deps.reservationHoldMs) (elsewhere past))
  | gone (resolved : t.state.reservationResolved = true)
    (ended : ∀ point, t.next ≠ .await point)
    (never : ∀ ms, ¬Posted config deps intentId start past ms)
    (removed : t.state.book.find s i = none)

theorem not_postsAt_elsewhere {ms : Nat} {call : BookCall} : ¬PostsAt ms t (.elsewhere call) := by
  rintro ⟨_, _, -, hanswer, -⟩
  cases hanswer

theorem elsewhere_snoc_own (h : event.call = none) :
    elsewhere (past ++ [event]) = elsewhere past := by
  simp [elsewhere, h]

theorem elsewhere_snoc_call (call : BookCall) :
    elsewhere (past ++ [.elsewhere call]) = elsewhere past ++ [call] := by
  simp [elsewhere, DispatchEvent.call]

/-- The others keep the reservation as it is, or drop it once it has lapsed. -/
theorem tracked_elsewhere {call : BookCall}
    (hrun : Run.run (dispatchStep config deps intentId) start past = some t)
    (h : Tracked config deps intentId start s i wei t past) (hcall : call.isFor s i = false) :
    Tracked config deps intentId start s i wei
      { t with state := { t.state with book := call.apply t.state.book } }
      (past ++ [.elsewhere call]) := by
  have hposted (ms : Nat) : Posted config deps intentId start (past ++ [.elsewhere call]) ms ↔
      Posted config deps intentId start past ms :=
    (Run.happened_snoc hrun).trans (or_iff_left not_postsAt_elsewhere)
  have hfind := find_apply_other t.state.book hcall
  cases h with
  | pending resolved awaits never reserved =>
    refine .pending resolved awaits (fun ms => mt (hposted ms).mp (never ms)) ?_
    rcases hfind with hsame | ⟨-, _, now, r, -, -, hr, hlapsed⟩
    · exact hsame.trans reserved
    · rw [reserved] at hr
      cases hr
      cases hlapsed
  | held resolved awaits ms posted hold =>
    refine .held resolved awaits ms (fun ms' => (hposted ms').trans (posted ms')) ?_
    rw [elsewhere_snoc_call]
    rcases hold with hthere | ⟨hdropped, solver, now, hmem, hkey, hlate⟩
    · rcases hfind with hsame | ⟨hnone, solver, now, r, rfl, hkey, hr, hlapsed⟩
      · exact .inl (hsame.trans hthere)
      · rw [hthere] at hr
        cases hr
        exact .inr ⟨hnone, solver, now, by simp, hkey, of_decide_eq_true hlapsed⟩
    · refine .inr ⟨?_, solver, now, List.mem_append_left _ hmem, hkey, hlate⟩
      rcases hfind with hsame | ⟨hnone, -⟩
      · exact hsame.trans hdropped
      · exact hnone
  | gone resolved ended never removed =>
    refine .gone resolved ended (fun ms => mt (hposted ms).mp (never ms)) ?_
    rcases hfind with hsame | ⟨hnone, -⟩
    · exact hsame.trans removed
    · exact hnone

/-- A turn of the call's own: the success holds the reservation, a failure or the end removes it. -/
theorem tracked_own {reply : Reply}
    (hrun : Run.run (dispatchStep config deps intentId) start past = some t)
    (hanswer : event.answer = some reply) (hturn : OwnTurn deps intentId t reply t') {job : Job}
    (hjob : t.state.job = some job)
    (h : Tracked config deps intentId start (addrKey job.solverAddress) (intentKey intentId) wei t
      past) :
    t'.state.job = some job ∧
    Tracked config deps intentId start (addrKey job.solverAddress) (intentKey intentId) wei t'
      (past ++ [event]) := by
  obtain ⟨point, d, hpoint, hdjob, -, hdbook, hdresolved, hstate, hawaits, hfails⟩ := hturn
  rw [hjob] at hdjob
  have hothers : elsewhere (past ++ [event]) = elsewhere past := by
    apply elsewhere_snoc_own
    cases event with
    | elsewhere call => cases hanswer
    | _ => rfl
  have hposted (ms : Nat) : Posted config deps intentId start (past ++ [event]) ms ↔
      Posted config deps intentId start past ms ∨ Succeeds point reply ∧ reply.now.toNat = ms := by
    refine (Run.happened_snoc hrun).trans (or_congr_right ?_)
    constructor
    · rintro ⟨point', reply', hpoint', hanswer', hsucceeds⟩
      cases hpoint.symm.trans hpoint'
      cases hanswer.symm.trans hanswer'
      exact hsucceeds
    · exact fun hsucceeds => ⟨point, reply, hpoint, hanswer, hsucceeds⟩
  cases h with
  | pending resolved awaits never reserved =>
    obtain ⟨point', hpoint', hunposted⟩ := awaits
    cases hpoint.symm.trans hpoint'
    rw [resolved] at hdresolved
    rw [← hdbook] at reserved
    by_cases hsucceeds : Succeeds point reply
    · rw [afterPost_succeeds hdjob hsucceeds, afterSequence_resolved rfl] at hstate
      refine ⟨by rw [hstate]; exact hdjob, .held (by rw [hstate]) ?_ reply.now.toNat ?_ (.inl ?_)⟩
      · exact fun point' hpoint' => (hawaits point' hpoint').mpr (.inr hsucceeds)
      · intro ms
        rw [hposted ms]
        constructor
        · rintro (hearlier | ⟨-, rfl⟩)
          · exact absurd hearlier (never ms)
          · rfl
        · rintro rfl
          exact .inr ⟨hsucceeds, rfl⟩
      · rw [hstate]
        show (d.book.holdFor _ _ _ _).find _ _ = _
        rw [find_holdFor, if_pos ⟨rfl, rfl⟩, reserved]
        rfl
    · have hnever (ms : Nat) : ¬Posted config deps intentId start (past ++ [event]) ms := by
        rw [hposted ms]
        rintro (hearlier | ⟨hnow, -⟩)
        · exact never ms hearlier
        · exact hsucceeds hnow
      cases hnext : t'.next with
      | await point' =>
        have hfail : ¬Fails point reply := fun hfail => hfails hfail point' hnext
        rw [afterPost_other hsucceeds hfail, hnext] at hstate
        refine ⟨by rw [hstate]; exact hdjob, .pending (by rw [hstate]; exact hdresolved) ?_ hnever
          (by rw [hstate]; exact reserved)⟩
        refine ⟨point', hnext, Bool.eq_false_iff.mpr fun hposted' => ?_⟩
        rcases (hawaits point' hnext).mp hposted' with hearlier | hnow
        · exact Bool.eq_false_iff.mp hunposted hearlier
        · exact hsucceeds hnow
      | _ =>
        have hended : ∀ point', t'.next ≠ .await point' := by simp [hnext]
        rw [afterSequence_unresolved hdjob hdresolved hsucceeds hended] at hstate
        refine ⟨by rw [hstate]; exact hdjob, .gone (by rw [hstate]) hended hnever ?_⟩
        rw [hstate]
        show (d.book.release _ _).find _ _ = _
        rw [find_release, if_pos ⟨rfl, rfl⟩]
  | held resolved awaits ms posted hold =>
    -- the collateral is posted once
    have hsucceeds : ¬Succeeds point reply := by
      rintro ⟨rfl, -⟩
      cases awaits _ hpoint
    have hfail : ¬Fails point reply := by
      rintro ⟨rfl, -⟩
      cases awaits _ hpoint
    rw [resolved] at hdresolved
    rw [afterPost_other hsucceeds hfail, afterSequence_resolved hdresolved] at hstate
    refine ⟨by rw [hstate]; exact hdjob, .held (by rw [hstate]; exact hdresolved) ?_ ms ?_ ?_⟩
    · exact fun point' hpoint' => (hawaits point' hpoint').mpr (.inl (awaits point hpoint))
    · intro ms'
      rw [hposted ms', posted ms']
      exact or_iff_left fun hnow => hsucceeds hnow.1
    · rw [hstate, hothers, hdbook]
      exact hold
  | gone resolved ended never removed => exact absurd hpoint (ended point)

end run

/-! ## Another's reservation -/

section other

variable {d : Dispatched} {job : Job} {s i : Str}

theorem find_releaseReservation (hjob : d.job = some job)
    (hother : ¬(s = addrKey job.solverAddress ∧ i = intentKey intentId)) :
    (d.releaseReservation intentId).book.find s i = d.book.find s i := by
  cases hresolved : d.reservationResolved with
  | true => rw [releaseReservation_resolved hresolved]
  | false =>
    rw [releaseReservation_pending hjob hresolved]
    exact (find_release _ _ _).trans (if_neg hother)

theorem find_afterPost {point : SequencePoint} {reply : Reply} {holdMs : Nat}
    (hjob : d.job = some job)
    (hother : ¬(s = addrKey job.solverAddress ∧ i = intentKey intentId)) :
    (d.afterPost intentId holdMs point reply).book.find s i = d.book.find s i := by
  by_cases hsucceeds : Succeeds point reply
  · rw [afterPost_succeeds hjob hsucceeds]
    exact (find_holdFor _ _ _ _ _).trans (if_neg hother)
  · by_cases hfails : Fails point reply
    · rw [afterPost_fails hfails, find_releaseReservation hjob hother]
    · rw [afterPost_other hsucceeds hfails]

theorem OwnTurn.find {t t' : Turn Dispatched SequencePoint Call Str} {reply : Reply}
    (hturn : OwnTurn deps intentId t reply t') (hjob : t.state.job = some job)
    (hother : ¬(s = addrKey job.solverAddress ∧ i = intentKey intentId)) :
    t'.state.book.find s i = t.state.book.find s i := by
  obtain ⟨point, d, -, hdjob, -, hdbook, -, hstate, -, -⟩ := hturn
  rw [hjob] at hdjob
  rw [hstate, ← hdbook]
  cases t'.next with
  | await point' => exact find_afterPost hdjob hother
  | _ =>
    exact (find_releaseReservation ((afterPost_card ..).2.trans hdjob) hother).trans
      (find_afterPost hdjob hother)

end other

/-! ## Where a run begins -/

section opening

variable {json : ProofOutputJson} {zkProofHash : Option Str} {nowSec : Int} {card : Card}
variable {fault : Option (OpeningFault × Str)}

/-- The solver that the call makes a reservation for. -/
def reservedFor (deps : DispatchDeps) (intentId : Str) (json : ProofOutputJson) (nowSec : Int)
    (book : ReservationBook) (card : Card) (fault : Option (OpeningFault × Str)) : Option Str :=
  if card.live then none
  else
    match fault with
    | some (.selecting _, _) => none
    | _ => (selectSolver deps.candidates ⟨intentId, json⟩ nowSec deps.selection book).1.solver

/-- The collateral and the gas for posting it. -/
def reservationWei (deps : DispatchDeps) (json : ProofOutputJson) : Nat :=
  requiredCollateral json.amount + deps.selection.gate.gasBufferWei

theorem purged_refl (deps : SelectionDeps) (candidates : List Str) (book : ReservationBook) :
    Purged deps candidates book book := fun _ _ => .inl rfl

theorem purged_of_take {candidates : List Str} {n : Nat} {deps : SelectionDeps}
    {found : ReservationBook} (h : Purged deps (candidates.take n) book found) :
    Purged deps candidates book found := by
  intro s i
  refine (h s i).imp_right ?_
  rintro ⟨hgone, solver, hmem, hrest⟩
  exact ⟨hgone, solver, List.mem_of_mem_take hmem, hrest⟩

theorem dispatch_reserves (zkProofHash : Option Str) {solver : Str} (hlive : card.live = false)
    (hselected : (selectSolver deps.candidates ⟨intentId, json⟩ nowSec deps.selection
      book).1.solver = some solver) :
    ∃ found job, Purged deps.selection deps.candidates book found ∧ job.solverAddress = solver ∧
      dispatchArbitrumSettlement deps intentId json zkProofHash nowSec book card =
        ⟨⟨card, found.reserve solver intentId (reservationWei deps json), false, some job⟩,
          [.getSolverBalanceWei], .await .balance⟩ := by
  obtain ⟨found, hpurged, hbook⟩ :=
    selectSolver_book ⟨intentId, json⟩ nowSec deps.selection book deps.candidates
  rw [hselected] at hbook
  refine ⟨found, selectedJob (selectSolver deps.candidates ⟨intentId, json⟩ nowSec deps.selection
    book).1 solver json zkProofHash, hpurged, rfl, ?_⟩
  unfold dispatchArbitrumSettlement
  rw [hlive, if_neg Bool.false_ne_true]
  dsimp only
  rw [hselected]
  dsimp only
  rw [hbook, runArbitrumSettlementSequence, hlive, if_neg Bool.false_ne_true]
  rfl

/-- Where nothing is selected the call is over at once. -/
theorem dispatch_over (zkProofHash : Option Str) (h : card.live = true ∨
    (selectSolver deps.candidates ⟨intentId, json⟩ nowSec deps.selection book).1.solver = none) :
    ∃ d, dispatchArbitrumSettlement deps intentId json zkProofHash nowSec book card =
        ⟨d, [], .returned⟩ ∧
      d.job = none ∧ Purged deps.selection deps.candidates book d.book := by
  unfold dispatchArbitrumSettlement
  cases hlive : card.live with
  | true =>
    rw [if_pos rfl, runArbitrumSettlementSequence, hlive, if_pos rfl]
    exact ⟨_, rfl, rfl, purged_refl _ _ _⟩
  | false =>
    rw [if_neg Bool.false_ne_true]
    obtain ⟨found, hpurged, hbook⟩ :=
      selectSolver_book ⟨intentId, json⟩ nowSec deps.selection book deps.candidates
    have hnone := h.resolve_left (by rw [hlive]; exact Bool.false_ne_true)
    rw [hnone] at hbook
    dsimp only
    rw [hnone, hbook]
    exact ⟨_, rfl, rfl, hpurged⟩

/-- The reservation is in the book before the call waits for anything, or the call has failed and it
is out again. -/
theorem opening_tracked (config : Config) (zkProofHash : Option Str) {solver : Str} (hsolver :
    reservedFor deps intentId json nowSec book card fault = some solver) :
    let start := dispatchOpening deps intentId json zkProofHash nowSec book card fault
    (∃ job, start.state.job = some job ∧ job.solverAddress = solver) ∧
    Tracked config deps intentId start (addrKey solver) (intentKey intentId)
      (reservationWei deps json) start [] ∧
    ∃ found, Purged deps.selection deps.candidates book found ∧
      ∀ s i, ¬(s = addrKey solver ∧ i = intentKey intentId) →
        start.state.book.find s i = found.find s i := by
  have hlive : card.live = false := by
    by_contra hlive
    unfold reservedFor at hsolver
    rw [if_pos (by simpa using hlive)] at hsolver
    cases hsolver
  unfold reservedFor at hsolver
  rw [hlive, if_neg Bool.false_ne_true] at hsolver
  have hnever (start : Turn Dispatched SequencePoint Call Str) (ms : Nat) :
      ¬Posted config deps intentId start [] ms := Run.not_happened_nil
  rcases fault with _ | ⟨_ | card', error⟩
  · obtain ⟨found, job, hpurged, hjob, hdispatch⟩ := dispatch_reserves zkProofHash hlive hsolver
    rw [dispatchOpening, hdispatch]
    refine ⟨⟨job, rfl, hjob⟩, .pending rfl ⟨_, rfl, rfl⟩ (hnever _) ?_, found, hpurged, ?_⟩
    · exact (find_reserve _ _ _ _).trans (if_pos ⟨rfl, rfl⟩)
    · exact fun s i hother => (find_reserve _ _ _ _).trans (if_neg hother)
  · cases hsolver
  · obtain ⟨found, job, hpurged, hjob, hdispatch⟩ := dispatch_reserves zkProofHash hlive hsolver
    rw [dispatchOpening, hdispatch]
    dsimp only
    rw [releaseReservation_pending rfl rfl, hjob]
    refine ⟨⟨job, rfl, hjob⟩, .gone rfl (fun _ => nofun) (hnever _) ?_, found, hpurged, ?_⟩
    · exact (find_release _ _ _).trans (if_pos ⟨rfl, rfl⟩)
    · intro s i hother
      refine (find_release _ _ _).trans ((if_neg hother).trans ?_)
      exact (find_reserve _ _ _ _).trans (if_neg hother)

theorem opening_unreserved (zkProofHash : Option Str)
    (hsolver : reservedFor deps intentId json nowSec book card fault = none) :
    let start := dispatchOpening deps intentId json zkProofHash nowSec book card fault
    start.state.job = none ∧ Purged deps.selection deps.candidates book start.state.book := by
  have hunselected (h : ∀ evaluated error, fault ≠ some (.selecting evaluated, error)) :
      card.live = true ∨ (selectSolver deps.candidates ⟨intentId, json⟩ nowSec deps.selection
        book).1.solver = none := by
    unfold reservedFor at hsolver
    split at hsolver
    · next hlive => exact .inl hlive
    · split at hsolver
      · next evaluated error => exact absurd rfl (h evaluated error)
      · exact .inr hsolver
  rcases fault with _ | ⟨evaluated | card', error⟩
  · obtain ⟨d, hdispatch, hd⟩ := dispatch_over zkProofHash (hunselected nofun)
    rw [dispatchOpening, hdispatch]
    exact hd
  · refine ⟨rfl, ?_⟩
    rw [dispatchOpening]
    dsimp only
    split
    · exact purged_refl _ _ _
    · exact purged_of_take (purged_evaluateAll _ _ _ _)
  · obtain ⟨d, hdispatch, hjob, hpurged⟩ :=
      dispatch_over zkProofHash (hunselected fun _ _ => nofun)
    rw [dispatchOpening, hdispatch]
    have hkept : ({ d with card := card' } : Dispatched).releaseReservation intentId =
        { d with card := card' } := by
      unfold Dispatched.releaseReservation
      rw [hjob]
    dsimp only
    rw [hkept]
    exact ⟨hjob, hpurged⟩

end opening

/-- What another's reservation is, from the book after the selection. -/
def Untouched (intentId : Str) (found : ReservationBook)
    (t : Turn Dispatched SequencePoint Call Str) (past : List DispatchEvent) : Prop :=
  ∀ s i, (∀ job, t.state.job = some job →
      ¬(s = addrKey job.solverAddress ∧ i = intentKey intentId)) →
    t.state.book.find s i = ((elsewhere past).foldl BookCall.apply found).find s i

/-- What a run keeps, with the solver that the call reserves for. -/
structure Kept (config : Config) (deps : DispatchDeps) (intentId : Str) (wei : Nat)
    (found : ReservationBook) (start : Turn Dispatched SequencePoint Call Str)
    (t : Turn Dispatched SequencePoint Call Str) (past : List DispatchEvent) : Prop where
  job : t.state.job = start.state.job
  tracked : ∀ job, t.state.job = some job → Tracked config deps intentId start
    (addrKey job.solverAddress) (intentKey intentId) wei t past
  untouched : Untouched intentId found t past

theorem kept_own {start t t' : Turn Dispatched SequencePoint Call Str} {past : List DispatchEvent}
    {event : DispatchEvent} {reply : Reply} {wei : Nat} {found : ReservationBook}
    (hrun : Run.run (dispatchStep config deps intentId) start past = some t)
    (h : Kept config deps intentId wei found start t past) (hanswer : event.answer = some reply)
    (hturn : OwnTurn deps intentId t reply t') :
    Kept config deps intentId wei found start t' (past ++ [event]) := by
  obtain ⟨job, hjob⟩ : ∃ job, t.state.job = some job := by
    obtain ⟨_, _, _, _, hsome, -⟩ := hturn
    exact Option.isSome_iff_exists.mp hsome
  obtain ⟨hjob', htracked⟩ := tracked_own hrun hanswer hturn hjob (h.tracked job hjob)
  have hcall : event.call = none := by
    cases event with
    | elsewhere call => cases hanswer
    | _ => rfl
  refine ⟨(hjob'.trans hjob.symm).trans h.job, fun job₁ hjob₁ => ?_, fun s i hother => ?_⟩
  · cases hjob'.symm.trans hjob₁
    exact htracked
  · rw [elsewhere_snoc_own hcall, hturn.find hjob (hother job hjob')]
    refine h.untouched s i fun job₁ hjob₁ => ?_
    cases hjob.symm.trans hjob₁
    exact hother job hjob'

theorem kept_step {start t t' : Turn Dispatched SequencePoint Call Str}
    {past : List DispatchEvent} {event : DispatchEvent} {wei : Nat} {found : ReservationBook}
    (hrun : Run.run (dispatchStep config deps intentId) start past = some t)
    (h : Kept config deps intentId wei found start t past)
    (hstep : dispatchStep config deps intentId t event = some t') :
    Kept config deps intentId wei found start t' (past ++ [event]) := by
  cases event with
  | reply reply => exact kept_own hrun h rfl (ownTurn_reply hstep)
  | broken reply card error => exact kept_own hrun h rfl (ownTurn_broken hstep)
  | elsewhere call =>
    rw [dispatchStep] at hstep
    split at hstep
    · cases hstep
    · next hfor =>
      cases hstep
      refine ⟨h.job, fun job hjob => ?_, fun s i hother => ?_⟩
      · have hcall : call.isFor (addrKey job.solverAddress) (intentKey intentId) = false := by
          change t.state.job = some job at hjob
          rw [hjob] at hfor
          exact Bool.eq_false_iff.mpr hfor
        exact tracked_elsewhere hrun (h.tracked job hjob) hcall
      · rw [elsewhere_snoc_call, List.foldl_append]
        exact find_apply_congr call (h.untouched s i hother)

/-- Wherever a dispatch stands, and whatever failed in it: the reservation it made is in the book
until `postCollateral` has an outcome, on a hold that ends `reservationHoldMs` after a success, and
gone when the call has ended without one. Any other reservation is what the others make of it, but
for holds of candidates that had lapsed and that the selection dropped. -/
theorem reservation_resolved (config : Config) (deps : DispatchDeps) (intentId : Str)
    (json : ProofOutputJson) (zkProofHash : Option Str) (nowSec : Int) (book : ReservationBook)
    (card : Card) (fault : Option (OpeningFault × Str)) (events : List DispatchEvent)
    (t : Turn Dispatched SequencePoint Call Str)
    (hrun : Run.run (dispatchStep config deps intentId)
      (dispatchOpening deps intentId json zkProofHash nowSec book card fault) events = some t) :
    let start := dispatchOpening deps intentId json zkProofHash nowSec book card fault
    let solver := reservedFor deps intentId json nowSec book card fault
    (∀ s, solver = some s →
      (∀ ms, Posted config deps intentId start events ms →
        Held t.state.book (addrKey s) (intentKey intentId) (reservationWei deps json)
          (ms + deps.reservationHoldMs) (elsewhere events)) ∧
      ((∀ ms, ¬Posted config deps intentId start events ms) →
        t.state.book.find (addrKey s) (intentKey intentId) =
          if t.next matches .await _ then some ⟨reservationWei deps json, none⟩ else none)) ∧
    ∃ found, Purged deps.selection deps.candidates book found ∧
      ∀ a i, (∀ s, solver = some s → ¬(a = addrKey s ∧ i = intentKey intentId)) →
        t.state.book.find a i = ((elsewhere events).foldl BookCall.apply found).find a i := by
  intro start solver
  have hkept (found : ReservationBook)
      (hstart : Kept config deps intentId (reservationWei deps json) found start start []) :
      Kept config deps intentId (reservationWei deps json) found start t events :=
    Run.run_history (fun _ _ _ _ hrun h hstep => kept_step hrun h hstep) hrun hstart
  cases hsolver : solver with
  | none =>
    obtain ⟨hjob, hpurged⟩ := opening_unreserved zkProofHash hsolver
    have hend := hkept start.state.book
      ⟨rfl, fun job h => absurd (hjob.symm.trans h) nofun, fun _ _ _ => rfl⟩
    refine ⟨nofun, start.state.book, hpurged, fun a i _ => hend.untouched a i fun job h => ?_⟩
    exact absurd (hjob.symm.trans (hend.job.symm.trans h)) nofun
  | some s =>
    obtain ⟨⟨job, hjob, hs⟩, htracked, found, hpurged, hfind⟩ :=
      opening_tracked config zkProofHash hsolver
    subst hs
    have hown : ∀ job₁, start.state.job = some job₁ → job₁ = job := fun job₁ h =>
      Option.some.inj (h.symm.trans hjob)
    have hend := hkept found ⟨rfl, fun job₁ h => hown job₁ h ▸ htracked, fun a i hother =>
      hfind a i (hother job hjob)⟩
    refine ⟨?_, found, hpurged, ?_⟩
    · rintro _ ⟨⟩
      have hjob' : t.state.job = some job := hend.job.trans hjob
      cases hend.tracked job hjob' with
      | pending _ awaits never reserved =>
        obtain ⟨point, hpoint, -⟩ := awaits
        refine ⟨fun ms hms => absurd hms (never ms), fun _ => ?_⟩
        rw [reserved, hpoint]
        rfl
      | held _ _ ms posted hold =>
        refine ⟨fun ms' hms' => ?_, fun hnever => absurd ((posted ms).mpr rfl) (hnever ms)⟩
        rw [(posted ms').mp hms']
        exact hold
      | gone _ ended never removed =>
        refine ⟨fun ms hms => absurd hms (never ms), fun _ => ?_⟩
        rw [removed]
        cases hnext : t.next with
        | await point => exact absurd hnext (ended point)
        | _ => rfl
    · intro a i hother
      refine hend.untouched a i fun job₁ h => ?_
      rw [hown job₁ (hend.job.symm.trans h)]
      exact hother _ rfl

/-! ### One solver -/

def sampleOther : Str := List.replicate 64 'b'

/-- The dispatch of an intent with no records. -/
def sampleDispatch (book : ReservationBook) : Turn Dispatched SequencePoint Call Str :=
  dispatchOpening (oneSolver 200) sampleIntent.id sampleIntent.json none 1000 book
    ⟨none, none, {}⟩ none

def sampleRouted (book : ReservationBook) (events : List DispatchEvent) :
    Option (Turn Dispatched SequencePoint Call Str) :=
  Run.run (dispatchStep sampleGate (oneSolver 200) sampleIntent.id) (sampleDispatch book) events

/-- The collateral is posted, and the write of that to the records throws. -/
def samplePosting : List DispatchEvent :=
  [.reply ⟨1000000, .balance 170⟩, .elsewhere (.reserve sampleSolver sampleOther 5),
    .reply ⟨1000500, .signed ['h']⟩,
    .broken ⟨1001000, .outcome true (some ['h'])⟩ ⟨none, none, {}⟩ ['x']]

theorem reservation_resolved_sample :
    ∃ t, sampleRouted ∅ samplePosting = some t ∧ t.next = .threw ['x'] ∧
      Held t.state.book (addrKey sampleSolver) (intentKey sampleIntent.id) 160 1031000
        [.reserve sampleSolver sampleOther 5] := by
  have hread : (sampleRouted ∅ samplePosting).map Turn.next = some (.threw ['x']) := by
    decide +kernel
  obtain ⟨t, hrun, hnext⟩ := Option.map_eq_some_iff.mp hread
  have hposting : ((sampleRouted ∅ (samplePosting.take 3)).map Turn.next) =
      some (.await .posting) := by decide +kernel
  obtain ⟨t₁, hrun₁, hpoint⟩ := Option.map_eq_some_iff.mp hposting
  have hsolver : reservedFor (oneSolver 200) sampleIntent.id sampleIntent.json 1000 ∅
      ⟨none, none, {}⟩ none = some sampleSolver := by decide +kernel
  have hposted : Posted sampleGate (oneSolver 200) sampleIntent.id (sampleDispatch ∅) samplePosting
      1001000 :=
    ⟨samplePosting.take 3, _, [], t₁, rfl, hrun₁, .posting, _, hpoint, rfl, ⟨rfl, _, rfl⟩, rfl⟩
  exact ⟨t, hrun, hnext, ((reservation_resolved sampleGate (oneSolver 200) sampleIntent.id
    sampleIntent.json none 1000 ∅ ⟨none, none, {}⟩ none samplePosting t hrun).1 sampleSolver
    hsolver).1 1001000 hposted⟩

/-- A hold of the solver for another intent, which has run out. -/
def sampleLapsed : ReservationBook :=
  ((∅ : ReservationBook).reserve sampleSolver sampleOther 5).holdFor sampleSolver sampleOther 0 1000

/-- The selection drops the hold, though the call is about another intent. -/
theorem lapsed_hold_dropped :
    intentKey sampleOther ≠ intentKey sampleIntent.id ∧
    sampleLapsed.find (addrKey sampleSolver) (intentKey sampleOther) = some ⟨5, some 1000⟩ ∧
    (sampleRouted sampleLapsed [.reply ⟨1000000, .threw ['x']⟩]).map (fun t =>
      (t.next, t.state.book.find (addrKey sampleSolver) (intentKey sampleOther))) =
      some (.threw ['x'], none) := by
  refine ⟨by decide +kernel, by decide +kernel, by decide +kernel⟩

end Maat.Orchestrator.Settlement
