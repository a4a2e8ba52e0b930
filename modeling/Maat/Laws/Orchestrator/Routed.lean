import Maat.Orchestrator.Routed
import Maat.Laws.Orchestrator.SolverRouting

/-!
# Routing with one solver

A settlement reads nothing of what routing writes: without the routing fields it goes the same way,
reply by reply (`sequenceResume_unrouted`). So once the one solver is selected, the routed settlement
and the direct one match along every run. Where it is not selected, only the gate can be why, and
the direct settlement is refused by the same gate, on a balance that it reads for itself.
-/

namespace Maat.Orchestrator.Settlement

open Js Suspension

variable {config : Config}

/-! ## Without the routing fields -/

def RoutedEntry.unrouted (entry : RoutedEntry) : RoutedEntry :=
  { entry with routing := none, collateralWei := none }

def Display.unrouted (display : Display) : Display := { display with solverRouting := none }

/-- The records without the fields that routing adds. -/
def Card.unrouted (card : Card) : Card where
  arb := card.arb.map RoutedEntry.unrouted
  settled := card.settled
  display := card.display.unrouted

def Job.unrouted (job : Job) : Job := { job with routing := none }

theorem setArbitrumStage_unrouted (card : Card) (stage : ArbitrumStage)
    {patch : RoutedEntry → RoutedEntry} (patch' : RoutedEntry → RoutedEntry)
    (hpatch : ∀ entry, (patch entry).unrouted = patch' entry.unrouted) :
    (card.setArbitrumStage stage patch).unrouted = card.unrouted.setArbitrumStage stage patch' := by
  have hstage (entry : RoutedEntry) :
      RoutedEntry.unrouted { patch entry with stage } = { patch' entry.unrouted with stage } := by
    rw [← hpatch]
    rfl
  have hcard (entry : RoutedEntry) :=
    congrArg (fun e => Card.mk (some e) card.settled card.display.unrouted) (hstage entry)
  unfold Card.unrouted Card.setArbitrumStage
  cases card.arb with
  | none => exact hcard { stage }
  | some entry => exact hcard entry

/-- A write of fields that routing does not touch. -/
theorem setArbitrumStage_unrouted_self (card : Card) (stage : ArbitrumStage)
    {patch : RoutedEntry → RoutedEntry}
    (hpatch : ∀ entry, (patch entry).unrouted = patch entry.unrouted) :
    (card.setArbitrumStage stage patch).unrouted = card.unrouted.setArbitrumStage stage patch :=
  setArbitrumStage_unrouted card stage patch hpatch

theorem mirrorDisplay_unrouted (card : Card) (stage : ArbitrumStage) {patch : Display → Display}
    (hpatch : ∀ display, (patch display).unrouted = patch display.unrouted) :
    (card.mirrorDisplay stage patch).unrouted = card.unrouted.mirrorDisplay stage patch := by
  have hstage (display : Display) :
      Display.unrouted { patch display with stage := some stage } =
        { patch display.unrouted with stage := some stage } := by
    rw [← hpatch]
    rfl
  simp [Card.unrouted, Card.mirrorDisplay, hstage]

@[simp] theorem mirrorRouting_unrouted (card : Card) (routing : Option Routing) :
    (card.mirrorRouting routing).unrouted = card.unrouted := by
  cases routing <;> rfl

theorem confirmResume_unrouted (expiry : Int) (zkProofHash : Str) (card : Card)
    (point : ConfirmPoint) (reply : Reply) :
    confirmResume config expiry zkProofHash card.unrouted point reply =
      (confirmResume config expiry zkProofHash card point reply).map
        (Turn.mapState Card.unrouted) := by
  obtain ⟨now, answer⟩ := reply
  unfold confirmResume
  split
  · split
    · simp only [Option.map_some, Turn.mapState]
      rw [mirrorDisplay_unrouted, setArbitrumStage_unrouted_self] <;> exact fun _ => rfl
    · split <;> rfl
  · simp only [Option.map_some, Turn.mapState]
    rw [mirrorDisplay_unrouted, setArbitrumStage_unrouted_self] <;> exact fun _ => rfl
  · simp only [Option.map_some, Turn.mapState]
    rw [mirrorDisplay_unrouted, setArbitrumStage_unrouted_self] <;> exact fun _ => rfl
  · split
    · simp only [Option.map_some, Turn.mapState]
      rw [mirrorDisplay_unrouted]
      exact fun _ => rfl
    · rfl
  · rfl
  · rfl
  · rfl
  · rfl

theorem payResume_unrouted (job : Job) (card : Card) (point : PayPoint) (reply : Reply) :
    payResume config job.unrouted card.unrouted point reply =
      (payResume config job card point reply).map (Turn.mapState Card.unrouted) := by
  obtain ⟨now, answer⟩ := reply
  obtain ⟨solver, routing, json, zkProofHash⟩ := job
  show payResume config ⟨solver, none, json, zkProofHash⟩ _ _ _ = _
  unfold payResume
  split
  · split_ifs with hretry hforeign
    · rfl
    · rfl
    · cases zkProofHash <;> rfl
  · rfl
  · rfl
  · split_ifs with htime
    · rfl
    · simp only [Option.map_some, Turn.mapState]
      rw [mirrorDisplay_unrouted, setArbitrumStage_unrouted_self] <;> exact fun _ => rfl
  · rfl
  · simp only [confirmResume_unrouted, Option.map_map]
    rfl
  · rfl
  · rfl
  · rfl

theorem refuse_unrouted (card : Card) (json : ProofOutputJson) (routing : Option Routing) :
    (refuseArbitrumSettlement card json routing).unrouted =
      refuseArbitrumSettlement card.unrouted json none := by
  unfold refuseArbitrumSettlement
  rw [mirrorDisplay_unrouted, mirrorRouting_unrouted, setArbitrumStage_unrouted _ _
    fun e => { e with expiry := some json.expiry }]
  · rfl
  · cases routing <;> exact fun _ => rfl
  · exact fun _ => rfl

theorem sequenceResume_unrouted (job : Job) (card : Card) (point : SequencePoint) (reply : Reply) :
    sequenceResume config job.unrouted card.unrouted point reply =
      (sequenceResume config job card point reply).map (Turn.mapState Card.unrouted) := by
  have hpay (point : PayPoint) :
      (payResume config job.unrouted card.unrouted point reply).map (Turn.within SequencePoint.pay) =
        ((payResume config job card point reply).map (Turn.within SequencePoint.pay)).map
          (Turn.mapState Card.unrouted) := by
    rw [payResume_unrouted, Option.map_map, Option.map_map]
    rfl
  obtain ⟨now, answer⟩ := reply
  obtain ⟨solver, routing, json, zkProofHash⟩ := job
  show sequenceResume config ⟨solver, none, json, zkProofHash⟩ _ _ _ = _
  unfold sequenceResume
  split
  · split_ifs with hgate
    · rfl
    · simp only [Option.map_some, Turn.mapState]
      rw [refuse_unrouted]
  · next hash _ =>
    simp only [Option.map_some, Turn.mapState]
    rw [mirrorDisplay_unrouted, mirrorRouting_unrouted, setArbitrumStage_unrouted _ _
      fun e => { e with
        collateralTxHash := some hash, expiry := some json.expiry, solver := some solver }]
    · rfl
    · cases routing <;> exact fun _ => rfl
    · exact fun _ => rfl
  · simp only [Option.map_some, resumeArbitrumSettlementFromCollateralPosted, Turn.within,
      Turn.mapState]
    rw [mirrorDisplay_unrouted, setArbitrumStage_unrouted_self] <;> exact fun _ => rfl
  · next txHash _ =>
    simp only [Option.map_some, Turn.mapState]
    rw [mirrorDisplay_unrouted, mirrorRouting_unrouted, setArbitrumStage_unrouted _ _
      fun e => { e with collateralTxHash := txHash, expiry := some json.expiry }]
    · rfl
    · cases routing <;> exact fun _ => rfl
    · exact fun _ => rfl
  · next point => exact hpay point
  · rfl
  · rfl
  · rfl

/-! ## Two settlements that come out the same -/

/-- The calls that move money. -/
def Call.movesMoney : Call → Bool
  | .postCollateral _ | .runSolanaPayout _ | .confirmSettlement _ | .slashSolver => true
  | _ => false

/-- The same calls that move money, the same end or exception, and the same records but for what
routing adds to them. -/
structure SameSettlement (t : Turn Card SequencePoint Call Str)
    (d : Turn Dispatched SequencePoint Call Str) : Prop where
  calls : t.calls.filter Call.movesMoney = d.calls.filter Call.movesMoney
  next : t.next = d.next
  records : t.state.unrouted = d.state.card.unrouted

theorem afterSequence_card (d : Dispatched) (intentId : Str)
    (next : Suspension.Next SequencePoint Str) :
    (d.afterSequence intentId next).card = d.card ∧
      (d.afterSequence intentId next).job = d.job := by
  unfold Dispatched.afterSequence Dispatched.releaseReservation
  split
  · exact ⟨rfl, rfl⟩
  all_goals
    split
    · split <;> exact ⟨rfl, rfl⟩
    · exact ⟨rfl, rfl⟩

theorem afterPost_card (d : Dispatched) (intentId : Str) (holdMs : Nat) (point : SequencePoint)
    (reply : Reply) :
    (d.afterPost intentId holdMs point reply).card = d.card ∧
      (d.afterPost intentId holdMs point reply).job = d.job := by
  unfold Dispatched.afterPost Dispatched.holdReservation Dispatched.releaseReservation
  split
  · split <;> exact ⟨rfl, rfl⟩
  · split
    · split <;> exact ⟨rfl, rfl⟩
    · exact ⟨rfl, rfl⟩
  · split
    · split <;> exact ⟨rfl, rfl⟩
    · exact ⟨rfl, rfl⟩
  · exact ⟨rfl, rfl⟩

/-- A solver's settlement and the same under routing, at one reply. -/
theorem sameSettlement_feed {deps : DispatchDeps} {intentId : Str} {job routed : Job}
    (hjob : routed.unrouted = job.unrouted) {t : Turn Card SequencePoint Call Str}
    {d : Turn Dispatched SequencePoint Call Str} (hsame : SameSettlement t d)
    (hrouted : d.state.job = some routed) (reply : Reply) :
    Option.Rel (fun t d => SameSettlement t d ∧ d.state.job = some routed)
      (feed (sequenceResume config job) t reply)
      (feed (dispatchResume config deps intentId) d reply) := by
  unfold feed
  rw [← hsame.next]
  cases hnext : t.next with
  | returned => exact .none
  | threw error => exact .none
  | await point =>
    have hmatch : (sequenceResume config job t.state point reply).map
          (Turn.mapState Card.unrouted) =
        (sequenceResume config routed d.state.card point reply).map
          (Turn.mapState Card.unrouted) := by
      rw [← sequenceResume_unrouted, ← sequenceResume_unrouted, hjob, hsame.records]
    simp only [dispatchResume, hrouted, Option.map_map]
    generalize sequenceResume config job t.state point reply = direct at hmatch ⊢
    generalize sequenceResume config routed d.state.card point reply = wrapped at hmatch ⊢
    cases direct with
    | none =>
      cases wrapped with
      | none => exact .none
      | some w => cases hmatch
    | some t₁ =>
      cases wrapped with
      | none => cases hmatch
      | some w =>
        obtain ⟨hstate, hcalls, hnext'⟩ := Turn.mk.inj (Option.some.inj hmatch)
        refine .some ⟨⟨?_, hnext', ?_⟩, ?_⟩
        · simp [hsame.calls, hcalls]
        · simp [hstate, (afterSequence_card ..).1, (afterPost_card ..).1]
        · simp [(afterSequence_card ..).2, (afterPost_card ..).2]

/-! ## One solver -/

/-- The one solver that is configured could take the intent, as far as all but the gate goes. -/
structure Routable (config : Config) (deps : DispatchDeps) (intentId : Str)
    (json : ProofOutputJson) (book : ReservationBook) (solver : Str) (balance : Nat) : Prop where
  configured : deps.candidates = [solver]
  gate : deps.selection.gate = config.gate
  approved : deps.selection.isApproved solver = .ok true
  pending : ∃ onChain, deps.selection.readIntent intentId = .ok onChain ∧
    onChain.status = INTENT_STATUS_PENDING ∧ toLowerCase onChain.solver = ZERO_ADDRESS
  balance_read : deps.selection.getBalanceWei solver = .ok balance
  recorded : ∃ stats, deps.selection.getSolverRecords = .ok stats
  cap : (json.amount : Int) ≤ capOf deps.selection solver
  unreserved : (book.reservedWei solver (deps.selection.nowMs solver)).1 = 0
  no_flight : inFlight deps.selection.ledger book = []

variable {deps : DispatchDeps} {intentId solver : Str} {json : ProofOutputJson}
  {book : ReservationBook} {balance : Nat} {nowSec : Int}

/-- What is left to decide is the gate, on the balance that routing read. -/
theorem satisfies_iff (h : Routable config deps intentId json book solver balance) :
    Satisfies ⟨intentId, json⟩ nowSec deps.selection book solver ↔
      gateFailures config json balance nowSec = [] := by
  have hcapital : availableOf deps.selection book solver = balance := by
    unfold availableOf inFlightWei
    rw [h.balance_read, ← ReservationBook.reservedWei_fst, h.unreserved, h.no_flight]
    simp [ledgerReservedWei]
  unfold gateFailures
  rw [evaluateArbitrumGate_eq_nil, ← h.gate]
  constructor
  · intro hsat
    have hfits := hsat.capital
    unfold needed at hfits
    rw [floor_three_halves, hcapital] at hfits
    exact ⟨hsat.native, hsat.amount_le, hfits, hsat.in_time⟩
  · rintro ⟨hnative, hamount, hfits, htime⟩
    refine ⟨h.approved, h.pending, h.recorded, hnative, hamount, htime, ⟨balance, h.balance_read⟩,
      ?_, h.cap⟩
    unfold needed
    rw [floor_three_halves, hcapital]
    exact hfits

theorem selected_of_satisfies
    (hsat : Satisfies ⟨intentId, json⟩ nowSec deps.selection book solver) :
    (selectSolver [solver] ⟨intentId, json⟩ nowSec deps.selection book).1.solver = some solver := by
  cases h : (selectSolver [solver] ⟨intentId, json⟩ nowSec deps.selection book).1.solver with
  | none =>
    have hnone := (selectSolver_none (by simp)).mp h
    exact absurd hsat (hnone solver List.mem_cons_self)
  | some winner =>
    have hmem := (selectSolver_first (by simp) h).1
    rw [List.mem_singleton.mp hmem]

theorem rel_imp {α β : Type} {R S : α → β → Prop} (h : ∀ a b, R a b → S a b) {a : Option α}
    {b : Option β} (hrel : Option.Rel R a b) : Option.Rel S a b := by
  cases hrel with
  | some hab => exact .some (h _ _ hab)
  | none => exact .none

/-- The replies that a settlement gets, the first of them only if it asks for it. -/
def repliesTo {σ : Type} (t : Turn σ SequencePoint Call Str) (read : Reply)
    (replies : List Reply) : List Reply :=
  match t.next with
  | .await _ => read :: replies
  | _ => replies

theorem dispatch_selected (zkProofHash : Option Str) {card : Card} (hlive : card.live = false)
    (hconfigured : deps.candidates = [solver])
    (hsat : Satisfies ⟨intentId, json⟩ nowSec deps.selection book solver) :
    ∃ selection book', dispatchArbitrumSettlement deps intentId json zkProofHash nowSec book card =
      ⟨⟨card, book', false, some (selectedJob selection solver json zkProofHash)⟩,
        [.getSolverBalanceWei], .await .balance⟩ := by
  have hsolver := selected_of_satisfies hsat
  refine ⟨(selectSolver [solver] ⟨intentId, json⟩ nowSec deps.selection book).1,
    (selectSolver [solver] ⟨intentId, json⟩ nowSec deps.selection book).2, ?_⟩
  unfold dispatchArbitrumSettlement runArbitrumSettlementSequence
  simp only [hlive, hconfigured, hsolver]
  rfl

theorem dispatch_refused (zkProofHash : Option Str) {card : Card} (hlive : card.live = false)
    (hconfigured : deps.candidates = [solver])
    (hsat : ¬Satisfies ⟨intentId, json⟩ nowSec deps.selection book solver) :
    ∃ routing book', dispatchArbitrumSettlement deps intentId json zkProofHash nowSec book card =
      ⟨⟨refuseArbitrumSettlement card json routing, book', false, none⟩, [], .returned⟩ := by
  have hnone : (selectSolver [solver] ⟨intentId, json⟩ nowSec deps.selection book).1.solver =
      none := by
    refine (selectSolver_none (by simp)).mpr fun s hs => ?_
    rw [List.mem_singleton.mp hs]
    exact hsat
  let selected := selectSolver [solver] ⟨intentId, json⟩ nowSec deps.selection book
  refine ⟨some ⟨⟨none, none, selected.1.reason⟩, none⟩, selected.2, ?_⟩
  unfold dispatchArbitrumSettlement
  simp only [hlive, hconfigured, hnone]
  rfl

/-- A computation that has ended goes on for no reply. -/
theorem drive_ended {σ Point : Type} {resume : Resume σ Point Call Reply Str}
    {t : Turn σ Point Call Str} (hended : ∀ point, t.next ≠ .await point) (replies : List Reply) :
    drive resume t replies = if replies = [] then some t else none := by
  split
  · next hnil => rw [hnil, drive_nil]
  · next hcons =>
    rw [Option.eq_none_iff_forall_ne_some]
    intro t' hdrive
    exact hcons (drive_of_ended hended hdrive).1

/-- With one solver that could take the intent the routed settlement is the direct one, at every
behaviour of the dependencies; except that where the gate refuses on the balance that routing read,
the direct settlement's own read has to come back, with one that the gate refuses too. -/
theorem routing_one_solver (config : Config) (deps : DispatchDeps) (intentId solver : Str)
    (json : ProofOutputJson) (zkProofHash : Option Str) (nowSec : Int) (book : ReservationBook)
    (card : Card) (balance : Nat) (hlive : card.live = false)
    (hroutable : Routable config deps intentId json book solver balance) (read : Reply)
    (hclock : read.nowSec = nowSec)
    (hread : gateFailures config json balance nowSec ≠ [] →
      ∃ wei, read.answer = .balance wei ∧ gateFailures config json wei nowSec ≠ [])
    (replies : List Reply) :
    let direct := runArbitrumSettlementSequence card
    let routed := dispatchArbitrumSettlement deps intentId json zkProofHash nowSec book card
    Option.Rel SameSettlement
      (drive (sequenceResume config ⟨solver, none, json, zkProofHash⟩) direct
        (repliesTo direct read replies))
      (drive (dispatchResume config deps intentId) routed (repliesTo routed read replies)) := by
  intro direct routed
  have hdirect : direct = ⟨card, [.getSolverBalanceWei], .await .balance⟩ := by
    simp only [direct, runArbitrumSettlementSequence, hlive]
    rfl
  by_cases hsat : Satisfies ⟨intentId, json⟩ nowSec deps.selection book solver
  · obtain ⟨selection, book', hrouted⟩ := dispatch_selected zkProofHash hlive
      hroutable.configured hsat
    have hstart : SameSettlement direct routed ∧
        routed.state.job = some (selectedJob selection solver json zkProofHash) := by
      rw [hdirect, show routed = _ from hrouted]
      exact ⟨⟨rfl, rfl, rfl⟩, rfl⟩
    have hreplies : repliesTo direct read replies = repliesTo routed read replies := by
      rw [repliesTo, repliesTo, hstart.1.next]
    rw [hreplies]
    have hjob : (selectedJob selection solver json zkProofHash).unrouted =
        Job.unrouted ⟨solver, none, json, zkProofHash⟩ := rfl
    have hrel := drive_rel (sequenceResume config ⟨solver, none, json, zkProofHash⟩)
      (dispatchResume config deps intentId)
      (R := fun t d => SameSettlement t d ∧
        d.state.job = some (selectedJob selection solver json zkProofHash))
      (fun t d reply h => sameSettlement_feed hjob h.1 h.2 reply) hstart
      (repliesTo routed read replies)
    exact rel_imp (fun _ _ h => h.1) hrel
  · obtain ⟨routing, book', hrouted⟩ := dispatch_refused zkProofHash hlive
      hroutable.configured hsat
    rw [satisfies_iff hroutable] at hsat
    obtain ⟨wei, hanswer, hgate⟩ := hread hsat
    obtain ⟨now, answer⟩ := read
    cases hanswer
    rw [← hclock] at hgate
    have hfeed : feed (sequenceResume config ⟨solver, none, json, zkProofHash⟩) direct
        ⟨now, .balance wei⟩ =
        some ⟨refuseArbitrumSettlement card json none, [.getSolverBalanceWei], .returned⟩ := by
      rw [hdirect]
      simp only [feed, sequenceResume, if_neg hgate]
      rfl
    have hasked : repliesTo direct ⟨now, .balance wei⟩ replies = ⟨now, .balance wei⟩ :: replies := by
      rw [hdirect]
      rfl
    have hsilent : repliesTo routed ⟨now, .balance wei⟩ replies = replies := by
      rw [show routed = _ from hrouted]
      rfl
    rw [hasked, hsilent, drive, hfeed, Option.bind_some, drive_ended (by simp),
      show routed = _ from hrouted, drive_ended (by simp)]
    split
    · exact .some ⟨rfl, rfl, (refuse_unrouted ..).trans (refuse_unrouted ..).symm⟩
    · exact .none

/-! ## A refusal that asks for nothing -/

/-- One solver with a balance, nothing reserved and nothing in flight. -/
def oneSolver (balance : Nat) : DispatchDeps where
  candidates := [sampleSolver]
  selection := { sampleDeps with getBalanceWei := fun _ => .ok balance, ledger := ∅ }
  reservationHoldMs := 30000

def sampleGate : Config :=
  ⟨sampleDeps.gate, .ofInt 3, .ofInt 2000, .ofInt 30000, [], .ofInt 72000⟩

theorem oneSolver_routable (balance : Nat) :
    Routable sampleGate (oneSolver balance) sampleIntent.id sampleIntent.json ∅ sampleSolver
      balance where
  configured := rfl
  gate := rfl
  approved := rfl
  pending := ⟨_, rfl, rfl, by decide⟩
  balance_read := rfl
  recorded := ⟨_, rfl⟩
  cap := by
    unfold capOf recordOf
    exact (by decide +kernel : (100 : Int) ≤ tierCapWei
      (computeTier .T1 emptyRecordAccumulator.toRecord sampleConfig true) 1000
      sampleDeps.tierCapPct)
  unreserved := rfl
  no_flight := rfl

/-- Routing refuses a solver without a balance and returns; the direct settlement throws what its
own read of the balance throws. -/
theorem refusal_asks_nothing :
    Routable sampleGate (oneSolver 0) sampleIntent.id sampleIntent.json ∅ sampleSolver 0 ∧
    ¬Option.Rel SameSettlement
      (drive (sequenceResume sampleGate ⟨sampleSolver, none, sampleIntent.json, none⟩)
        (runArbitrumSettlementSequence ⟨none, none, {}⟩) [⟨1000000, .threw ['x']⟩])
      (drive (dispatchResume sampleGate (oneSolver 0) sampleIntent.id)
        (dispatchArbitrumSettlement (oneSolver 0) sampleIntent.id sampleIntent.json none 1000 ∅
          ⟨none, none, {}⟩) []) := by
  refine ⟨oneSolver_routable 0, fun h => ?_⟩
  have hsat : ¬Satisfies ⟨sampleIntent.id, sampleIntent.json⟩ 1000 (oneSolver 0).selection ∅
      sampleSolver := by
    rw [satisfies_iff (oneSolver_routable 0)]
    decide
  have hlive : Card.live ⟨none, none, {}⟩ = false := rfl
  have hconfigured : (oneSolver 0).candidates = [sampleSolver] := rfl
  obtain ⟨routing, book', hrouted⟩ := dispatch_refused none hlive hconfigured hsat
  rw [hrouted, drive_nil] at h
  obtain ⟨t, hthrew⟩ : ∃ t, drive
      (sequenceResume sampleGate ⟨sampleSolver, none, sampleIntent.json, none⟩)
      (runArbitrumSettlementSequence ⟨none, none, {}⟩) [⟨1000000, .threw ['x']⟩] = some t ∧
      t.next = .threw ['x'] := ⟨_, rfl, rfl⟩
  rw [hthrew.1] at h
  cases h with
  | some hsame => exact absurd (hthrew.2.symm.trans hsame.next) (by simp)

theorem routing_one_solver_sample :
    let direct := runArbitrumSettlementSequence ⟨none, none, {}⟩
    let routed := dispatchArbitrumSettlement (oneSolver 200) sampleIntent.id sampleIntent.json none
      1000 ∅ ⟨none, none, {}⟩
    let read : Reply := ⟨1000000, .balance 170⟩
    let replies : List Reply := [⟨1000500, .signed ['h']⟩, ⟨1001000, .outcome false (some ['h'])⟩]
    Option.Rel SameSettlement
      (drive (sequenceResume sampleGate ⟨sampleSolver, none, sampleIntent.json, none⟩) direct
        (repliesTo direct read replies))
      (drive (dispatchResume sampleGate (oneSolver 200) sampleIntent.id) routed
        (repliesTo routed read replies)) := by
  refine routing_one_solver sampleGate (oneSolver 200) sampleIntent.id sampleSolver
    sampleIntent.json none 1000 ∅ ⟨none, none, {}⟩ 200 rfl (oneSolver_routable 200)
    ⟨1000000, .balance 170⟩ (by decide) (fun hgate => ?_) _
  exact absurd (by decide) hgate

end Maat.Orchestrator.Settlement
