import Maat.Laws.Orchestrator.Isolation
import Maat.Laws.Orchestrator.Payout
import Maat.Laws.Orchestrator.Routed

/-!
# The display mirrors the ledger

Each turn that writes a stage writes it to the ledger and to the display (`stageShown_write`), and
with routing it writes that to both. Two turns write to the display alone: `confirmSettlement` that
failed and is not tried again, and `slashSolver` that failed. They assume that the transaction was
signed, which put its stage into the ledger; where it was not, the display says what the ledger does
not.
-/

namespace Maat.Orchestrator.Settlement

open Js Suspension Sweep

variable {config : Config}

/-! ## Cards -/

namespace Card

/-- The stage on display is the ledger's. -/
def StageShown (card : Card) : Prop :=
  card.display.stage = card.arb.map fun entry => entry.stage

/-- The solver and the tier on display are those of the ledger's routing decision, if it has one. -/
def RoutingShown (card : Card) : Prop :=
  ∀ entry decision, card.arb = some entry → entry.routing = some decision →
    ∃ shown, card.display.solverRouting = some shown ∧
      shown.selectedSolver = decision.selectedSolver ∧
      shown.tierAtSelection = decision.tierAtSelection

structure Mirrored (card : Card) : Prop where
  stage : card.StageShown
  routing : card.RoutingShown

/-- Both were written. -/
theorem stageShown_write (card : Card) (stage : ArbitrumStage) (patch : RoutedEntry → RoutedEntry)
    (patch' : Display → Display) :
    ((card.setArbitrumStage stage patch).mirrorDisplay stage patch').StageShown := rfl

theorem stageShown_write_routed (card : Card) (stage : ArbitrumStage)
    (patch : RoutedEntry → RoutedEntry) (routing : Option Routing) (patch' : Display → Display) :
    (((card.setArbitrumStage stage patch).mirrorRouting routing).mirrorDisplay stage
      patch').StageShown := by
  cases routing <;> rfl

/-- Only the display was written. -/
theorem stageShown_mirrorDisplay (card : Card) (stage : ArbitrumStage) (patch : Display → Display) :
    (card.mirrorDisplay stage patch).StageShown ↔
      card.arb.map (fun entry => entry.stage) = some stage := eq_comm

theorem routingShown_congr {card card' : Card}
    (harb : card'.arb.bind (fun entry => entry.routing) = card.arb.bind fun entry => entry.routing)
    (hdisplay : card'.display.solverRouting = card.display.solverRouting) :
    card'.RoutingShown ↔ card.RoutingShown := by
  have hiff (card : Card) : card.RoutingShown ↔ ∀ decision,
      card.arb.bind (fun entry => entry.routing) = some decision →
        ∃ shown, card.display.solverRouting = some shown ∧
          shown.selectedSolver = decision.selectedSolver ∧
          shown.tierAtSelection = decision.tierAtSelection := by
    simp only [RoutingShown, Option.bind_eq_some_iff]
    exact ⟨fun h decision ⟨entry, harb, hrouting⟩ => h entry decision harb hrouting,
      fun h entry decision harb hrouting => h decision ⟨entry, harb, hrouting⟩⟩
  rw [hiff, hiff, harb, hdisplay]

theorem routingShown_setArbitrumStage (card : Card) (stage : ArbitrumStage)
    {patch : RoutedEntry → RoutedEntry} (hpatch : ∀ entry, (patch entry).routing = entry.routing) :
    (card.setArbitrumStage stage patch).RoutingShown ↔ card.RoutingShown := by
  refine routingShown_congr ?_ rfl
  cases harb : card.arb with
  | none => simp [harb, hpatch]
  | some entry => simp [harb, hpatch]

theorem routingShown_mirrorDisplay (card : Card) (stage : ArbitrumStage)
    {patch : Display → Display}
    (hpatch : ∀ display, (patch display).solverRouting = display.solverRouting) :
    (card.mirrorDisplay stage patch).RoutingShown ↔ card.RoutingShown :=
  routingShown_congr rfl (hpatch _)

/-- A write that leaves routing alone. -/
theorem routingShown_write (card : Card) (stage : ArbitrumStage)
    {patch : RoutedEntry → RoutedEntry} {patch' : Display → Display}
    (hpatch : ∀ entry, (patch entry).routing = entry.routing)
    (hpatch' : ∀ display, (patch' display).solverRouting = display.solverRouting) :
    ((card.setArbitrumStage stage patch).mirrorDisplay stage patch').RoutingShown ↔
      card.RoutingShown :=
  (routingShown_mirrorDisplay _ _ hpatch').trans (routingShown_setArbitrumStage _ _ hpatch)

/-- A write with routing, if there is any. -/
theorem routingShown_write_routed (card : Card) (stage : ArbitrumStage) (routing : Option Routing)
    {patch : RoutedEntry → RoutedEntry} {patch' : Display → Display}
    (hpatch : ∀ entry, (patch entry).routing = (entry.patch routing).routing)
    (hpatch' : ∀ display, (patch' display).solverRouting = display.solverRouting) :
    (((card.setArbitrumStage stage patch).mirrorRouting routing).mirrorDisplay stage
      patch').RoutingShown ↔ card.RoutingShown ∨ routing.isSome := by
  rw [routingShown_mirrorDisplay _ _ hpatch']
  cases routing with
  | none =>
    refine (routingShown_setArbitrumStage card stage hpatch).trans ?_
    simp
  | some r =>
    refine iff_of_true ?_ (.inr rfl)
    intro entry decision hentry hdecision
    refine ⟨r.decision, rfl, ?_⟩
    rw [mirrorRouting_arb, setArbitrumStage_arb, Option.some.injEq] at hentry
    subst hentry
    rw [hpatch] at hdecision
    cases hdecision
    exact ⟨rfl, rfl⟩

end Card

/-! ## One turn -/

variable {Point Point' : Type}

/-- A turn keeps the stage on display unless it `skews`, and then it is the last; routing is shown
after it where it was before, or where the turn `routes`. -/
structure TurnMirrors (card : Card) (t : Turn Card Point Call Str) (skews routes : Prop) :
    Prop where
  stage : card.StageShown → (t.state.StageShown ↔ ¬skews)
  ends : skews → ∀ point, t.next ≠ .await point
  routing : t.state.RoutingShown ↔ card.RoutingShown ∨ routes

namespace TurnMirrors

variable {card : Card} {calls : List Call} {next : Suspension.Next Point Str} {skews routes : Prop}
  {stage : ArbitrumStage}

/-- The ledger's stage, its routing and the display are as they were. -/
theorem same {t : Turn Card Point Call Str} (harb : t.state.arb = card.arb)
    (hdisplay : t.state.display = card.display) (hskews : ¬skews) (hroutes : ¬routes) :
    TurnMirrors card t skews routes := by
  refine ⟨fun h => iff_of_true ?_ hskews, fun h => absurd h hskews, ?_⟩
  · unfold Card.StageShown at h ⊢
    rw [harb, hdisplay, h]
  · refine (Card.routingShown_congr ?_ ?_).trans (or_iff_left hroutes).symm
    · rw [harb]
    · rw [hdisplay]

theorem kept (hskews : ¬skews) (hroutes : ¬routes) :
    TurnMirrors card ⟨card, calls, next⟩ skews routes := same rfl rfl hskews hroutes

theorem written {patch : RoutedEntry → RoutedEntry} {patch' : Display → Display}
    (hskews : ¬skews) (hroutes : ¬routes)
    (hpatch : ∀ entry, (patch entry).routing = entry.routing)
    (hpatch' : ∀ display, (patch' display).solverRouting = display.solverRouting) :
    TurnMirrors card ⟨(card.setArbitrumStage stage patch).mirrorDisplay stage patch', calls, next⟩
      skews routes :=
  ⟨fun _ => iff_of_true (Card.stageShown_write ..) hskews, fun h => absurd h hskews,
    (Card.routingShown_write _ _ hpatch hpatch').trans (or_iff_left hroutes).symm⟩

theorem routed {routing : Option Routing} {patch : RoutedEntry → RoutedEntry}
    {patch' : Display → Display} (hskews : ¬skews) (hroutes : routes ↔ routing.isSome)
    (hpatch : ∀ entry, (patch entry).routing = (entry.patch routing).routing)
    (hpatch' : ∀ display, (patch' display).solverRouting = display.solverRouting) :
    TurnMirrors card ⟨((card.setArbitrumStage stage patch).mirrorRouting routing).mirrorDisplay
      stage patch', calls, next⟩ skews routes :=
  ⟨fun _ => iff_of_true (Card.stageShown_write_routed ..) hskews, fun h => absurd h hskews,
    (Card.routingShown_write_routed _ _ _ hpatch hpatch').trans (or_congr_right hroutes.symm)⟩

theorem displayed {patch : Display → Display}
    (hskews : skews ↔ card.arb.map (fun entry => entry.stage) ≠ some stage) (hroutes : ¬routes)
    (hpatch : ∀ display, (patch display).solverRouting = display.solverRouting) :
    TurnMirrors card (⟨card.mirrorDisplay stage patch, calls, .returned⟩ : Turn Card Point Call Str)
      skews routes :=
  ⟨fun _ => (Card.stageShown_mirrorDisplay ..).trans (by rw [hskews, not_not]),
    fun _ _ => nofun,
    (Card.routingShown_mirrorDisplay _ _ hpatch).trans (or_iff_left hroutes).symm⟩

theorem within {t : Turn Card Point Call Str} (f : Point → Point')
    (h : TurnMirrors card t skews routes) : TurnMirrors card (t.within f) skews routes := by
  refine ⟨h.stage, fun hskews point' hpoint' => ?_, h.routing⟩
  obtain ⟨point, hpoint, -⟩ := within_awaits.mp hpoint'
  exact h.ends hskews point hpoint

theorem caught {t : Turn Card Point Call Str} (h : TurnMirrors card t skews routes) :
    TurnMirrors card t.caught skews routes := by
  refine ⟨?_, fun hskews point hpoint => h.ends hskews point (caught_awaits.mp hpoint), ?_⟩
  · rw [caught_state]
    exact h.stage
  · rw [caught_state]
    exact h.routing

end TurnMirrors

/-! ## The flows -/

/-- `confirmSettlement` failed past the deadline, and the ledger does not say that it was signed. -/
def ConfirmSkews (config : Config) (expiry : Int) (card : Card) (point : ConfirmPoint)
    (reply : Reply) : Prop :=
  (∃ attempt, point = .confirming attempt) ∧ (∃ txHash, reply.answer = .outcome false txHash) ∧
    Number.ge (.ofInt reply.nowSec) (config.deadline expiry) = true ∧
    card.arb.map (fun entry => entry.stage) ≠ some .confirming

theorem confirm_mirrors {expiry : Int} {zkProofHash : Str} {card : Card} {point : ConfirmPoint}
    {reply : Reply} {t : Turn Card ConfirmPoint Call Str}
    (h : confirmResume config expiry zkProofHash card point reply = some t) :
    TurnMirrors card t (ConfirmSkews config expiry card point reply) False := by
  obtain ⟨now, answer⟩ := reply
  unfold confirmResume at h
  split at h
  · split at h
    · cases h
      exact .written (by simp [ConfirmSkews]) id (fun _ => rfl) fun _ => rfl
    · split at h
      · cases h
        exact .kept (by simp [ConfirmSkews]) id
      · cases h
        exact .kept (by simp [ConfirmSkews]) id
  · next hanswer =>
    cases hanswer
    cases h
    exact .written (by simp [ConfirmSkews]) id (fun _ => rfl) fun _ => rfl
  · next hanswer =>
    cases hanswer
    cases h
    exact .written (by simp [ConfirmSkews]) id (fun _ => rfl) fun _ => rfl
  · next hanswer =>
    cases hanswer
    split at h
    · next hlate =>
      cases h
      exact .displayed (by simp [ConfirmSkews, hlate]) id fun _ => rfl
    · next hearly =>
      cases h
      exact .kept (by simp [ConfirmSkews, hearly]) id
  · cases h
    exact .kept (by simp [ConfirmSkews]) id
  · cases h
    exact .kept (by simp [ConfirmSkews]) id
  · next hanswer =>
    cases hanswer
    cases h
    exact .kept (by simp [ConfirmSkews]) id
  · cases h

/-- So it does in a flow of which the confirmation is a part. -/
def Skews (config : Config) (expiry : Int) (confirming : Point → Option ConfirmPoint) (card : Card)
    (point : Point) (reply : Reply) : Prop :=
  ∃ at_, confirming point = some at_ ∧ ConfirmSkews config expiry card at_ reply

def PayPoint.confirming : PayPoint → Option ConfirmPoint
  | .confirm _ point => some point
  | _ => none

theorem pay_mirrors {job : Job} {card : Card} {point : PayPoint} {reply : Reply}
    {t : Turn Card PayPoint Call Str} (h : payResume config job card point reply = some t) :
    TurnMirrors card t (Skews config job.json.expiry PayPoint.confirming card point reply)
      False := by
  obtain ⟨now, answer⟩ := reply
  unfold payResume at h
  split at h
  · split at h
    · cases h
      exact .kept (by simp [Skews, PayPoint.confirming]) id
    · split at h
      · cases h
        exact .kept (by simp [Skews, PayPoint.confirming]) id
      · split at h
        · cases h
          exact .kept (by simp [Skews, PayPoint.confirming]) id
        · cases h
          exact .kept (by simp [Skews, PayPoint.confirming]) id
  · cases h
    exact .kept (by simp [Skews, PayPoint.confirming]) id
  · cases h
    exact .within _ (.kept (by simp [Skews, PayPoint.confirming]) id)
  · split at h
    · cases h
      exact .kept (by simp [Skews, PayPoint.confirming]) id
    · cases h
      exact .written (by simp [Skews, PayPoint.confirming]) id (fun _ => rfl) fun _ => rfl
  · cases h
    exact .kept (by simp [Skews, PayPoint.confirming]) id
  · next zkProofHash point =>
    obtain ⟨t₁, hconfirm, rfl⟩ := Option.map_eq_some_iff.mp h
    have hmirrors := confirm_mirrors hconfirm
    have hskews : Skews config job.json.expiry PayPoint.confirming card (.confirm zkProofHash point)
        ⟨now, answer⟩ ↔ ConfirmSkews config job.json.expiry card point ⟨now, answer⟩ := by
      simp [Skews, PayPoint.confirming]
    rw [hskews]
    exact hmirrors.within _
  · cases h
    exact .kept (by simp [Skews, PayPoint.confirming]) id
  · cases h
    exact .kept (by simp [Skews, PayPoint.confirming]) id
  · cases h

def SequencePoint.confirmPoint : SequencePoint → Option ConfirmPoint
  | .pay point => point.confirming
  | _ => none

/-- Where a settlement that is routed writes what it was routed with: when its last gate refuses it,
and when its collateral is signed, or fails. -/
def Routes (config : Config) (job : Job) (point : SequencePoint) (reply : Reply) : Prop :=
  job.routing.isSome ∧
    ((point = .balance ∧ ∃ wei : Nat, reply.answer = .balance wei ∧
        gateFailures config job.json wei reply.nowSec ≠ []) ∨
      (point = .posting ∧
        ((∃ hash, reply.answer = .signed hash) ∨ ∃ txHash, reply.answer = .outcome false txHash)))

theorem sequence_mirrors {job : Job} {card : Card} {point : SequencePoint} {reply : Reply}
    {t : Turn Card SequencePoint Call Str}
    (h : sequenceResume config job card point reply = some t) :
    TurnMirrors card t (Skews config job.json.expiry SequencePoint.confirmPoint card point reply)
      (Routes config job point reply) := by
  obtain ⟨now, answer⟩ := reply
  unfold sequenceResume at h
  split at h
  · next wei hanswer =>
    cases hanswer
    split at h
    · next hpasses =>
      cases h
      exact .kept (by simp [Skews, SequencePoint.confirmPoint]) (by simp [Routes, hpasses])
    · next hrefused =>
      cases h
      exact .routed (by simp [Skews, SequencePoint.confirmPoint]) (by simp [Routes, hrefused])
        (fun _ => by cases job.routing <;> rfl) fun _ => rfl
  · next hanswer =>
    cases hanswer
    cases h
    exact .routed (by simp [Skews, SequencePoint.confirmPoint]) (by simp [Routes])
      (fun _ => by cases job.routing <;> rfl) fun _ => rfl
  · next hanswer =>
    cases hanswer
    cases h
    exact .within _ (.written (by simp [Skews, SequencePoint.confirmPoint]) (by simp [Routes])
      (fun _ => rfl) fun _ => rfl)
  · next hanswer =>
    cases hanswer
    cases h
    exact .routed (by simp [Skews, SequencePoint.confirmPoint]) (by simp [Routes])
      (fun _ => by cases job.routing <;> rfl) fun _ => rfl
  · next point =>
    obtain ⟨t₁, hpay, rfl⟩ := Option.map_eq_some_iff.mp h
    have hroutes : Routes config job (.pay point) ⟨now, answer⟩ ↔ False := by simp [Routes]
    rw [hroutes]
    exact (pay_mirrors hpay).within _
  · next hanswer =>
    cases hanswer
    cases h
    exact .kept (by simp [Skews, SequencePoint.confirmPoint]) (by simp [Routes])
  · next hanswer =>
    cases hanswer
    cases h
    exact .kept (by simp [Skews, SequencePoint.confirmPoint]) (by simp [Routes])
  · cases h

def PostedPoint.confirming : PostedPoint → Option ConfirmPoint
  | .confirm _ point => some point
  | .pay _ point => point.confirming

def PostedSkews (config : Config) (deps : ResumeDeps) (card : Card) (point : PostedPoint)
    (reply : Reply) : Prop :=
  ∃ json files, deps.proof = .present json files ∧
    Skews config json.expiry PostedPoint.confirming card point reply

theorem posted_mirrors {deps : ResumeDeps} {card : Card} {point : PostedPoint} {reply : Reply}
    {t : Turn Card PostedPoint Call Str} (h : postedResume config deps card point reply = some t) :
    TurnMirrors card t (PostedSkews config deps card point reply) False := by
  unfold postedResume at h
  split at h
  · next json files zkProofHash point hproof =>
    obtain ⟨t₁, hconfirm, rfl⟩ := Option.map_eq_some_iff.mp h
    have hskews : PostedSkews config deps card (.confirm zkProofHash point) reply ↔
        ConfirmSkews config json.expiry card point reply := by
      simp [PostedSkews, hproof, Skews, PostedPoint.confirming]
    rw [hskews]
    exact ((confirm_mirrors hconfirm).within _).caught
  · next json files solver point hproof =>
    obtain ⟨t₁, hpay, rfl⟩ := Option.map_eq_some_iff.mp h
    have hskews : PostedSkews config deps card (.pay solver point) reply ↔
        Skews config json.expiry PayPoint.confirming card point reply := by
      simp [PostedSkews, hproof, Skews, PostedPoint.confirming]
    rw [hskews]
    exact ((pay_mirrors hpay).within _).caught
  · cases h

def SlashPoint.confirmPoint : SlashPoint → Option ConfirmPoint
  | .confirm _ point => some point
  | _ => none

/-- `confirmSettlement` or `slashSolver` failed for good, and the ledger does not say that it was
signed. -/
def SlashSkews (config : Config) (deps : ResumeDeps) (card : Card) (point : SlashPoint)
    (reply : Reply) : Prop :=
  (∃ json files, deps.proof = .present json files ∧
      Skews config json.expiry SlashPoint.confirmPoint card point reply) ∨
    (point = .slashing ∧ (∃ txHash, reply.answer = .outcome false txHash) ∧
      card.arb.map (fun entry => entry.stage) ≠ some .slashing)

theorem resumeLanded_state (deps : ResumeDeps) (card : Card) :
    (resumeLanded deps card).state = card := by
  unfold resumeLanded
  split <;> rfl

theorem slash_mirrors {deps : ResumeDeps} {card : Card} {point : SlashPoint} {reply : Reply}
    {t : Turn Card SlashPoint Call Str} (h : slashResume config deps card point reply = some t) :
    TurnMirrors card t (SlashSkews config deps card point reply) False := by
  obtain ⟨now, answer⟩ := reply
  unfold slashResume at h
  split at h
  · cases h
    refine .same ?_ ?_ (by simp [SlashSkews, Skews, SlashPoint.confirmPoint]) id
    · rw [resumeLanded_state]
      rfl
    · rw [resumeLanded_state]
      rfl
  · cases h
    exact .same rfl rfl (by simp [SlashSkews, Skews, SlashPoint.confirmPoint]) id
  · next hanswer =>
    cases hanswer
    cases h
    exact .written (by simp [SlashSkews, Skews, SlashPoint.confirmPoint]) id (fun _ => rfl)
      fun _ => rfl
  · next hanswer =>
    cases hanswer
    cases h
    exact .written (by simp [SlashSkews, Skews, SlashPoint.confirmPoint]) id (fun _ => rfl)
      fun _ => rfl
  · next hanswer =>
    cases hanswer
    cases h
    exact .displayed (by simp [SlashSkews, Skews, SlashPoint.confirmPoint]) id fun _ => rfl
  · next zkProofHash point =>
    split at h
    · next json files hproof =>
      obtain ⟨t₁, hconfirm, rfl⟩ := Option.map_eq_some_iff.mp h
      have hskews : SlashSkews config deps card (.confirm zkProofHash point) ⟨now, answer⟩ ↔
          ConfirmSkews config json.expiry card point ⟨now, answer⟩ := by
        simp [SlashSkews, hproof, Skews, SlashPoint.confirmPoint]
      rw [hskews]
      exact (confirm_mirrors hconfirm).within _
    · cases h
  · cases h
    exact .kept (by simp [SlashSkews, Skews, SlashPoint.confirmPoint]) id
  · next hanswer =>
    cases hanswer
    cases h
    exact .kept (by simp [SlashSkews, Skews, SlashPoint.confirmPoint]) id
  · cases h

theorem midResolve_mirrors (entry : RoutedEntry) (receipt : Option Bool) (onChain : OnChainIntent)
    (card : Card) : TurnMirrors card
      (⟨midResolve entry receipt onChain card, [], .returned⟩ : Turn Card MidPoint Call Str) False
      False := by
  unfold midResolve
  dsimp only
  split
  · exact .written id id (fun _ => rfl) fun _ => rfl
  · split
    · exact .written id id (fun _ => rfl) fun _ => rfl
    · split
      · exact .kept id id
      · split
        · split
          · exact .written id id (fun _ => rfl) fun _ => rfl
          · exact .written id id (fun _ => rfl) fun _ => rfl
          · exact .kept id id
        · exact .kept id id

theorem mid_mirrors {entry : RoutedEntry} {card : Card} {point : MidPoint} {reply : Reply}
    {t : Turn Card MidPoint Call Str} (h : midResume entry card point reply = some t) :
    TurnMirrors card t False False := by
  unfold midResume at h
  split at h
  · cases h
    exact .kept id id
  · cases h
    exact .kept id id
  · cases h
    exact midResolve_mirrors ..
  · cases h
    exact .kept id id
  · cases h

/-! ## Runs -/

theorem Card.mirrored_iff {card : Card} : card.Mirrored ↔ card.StageShown ∧ card.RoutingShown :=
  ⟨fun h => ⟨h.stage, h.routing⟩, fun h => ⟨h.1, h.2⟩⟩

section run

variable {resume : Resume Card Point Call Reply Str} {skews routes : Card → Point → Reply → Prop}
  {start t : Turn Card Point Call Str} {replies : List Reply} {card : Card}

/-- A run from a card that shows its stage shows it at the end if and only if no reply skewed the
display, and the routing if and only if it was shown at first or was written on the way. -/
theorem run_mirrors
    (hmirrors : ∀ card point reply t, resume card point reply = some t →
      TurnMirrors card t (skews card point reply) (routes card point reply))
    (hdrive : drive resume start replies = some t) (hstart : start.state.StageShown) :
    (t.state.StageShown ↔ ¬Came resume start replies skews) ∧
      (t.state.RoutingShown ↔ start.state.RoutingShown ∨ Came resume start replies routes) :=
  ⟨drive_holds_iff (fun _ _ _ _ hresume => (hmirrors _ _ _ _ hresume).stage)
    (fun _ _ _ _ hresume => (hmirrors _ _ _ _ hresume).ends) hdrive hstart,
    drive_gains_iff (fun _ _ _ _ hresume => (hmirrors _ _ _ _ hresume).routing) hdrive⟩

theorem not_came_false : ¬Came resume start replies fun _ _ _ => False := by
  rintro ⟨_, _, _, _, -, -, _, -, h⟩
  exact h

/-- Where nothing is routed. -/
theorem unrouted_run_mirrors
    (hmirrors : ∀ card point reply t, resume card point reply = some t →
      TurnMirrors card t (skews card point reply) False)
    (hdrive : drive resume start replies = some t) (hcard : start.state = card)
    (hstart : card.StageShown) :
    (t.state.StageShown ↔ ¬Came resume start replies skews) ∧
      (t.state.RoutingShown ↔ card.RoutingShown) := by
  subst hcard
  obtain ⟨hstage, hrouting⟩ := run_mirrors hmirrors hdrive hstart
  exact ⟨hstage, hrouting.trans (or_iff_left not_came_false)⟩

/-- What a pass does for an entry. -/
theorem onReplies_mirrors
    (hmirrors : ∀ card point reply t, resume card point reply = some t →
      TurnMirrors card t (skews card point reply) False) (hcard : start.state = card)
    (hreturned : (onReplies resume start replies).next = .returned) (hstart : card.StageShown) :
    ((onReplies resume start replies).state.StageShown ↔ ¬Came resume start replies skews) ∧
      ((onReplies resume start replies).state.RoutingShown ↔ card.RoutingShown) := by
  cases hdrive : drive resume start replies with
  | some t =>
    rw [onReplies_eq hdrive]
    exact unrouted_run_mirrors hmirrors hdrive hcard hstart
  | none =>
    rw [onReplies, hdrive, Option.getD_none] at hreturned ⊢
    rw [hcard]
    have hnever : ¬Came resume start replies skews :=
      not_came_of_ended fun point hpoint => by rw [hreturned] at hpoint; cases hpoint
    exact ⟨iff_of_true hstart hnever, Iff.rfl⟩

end run

/-! ## The passes -/

section passes

variable {ι : Type} [DecidableEq ι] {s : Surroundings ι} {desk : Desk ι} {i : ι}

/-- The slash poller skews the display of an intent. -/
def PollSkews (config : Config) (s : Surroundings ι) (desk : Desk ι) (i : ι) : Prop :=
  ∃ entry, getAwaitingExpirySlashEntries (desk.card i) = some entry ∧
    Came (slashResume config (s.deps i))
      (pollEntry (s.deps i) (s.arrival i) entry (desk.card i)) (s.slash i)
      (SlashSkews config (s.deps i))

/-- The boot pass skews the display of an intent, in its second loop. -/
def ReconcileSkews (config : Config) (s : Surroundings ι) (desk : Desk ι) (i : ι) : Prop :=
  ∃ entry, getCollateralPostedEntries (afterMid s desk i) = some entry ∧
    Came (postedResume config (s.deps i))
      (resumeCollateralPostedIntent (s.deps i) (afterMid s desk i)) (s.posted i)
      (PostedSkews config (s.deps i))

theorem resumeCollateralPostedIntent_state (deps : ResumeDeps) (card : Card) :
    (resumeCollateralPostedIntent deps card).state = card := by
  rcases resumeCollateralPosted_cases deps card with h | ⟨_, -, h⟩ | ⟨_, -, h⟩
  · rw [h]
  · rw [h]
    rfl
  · rw [h]
    rfl

theorem pollEntry_state (deps : ResumeDeps) (nowSec : Int) (entry : RoutedEntry) (card : Card) :
    (pollEntry deps nowSec entry card).state = card := by
  unfold pollEntry resumeConfirmIfSolanaLanded
  split
  · split
    · rfl
    · split
      · exact resumeLanded_state deps card
      · split <;> rfl
  · rfl

theorem reconcileMidSequence_state (entry : RoutedEntry) (card : Card) :
    (reconcileMidSequence entry card).state = card := by
  unfold reconcileMidSequence
  split <;> rfl

omit [DecidableEq ι] in
/-- The visit of an intent, from the run of what the pass does for its entry. -/
theorem visit_mirrors {select : Card → Option RoutedEntry} {Point : Type}
    {resume : RoutedEntry → Resume Card Point Call Reply Str}
    {start : RoutedEntry → Turn Card Point Call Str} {replies : List Reply} {card : Card}
    {skews : Card → Point → Reply → Prop} {body : Body ι RoutedEntry Card Point Call Str}
    (hbody : ∀ entry, body i entry card = onReplies (resume entry) (start entry) replies)
    (hmirrors : ∀ entry card point reply t, resume entry card point reply = some t →
      TurnMirrors card t (skews card point reply) False)
    (hstart : ∀ entry, (start entry).state = card)
    (hreturned : (visit select body i card).next = .returned) (hcard : card.StageShown) :
    ((visit select body i card).state.StageShown ↔
      ¬∃ entry, select card = some entry ∧ Came (resume entry) (start entry) replies skews) ∧
    ((visit select body i card).state.RoutingShown ↔ card.RoutingShown) := by
  cases hselect : select card with
  | none =>
    rw [visit_of_not_selected hselect]
    exact ⟨iff_of_true hcard (by simp), Iff.rfl⟩
  | some entry =>
    rw [visit_of_selected hselect, hbody] at hreturned ⊢
    have hrun := onReplies_mirrors (hmirrors entry) (hstart entry) hreturned hcard
    simpa using hrun

/-- A pass that returns leaves each intent as its visit does; one without an entry has none. -/
theorem keyWise_state {pass : List ι → (ι → Card) → Turn (ι → Card) ι (ι × Call) Str}
    {returns : ι → Card → Prop} {leaves : ι → Card → Card × List Call}
    (hpass : KeyWise pass returns leaves)
    (hreturned : (pass desk.arbKeys desk.card).next = .returned)
    (hnone : (desk.card i).arb = none → returns i (desk.card i) ∧
      leaves i (desk.card i) = (desk.card i, [])) :
    returns i (desk.card i) ∧
      (pass desk.arbKeys desk.card).state i = (leaves i (desk.card i)).1 := by
  by_cases hi : i ∈ desk.arbKeys
  · have hvisited := hpass.visited _ _ desk.arb_nodup hreturned i hi
    exact ⟨(hpass.returned _ _ desk.arb_nodup).mp hreturned i hi, congrArg Prod.fst hvisited⟩
  · have harb : (desk.card i).arb = none := by
      rw [← Option.not_isSome_iff_eq_none]
      exact mt (desk.mem_arbKeys i).mpr hi
    obtain ⟨hreturns, hleaves⟩ := hnone harb
    rw [hleaves]
    exact ⟨hreturns, congrArg Prod.fst (hpass.frame _ desk.card i hi)⟩

theorem poll_mirrors (hreturned : (pollAwaitingSlash config s desk).next = .returned)
    (hcard : (desk.card i).StageShown) :
    (((pollAwaitingSlash config s desk).state i).StageShown ↔ ¬PollSkews config s desk i) ∧
      (((pollAwaitingSlash config s desk).state i).RoutingShown ↔ (desk.card i).RoutingShown) := by
  obtain ⟨hvisit, hstate⟩ := keyWise_state (i := i)
    (keyWise_sweep getAwaitingExpirySlashEntries (slashBody config s)) hreturned fun harb => by
      have hselect : getAwaitingExpirySlashEntries (desk.card i) = none := by
        rw [getAwaitingExpirySlashEntries, harb, Option.filter_none]
      rw [visit_of_not_selected hselect]
      exact ⟨rfl, rfl⟩
  rw [show (pollAwaitingSlash config s desk).state i = _ from hstate]
  exact visit_mirrors (fun _ => rfl) (fun _ _ _ _ _ => slash_mirrors)
    (fun entry => pollEntry_state ..) hvisit hcard

theorem reconcile_mirrors (hreturned : (reconcileArbitrumLedger config s desk).next = .returned)
    (hcard : (desk.card i).StageShown) :
    (((reconcileArbitrumLedger config s desk).state i).StageShown ↔
      ¬ReconcileSkews config s desk i) ∧
    (((reconcileArbitrumLedger config s desk).state i).RoutingShown ↔
      (desk.card i).RoutingShown) := by
  obtain ⟨⟨hmid, hposted⟩, hstate⟩ := keyWise_state (i := i)
    ((keyWise_sweep getMidSequenceEntries (midBody s)).followed
      (keyWise_sweep getCollateralPostedEntries (postedBody config s))) hreturned fun harb => by
      have hselect : getMidSequenceEntries (desk.card i) = none := by
        rw [getMidSequenceEntries, harb, Option.filter_none]
      have hselect' : getCollateralPostedEntries (desk.card i) = none := by
        rw [getCollateralPostedEntries, harb, Option.filter_none]
      rw [visit_of_not_selected hselect, visit_of_not_selected hselect']
      exact ⟨⟨rfl, rfl⟩, rfl⟩
  rw [show (reconcileArbitrumLedger config s desk).state i = _ from hstate]
  have hfirst : ((afterMid s desk i).StageShown ↔ ¬∃ entry,
      getMidSequenceEntries (desk.card i) = some entry ∧ Came (midResume entry)
        (reconcileMidSequence entry (desk.card i)) (s.mid i) fun _ _ _ => False) ∧
      ((afterMid s desk i).RoutingShown ↔ (desk.card i).RoutingShown) :=
    visit_mirrors (fun _ => rfl) (fun _ _ _ _ _ => mid_mirrors)
      (fun entry => reconcileMidSequence_state ..) hmid hcard
  have hshown : (afterMid s desk i).StageShown :=
    hfirst.1.mpr fun ⟨_, _, hcame⟩ => not_came_false hcame
  have hsecond : (_ ↔ ¬ReconcileSkews config s desk i) ∧ (_ ↔ (afterMid s desk i).RoutingShown) :=
    visit_mirrors (fun _ => rfl) (fun _ _ _ _ _ => posted_mirrors)
      (fun _ => resumeCollateralPostedIntent_state ..) hposted hshown
  exact ⟨hsecond.1, hsecond.2.trans hfirst.2⟩

end passes

/-! ## Routing first -/

/-- A confirmation that is part of a dispatch skews the display. -/
def DispatchSkews (config : Config) (d : Dispatched) (point : SequencePoint) (reply : Reply) :
    Prop :=
  ∃ job, d.job = some job ∧
    Skews config job.json.expiry SequencePoint.confirmPoint d.card point reply

def DispatchRoutes (config : Config) (d : Dispatched) (point : SequencePoint) (reply : Reply) :
    Prop :=
  ∃ job, d.job = some job ∧ Routes config job point reply

/-- Nothing is selected, and that is what the call writes. -/
def RefusedAtOnce (deps : DispatchDeps) (intentId : Str) (json : ProofOutputJson) (nowSec : Int)
    (book : ReservationBook) (card : Card) : Prop :=
  card.live = false ∧
    (selectSolver deps.candidates ⟨intentId, json⟩ nowSec deps.selection book).1.solver = none

section dispatch

variable {deps : DispatchDeps} {intentId : Str} {json : ProofOutputJson}
  {zkProofHash : Option Str} {nowSec : Int} {book : ReservationBook} {card : Card}

theorem dispatchResume_card {d : Dispatched} {point : SequencePoint} {reply : Reply}
    {t : Turn Dispatched SequencePoint Call Str}
    (h : dispatchResume config deps intentId d point reply = some t) :
    ∃ job t₁, d.job = some job ∧ sequenceResume config job d.card point reply = some t₁ ∧
      t.state.card = t₁.state ∧ t.next = t₁.next := by
  unfold dispatchResume at h
  split at h
  · cases h
  · next job hjob =>
    obtain ⟨t₁, hsequence, rfl⟩ := Option.map_eq_some_iff.mp h
    exact ⟨job, t₁, hjob, hsequence,
      ((afterSequence_card ..).1.trans (afterPost_card ..).1), rfl⟩

theorem refuse_mirrors (card : Card) (json : ProofOutputJson) (routing : Option Routing) :
    (refuseArbitrumSettlement card json routing).StageShown ∧
      ((refuseArbitrumSettlement card json routing).RoutingShown ↔
        card.RoutingShown ∨ routing.isSome) :=
  ⟨Card.stageShown_write_routed .., Card.routingShown_write_routed _ _ _
    (fun _ => by cases routing <;> rfl) fun _ => rfl⟩

theorem dispatch_opening_mirrors (hcard : card.StageShown) :
    let start := dispatchArbitrumSettlement deps intentId json zkProofHash nowSec book card
    start.state.card.StageShown ∧
      (start.state.card.RoutingShown ↔
        card.RoutingShown ∨ RefusedAtOnce deps intentId json nowSec book card) := by
  have hkept : (runArbitrumSettlementSequence card).state = card := by
    unfold runArbitrumSettlementSequence
    split <;> rfl
  unfold dispatchArbitrumSettlement RefusedAtOnce
  dsimp only
  split
  · next hlive =>
    rw [Turn.mapState, hkept]
    exact ⟨hcard, by simp [hlive]⟩
  · next hlive =>
    split
    · next hnone =>
      obtain ⟨hstage, hrouting⟩ := refuse_mirrors card json (some ⟨⟨none, none, _⟩, none⟩)
      exact ⟨hstage, hrouting.trans (or_congr_right (by simp [hlive, hnone]))⟩
    · next solver hsome =>
      rw [Turn.mapState, hkept]
      exact ⟨hcard, by simp [hsome]⟩

theorem dispatch_mirrors {replies : List Reply} {t : Turn Dispatched SequencePoint Call Str}
    (hdrive : drive (dispatchResume config deps intentId)
      (dispatchArbitrumSettlement deps intentId json zkProofHash nowSec book card) replies = some t)
    (hcard : card.StageShown) :
    let start := dispatchArbitrumSettlement deps intentId json zkProofHash nowSec book card
    (t.state.card.StageShown ↔
      ¬Came (dispatchResume config deps intentId) start replies (DispatchSkews config)) ∧
    (t.state.card.RoutingShown ↔ card.RoutingShown ∨
      RefusedAtOnce deps intentId json nowSec book card ∨
      Came (dispatchResume config deps intentId) start replies (DispatchRoutes config)) := by
  intro start
  obtain ⟨hstart, hrouting⟩ := dispatch_opening_mirrors hcard
  have hturn (d : Dispatched) (point : SequencePoint) (reply : Reply)
      (t : Turn Dispatched SequencePoint Call Str)
      (h : dispatchResume config deps intentId d point reply = some t) :
      (d.card.StageShown → (t.state.card.StageShown ↔ ¬DispatchSkews config d point reply)) ∧
      (DispatchSkews config d point reply → ∀ point', t.next ≠ .await point') ∧
      (t.state.card.RoutingShown ↔ d.card.RoutingShown ∨ DispatchRoutes config d point reply) := by
    obtain ⟨job, t₁, hjob, hsequence, hstate, hnext⟩ := dispatchResume_card h
    obtain ⟨hstage, hends, hroutes⟩ := sequence_mirrors hsequence
    rw [hstate, hnext]
    simpa [DispatchSkews, DispatchRoutes, hjob] using ⟨hstage, hends, hroutes⟩
  refine ⟨drive_holds_iff (Q := fun d => d.card.StageShown)
      (fun d point reply t h => (hturn d point reply t h).1)
      (fun d point reply t h => (hturn d point reply t h).2.1) hdrive hstart, ?_⟩
  rw [← or_assoc, ← hrouting]
  exact drive_gains_iff (Q := fun d => d.card.RoutingShown)
    (fun d point reply t h => (hturn d point reply t h).2.2) hdrive

end dispatch

/-- From a card that shows its stage, each flow ends with the ledger's stage, solver and tier on
display if and only if no `confirmSettlement` or `slashSolver` failed for good without being signed,
and the routing was on display at first or was written on the way. -/
theorem display_mirrors_iff (config : Config) (card : Card) (hcard : card.StageShown) :
    (∀ expiry zkProofHash replies t,
      let resume := confirmResume config expiry zkProofHash
      let start := confirmSettlementWithRetry card
      drive resume start replies = some t → (t.state.Mirrored ↔
        ¬Came resume start replies (ConfirmSkews config expiry) ∧ card.RoutingShown)) ∧
    (∀ job replies t,
      let resume := sequenceResume config job
      let start := runArbitrumSettlementSequence card
      drive resume start replies = some t → (t.state.Mirrored ↔
        ¬Came resume start replies
            (Skews config job.json.expiry SequencePoint.confirmPoint) ∧
          (card.RoutingShown ∨ Came resume start replies fun _ => Routes config job))) ∧
    (∀ deps intentId json zkProofHash nowSec book replies t,
      let resume := dispatchResume config deps intentId
      let start := dispatchArbitrumSettlement deps intentId json zkProofHash nowSec book card
      drive resume start replies = some t → (t.state.card.Mirrored ↔
        ¬Came resume start replies (DispatchSkews config) ∧
          (card.RoutingShown ∨ RefusedAtOnce deps intentId json nowSec book card ∨
            Came resume start replies (DispatchRoutes config)))) ∧
    (∀ deps replies t,
      let resume := postedResume config deps
      let start := resumeCollateralPostedIntent deps card
      drive resume start replies = some t → (t.state.Mirrored ↔
        ¬Came resume start replies (PostedSkews config deps) ∧ card.RoutingShown)) ∧
    ∀ (ι : Type) [DecidableEq ι] (s : Surroundings ι) (desk : Desk ι) (i : ι), desk.card i = card →
      ((pollAwaitingSlash config s desk).next = .returned →
        (((pollAwaitingSlash config s desk).state i).Mirrored ↔
          ¬PollSkews config s desk i ∧ card.RoutingShown)) ∧
      ((reconcileArbitrumLedger config s desk).next = .returned →
        (((reconcileArbitrumLedger config s desk).state i).Mirrored ↔
          ¬ReconcileSkews config s desk i ∧ card.RoutingShown)) := by
  refine ⟨fun expiry zkProofHash replies t hdrive => ?_, fun job replies t hdrive => ?_,
    fun deps intentId json zkProofHash nowSec book replies t hdrive => ?_,
    fun deps replies t hdrive => ?_, ?_⟩
  · have hrun := unrouted_run_mirrors (fun _ _ _ _ => confirm_mirrors) hdrive rfl hcard
    exact Card.mirrored_iff.trans (and_congr hrun.1 hrun.2)
  · have hstart : (runArbitrumSettlementSequence card).state = card := by
      unfold runArbitrumSettlementSequence
      split <;> rfl
    have hrun := run_mirrors (fun _ _ _ _ => sequence_mirrors) hdrive (by rwa [hstart])
    rw [hstart] at hrun
    exact Card.mirrored_iff.trans (and_congr hrun.1 hrun.2)
  · have hrun := dispatch_mirrors hdrive hcard
    exact Card.mirrored_iff.trans (and_congr hrun.1 hrun.2)
  · have hrun := unrouted_run_mirrors (fun _ _ _ _ => posted_mirrors) hdrive
      (resumeCollateralPostedIntent_state deps card) hcard
    exact Card.mirrored_iff.trans (and_congr hrun.1 hrun.2)
  · rintro ι _ s desk i rfl
    refine ⟨fun hreturned => ?_, fun hreturned => ?_⟩
    · have hrun := poll_mirrors hreturned hcard
      exact Card.mirrored_iff.trans (and_congr hrun.1 hrun.2)
    · have hrun := reconcile_mirrors hreturned hcard
      exact Card.mirrored_iff.trans (and_congr hrun.1 hrun.2)

/-! ### A payout to be confirmed -/

/-- On record and on display the collateral is posted. -/
def postedCard : Card :=
  ⟨some { stage := .collateral_posted }, none, { stage := some .collateral_posted }⟩

def sampleConfirm (replies : List Reply) : Option (Turn Card ConfirmPoint Call Str) :=
  drive (confirmResume defaultConfig 1000 ['z']) (confirmSettlementWithRetry postedCard)
    (⟨0, .record ⟨[], 1, [], INTENT_STATUS_PENDING, ['a'], 1⟩⟩ :: replies)

theorem display_mirrors_sample :
    ∃ t, sampleConfirm [⟨1, .signed ['h']⟩, ⟨2, .outcome true (some ['h'])⟩] = some t ∧
      t.next = .returned ∧ t.state.Mirrored := by
  have hread : (sampleConfirm [⟨1, .signed ['h']⟩, ⟨2, .outcome true (some ['h'])⟩]).map Turn.next =
      some .returned := by decide
  obtain ⟨t, hdrive, hnext⟩ := Option.map_eq_some_iff.mp hread
  refine ⟨t, hdrive, hnext, ?_⟩
  refine ((display_mirrors_iff defaultConfig postedCard rfl).1 1000 ['z'] _ t hdrive).mpr ⟨?_, ?_⟩
  · rintro ⟨pre, reply, post, t, hsplit, -, point, -, -, ⟨txHash, hanswer⟩, -⟩
    have hmem : reply ∈ pre ++ reply :: post := by simp
    rw [← hsplit] at hmem
    simp only [List.mem_cons, List.not_mem_nil, or_false] at hmem
    rcases hmem with rfl | rfl | rfl
    · cases hanswer
    · cases hanswer
    · cases hanswer
  · rintro entry decision ⟨⟩ ⟨⟩

/-- `confirmSettlement` fails before it is signed, past the deadline: the display says that it is
confirming, and the ledger that the collateral is posted. -/
theorem unsigned_confirm_skews :
    postedCard.Mirrored ∧ ∃ t, sampleConfirm [⟨73000000, .outcome false none⟩] = some t ∧
      t.next = .returned ∧ ¬t.state.Mirrored := by
  have hread : (sampleConfirm [⟨73000000, .outcome false none⟩]).map (fun t =>
      (t.next, t.state.display.stage, t.state.arb.map fun entry => entry.stage)) =
      some (.returned, some .confirming, some .collateral_posted) := by decide +kernel
  obtain ⟨t, hdrive, hend⟩ := Option.map_eq_some_iff.mp hread
  obtain ⟨hnext, hstages⟩ := Prod.mk.inj hend
  obtain ⟨hdisplay, hledger⟩ := Prod.mk.inj hstages
  refine ⟨⟨rfl, ?_⟩, t, hdrive, hnext, fun h => ?_⟩
  · rintro entry decision ⟨⟩ ⟨⟩
  · have hsame : t.state.display.stage = t.state.arb.map fun entry => entry.stage := h.stage
    rw [hdisplay, hledger] at hsame
    cases hsame

end Maat.Orchestrator.Settlement
