import Maat.Laws.Orchestrator.Steps
import Maat.Laws.Orchestrator.SolverRouting

/-!
# Payouts and the expiry

The last gate and the retry loop compare the time with the delivery margin before the expiry; a
resumption of the settlement compares it with nothing. An attempt is in time as long as a flow
comes to it within the margin of its last comparison, and a resumption begins in time.
-/

namespace Maat.Orchestrator

open Js

variable {ι : Type} [DecidableEq ι] {P : Params ι} {w w' : World ι} {i : ι}

/-- The intent that the flow attempts to pay once it is answered. -/
def Point.pays : Point ι → Answer → Option ι
  | .verifying i solver _, .record onChain =>
    if toLowerCase onChain.solver = toLowerCase solver ∧
        onChain.status = INTENT_STATUS_PENDING then some i else none
  | .retrySleep i, .ready => some i
  | _, _ => none

/-- The time was compared with the delivery margin, and was before it. -/
def Flow.checkedInTime (P : Params ι) (f : Flow ι) (i : ι) : Bool :=
  decide (f.checkedAt < P.expiry i - P.gate.deliveryMarginSec)

/-- An attempt comes within the margin of the last comparison; where the settlement was resumed,
and nothing was compared, the resumption began in time. -/
def attemptsPromptly (P : Params ι) (s : Sys ι) : Event ι → Bool
  | .resume k answer =>
    (s.flows k).all fun f => (f.point.pays answer).all fun i =>
      s.world.settled.isAlreadySettled i ||
        decide (s.world.now ≤ f.checkedAt + P.gate.deliveryMarginSec) &&
          (f.origin == .job || f.checkedInTime P i)
  | _ => true

/-- What a flow at the point knows about the time of its last comparison. -/
def PointTimed (P : Params ι) (origin : Origin) (checkedAt : Int) : Point ι → Prop
  | .signing i (.post _) | .outcome i (.post _) _ | .verifying i _ _ =>
    origin = .job → checkedAt < P.expiry i - P.gate.deliveryMarginSec
  | .retrySleep i => checkedAt < P.expiry i - P.gate.deliveryMarginSec
  | _ => True

/-- A job works on one intent. -/
structure FlowTimed (P : Params ι) (f : Flow ι) : Prop where
  point : PointTimed P f.origin f.checkedAt f.point
  next : f.origin = .job → f.next = .stop

/-! ## Attempts -/

theorem runSolanaPayout_attempts : (runSolanaPayout w i).1.attempts =
    w.attempts ++ [(i, w.now, w.settled.isAlreadySettled i)] := by
  unfold runSolanaPayout
  dsimp only
  split
  all_goals rfl

/-- An attempt is recorded with the time and with what the settled ledger says. -/
def Attempts (w w' : World ι) (paying : Option ι) : Prop :=
  w'.attempts = w.attempts ∨ ∃ i, paying = some i ∧
    w'.attempts = w.attempts ++ [(i, w.now, w.settled.isAlreadySettled i)]

theorem OnlyArb.noAttempt (h : OnlyArb w w') (paying : Option ι) : Attempts w w' paying :=
  Or.inl h.attempts

theorem txDone_attempts {next : Next ι} {kind : TxKind} {ok : Bool} {hash : Option Str}
    {stop : Option (Stop ι)} (h : txDone P w next i kind ok hash = (w', stop))
    (paying : Option ι) : Attempts w w' paying :=
  (txDone_cases h).onlyArb.noAttempt paying

theorem resume_attempts {next : Next ι} {point : Point ι} {a : Answer} {stop : Option (Stop ι)}
    (h : resume P w next point a = some (w', stop)) : Attempts w w' (point.pays a) := by
  cases resume_cases h with
  | unsigned hdone => exact txDone_attempts hdone _
  | receipt hdone => exact txDone_attempts hdone _
  | sendThrew hdone => exact Or.inl (txDone_cases hdone).onlyArb.attempts
  | @signed i kind hash hfresh =>
    exact Or.inl (onlyArb_onSigned (w.sign i kind hash) i hash kind).attempts
  | resolved => exact (onlyArb_bootResolve _ _ _ _ _).noAttempt _
  | payoutAgain => exact Or.inr ⟨_, rfl, runSolanaPayout_attempts⟩
  | @verified i solver attempt r =>
    -- of the three ways on from the read, one alone makes an attempt
    have hattempts := runSolanaPayout_attempts (w := w) (i := i)
    have hne : (runSolanaPayout w i).1 ≠ w := by
      intro hw
      rw [hw] at hattempts
      exact List.cons_ne_nil _ _ (List.self_eq_append_right.mp hattempts)
    unfold resume at h
    dsimp only at h
    split at h
    · exact absurd (congrArg Prod.fst (Option.some.inj h)).symm hne
    · split at h
      · exact absurd (congrArg Prod.fst (Option.some.inj h)).symm hne
      · next hmatch =>
        rw [not_or, not_not, not_not] at hmatch
        exact Or.inr ⟨i, if_pos hmatch, hattempts⟩
  | _ => exact Or.inl rfl

/-! ## Comparisons -/

section Timed

variable {origin : Origin} {checkedAt : Int} {next : Next ι} {point : Point ι}
  {stop : Option (Stop ι)}

theorem resumeCollateralPosted_timed (horigin : origin ≠ .job)
    (h : resumeCollateralPostedIntent P w i = some point) :
    PointTimed P origin checkedAt point := by
  unfold resumeCollateralPostedIntent at h
  repeat' split at h
  all_goals cases h
  · trivial
  · exact fun hjob => absurd hjob horigin

/-- No loop is a job's. -/
theorem goesOn_timed (horigin : origin ≠ .job) {st : Stop ι} (h : GoesOn P w next st) :
    FlowTimed P (st.flow origin checkedAt) := by
  refine ⟨?_, fun hjob => absurd hjob horigin⟩
  cases h with
  | due hdue hpoint =>
    unfold dueEntry at hpoint
    repeat' split at hpoint
    all_goals cases hpoint
    all_goals trivial
  | posted hboot hpoint => exact resumeCollateralPosted_timed horigin hpoint
  | _ => trivial

/-- What a flow's step leads to. -/
def Leads (P : Params ι) (origin : Origin) (checkedAt : Int) (stop : Option (Stop ι)) : Prop :=
  ∀ st, stop = some st → FlowTimed P (st.flow origin checkedAt)

omit [DecidableEq ι] in
theorem Leads.wait (hnext : origin = .job → next = .stop) {checked : Option Int}
    (hpoint : PointTimed P origin (checked.getD checkedAt) point) :
    Leads P origin checkedAt (some ⟨point, next, checked⟩) := by
  intro st hst
  cases hst
  exact ⟨hpoint, hnext⟩

theorem Leads.onward (hnext : origin = .job → next = .stop) :
    Leads P origin checkedAt (goOn P w next) := by
  intro st hst
  by_cases horigin : origin = .job
  · rw [hnext horigin] at hst
    cases hst
  · exact goesOn_timed horigin (goOn_cases hst)

theorem finishes_timed (hnext : origin = .job → next = .stop) {kind : TxKind} {ok : Bool}
    {hash : Option Str} (hpost : ∀ solver, kind = .post solver → origin = .job →
      checkedAt < P.expiry i - P.gate.deliveryMarginSec)
    (h : Finishes P w next i hash kind ok w' stop) : Leads P origin checkedAt stop := by
  cases h with
  | posted => exact .wait hnext (hpost _ rfl)
  | confirmsAgain => exact .wait hnext trivial
  | _ => exact .onward hnext

theorem runSolanaPayout_timed (hnext : origin = .job → next = .stop) :
    Leads P origin checkedAt (some ⟨(runSolanaPayout w i).2, next, none⟩) := by
  unfold runSolanaPayout
  dsimp only
  split
  all_goals exact .wait hnext trivial

theorem resumes_timed {a : Answer} (hpoint : PointTimed P origin checkedAt point)
    (hnext : origin = .job → next = .stop) (h : Resumes P w next point a w' stop) :
    Leads P origin checkedAt stop := by
  cases h with
  | gatePasses hgate => exact .wait hnext fun _ => (evaluateArbitrumGate_eq_nil.mp hgate).2.2.2
  | @signed i kind hash hfresh =>
    refine .wait hnext ?_
    cases kind with
    | post solver => exact hpoint
    | _ => trivial
  | @unsigned i kind w' stop hdone =>
    refine finishes_timed hnext ?_ (txDone_cases hdone)
    rintro solver rfl
    exact hpoint
  | @receipt i kind hash ok w' stop hdone =>
    refine finishes_timed hnext ?_ (txDone_cases hdone)
    rintro solver rfl
    exact hpoint
  | @sendThrew i kind hash w' stop hdone =>
    refine finishes_timed hnext ?_ (txDone_cases hdone)
    rintro solver rfl
    exact hpoint
  | readAgain => exact .wait hnext hpoint
  | verified => exact runSolanaPayout_timed hnext
  | payoutAgain => exact runSolanaPayout_timed hnext
  | retries hnow => exact .wait hnext hnow
  | routed hstart => exact .wait hnext trivial
  | paid => exact .wait hnext trivial
  | unpaid => exact .wait hnext trivial
  | payoutOk => exact .wait hnext trivial
  | confirms => exact .wait hnext trivial
  | payoutLanded => exact .wait hnext trivial
  | slashes => exact .wait hnext trivial
  | receiptRead => exact .wait hnext trivial
  | noReceipt => exact .wait hnext trivial
  | reconciled hrecon =>
    refine .onward ?_
    intro hjob
    rw [hnext hjob] at hrecon
    cases hrecon
  | threw hthrows =>
    intro st hst
    by_cases horigin : origin = .job
    · rw [hnext horigin] at hst
      cases hst
    · exact goesOn_timed horigin (throws_cases hst)
  | _ => exact .onward hnext

omit [DecidableEq ι] in
/-- A job's comparison was in time when it attempts to pay. -/
theorem compared_of_pays {a : Answer} (hpoint : PointTimed P origin checkedAt point)
    (hjob : origin = .job) (hpays : point.pays a = some i) :
    checkedAt < P.expiry i - P.gate.deliveryMarginSec := by
  unfold Point.pays at hpays
  split at hpays
  · split at hpays
    · cases hpays
      exact hpoint hjob
    · cases hpays
  · cases hpays
    exact hpoint
  · cases hpays

end Timed

/-- No step makes what a flow knows wrong. -/
theorem timed_kept : KeptBy P (fun _ _ => True) (fun _ => True) (fun _ f => FlowTimed P f) where
  around _ _ _ := ⟨trivial, fun _ => id⟩
  crash _ := trivial
  begins := by
    intro w origin next stop _ hbegins h
    cases hbegins with
    | boot =>
      apply goesOn_timed _ h
      exact nofun
    | tick =>
      apply goesOn_timed _ h
      exact nofun
    | recon =>
      apply goesOn_timed _ h
      exact nofun
  job _ _ := ⟨trivial, fun _ => rfl⟩
  shorter _ hf := ⟨trivial, hf.next⟩
  resumed := by
    intro w origin i ids next checkedAt point _ _ hpoint
    exact ⟨resumeCollateralPosted_timed nofun hpoint, nofun⟩
  resume := by
    intro s k f a w stop _ hs hflow _ h
    obtain ⟨hpoint, hnext⟩ := hs.2 k f hflow
    exact ⟨trivial, fun _ => id, resumes_timed hpoint hnext h⟩

section Runs

variable {s s' : Sys ι} {bound : Nat}

theorem step_attempts {e : Event ι} (h : step P bound s e = some s') :
    s'.world.attempts = s.world.attempts ∨ ∃ k a f, e = .resume k a ∧ s.flows k = some f ∧
      Attempts s.world s'.world (f.point.pays a) := by
  cases step_cases h with
  | around hw => cases hw <;> exact Or.inl rfl
  | @resume k f a w stop hflow htrue hresumes =>
    refine Or.inr ⟨k, a, f, rfl, hflow, ?_⟩
    simp only [step, hflow, if_pos htrue] at h
    split at h
    · exact Or.inl (congrArg (fun s => s.world.attempts) (Option.some.inj h)).symm
    · obtain ⟨⟨w₁, stop₁⟩, hresume, hs⟩ := Option.map_eq_some_iff.mp h
      have hworld : w₁ = w := congrArg Sys.world hs
      rw [hworld] at hresume
      exact resume_attempts hresume
  | _ => exact Or.inl rfl

/-- Attempts to pay an intent that was not settled were before its expiry. -/
def World.InTime (P : Params ι) (w : World ι) : Prop :=
  ∀ i t, (i, t, false) ∈ w.attempts → t < P.expiry i

/-- The attempt that a prompt step makes is in time. -/
theorem in_time_step {e : Event ι} (hok : attemptsPromptly P s e = true)
    (htimed : Each (fun _ => True) (fun _ f => FlowTimed P f) s)
    (hstep : step P bound s e = some s') (h : s.world.InTime P) : s'.world.InTime P := by
  intro i t hmem
  rcases step_attempts hstep with hsame | ⟨k, a, f, rfl, hflow, hsame | ⟨j, hpays, hnew⟩⟩
  · exact h i t (hsame ▸ hmem)
  · exact h i t (hsame ▸ hmem)
  · rw [hnew] at hmem
    rcases List.mem_append.mp hmem with hmem | hmem
    · exact h i t hmem
    · obtain ⟨rfl, ht, hsettled⟩ := by
        simpa only [List.mem_singleton, Prod.mk.injEq] using hmem
      simp only [attemptsPromptly, hflow, Option.all_some, hpays, ← hsettled, Bool.false_or,
        Bool.and_eq_true, decide_eq_true_eq, Bool.or_eq_true, beq_iff_eq,
        Flow.checkedInTime] at hok
      obtain ⟨hprompt, hchecked⟩ := hok
      have hcompared : f.checkedAt < P.expiry i - P.gate.deliveryMarginSec := by
        rcases hchecked with hjob | hchecked
        · exact compared_of_pays (htimed.2 k f hflow).point hjob hpays
        · exact hchecked
      rw [ht]
      omega

end Runs

/-- As long as a flow comes to an attempt within the delivery margin of its last comparison, and
a resumption that has not compared began before the margin, every attempt to pay an intent that
was not settled starts before the intent's expiry. -/
theorem attempts_before_expiry (P : Params ι) (bound : Nat) (now : Int) (es : List (Event ι))
    (s : Sys ι)
    (hrun : Run.run (Run.restrict (attemptsPromptly P) (step P bound)) (Sys.initial now) es =
      some s) (i : ι) (t : Int) (hattempt : (i, t, false) ∈ s.world.attempts) :
    t < P.expiry i := by
  have hkept : Each (fun _ => True) (fun _ f => FlowTimed P f) s ∧ s.world.InTime P := by
    refine Run.run_keeps (I := fun s => Each (fun _ => True) (fun _ f => FlowTimed P f) s ∧
      s.world.InTime P) ?_ hrun ⟨⟨trivial, ?_⟩, ?_⟩
    · intro s e s' h hstep
      obtain ⟨hok, hstep⟩ := Run.restrict_eq_some.mp hstep
      exact ⟨timed_kept.step trivial h.1 (step_cases hstep), in_time_step hok h.1 hstep h.2⟩
    · intro k f hf
      cases hf
    · intro i t hmem
      cases hmem
  exact hkept.2 i t hattempt

/-- The sample's payout is attempted before the expiry. -/
theorem attempts_before_expiry_sample :
    ∃ s t, Run.run (Run.restrict (attemptsPromptly sampleParams) (step sampleParams 2))
        (Sys.initial 0) (.time 800 :: sampleOpening) = some s ∧
      (9, t, false) ∈ s.world.attempts ∧ t < sampleParams.expiry 9 := by
  have hsome : ((Run.run (Run.restrict (attemptsPromptly sampleParams) (step sampleParams 2))
      (Sys.initial 0) (.time 800 :: sampleOpening)).any fun s =>
        s.world.attempts == [(9, 800, false)]) = true := by
    decide
  obtain ⟨s, hrun, hs⟩ := (Option.any_eq_true _ _).mp hsome
  have hmem : (9, 800, false) ∈ s.world.attempts := by
    rw [eq_of_beq hs]
    exact List.mem_cons_self
  exact ⟨s, 800, hrun, hmem, attempts_before_expiry sampleParams 2 0 _ s hrun 9 800 hmem⟩

/-- The orchestrator stops once the collateral is posted, and boots after the expiry. -/
def sampleDowntime : List (Event Nat) :=
  sampleOpening.take 9 ++ [.crash, .time 2000, .boot 1,
    .resume 1 (.record (pendingIntent ['s'] 150))]

/-- The resumption pays an intent that has expired. -/
theorem resumed_after_expiry :
    ∃ s, Run.run (step sampleParams 2) (Sys.initial 0) sampleDowntime = some s ∧
      s.world.attempts = [(9, 2000, false)] ∧ sampleParams.expiry 9 = 1000 := by
  have hsome : ((Run.run (step sampleParams 2) (Sys.initial 0) sampleDowntime).any fun s =>
      s.world.attempts == [(9, 2000, false)]) = true := by
    decide
  obtain ⟨s, hrun, hs⟩ := (Option.any_eq_true _ _).mp hsome
  exact ⟨s, hrun, eq_of_beq hs, rfl⟩

end Maat.Orchestrator
