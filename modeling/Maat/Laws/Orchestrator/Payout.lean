import Maat.Orchestrator.Passes

/-!
# A payout on Solana is against the solver's own collateral

Each path to `runSolanaPayout` goes through `resumeArbitrumSettlementFromCollateralPosted`, which
reads the intent first. While it reads, all it has seen is what the chain shows before
`postCollateral`; once it pays, the last it has seen is a pending intent of the solver it was
given (`PayTrace`). The two callers, `runArbitrumSettlementSequence` and
`resumeCollateralPostedIntent`, give it the solver on record.
-/

namespace Maat.Orchestrator.Settlement

open Js Suspension

variable {config : Config}

/-! ## Readings -/

def Reply.reading (reply : Reply) : Option OnChainIntent :=
  match reply.answer with
  | .record onChain => some onChain
  | _ => none

def readings (replies : List Reply) : List OnChainIntent := replies.filterMap Reply.reading

/-- The solver's collateral is behind the intent, which is still open. -/
def OwnCollateral (solver : Str) (onChain : OnChainIntent) : Prop :=
  onChain.status = INTENT_STATUS_PENDING ∧ toLowerCase onChain.solver = toLowerCase solver

theorem readings_snoc (replies : List Reply) (reply : Reply) :
    readings (replies ++ [reply]) = readings replies ++ reply.reading.toList := by
  unfold readings
  rw [List.filterMap_append]
  cases h : reply.reading with
  | none => simp [h]
  | some onChain => simp [h]

theorem readings_snoc_record (replies : List Reply) (now : Int) (onChain : OnChainIntent) :
    readings (replies ++ [⟨now, .record onChain⟩]) = readings replies ++ [onChain] :=
  readings_snoc replies ⟨now, .record onChain⟩

theorem readings_snoc_other (replies : List Reply) {reply : Reply} (h : reply.reading = none) :
    readings (replies ++ [reply]) = readings replies := by
  rw [readings_snoc, h, Option.toList_none, List.append_nil]

/-! ## The payout, one reply at a time -/

/-- The readings of a flow up to a point, by which it may be there. -/
def PayTrace (config : Config) (solver : Str) (seen : List OnChainIntent) : PayPoint → Prop
  | .verifying attempt => attempt = seen.length + 1 ∧
    (∀ onChain ∈ seen, OnChainIntent.isPrePost onChain) ∧
    (seen = [] ∨ Number.lt (.ofInt seen.length) config.verifyAttempts)
  | .verifySleeping attempt => attempt = seen.length ∧
    (∀ onChain ∈ seen, OnChainIntent.isPrePost onChain) ∧
    Number.lt (.ofInt seen.length) config.verifyAttempts
  | .paying _ | .paySleeping _ => ∃ onChain, seen.getLast? = some onChain ∧
    OwnCollateral solver onChain
  | .confirm _ _ => True

/-- What a turn of the payout may be, given the readings up to it. -/
structure Sound (config : Config) (solver : Str) (seen : List OnChainIntent)
    (t : Turn Card PayPoint Call Str) : Prop where
  trace : ∀ point, t.next = .await point → PayTrace config solver seen point
  paid : ∀ zkProofHash, .runSolanaPayout zkProofHash ∈ t.calls →
    ∃ onChain, seen.getLast? = some onChain ∧ OwnCollateral solver onChain

theorem Sound.ended {solver : Str} {seen : List OnChainIntent} {t : Turn Card PayPoint Call Str}
    (hnext : ∀ point, t.next ≠ .await point) (hcalls : t.calls = []) :
    Sound config solver seen t :=
  ⟨fun point h => absurd h (hnext point), fun _ h => by rw [hcalls] at h; cases h⟩

theorem confirm_never_pays {expiry : Int} {hash : Str} {card : Card} {point : ConfirmPoint}
    {reply : Reply} {t : Turn Card ConfirmPoint Call Str}
    (h : confirmResume config expiry hash card point reply = some t) (zkProofHash : Str) :
    .runSolanaPayout zkProofHash ∉ t.calls := by
  unfold confirmResume at h
  split at h
  · split at h
    · cases h
      exact List.not_mem_nil
    · split at h
      · cases h
        exact List.not_mem_nil
      · cases h
        simp
  · cases h
    exact List.not_mem_nil
  · cases h
    exact List.not_mem_nil
  · split at h
    · cases h
      exact List.not_mem_nil
    · cases h
      simp
  · cases h
    simp
  · cases h
    exact List.not_mem_nil
  · cases h
    exact List.not_mem_nil
  · cases h

theorem sound_pay {job : Job} {card : Card} {point : PayPoint} {seen : List Reply} {reply : Reply}
    {t : Turn Card PayPoint Call Str} (h : payResume config job card point reply = some t)
    (hpoint : PayTrace config job.solverAddress (readings seen) point) :
    Sound config job.solverAddress (readings (seen ++ [reply])) t := by
  obtain ⟨now, answer⟩ := reply
  unfold payResume at h
  split at h
  · next attempt onChain hanswer =>
    cases hanswer
    obtain ⟨hattempt, hprePost, -⟩ := hpoint
    rw [readings_snoc_record]
    split at h
    · next hretry =>
      cases h
      rw [Bool.and_eq_true] at hretry
      refine ⟨?_, fun _ hcall => by simp at hcall⟩
      rintro point ⟨⟩
      refine ⟨by simp [hattempt], ?_, ?_⟩
      · simpa [or_imp, forall_and] using ⟨hprePost, hretry.2⟩
      · simpa [hattempt] using hretry.1
    · split at h
      · cases h
        exact .ended (fun _ => nofun) rfl
      · next howned =>
        rw [not_or, not_not, not_not] at howned
        have hown : OwnCollateral job.solverAddress onChain := ⟨howned.2, howned.1⟩
        split at h
        · cases h
          exact .ended (fun _ => nofun) rfl
        · cases h
          refine ⟨?_, fun _ _ => ⟨onChain, List.getLast?_concat .., hown⟩⟩
          rintro point ⟨⟩
          exact ⟨onChain, List.getLast?_concat .., hown⟩
  · next attempt hanswer =>
    cases hanswer
    cases h
    rw [readings_snoc_other _ rfl]
    refine ⟨?_, fun _ hcall => by simp at hcall⟩
    rintro point ⟨⟩
    obtain ⟨rfl, hprePost, hretry⟩ := hpoint
    exact ⟨rfl, hprePost, .inr hretry⟩
  · cases h
    refine ⟨?_, fun _ hcall => by simp [confirmSettlementWithRetry] at hcall⟩
    rintro point ⟨⟩
    trivial
  · next zkProofHash hanswer =>
    cases hanswer
    rw [readings_snoc_other _ rfl]
    split at h
    · cases h
      refine ⟨?_, fun _ hcall => by simp at hcall⟩
      rintro point ⟨⟩
      exact hpoint
    · cases h
      exact .ended (fun _ => nofun) rfl
  · next zkProofHash hanswer =>
    cases hanswer
    cases h
    rw [readings_snoc_other _ rfl]
    refine ⟨?_, fun _ _ => hpoint⟩
    rintro point ⟨⟩
    exact hpoint
  · next zkProofHash confirmPoint =>
    obtain ⟨t₁, hconfirm, rfl⟩ := Option.map_eq_some_iff.mp h
    refine ⟨?_, fun _ hcall => absurd hcall (confirm_never_pays hconfirm _)⟩
    intro point hpoint
    obtain ⟨_, -, rfl⟩ := within_awaits.mp hpoint
    trivial
  · cases h
    exact .ended (fun _ => nofun) rfl
  · cases h
    exact .ended (fun _ => nofun) rfl
  · cases h

/-- A reading that is not the solver's own, and not to be retried, ends the flow. -/
theorem pay_stops {job : Job} {card : Card} {attempt : Nat} {now : Int} {onChain : OnChainIntent}
    {t : Turn Card PayPoint Call Str}
    (h : payResume config job card (.verifying attempt) ⟨now, .record onChain⟩ = some t)
    (hown : ¬OwnCollateral job.solverAddress onChain)
    (hretry : ¬(OnChainIntent.isPrePost onChain ∧
      Number.lt (.ofInt attempt) config.verifyAttempts)) :
    t = ⟨card, [], .returned⟩ := by
  simp only [payResume] at h
  rw [if_neg fun hboth => hretry (Bool.and_eq_true .. ▸ hboth).symm, if_pos] at h
  · exact (Option.some.inj h).symm
  · by_contra howned
    rw [not_or, not_not, not_not] at howned
    exact hown ⟨howned.2, howned.1⟩

/-! ## Flows that come to a payout -/

/-- What is promised of a flow's payouts for a solver, at every answer to its calls. `inPayout` says
where in `resumeArbitrumSettlementFromCollateralPosted` the flow is, if it is there. -/
structure PaysOwnOnly (config : Config) (solver : Str) {Point : Type}
    (inPayout : Point → Option PayPoint) (resume : Resume Card Point Call Reply Str)
    (start : Turn Card Point Call Str) : Prop where
  opening : ∀ zkProofHash, .runSolanaPayout zkProofHash ∉ start.calls
  /-- A call of the payout comes right after such a reading, or after another one that failed. -/
  paid : ∀ replies reply t t' zkProofHash, drive resume start replies = some t →
    feed resume t reply = some t' →
    .runSolanaPayout zkProofHash ∈ t'.calls.drop t.calls.length →
    ∃ onChain, (readings (replies ++ [reply])).getLast? = some onChain ∧
      OwnCollateral solver onChain
  retried : ∀ replies t point attempt, drive resume start replies = some t →
    t.next = .await point → inPayout point = some (.verifying attempt) →
    (∀ onChain ∈ readings replies, OnChainIntent.isPrePost onChain) ∧
      (readings replies = [] ∨
        Number.lt (.ofInt (readings replies).length) config.verifyAttempts)
  stops : ∀ replies t point attempt now onChain t', drive resume start replies = some t →
    t.next = .await point → inPayout point = some (.verifying attempt) →
    feed resume t ⟨now, .record onChain⟩ = some t' → ¬OwnCollateral solver onChain →
    ¬(OnChainIntent.isPrePost onChain ∧ Number.lt (.ofInt attempt) config.verifyAttempts) →
    t'.next = .returned ∧ t'.calls = t.calls ∧ t'.state = t.state

section flow

variable {Point : Type} {solver : Str} {inPayout : Point → Option PayPoint}
  {resume : Resume Card Point Call Reply Str} {start : Turn Card Point Call Str}
  {Trace : List OnChainIntent → Point → Prop}

theorem trace_of_drive {replies : List Reply} {t : Turn Card Point Call Str} {point : Point}
    (hstart : ∀ point, start.next = .await point → Trace [] point)
    (hstep : ∀ card point seen reply t, resume card point reply = some t →
      Trace (readings seen) point →
      ∀ point', t.next = .await point' → Trace (readings (seen ++ [reply])) point')
    (hdrive : drive resume start replies = some t) (hpoint : t.next = .await point) :
    Trace (readings replies) point := by
  refine drive_invariant
    (I := fun t seen => ∀ point, t.next = .await point → Trace (readings seen) point) ?_ []
    hdrive hstart point hpoint
  intro t seen reply t' hseen hfeed point' hpoint'
  obtain ⟨point, t₁, hnext, hresume, rfl⟩ := feed_eq_some.mp hfeed
  exact hstep t.state point seen reply t₁ hresume (hseen point hnext) point' hpoint'

/-- By what a flow's readings say at each of its points. -/
theorem PaysOwnOnly.of_trace (Trace : List OnChainIntent → Point → Prop)
    (hopening : ∀ zkProofHash, .runSolanaPayout zkProofHash ∉ start.calls)
    (hstart : ∀ point, start.next = .await point → Trace [] point)
    (htrace : ∀ seen point p, Trace seen point → inPayout point = some p →
      PayTrace config solver seen p)
    (hstep : ∀ card point seen reply t, resume card point reply = some t →
      Trace (readings seen) point →
      ∀ point', t.next = .await point' → Trace (readings (seen ++ [reply])) point')
    (hpaid : ∀ card point seen reply t zkProofHash, resume card point reply = some t →
      Trace (readings seen) point → .runSolanaPayout zkProofHash ∈ t.calls →
      ∃ onChain, (readings (seen ++ [reply])).getLast? = some onChain ∧
        OwnCollateral solver onChain)
    (hstops : ∀ card point seen attempt now onChain t, Trace seen point →
      inPayout point = some (.verifying attempt) →
      resume card point ⟨now, .record onChain⟩ = some t → ¬OwnCollateral solver onChain →
      ¬(OnChainIntent.isPrePost onChain ∧ Number.lt (.ofInt attempt) config.verifyAttempts) →
      t = ⟨card, [], .returned⟩) :
    PaysOwnOnly config solver inPayout resume start where
  opening := hopening
  paid := by
    intro replies reply t t' zkProofHash hdrive hfeed hcall
    obtain ⟨point, t₁, hnext, hresume, rfl⟩ := feed_eq_some.mp hfeed
    rw [andThen_calls, List.drop_left] at hcall
    exact hpaid t.state point replies reply t₁ zkProofHash hresume
      (trace_of_drive hstart hstep hdrive hnext) hcall
  retried := by
    intro replies t point attempt hdrive hnext hpoint
    exact (htrace _ _ _ (trace_of_drive hstart hstep hdrive hnext) hpoint).2
  stops := by
    intro replies t point attempt now onChain t' hdrive hnext hpoint hfeed hown hretry
    obtain ⟨point', t₁, hnext', hresume, rfl⟩ := feed_eq_some.mp hfeed
    cases hnext.symm.trans hnext'
    rw [hstops t.state point _ attempt now onChain t₁ (trace_of_drive hstart hstep hdrive hnext)
      hpoint hresume hown hretry]
    exact ⟨rfl, List.append_nil _, rfl⟩

end flow

/-! ## The two callers -/

def SequencePoint.inPayout : SequencePoint → Option PayPoint
  | .pay point => some point
  | _ => none

def PostedPoint.inPayout : PostedPoint → Option PayPoint
  | .confirm zkProofHash point => some (.confirm zkProofHash point)
  | .pay _ point => some point

def SequenceTrace (config : Config) (solver : Str) (seen : List OnChainIntent) :
    SequencePoint → Prop
  | .pay point => PayTrace config solver seen point
  | _ => seen = []

def PostedTrace (config : Config) (solver : Str) (seen : List OnChainIntent) : PostedPoint → Prop
  | .pay s point => s = solver ∧ PayTrace config solver seen point
  | .confirm _ _ => True

/-- The payout as a part of its caller. -/
theorem sound_within {solver : Str} {seen : List OnChainIntent} {Point : Type}
    {Trace : List OnChainIntent → Point → Prop} {f : PayPoint → Point}
    {t : Turn Card PayPoint Call Str} (h : Sound config solver seen t)
    (hf : ∀ point, PayTrace config solver seen point → Trace seen (f point)) :
    ∀ point', (t.within f).next = .await point' → Trace seen point' := by
  intro point' hpoint'
  obtain ⟨point, hpoint, rfl⟩ := within_awaits.mp hpoint'
  exact hf point (h.trace point hpoint)

theorem sound_start (config : Config) (solver : Str) (card : Card) :
    Sound config solver [] (resumeArbitrumSettlementFromCollateralPosted card) := by
  refine ⟨?_, fun _ hcall => by simp [resumeArbitrumSettlementFromCollateralPosted] at hcall⟩
  rintro point ⟨⟩
  exact ⟨rfl, by simp, .inl rfl⟩

theorem sequence_step {job : Job} {card : Card} {point : SequencePoint} {seen : List Reply}
    {reply : Reply} {t : Turn Card SequencePoint Call Str}
    (h : sequenceResume config job card point reply = some t)
    (hpoint : SequenceTrace config job.solverAddress (readings seen) point) :
    (∀ point', t.next = .await point' →
      SequenceTrace config job.solverAddress (readings (seen ++ [reply])) point') ∧
    ∀ zkProofHash, .runSolanaPayout zkProofHash ∈ t.calls →
      ∃ onChain, (readings (seen ++ [reply])).getLast? = some onChain ∧
        OwnCollateral job.solverAddress onChain := by
  obtain ⟨now, answer⟩ := reply
  unfold sequenceResume at h
  split at h
  · next hanswer =>
    cases hanswer
    rw [readings_snoc_other _ rfl]
    split at h
    · cases h
      refine ⟨?_, fun _ hcall => by simp at hcall⟩
      rintro point' ⟨⟩
      exact hpoint
    · cases h
      exact ⟨fun _ => nofun, fun _ => nofun⟩
  · next hanswer =>
    cases hanswer
    cases h
    rw [readings_snoc_other _ rfl]
    refine ⟨?_, fun _ => nofun⟩
    rintro point' ⟨⟩
    exact hpoint
  · next hanswer =>
    cases hanswer
    cases h
    have hseen : readings seen = [] := hpoint
    rw [readings_snoc_other _ rfl, hseen]
    refine ⟨sound_within (sound_start _ _ _) fun _ => id, fun _ hcall => ?_⟩
    simp [resumeArbitrumSettlementFromCollateralPosted] at hcall
  · cases h
    exact ⟨fun _ => nofun, fun _ => nofun⟩
  · next point =>
    obtain ⟨t₁, hpay, rfl⟩ := Option.map_eq_some_iff.mp h
    have hsound := sound_pay hpay hpoint
    exact ⟨sound_within hsound fun _ => id, hsound.paid⟩
  · cases h
    exact ⟨fun _ => nofun, fun _ => nofun⟩
  · cases h
    exact ⟨fun _ => nofun, fun _ => nofun⟩
  · cases h

theorem sequence_pays_own (config : Config) (job : Job) (card : Card) :
    PaysOwnOnly config job.solverAddress SequencePoint.inPayout (sequenceResume config job)
      (runArbitrumSettlementSequence card) := by
  refine .of_trace (SequenceTrace config job.solverAddress) ?_ ?_ ?_
    (fun _ _ _ _ _ h hpoint => (sequence_step h hpoint).1)
    (fun _ _ _ _ _ zkProofHash h hpoint => (sequence_step h hpoint).2 zkProofHash) ?_
  · intro zkProofHash
    unfold runArbitrumSettlementSequence
    split <;> simp
  · intro point hpoint
    unfold runArbitrumSettlementSequence at hpoint
    split at hpoint
    · cases hpoint
    · cases hpoint
      rfl
  · rintro seen (_ | _ | point) p hseen ⟨⟩
    exact hseen
  · rintro card (_ | _ | point) seen attempt now onChain t hseen ⟨⟩ h hown hretry
    obtain ⟨t₁, hpay, rfl⟩ := Option.map_eq_some_iff.mp h
    rw [pay_stops hpay hown hretry]
    rfl

theorem posted_step {deps : ResumeDeps} {solver : Str} {card : Card} {point : PostedPoint}
    {seen : List Reply} {reply : Reply} {t : Turn Card PostedPoint Call Str}
    (h : postedResume config deps card point reply = some t)
    (hpoint : PostedTrace config solver (readings seen) point) :
    (∀ point', t.next = .await point' →
      PostedTrace config solver (readings (seen ++ [reply])) point') ∧
    ∀ zkProofHash, .runSolanaPayout zkProofHash ∈ t.calls →
      ∃ onChain, (readings (seen ++ [reply])).getLast? = some onChain ∧
        OwnCollateral solver onChain := by
  unfold postedResume at h
  split at h
  · next json _ zkProofHash point =>
    obtain ⟨t₁, hconfirm, rfl⟩ := Option.map_eq_some_iff.mp h
    rw [caught_calls]
    refine ⟨?_, fun _ hcall => absurd hcall (confirm_never_pays hconfirm _)⟩
    intro point' hpoint'
    obtain ⟨_, -, rfl⟩ := within_awaits.mp (caught_awaits.mp hpoint')
    trivial
  · next json zkProofHash s point =>
    obtain ⟨t₁, hpay, rfl⟩ := Option.map_eq_some_iff.mp h
    obtain ⟨rfl, hpoint⟩ := hpoint
    have hsound := sound_pay hpay hpoint
    rw [caught_calls]
    refine ⟨fun point' hpoint' => ?_, hsound.paid⟩
    exact sound_within hsound (fun _ h => ⟨rfl, h⟩) point' (caught_awaits.mp hpoint')
  · cases h

/-- How `resumeCollateralPostedIntent` starts. -/
theorem resumeCollateralPosted_cases (deps : ResumeDeps) (card : Card) :
    resumeCollateralPostedIntent deps card = ⟨card, [], .returned⟩ ∨
    (∃ zkProofHash, card.isAlreadySettled ∧ resumeCollateralPostedIntent deps card =
      (confirmSettlementWithRetry card).within (.confirm zkProofHash)) ∨
    ∃ entry, card.arb = some entry ∧ resumeCollateralPostedIntent deps card =
      (resumeArbitrumSettlementFromCollateralPosted card).within
        (.pay (recordedSolver deps entry)) := by
  unfold resumeCollateralPostedIntent
  split
  · exact .inl rfl
  · next entry hentry =>
    split
    · exact .inl rfl
    · split
      · exact .inl rfl
      · exact .inl rfl
      · split
        · next hsettled =>
          split
          · exact .inl rfl
          · exact .inr (.inl ⟨_, hsettled, rfl⟩)
        · split
          · exact .inl rfl
          · exact .inl rfl
          · exact .inr (.inr ⟨entry, hentry, rfl⟩)

theorem posted_pays_own (config : Config) (deps : ResumeDeps) (card : Card) :
    PaysOwnOnly config ((card.arb.bind fun entry => entry.solver).getD deps.solverAddress)
      PostedPoint.inPayout (postedResume config deps) (resumeCollateralPostedIntent deps card) := by
  refine .of_trace (PostedTrace config
      ((card.arb.bind fun entry => entry.solver).getD deps.solverAddress)) ?_ ?_ ?_
    (fun _ _ _ _ _ h hpoint => (posted_step h hpoint).1)
    (fun _ _ _ _ _ zkProofHash h hpoint => (posted_step h hpoint).2 zkProofHash) ?_
  · intro zkProofHash
    rcases resumeCollateralPosted_cases deps card with h | ⟨_, -, h⟩ | ⟨_, -, h⟩
    · simp [h]
    · rw [h, within_calls]
      simp [confirmSettlementWithRetry]
    · rw [h, within_calls]
      simp [resumeArbitrumSettlementFromCollateralPosted]
  · intro point hpoint
    rcases resumeCollateralPosted_cases deps card with h | ⟨_, -, h⟩ | ⟨entry, hentry, h⟩
    · rw [h] at hpoint
      cases hpoint
    · rw [h] at hpoint
      obtain ⟨_, -, rfl⟩ := within_awaits.mp hpoint
      trivial
    · rw [h] at hpoint
      refine sound_within (sound_start config (recordedSolver deps entry) card)
        (fun point htrace => ?_) point hpoint
      refine ⟨?_, ?_⟩
      · rw [hentry]
        rfl
      · rwa [hentry]
  · rintro seen (_ | ⟨s, point⟩) p hseen ⟨⟩
    · trivial
    · exact hseen.2
  · rintro card (_ | ⟨s, point⟩) seen attempt now onChain t hseen hpoint h hown hretry
    · cases hpoint
    · cases hpoint
      unfold postedResume at h
      split at h
      · next hpoint => cases hpoint
      · next hpoint =>
        cases hpoint
        obtain ⟨t₁, hpay, rfl⟩ := Option.map_eq_some_iff.mp h
        obtain ⟨rfl, -⟩ := hseen
        rw [pay_stops hpay hown hretry]
        rfl
      · cases h

/-! ## The solver on record -/

def SequencePoint.confirming : SequencePoint → Bool
  | .pay (.confirm _ _) => true
  | _ => false

/-- Before a payout is over, what was signed is the collateral, which puts the solver on record. -/
def SolverRecorded (solver : Str) (seen : List Reply) (card : Card) (point : SequencePoint) :
    Prop :=
  point.confirming = false → (∃ reply ∈ seen, reply.signs) →
    card.arb.bind (fun entry => entry.solver) = some solver

theorem signs_snoc {seen : List Reply} {reply : Reply} (h : reply.signs = false) :
    (∃ r ∈ seen ++ [reply], r.signs) ↔ ∃ r ∈ seen, r.signs := by
  simp [h]

theorem solver_of_setArbitrumStage {card : Card} {stage : ArbitrumStage}
    {patch : RoutedEntry → RoutedEntry} (hpatch : ∀ entry, (patch entry).solver = entry.solver)
    {solver : Str} (h : card.arb.bind (fun entry => entry.solver) = some solver) :
    (card.setArbitrumStage stage patch).arb.bind (fun entry => entry.solver) = some solver := by
  cases harb : card.arb with
  | none =>
    rw [harb] at h
    cases h
  | some entry =>
    rw [harb] at h
    simpa [harb, hpatch] using h

/-- Until it goes on to confirm, a payout writes nothing. -/
theorem pay_keeps_card {job : Job} {card : Card} {point point' : PayPoint} {reply : Reply}
    {t : Turn Card PayPoint Call Str} (h : payResume config job card point reply = some t)
    (hnext : t.next = .await point') (hpoint' : (SequencePoint.pay point').confirming = false) :
    t.state = card ∧ reply.signs = false ∧ (SequencePoint.pay point).confirming = false := by
  obtain ⟨now, answer⟩ := reply
  unfold payResume at h
  split at h
  · next hanswer =>
    cases hanswer
    split at h
    · cases h
      exact ⟨rfl, rfl, rfl⟩
    · split at h
      · cases h
        cases hnext
      · split at h
        · cases h
          cases hnext
        · cases h
          exact ⟨rfl, rfl, rfl⟩
  · next hanswer =>
    cases hanswer
    cases h
    exact ⟨rfl, rfl, rfl⟩
  · cases h
    obtain ⟨_, -, rfl⟩ := within_awaits.mp hnext
    cases hpoint'
  · next hanswer =>
    cases hanswer
    split at h
    · cases h
      exact ⟨rfl, rfl, rfl⟩
    · cases h
      cases hnext
  · next hanswer =>
    cases hanswer
    cases h
    exact ⟨rfl, rfl, rfl⟩
  · obtain ⟨t₁, hconfirm, rfl⟩ := Option.map_eq_some_iff.mp h
    obtain ⟨_, -, rfl⟩ := within_awaits.mp hnext
    cases hpoint'
  · cases h
    cases hnext
  · cases h
    cases hnext
  · cases h

theorem solverRecorded_step {job : Job} {card : Card} {point point' : SequencePoint}
    {seen : List Reply} {reply : Reply} {t : Turn Card SequencePoint Call Str}
    (h : sequenceResume config job card point reply = some t) (hnext : t.next = .await point')
    (hpoint : SolverRecorded job.solverAddress seen card point) :
    SolverRecorded job.solverAddress (seen ++ [reply]) t.state point' := by
  obtain ⟨now, answer⟩ := reply
  unfold sequenceResume at h
  split at h
  · next hanswer =>
    cases hanswer
    split at h
    · cases h
      cases hnext
      exact fun _ hsigns => hpoint rfl ((signs_snoc rfl).mp hsigns)
    · cases h
      cases hnext
  · cases h
    cases hnext
    intro _ _
    simp
  · next hanswer =>
    cases hanswer
    cases h
    intro _ hsigns
    exact solver_of_setArbitrumStage (fun _ => rfl) (hpoint rfl ((signs_snoc rfl).mp hsigns))
  · cases h
    cases hnext
  · next point =>
    obtain ⟨t₁, hpay, rfl⟩ := Option.map_eq_some_iff.mp h
    obtain ⟨point', hnext', rfl⟩ := within_awaits.mp hnext
    intro hpoint' hsigns
    obtain ⟨hstate, hsilent, hbefore⟩ := pay_keeps_card hpay hnext' hpoint'
    rw [within_state, hstate]
    exact hpoint hbefore ((signs_snoc hsilent).mp hsigns)
  · cases h
    cases hnext
  · cases h
    cases hnext
  · cases h

theorem sequence_records_solver (config : Config) (job : Job) (card : Card) {replies : List Reply}
    {t : Turn Card SequencePoint Call Str} {point : SequencePoint}
    (hdrive : drive (sequenceResume config job) (runArbitrumSettlementSequence card) replies =
      some t) (hnext : t.next = .await point) :
    SolverRecorded job.solverAddress replies t.state point := by
  refine drive_invariant
    (I := fun t seen => ∀ point, t.next = .await point →
      SolverRecorded job.solverAddress seen t.state point) ?_ [] hdrive ?_ point hnext
  · intro t seen reply t' hseen hfeed point' hpoint'
    obtain ⟨point, t₁, hnext, hresume, rfl⟩ := feed_eq_some.mp hfeed
    exact solverRecorded_step (t := t₁) hresume hpoint' (hseen point hnext)
  · rintro point - - ⟨reply, hmem, -⟩
    cases hmem

/-- On every path to the payout, at every answer of the chain: inline after the collateral is
posted, with the solver that was put on record when that was signed; and resumed, at a start or
later, with the solver on record or, where there is none, the one by default. -/
theorem never_pays_for_another (config : Config) (card : Card) :
    (∀ job, PaysOwnOnly config job.solverAddress SequencePoint.inPayout
        (sequenceResume config job) (runArbitrumSettlementSequence card) ∧
      ∀ replies t point, drive (sequenceResume config job) (runArbitrumSettlementSequence card)
          replies = some t → t.next = .await point →
        SolverRecorded job.solverAddress replies t.state point) ∧
    ∀ deps, PaysOwnOnly config
      ((card.arb.bind fun entry => entry.solver).getD deps.solverAddress) PostedPoint.inPayout
      (postedResume config deps) (resumeCollateralPostedIntent deps card) :=
  ⟨fun job => ⟨sequence_pays_own config job card,
    fun _ _ _ hdrive hnext => sequence_records_solver config job card hdrive hnext⟩,
    fun deps => posted_pays_own config deps card⟩

-- An entry without a solver, and a chain that is not up to date at first.
example :
    let config : Config := ⟨⟨0, 0, 600⟩, .ofInt 3, .ofInt 2000, .ofInt 30000, [], .ofInt 72000⟩
    let deps : ResumeDeps := ⟨['A'], .present ⟨[], 1, [], 9000⟩ (some []), .builds⟩
    let card : Card := ⟨some { stage := .collateral_posted }, none, {}⟩
    let pending (solver : Str) : Answer := .record ⟨[], 1, [], INTENT_STATUS_PENDING, solver, 1⟩
    (drive (postedResume config deps) (resumeCollateralPostedIntent deps card)
        [⟨0, pending ZERO_ADDRESS⟩, ⟨2000, .elapsed⟩, ⟨2001, pending ['a']⟩]).map Turn.calls =
      some [.readIntent, .sleep (some (.ofInt 2000)), .readIntent, .runSolanaPayout []] := by
  decide

end Maat.Orchestrator.Settlement
