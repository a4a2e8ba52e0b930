import Maat.Laws.Orchestrator.Stages

/-!
# Flows that overlap

A flow decides before an `await` and writes after it, whatever the entry has become. As long as no
poll and no resumption takes up an intent that another flow is working on, the flows' intents are
apart, closed entries stay, and one transaction of an intent is waited for at a time.
-/

namespace Maat.Orchestrator

open Js

variable {ι : Type} [DecidableEq ι] {P : Params ι} {w w' : World ι} {i : ι}

/-- No flow below `bound` works on the intent. -/
def Sys.idle (s : Sys ι) (bound : Nat) (i : ι) : Bool :=
  (List.range bound).all fun k => (s.flows k).all fun f => decide (i ∉ f.intents)

/-- A poll starts, or a resumption of posted collateral, only on intents that are idle. -/
def startsApart (bound : Nat) (s : Sys ι) : Event ι → Bool
  | .startTick _ => s.world.arb.getAwaitingExpirySlashEntries.all fun e => s.idle bound e.1
  | .resumeNext k _ =>
    match s.flows k with
    | some ⟨_, .newlySettled (i :: _), _, _⟩ =>
      s.idle bound i || (s.world.arb.lookup i).all fun entry => entry.stage != .collateral_posted
    | _ => true
  | _ => true

/-- The stages that nothing follows. -/
def ArbitrumStage.isClosed : ArbitrumStage → Bool
  | .confirmed | .slashed => true
  | _ => false

/-- The intent's entry, if any, is not closed. -/
def World.Open (w : World ι) (i : ι) : Prop :=
  ∀ entry, w.arb.lookup i = some entry → entry.stage.isClosed = false

/-! ## What a flow goes on to -/

theorem World.Open.of_lookup {j : ι} (h : w'.arb.lookup j = w.arb.lookup j) (hj : w.Open j) :
    w'.Open j := by
  unfold World.Open at hj ⊢
  rw [h]
  exact hj

theorem open_setStage {stage : ArbitrumStage}
    {patch : ArbitrumLedgerEntry → ArbitrumLedgerEntry} (h : stage.isClosed = false) :
    (w.setStage i stage patch).Open i := by
  intro entry hentry
  rw [lookup_setStage] at hentry
  cases hentry
  exact h

theorem open_of_stage {entry : ArbitrumLedgerEntry} (hentry : w.arb.lookup i = some entry)
    (h : entry.stage.isClosed = false) : w.Open i := by
  intro entry' hentry'
  rw [hentry] at hentry'
  cases hentry'
  exact h

theorem isClosed_of_mid {stage : ArbitrumStage} (h : stage ∈ midStages) :
    stage.isClosed = false := by
  cases stage <;> first | rfl | simp [midStages] at h

theorem resumeCollateralPosted_open {point : Point ι}
    (h : resumeCollateralPostedIntent P w i = some point) :
    point.acting = some i ∧ w.Open i ∧
      ∃ entry, w.arb.lookup i = some entry ∧ entry.stage = .collateral_posted := by
  have hacting := (resumeCollateralPosted_stage h).1
  unfold resumeCollateralPostedIntent at h
  split at h
  · cases h
  · next entry hentry =>
    split at h
    · cases h
    · next hstage =>
      have hposted := not_not.mp hstage
      exact ⟨hacting, open_of_stage hentry (by rw [hposted]; rfl), entry, hentry, hposted⟩

/-- A loop works on intents that it has listed, or, at boot, on what the ledger shows now. -/
theorem goesOn_intents {next : Next ι} {stop : Stop ι} (h : GoesOn P w next stop)
    (origin : Origin) (checkedAt : Int) (j : ι)
    (hj : j ∈ (stop.flow origin checkedAt).intents) :
    j ∈ next.listed ∨ (next.isBoot = true ∧ w.Open j) := by
  have hmid : ∀ {e : ι × ArbitrumLedgerEntry} {rest : List (ι × ArbitrumLedgerEntry)},
      midEntries w next = e :: rest → j ∈ (e :: rest).map Prod.fst →
      j ∈ next.listed ∨ (next.isBoot = true ∧ w.Open j) := by
    intro e rest hentries hj
    have hboot := isBoot_of_midEntries hentries
    rw [← hentries] at hj
    unfold midEntries at hj
    split at hj
    · obtain ⟨⟨j', entry⟩, hmem, rfl⟩ := List.mem_map.mp hj
      obtain ⟨hentry, hstage⟩ := ArbitrumLedger.mem_entriesAt.mp hmem
      exact Or.inr ⟨hboot, open_of_stage hentry (isClosed_of_mid hstage)⟩
    · exact Or.inl hj
    · cases hj
  cases h with
  | @due passed rest i entry point hdue hpoint =>
    have hacting : point.acting = some i := by
      unfold dueEntry at hpoint
      repeat' split at hpoint
      all_goals cases hpoint
      all_goals rfl
    change j ∈ point.acting.toList ++ rest.map Prod.fst at hj
    rw [hacting] at hj
    refine Or.inl ?_
    rw [Next.listed, List.map_append]
    exact List.mem_append_right _ hj
  | settling => cases hj
  | newly => cases hj
  | bootSettling => cases hj
  | midReceipt hentries hhash => exact hmid hentries hj
  | midRead hentries hhash => exact hmid hentries hj
  | @posted _ i rest point hboot hpoint =>
    obtain ⟨hacting, hopen, -⟩ := resumeCollateralPosted_open hpoint
    change j ∈ point.acting.toList ++ [] at hj
    rw [hacting, List.append_nil] at hj
    rw [List.mem_singleton.mp hj]
    exact Or.inr ⟨hboot, hopen⟩

/-- How a flow proceeds: with the intent, whose entry is not closed then, or past it. -/
inductive Proceeds (P : Params ι) (w : World ι) (point : Point ι) (next : Next ι)
    (w' : World ι) : Option (Stop ι) → Prop where
  | waits {st : Stop ι} (hacting : st.point.acting = point.acting) (hnext : st.next = next)
      (hopen : ∀ j, point.acting = some j → w.Open j → w'.Open j) :
      Proceeds P w point next w' (some st)
  | onward {next' : Next ι} {stop : Option (Stop ι)} (hlisted : next'.listed = next.listed)
      (hboot : next'.isBoot = next.isBoot) (h : ∀ st, stop = some st → GoesOn P w' next' st) :
      Proceeds P w point next w' stop

section Resumes

variable {point : Point ι} {next : Next ι} {stop : Option (Stop ι)}

theorem Proceeds.goOn : Proceeds P w point next w' (goOn P w' next) :=
  .onward rfl rfl fun _ hst => goOn_cases hst

theorem Proceeds.same {st : Stop ι} (hacting : st.point.acting = point.acting)
    (hnext : st.next = next) (harb : w'.arb = w.arb) :
    Proceeds P w point next w' (some st) :=
  .waits hacting hnext fun j _ hj => hj.of_lookup (by rw [harb])

theorem finishes_proceeds {kind : TxKind} {ok : Bool} {hash : Option Str}
    (hacting : point.acting = some i) (h : Finishes P w next i hash kind ok w' stop) :
    Proceeds P w point next w' stop := by
  cases h with
  | posted =>
    refine .waits hacting.symm rfl ?_
    intro j hj _
    rw [hacting] at hj
    cases hj
    exact open_setStage rfl
  | confirmsAgain => exact .same hacting.symm rfl rfl
  | _ => exact .goOn

theorem runSolanaPayout_proceeds (hacting : point.acting = some i) :
    Proceeds P w point next (runSolanaPayout w i).1
      (some ⟨(runSolanaPayout w i).2, next, none⟩) := by
  unfold runSolanaPayout
  dsimp only
  split
  all_goals exact .same hacting.symm rfl rfl

theorem resumes_proceeds {a : Answer} (h : Resumes P w next point a w' stop) :
    Proceeds P w point next w' stop := by
  cases h with
  | unrouted => exact .goOn
  | inProgress => exact .goOn
  | gateRefuses => exact .goOn
  | @signed i kind hash hfresh =>
    refine .waits rfl rfl ?_
    intro j hj _
    cases hj
    cases kind with
    | post solver => exact open_setStage rfl
    | confirm => exact open_setStage rfl
    | slash => exact open_setStage rfl
  | unsigned hdone => exact finishes_proceeds rfl (txDone_cases hdone)
  | receipt hdone => exact finishes_proceeds rfl (txDone_cases hdone)
  | @sendThrew i kind hash w' stop hdone =>
    have hproceeds : Proceeds P (w.txThrew hash) (.outcome i kind hash) next w' stop :=
      finishes_proceeds rfl (txDone_cases hdone)
    cases hproceeds with
    | waits hacting hnext hopen => exact .waits hacting hnext hopen
    | onward hlisted hboot h => exact .onward hlisted hboot h
  | mismatch => exact .goOn
  | verified => exact runSolanaPayout_proceeds rfl
  | givesUp => exact .goOn
  | payoutAgain => exact runSolanaPayout_proceeds rfl
  | alreadySettled hstatus => exact .goOn
  | closedOtherwise => exact .goOn
  | landedNoProof => exact .goOn
  | reconciled hrecon =>
    rw [hrecon]
    refine .onward ?_ ?_ fun _ hst => goOn_cases hst
    · rfl
    · rfl
  | bootReconciled => exact .goOn
  | notReconciled => exact .goOn
  | resolved => exact .goOn
  | threw hthrows => exact .onward rfl rfl fun _ hst => throws_cases hst
  | _ => exact .same rfl rfl rfl

end Resumes

/-! ## Runs in which flows do not overlap -/

/-- No intent is worked on twice, and none whose entry is closed. -/
structure Apart (s : Sys ι) : Prop where
  disjoint : ∀ k l f g, s.flows k = some f → s.flows l = some g → k ≠ l →
    ∀ j ∈ f.intents, j ∉ g.intents
  working : ∀ k f, s.flows k = some f → ∀ j ∈ f.intents, s.world.Open j

section Runs

variable {s s' : Sys ι} {bound k : Nat}

theorem not_mem_of_idle (horderly : Orderly bound s) (hidle : s.idle bound i = true) {f : Flow ι}
    (hf : s.flows k = some f) : i ∉ f.intents := by
  have hk := List.all_eq_true.mp hidle k (List.mem_range.mpr (horderly.alone.bounded k f hf))
  rw [hf, Option.all_some] at hk
  exact of_decide_eq_true hk

/-- A flow comes to work on intents that no other flow has. -/
theorem Apart.put (h : Apart s) {origin : Origin} {checkedAt : Int} {stop : Option (Stop ι)}
    (hworld : ∀ l g, l ≠ k → s.flows l = some g → ∀ j ∈ g.intents, w.Open j)
    (hnew : ∀ st, stop = some st → ∀ j ∈ (st.flow origin checkedAt).intents,
      w.Open j ∧ ∀ l g, l ≠ k → s.flows l = some g → j ∉ g.intents) :
    Apart ((s.setWorld w).put k origin checkedAt stop) := by
  refine ⟨?_, ?_⟩
  · intro l m f g hf hg hne j hjf hjg
    rcases flow_of_put hf with ⟨rfl, st, hst, rfl⟩ | ⟨hl, hfold⟩
    · rcases flow_of_put hg with ⟨rfl, -⟩ | ⟨hm, hgold⟩
      · exact hne rfl
      · exact (hnew st hst j hjf).2 m g hm hgold hjg
    · rcases flow_of_put hg with ⟨rfl, st, hst, rfl⟩ | ⟨hm, hgold⟩
      · exact (hnew st hst j hjg).2 l f hl hfold hjf
      · exact h.disjoint l m f g hfold hgold hne j hjf hjg
  · intro l f hf j hj
    rcases flow_of_put hf with ⟨rfl, st, hst, rfl⟩ | ⟨hl, hf⟩
    · exact (hnew st hst j hj).1
    · exact hworld l f hl hf j hj

theorem Apart.of_no_flows (h : ∀ l, s.flows l = none) : Apart s := by
  refine ⟨?_, ?_⟩
  · intro l m f g hf
    rw [h l] at hf
    cases hf
  · intro l f hf
    rw [h l] at hf
    cases hf

/-- The intents of a flow that does not pay are past the posting of their collateral. -/
theorem pastPosting_of_mem {f : Flow ι} (hstage : FlowStage w f) (hrole : FlowRole w f)
    (hmain : f.origin.main = false) (hi : i ∈ f.intents) : w.PastPosting i := by
  rcases List.mem_append.mp hi with hi | hi
  · rcases acting_cases hstage.point (Option.mem_toList.mp hi) with ⟨hpart, -⟩ | hpart | hpast
    · have hmain' := main_of_opening (hpart ▸ hrole.part)
      rw [hmain] at hmain'
      cases hmain'
    · have hboot := boot_of_mid (hpart ▸ hrole.part)
      rw [hboot] at hmain
      cases hmain
    · exact hpast
  · have hnext := hstage.next
    cases hn : f.next with
    | tick rest =>
      rw [hn] at hi hnext
      obtain ⟨e, he, rfl⟩ := List.mem_map.mp hi
      exact hnext e he
    | bootMid rest =>
      have hisBoot : f.next.isBoot = true := by rw [hn]; rfl
      have hboot := boot_of_isBoot (List.ne_nil_of_mem hrole.part) hisBoot
      rw [hboot] at hmain
      cases hmain
    | _ =>
      rw [hn] at hi
      cases hi

/-- A flow's own step: it keeps to its intents, whose entries no other flow has. -/
theorem Apart.resume (h : Apart s) (horderly : Orderly bound s) (hstaged : Staged s) {f : Flow ι}
    (hf : s.flows k = some f) {a : Answer} {stop : Option (Stop ι)}
    (hresumes : Resumes P s.world f.next f.point a w stop) :
    Apart ((s.setWorld w).put k f.origin f.checkedAt stop) := by
  have hstage := hstaged k f hf
  have htouched := (resumes_stage hstage.point hstage.next hstage.nodup hresumes).touched
  have hlisted : ∀ j ∈ f.next.listed, w.Open j := by
    intro j hj
    refine (h.working k f hf j (List.mem_append_right _ hj)).of_lookup (htouched.others j ?_)
    intro hacting
    have hnodup := hstage.nodup
    unfold Flow.intents at hnodup
    rw [hacting] at hnodup
    exact (List.nodup_cons.mp hnodup).1 hj
  have hkept : ∀ j ∈ f.intents, ∀ l g, l ≠ k → s.flows l = some g → j ∉ g.intents :=
    fun j hj l g hl hg => h.disjoint k l f g hf hg hl.symm j hj
  apply h.put
  · intro l g hl hg j hj
    refine (h.working l g hg j hj).of_lookup (htouched.others j ?_)
    intro hacting
    refine hkept j ?_ l g hl hg hj
    unfold Flow.intents
    rw [hacting]
    exact List.mem_cons_self
  · intro st hst j hj
    cases resumes_proceeds hresumes with
    | waits hacting hnext hopen =>
      cases hst
      have hj : j ∈ f.intents := by
        change j ∈ st.point.acting.toList ++ st.next.listed at hj
        rwa [hacting, hnext] at hj
      refine ⟨?_, hkept j hj⟩
      rcases List.mem_append.mp hj with hpoint | hnext
      · exact hopen j (Option.mem_toList.mp hpoint) (h.working k f hf j hj)
      · exact hlisted j hnext
    | onward hnext hboot hgoes =>
      rcases goesOn_intents (hgoes st hst) f.origin f.checkedAt j hj with hj | ⟨hisBoot, hopen⟩
      · rw [hnext] at hj
        exact ⟨hlisted j hj, hkept j (List.mem_append_right _ hj)⟩
      · -- the boot flow is alone
        rw [hboot] at hisBoot
        have hrole := horderly.roles k f hf
        have horigin := boot_of_isBoot (List.ne_nil_of_mem hrole.part) hisBoot
        refine ⟨hopen, ?_⟩
        intro l g hl hg
        exact absurd (horderly.alone.only_boot hf horigin hg) hl.symm

theorem Apart.step (h : Apart s) (horderly : Orderly bound s) (hstaged : Staged s) {e : Event ι}
    (hok : startsApart bound s e = true) (hstep : Steps P bound s e s') : Apart s' := by
  have hfree : ∀ {l}, s.flows l = none → ∀ g, s.flows l ≠ some g := by
    intro l hl g hg
    rw [hl] at hg
    cases hg
  cases hstep with
  | around hw =>
    refine ⟨h.disjoint, ?_⟩
    intro l f hf j hj
    exact (h.working l f hf j hj).of_lookup (congrArg (AList.lookup j) hw.arb)
  | crash => exact .of_no_flows fun _ => rfl
  | died => exact .of_no_flows fun _ => rfl
  | @boot k hphase hk =>
    have hnone := horderly.alone.no_flows_of_down hphase
    have hbooting : Apart { s with phase := .booting } := ⟨h.disjoint, h.working⟩
    refine hbooting.put (w := s.world) (fun l g _ hg => absurd hg (hfree (hnone l) g)) ?_
    intro st hst j hj
    rcases goesOn_intents (goOn_cases hst) _ _ j hj with hj | ⟨-, hopen⟩
    · cases hj
    · exact ⟨hopen, fun l g _ hg => absurd hg (hfree (hnone l) g)⟩
  | @job k i hphase hk hbound hnoJob hpasses =>
    have hstart : s.world.startable i = true := (Bool.and_eq_true_iff.mp hpasses).2
    refine h.put (w := s.world) (fun l g _ => h.working l g) ?_
    rintro st ⟨⟩ j hj
    obtain rfl : j = i := List.mem_singleton.mp hj
    refine ⟨?_, ?_⟩
    · intro entry hentry
      rw [World.startable, hentry, Option.all_some] at hstart
      rw [eq_of_beq hstart]
      rfl
    · -- every other flow's intents have had their collateral posted
      intro l g _ hg hmem
      exact not_pastPosting_of_startable hstart
        (pastPosting_of_mem (hstaged l g hg) (horderly.roles l g hg)
          (horderly.alone.no_main hphase hnoJob l g hg) hmem)
  | @tick k hphase hk hbound =>
    refine h.put (w := s.world) (fun l g _ => h.working l g) ?_
    intro st hst j hj
    rcases goesOn_intents (goOn_cases hst) _ _ j hj with hj | ⟨hboot, -⟩
    · obtain ⟨e, he, rfl⟩ := List.mem_map.mp hj
      have hidle := List.all_eq_true.mp hok e he
      obtain ⟨hentry, hstage⟩ := ArbitrumLedger.mem_entriesAt.mp he
      refine ⟨open_of_stage hentry ?_, fun l g _ hg => not_mem_of_idle horderly hidle hg⟩
      rw [List.mem_singleton.mp hstage]
      rfl
    · cases hboot
  | @recon k hphase hk hbound =>
    refine h.put (w := s.world) (fun l g _ => h.working l g) ?_
    intro st hst j hj
    rcases goesOn_intents (goOn_cases hst) _ _ j hj with hj | ⟨hboot, -⟩
    · cases hj
    · cases hboot
  | @resumeNext k l origin i ids next checkedAt left stop hflow hne hl hbound hleft hstop =>
    have hpopped : Apart (s.put k origin checkedAt left) := by
      refine h.put (w := s.world) (fun m g _ => h.working m g) ?_
      intro st hst j hj
      rw [hleft] at hst
      split at hst
      · cases hst
      · cases hst
        exact ⟨h.working k _ hflow j hj, fun m g hm hg =>
          h.disjoint k m _ g hflow hg hm.symm j hj⟩
    refine hpopped.put (w := s.world) (fun m g _ => hpopped.working m g) ?_
    intro st hst j hj
    rw [hstop] at hst
    obtain ⟨point, hpoint, rfl⟩ := Option.map_eq_some_iff.mp hst
    obtain ⟨hacting, hopen, entry, hentry, hposted⟩ := resumeCollateralPosted_open hpoint
    have hj : j ∈ point.acting.toList ++ [] := hj
    rw [hacting, List.append_nil] at hj
    obtain rfl : j = i := List.mem_singleton.mp hj
    have hidle : s.idle bound j = true := by
      simp only [startsApart, hflow] at hok
      rcases Bool.or_eq_true_iff.mp hok with hidle | hnot
      · exact hidle
      · rw [hentry, Option.all_some, hposted] at hnot
        cases hnot
    refine ⟨hopen, ?_⟩
    intro m g _ hg hmem
    rcases flow_of_put hg with ⟨rfl, st, hst, rfl⟩ | ⟨-, hg⟩
    · rw [hleft] at hst
      split at hst
      · cases hst
      · cases hst
        exact not_mem_of_idle horderly hidle hflow hmem
    · exact not_mem_of_idle horderly hidle hg hmem
  | resume hflow htrue hresumes => exact h.resume horderly hstaged hflow hresumes

/-- No step takes a closed entry from its stage. -/
theorem Apart.closed (h : Apart s) (hstaged : Staged s) {e : Event ι}
    (hstep : Steps P bound s e s') {entry : ArbitrumLedgerEntry}
    (hentry : s.world.arb.lookup i = some entry) (hclosed : entry.stage.isClosed = true) :
    s'.world.arb.lookup i = some entry := by
  cases hstep with
  | around hw => exact (congrArg (AList.lookup i) hw.arb).trans hentry
  | @resume k f a w stop hflow htrue hresumes =>
    have hstage := hstaged k f hflow
    have htouched := (resumes_stage hstage.point hstage.next hstage.nodup hresumes).touched
    refine (htouched.others i ?_).trans hentry
    intro hacting
    have hopen : entry.stage.isClosed = false := by
      refine h.working k f hflow i ?_ entry hentry
      unfold Flow.intents
      rw [hacting]
      exact List.mem_cons_self
    rw [hclosed] at hopen
    cases hopen
  | _ => exact hentry

/-- What is known of a run in which flows do not overlap. -/
structure Separate (bound : Nat) (s : Sys ι) : Prop where
  orderly : Orderly bound s
  staged : Staged s
  apart : Apart s

theorem Separate.step (h : Separate bound s) {e : Event ι}
    (hstep : Run.restrict (startsApart bound) (step P bound) s e = some s') :
    Separate bound s' := by
  obtain ⟨hok, hstep⟩ := Run.restrict_eq_some.mp hstep
  have hsteps := step_cases hstep
  exact ⟨h.orderly.step hsteps, h.staged.step h.orderly hsteps,
    h.apart.step h.orderly h.staged hok hsteps⟩

theorem run_separate {now : Int} {es : List (Event ι)}
    (h : Run.run (Run.restrict (startsApart bound) (step P bound)) (Sys.initial now) es = some s) :
    Separate bound s := by
  refine Run.run_keeps (fun _ _ _ hs h => hs.step h) h ⟨initial_orderly now, ?_, ?_⟩
  · intro k f hf
    cases hf
  · exact .of_no_flows fun _ => rfl

end Runs

/-- As long as no poll and no resumption takes up an intent that another flow is working on, the
entry of a confirmed or slashed intent stays as it is. -/
theorem closed_entries_stay (P : Params ι) (bound : Nat) (now : Int) (es es' : List (Event ι))
    (s s' : Sys ι)
    (hrun : Run.run (Run.restrict (startsApart bound) (step P bound)) (Sys.initial now) es =
      some s)
    (hrun' : Run.run (Run.restrict (startsApart bound) (step P bound)) s es' = some s') (i : ι)
    (entry : ArbitrumLedgerEntry) (hentry : s.world.arb.lookup i = some entry)
    (hclosed : entry.stage = .confirmed ∨ entry.stage = .slashed) :
    s'.world.arb.lookup i = some entry := by
  have hclosed : entry.stage.isClosed = true := by
    rcases hclosed with hstage | hstage
    · rw [hstage]
      rfl
    · rw [hstage]
      rfl
  refine Run.run_relates (I := Separate bound)
    (R := fun s s' => s.world.arb.lookup i = some entry → s'.world.arb.lookup i = some entry)
    (fun _ => id) (fun _ _ _ h h' => h' ∘ h) ?_ hrun' (run_separate hrun) hentry
  intro s e s' h hstep
  refine ⟨h.step hstep, fun hentry => ?_⟩
  exact h.apart.closed h.staged (step_cases (Run.restrict_eq_some.mp hstep).2) hentry hclosed

/-- The sample ends confirmed, and a reconciliation that finds the payout landed changes
nothing. -/
theorem closed_entries_stay_sample :
    ∃ s s' entry, Run.run (Run.restrict (startsApart 3) (step sampleParams 3)) (Sys.initial 0)
        (sampleOpening ++ [.startRecon 1, .resume 1 (.landed true)] ++ sampleClosing) = some s ∧
      Run.run (Run.restrict (startsApart 3) (step sampleParams 3)) s [.resumeNext 1 2] =
        some s' ∧
      entry.stage = .confirmed ∧ s'.world.arb.lookup 9 = some entry := by
  have hsome : ((Run.run (Run.restrict (startsApart 3) (step sampleParams 3)) (Sys.initial 0)
      (sampleOpening ++ [.startRecon 1, .resume 1 (.landed true)] ++ sampleClosing)).any fun s =>
        ((s.world.arb.lookup 9).any fun entry => entry.stage == .confirmed) &&
          (Run.run (Run.restrict (startsApart 3) (step sampleParams 3)) s
            [.resumeNext 1 2]).isSome) = true := by
    decide
  obtain ⟨s, hrun, hs⟩ := (Option.any_eq_true _ _).mp hsome
  obtain ⟨hentry, hs'⟩ := Bool.and_eq_true_iff.mp hs
  obtain ⟨entry, hentry, hstage⟩ := (Option.any_eq_true _ _).mp hentry
  obtain ⟨s', hrun'⟩ := Option.isSome_iff_exists.mp hs'
  exact ⟨s, s', entry, hrun, hrun', eq_of_beq hstage,
    closed_entries_stay sampleParams 3 0 _ _ s s' hrun hrun' 9 entry hentry
      (Or.inl (eq_of_beq hstage))⟩

/-- The payout lands while the job still waits for its child: a reconciliation finds it, and the
resumption and the job both read that the intent is pending. -/
def sampleOverlap : List (Event Nat) :=
  sampleOpening ++ [.startRecon 1, .resume 1 (.landed true), .resumeNext 1 2,
    .resume 0 (.closed true), .resume 0 .ready, .resume 0 (.record (pendingIntent ['s'] 150)),
    .resume 2 (.record (pendingIntent ['s'] 150)), .resume 0 (.signed ['c'])]

/-- The job confirms the intent, and the resumption signs after that: the entry goes back. -/
theorem confirmed_entry_goes_back :
    ∃ s s' entry entry', Run.run (step sampleParams 3) (Sys.initial 0)
        (sampleOverlap ++ [.included ['c'] 6 true, .resume 0 (.receipt true)]) = some s ∧
      Run.run (step sampleParams 3) s [.resume 2 (.signed ['d'])] = some s' ∧
      s.world.arb.lookup 9 = some entry ∧ entry.stage = .confirmed ∧
      s'.world.arb.lookup 9 = some entry' ∧ entry'.stage = .confirming := by
  have hsome : ((Run.run (step sampleParams 3) (Sys.initial 0)
      (sampleOverlap ++ [.included ['c'] 6 true, .resume 0 (.receipt true)])).any fun s =>
        ((s.world.arb.lookup 9).any fun entry => entry.stage == .confirmed) &&
          (Run.run (step sampleParams 3) s [.resume 2 (.signed ['d'])]).any fun s' =>
            (s'.world.arb.lookup 9).any fun entry => entry.stage == .confirming) = true := by
    decide
  obtain ⟨s, hrun, hs⟩ := (Option.any_eq_true _ _).mp hsome
  obtain ⟨hentry, hs'⟩ := Bool.and_eq_true_iff.mp hs
  obtain ⟨entry, hentry, hstage⟩ := (Option.any_eq_true _ _).mp hentry
  obtain ⟨s', hrun', hentry'⟩ := (Option.any_eq_true _ _).mp hs'
  obtain ⟨entry', hentry', hstage'⟩ := (Option.any_eq_true _ _).mp hentry'
  exact ⟨s, s', entry, entry', hrun, hrun', hentry, eq_of_beq hstage, hentry',
    eq_of_beq hstage'⟩

/-- Flow `k` has signed a transaction of the intent, and its outcome is out. -/
def Sys.Awaits (s : Sys ι) (k : Nat) (i : ι) (hash : Str) : Prop :=
  ∃ f kind, s.flows k = some f ∧ f.point = .outcome i kind hash

/-- As long as no poll and no resumption takes up an intent that another flow is working on, one
flow at most waits for a transaction of an intent, and for one transaction. -/
theorem one_writer (P : Params ι) (bound : Nat) (now : Int) (es : List (Event ι)) (s : Sys ι)
    (hrun : Run.run (Run.restrict (startsApart bound) (step P bound)) (Sys.initial now) es =
      some s) (i : ι) (k l : Nat) (hash hash' : Str) (hk : s.Awaits k i hash)
    (hl : s.Awaits l i hash') : k = l ∧ hash = hash' := by
  obtain ⟨f, kind, hf, hpoint⟩ := hk
  obtain ⟨g, kind', hg, hpoint'⟩ := hl
  have hsame : k = l := by
    by_contra hne
    apply (run_separate hrun).apart.disjoint k l f g hf hg hne i
    · unfold Flow.intents
      rw [hpoint]
      exact List.mem_cons_self
    · unfold Flow.intents
      rw [hpoint']
      exact List.mem_cons_self
  subst hsame
  rw [hf] at hg
  cases hg
  rw [hpoint] at hpoint'
  cases hpoint'
  exact ⟨rfl, rfl⟩

/-- The sample's job waits for its confirmation, and no other flow does. -/
theorem one_writer_sample :
    ∃ s, Run.run (Run.restrict (startsApart 2) (step sampleParams 2)) (Sys.initial 0)
        (sampleOpening ++ sampleClosing.take 4) = some s ∧
      s.Awaits 0 9 ['c'] ∧ ∀ l hash, s.Awaits l 9 hash → 0 = l ∧ ['c'] = hash := by
  have hsome : ((Run.run (Run.restrict (startsApart 2) (step sampleParams 2)) (Sys.initial 0)
      (sampleOpening ++ sampleClosing.take 4)).any fun s =>
        (s.flows 0).any fun f => f.point == .outcome 9 .confirm ['c']) = true := by
    decide
  obtain ⟨s, hrun, hs⟩ := (Option.any_eq_true _ _).mp hsome
  obtain ⟨f, hf, hpoint⟩ := (Option.any_eq_true _ _).mp hs
  have hawaits : s.Awaits 0 9 ['c'] := ⟨f, .confirm, hf, eq_of_beq hpoint⟩
  refine ⟨s, hrun, hawaits, ?_⟩
  intro l hash hl
  exact one_writer sampleParams 2 0 _ s hrun 9 0 l ['c'] hash hawaits hl

/-- The job and the resumption both have a `confirmSettlement` out. -/
theorem two_confirmations_out :
    ∃ s, Run.run (step sampleParams 3) (Sys.initial 0)
        (sampleOverlap ++ [.resume 2 (.signed ['d'])]) = some s ∧
      s.Awaits 0 9 ['c'] ∧ s.Awaits 2 9 ['d'] := by
  have hsome : ((Run.run (step sampleParams 3) (Sys.initial 0)
      (sampleOverlap ++ [.resume 2 (.signed ['d'])])).any fun s =>
        ((s.flows 0).any fun f => f.point == .outcome 9 .confirm ['c']) &&
          (s.flows 2).any fun f => f.point == .outcome 9 .confirm ['d']) = true := by
    decide
  obtain ⟨s, hrun, hs⟩ := (Option.any_eq_true _ _).mp hsome
  obtain ⟨hjob, hresumed⟩ := Bool.and_eq_true_iff.mp hs
  obtain ⟨f, hf, hpoint⟩ := (Option.any_eq_true _ _).mp hjob
  obtain ⟨g, hg, hpoint'⟩ := (Option.any_eq_true _ _).mp hresumed
  exact ⟨s, hrun, ⟨f, .confirm, hf, eq_of_beq hpoint⟩, ⟨g, .confirm, hg, eq_of_beq hpoint'⟩⟩

end Maat.Orchestrator
