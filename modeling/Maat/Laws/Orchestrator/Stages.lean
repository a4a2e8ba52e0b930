import Maat.Laws.Orchestrator.Payouts

/-!
# Stages and the flows that write them

A job works on an intent while its collateral is not out yet; every other flow works on intents
whose collateral was posted. The two do not meet, so an intent never goes back.
-/

namespace Maat.Orchestrator

open Js

variable {ι : Type} [DecidableEq ι] {P : Params ι} {w w' : World ι} {i : ι}

/-- The collateral was posted. -/
def ArbitrumStage.isPosted : ArbitrumStage → Bool
  | .posting_collateral | .collateral_failed => false
  | _ => true

/-- The stages that a boot resolves from the chain. -/
def midStages : List ArbitrumStage := [.posting_collateral, .confirming, .slashing]

/-- The intent's collateral was posted, by the ledger. -/
def World.PastPosting (w : World ι) (i : ι) : Prop :=
  ∃ entry, w.arb.lookup i = some entry ∧ entry.stage.isPosted = true

/-- The intent whose entry a flow may write at `point`. -/
def Point.acting : Point ι → Option ι
  | .selecting i | .balance i _ | .signing i _ | .outcome i _ _ | .verifying i _ _ | .paying i _
  | .payoutReturned i _ | .retrySleep i | .confirmRead i | .checking i _ | .bootReceipt i _ _
  | .bootRead i _ _ => some i
  | .reconciling _ _ | .newlySettled _ => none

/-- The intents whose entries the loop took from the ledger. -/
def Next.listed : Next ι → List ι
  | .tick rest | .bootMid rest => rest.map Prod.fst
  | _ => []

/-- The intents that the flow works on, now or later. -/
def Flow.intents (f : Flow ι) : List ι := f.point.acting.toList ++ f.next.listed

/-- The entry of the intent at `point`. -/
def PointStage (w : World ι) : Point ι → Prop
  | .selecting i | .balance i _ | .signing i (.post _) => w.startable i = true
  | .outcome i (.post _) hash => ∃ entry, w.arb.lookup i = some entry ∧
      entry.stage = .posting_collateral ∧ entry.collateralTxHash = some hash
  | .bootReceipt i entry _ | .bootRead i entry _ =>
    w.arb.lookup i = some entry ∧ entry.stage ∈ midStages
  | .reconciling _ _ | .newlySettled _ => True
  | .signing i _ | .outcome i _ _ | .verifying i _ _ | .paying i _ | .payoutReturned i _
  | .retrySleep i | .confirmRead i | .checking i _ => w.PastPosting i

def NextStage (w : World ι) : Next ι → Prop
  | .tick rest => ∀ e ∈ rest, w.PastPosting e.1
  | .bootMid rest => ∀ e ∈ rest, w.arb.lookup e.1 = some e.2 ∧ e.2.stage ∈ midStages
  | _ => True

structure FlowStage (w : World ι) (f : Flow ι) : Prop where
  point : PointStage w f.point
  next : NextStage w f.next
  nodup : f.intents.Nodup

/-! ## Writing one entry -/

/-- Only the entry of `i` may differ. -/
def Touches (w w' : World ι) (i : ι) : Prop := ∀ j, j ≠ i → w'.arb.lookup j = w.arb.lookup j

theorem touches_setStage (w : World ι) (i : ι) (stage : ArbitrumStage)
    (patch : ArbitrumLedgerEntry → ArbitrumLedgerEntry) : Touches w (w.setStage i stage patch) i :=
  fun _ hj => ArbitrumLedger.lookup_setArbitrumStage_of_ne hj stage patch

theorem lookup_setStage (w : World ι) (i : ι) (stage : ArbitrumStage)
    (patch : ArbitrumLedgerEntry → ArbitrumLedgerEntry) :
    (w.setStage i stage patch).arb.lookup i =
      some { patch ((w.arb.lookup i).getD { stage }) with stage } :=
  ArbitrumLedger.lookup_setArbitrumStage_self w.arb i stage patch

theorem pastPosting_setStage {stage : ArbitrumStage}
    {patch : ArbitrumLedgerEntry → ArbitrumLedgerEntry} (h : stage.isPosted = true) :
    (w.setStage i stage patch).PastPosting i :=
  ⟨_, lookup_setStage w i stage patch, h⟩

theorem World.PastPosting.of_lookup {j : ι} (h : w'.arb.lookup j = w.arb.lookup j)
    (hp : w.PastPosting j) : w'.PastPosting j := by
  unfold World.PastPosting at hp ⊢
  rw [h]
  exact hp

theorem startable_of_lookup {j : ι} (h : w'.arb.lookup j = w.arb.lookup j) :
    w'.startable j = w.startable j := by
  unfold World.startable
  rw [h]

/-- An intent whose collateral was posted is not started again. -/
theorem not_pastPosting_of_startable (h : w.startable i = true) : ¬w.PastPosting i := by
  rintro ⟨entry, hentry, hstage⟩
  rw [World.startable, hentry, Option.all_some] at h
  rw [eq_of_beq h] at hstage
  cases hstage

/-! ## A flow's own step -/

theorem resumeCollateralPosted_stage {point : Point ι}
    (h : resumeCollateralPostedIntent P w i = some point) :
    point.acting = some i ∧ PointStage w point := by
  unfold resumeCollateralPostedIntent at h
  split at h
  · cases h
  · next entry hentry =>
    split at h
    · cases h
    · next hstage =>
      have hpast : w.PastPosting i := by
        refine ⟨entry, hentry, ?_⟩
        rw [not_not.mp hstage]
        rfl
      split at h
      · cases h
      · split at h
        · cases h
          exact ⟨rfl, hpast⟩
        · cases h
          exact ⟨rfl, hpast⟩

theorem dueEntry_stage (hpast : w.PastPosting i) {point : Point ι}
    (h : dueEntry w i = some point) : point.acting = some i ∧ PointStage w point := by
  unfold dueEntry at h
  split at h
  · split at h
    · cases h
      exact ⟨rfl, hpast⟩
    · cases h
  · cases h
    exact ⟨rfl, hpast⟩
  · cases h
    exact ⟨rfl, hpast⟩

theorem midEntries_stage {next : Next ι} (hnext : NextStage w next)
    (hnodup : next.listed.Nodup) :
    (∀ e ∈ midEntries w next, w.arb.lookup e.1 = some e.2 ∧ e.2.stage ∈ midStages) ∧
      ((midEntries w next).map Prod.fst).Nodup := by
  unfold midEntries
  split
  · exact ⟨fun e he => ArbitrumLedger.mem_entriesAt.mp he, ArbitrumLedger.nodup_entriesAt _ _⟩
  · exact ⟨hnext, hnodup⟩
  · refine ⟨?_, List.nodup_nil⟩
    intro e he
    cases he

theorem goesOn_stage {next : Next ι} {stop : Stop ι} (hnext : NextStage w next)
    (hnodup : next.listed.Nodup) (h : GoesOn P w next stop) (origin : Origin)
    (checkedAt : Int) : FlowStage w (stop.flow origin checkedAt) := by
  cases h with
  | @due passed rest i entry point hdue hpoint =>
    have hpast : w.PastPosting i := hnext (i, entry) List.mem_append_cons_self
    obtain ⟨hacting, hstage⟩ := dueEntry_stage hpast hpoint
    refine ⟨hstage, ?_, ?_⟩
    · exact fun e he => hnext e (List.mem_append_right _ (List.mem_cons_of_mem _ he))
    · show (point.acting.toList ++ rest.map Prod.fst).Nodup
      rw [hacting]
      rw [Next.listed, List.map_append] at hnodup
      exact (List.nodup_append.mp hnodup).2.1
  | settling => exact ⟨trivial, trivial, List.nodup_nil⟩
  | newly => exact ⟨trivial, trivial, List.nodup_nil⟩
  | bootSettling => exact ⟨trivial, trivial, List.nodup_nil⟩
  | midReceipt hentries hhash =>
    obtain ⟨hall, hnodup'⟩ := midEntries_stage hnext hnodup
    rw [hentries] at hall hnodup'
    exact ⟨hall _ List.mem_cons_self, fun e he => hall e (List.mem_cons_of_mem _ he), hnodup'⟩
  | midRead hentries hhash =>
    obtain ⟨hall, hnodup'⟩ := midEntries_stage hnext hnodup
    rw [hentries] at hall hnodup'
    exact ⟨hall _ List.mem_cons_self, fun e he => hall e (List.mem_cons_of_mem _ he), hnodup'⟩
  | @posted _ i rest point hboot hpoint =>
    obtain ⟨hacting, hstage⟩ := resumeCollateralPosted_stage hpoint
    refine ⟨hstage, trivial, ?_⟩
    show (point.acting.toList ++ []).Nodup
    rw [hacting]
    exact List.nodup_singleton i

/-- A step of a flow at `point`: other entries are as they were, and no intent goes back. -/
structure Touched (w w' : World ι) (point : Point ι) : Prop where
  others : ∀ j, point.acting ≠ some j → w'.arb.lookup j = w.arb.lookup j
  past : ∀ j, w.PastPosting j → w'.PastPosting j

theorem Touched.same {point : Point ι} (h : w'.arb = w.arb) : Touched w w' point := by
  have hlookup : ∀ j, w'.arb.lookup j = w.arb.lookup j := fun j => by rw [h]
  exact ⟨fun j _ => hlookup j, fun j hj => hj.of_lookup (hlookup j)⟩

/-- The entry of the flow's intent is written. -/
theorem Touched.setStage {point : Point ι} {stage : ArbitrumStage}
    {patch : ArbitrumLedgerEntry → ArbitrumLedgerEntry} (hacting : point.acting = some i)
    (hpast : w.PastPosting i → stage.isPosted = true) :
    Touched w (w.setStage i stage patch) point := by
  have hothers := touches_setStage w i stage patch
  refine ⟨?_, ?_⟩
  · intro j hj
    refine hothers j ?_
    rintro rfl
    exact hj hacting
  · intro j hj
    by_cases hji : j = i
    · subst hji
      exact pastPosting_setStage (hpast hj)
    · exact hj.of_lookup (hothers j hji)

/-- What a flow's step keeps: of the ledger, and of what the flow comes to. -/
structure StageKept (w w' : World ι) (point : Point ι) (stop : Option (Stop ι)) : Prop where
  touched : Touched w w' point
  stop : ∀ st origin checkedAt, stop = some st → FlowStage w' (st.flow origin checkedAt)

section Resumes

variable {point point' : Point ι} {next : Next ι} {stop : Option (Stop ι)}

theorem Touched.nextStage (h : Touched w w' point) (hnext : NextStage w next)
    (hnodup : (point.acting.toList ++ next.listed).Nodup) : NextStage w' next := by
  have hne : ∀ j ∈ next.listed, point.acting ≠ some j := by
    intro j hj hacting
    rw [hacting] at hnodup
    exact (List.nodup_cons.mp hnodup).1 hj
  cases next with
  | tick rest => exact fun e he => h.past e.1 (hnext e he)
  | bootMid rest =>
    intro e he
    rw [h.others e.1 (hne e.1 (List.mem_map_of_mem he))]
    exact hnext e he
  | _ => trivial

theorem StageKept.wait (htouched : Touched w w' point) (hnext : NextStage w next)
    (hnodup : (point.acting.toList ++ next.listed).Nodup)
    (hacting : point'.acting = point.acting) (hstage : PointStage w' point')
    {checkedAt : Option Int} : StageKept w w' point (some ⟨point', next, checkedAt⟩) := by
  refine ⟨htouched, ?_⟩
  intro st origin checkedAt hst
  cases hst
  refine ⟨hstage, htouched.nextStage hnext hnodup, ?_⟩
  show (point'.acting.toList ++ next.listed).Nodup
  rw [hacting]
  exact hnodup

theorem StageKept.onward (htouched : Touched w w' point) (hnext : NextStage w next)
    (hnodup : (point.acting.toList ++ next.listed).Nodup) :
    StageKept w w' point (goOn P w' next) := by
  refine ⟨htouched, ?_⟩
  intro st origin checkedAt hst
  exact goesOn_stage (htouched.nextStage hnext hnodup) (List.nodup_append.mp hnodup).2.1
    (goOn_cases hst) origin checkedAt

/-- The outcome of a transaction; `hpost` is for the collateral's, which has an entry of its own
before and none after. -/
theorem finishes_stage {kind : TxKind} {ok : Bool} {hash : Option Str}
    (hacting : point.acting = some i) (hnext : NextStage w next)
    (hnodup : (point.acting.toList ++ next.listed).Nodup)
    (hpost : ∀ solver, kind = .post solver → ¬w.PastPosting i)
    (hpast : (∀ solver, kind ≠ .post solver) → w.PastPosting i)
    (h : Finishes P w next i hash kind ok w' stop) : StageKept w w' point stop := by
  cases h with
  | posted =>
    refine .wait (.setStage hacting ?_) hnext hnodup ?_ ?_
    · exact fun _ => rfl
    · exact hacting.symm
    · exact pastPosting_setStage rfl
  | notPosted hw =>
    rw [hw]
    refine .onward (.setStage hacting ?_) hnext hnodup
    exact fun hp => absurd hp (hpost _ rfl)
  | confirmed hw =>
    rw [hw]
    refine .onward (.setStage hacting ?_) hnext hnodup
    exact fun _ => rfl
  | confirmsLate => exact .onward (.same rfl) hnext hnodup
  | confirmsAgain =>
    refine .wait (.same rfl) hnext hnodup ?_ ?_
    · exact hacting.symm
    · exact hpast nofun
  | slashed hw =>
    rw [hw]
    refine .onward (.setStage hacting ?_) hnext hnodup
    exact fun _ => rfl
  | notSlashed => exact .onward (.same rfl) hnext hnodup

/-- A transaction is for collateral, and then it is not out yet, or it is out. -/
theorem signing_stage {kind : TxKind} (h : PointStage w (.signing i kind)) :
    (∀ solver, kind = .post solver → ¬w.PastPosting i) ∧
      ((∀ solver, kind ≠ .post solver) → w.PastPosting i) := by
  cases kind with
  | post solver =>
    exact ⟨fun _ _ => not_pastPosting_of_startable h, fun hne => absurd rfl (hne solver)⟩
  | confirm => exact ⟨fun _ => nofun, fun _ => h⟩
  | slash => exact ⟨fun _ => nofun, fun _ => h⟩

theorem not_pastPosting_of_posting {entry : ArbitrumLedgerEntry}
    (hentry : w.arb.lookup i = some entry) (hstage : entry.stage = .posting_collateral) :
    ¬w.PastPosting i := by
  rintro ⟨entry', hentry', hposted⟩
  rw [hentry] at hentry'
  cases hentry'
  rw [hstage] at hposted
  cases hposted

theorem outcome_stage {kind : TxKind} {hash : Str} (h : PointStage w (.outcome i kind hash)) :
    (∀ solver, kind = .post solver → ¬w.PastPosting i) ∧
      ((∀ solver, kind ≠ .post solver) → w.PastPosting i) := by
  cases kind with
  | post solver =>
    obtain ⟨entry, hentry, hstage, -⟩ := h
    exact ⟨fun _ _ => not_pastPosting_of_posting hentry hstage, fun hne => absurd rfl (hne solver)⟩
  | confirm => exact ⟨fun _ => nofun, fun _ => h⟩
  | slash => exact ⟨fun _ => nofun, fun _ => h⟩

theorem onSigned_stage {kind : TxKind} {hash : Str} (hpoint : PointStage w (.signing i kind))
    (hnext : NextStage w next)
    (hnodup : ((Point.signing i kind).acting.toList ++ next.listed).Nodup) :
    StageKept w (onSigned P (w.sign i kind hash) i hash kind) (.signing i kind)
      (some ⟨.outcome i kind hash, next, none⟩) := by
  have hwrite : ∀ stage patch, (w.PastPosting i → stage.isPosted = true) →
      Touched w ((w.sign i kind hash).setStage i stage patch) (.signing i kind) := by
    intro stage patch hpast
    have h : Touched (w.sign i kind hash) ((w.sign i kind hash).setStage i stage patch)
        (.signing i kind) := .setStage rfl hpast
    exact ⟨h.others, h.past⟩
  cases kind with
  | post solver =>
    refine .wait (hwrite _ _ ?_) hnext hnodup ?_ ?_
    · exact fun hp => absurd hp (not_pastPosting_of_startable hpoint)
    · rfl
    · exact ⟨_, lookup_setStage _ i _ _, rfl, rfl⟩
  | confirm =>
    refine .wait (hwrite _ _ ?_) hnext hnodup ?_ ?_
    · exact fun _ => rfl
    · rfl
    · exact pastPosting_setStage rfl
  | slash =>
    refine .wait (hwrite _ _ ?_) hnext hnodup ?_ ?_
    · exact fun _ => rfl
    · rfl
    · exact pastPosting_setStage rfl

theorem bootResolve_stage {entry : ArbitrumLedgerEntry} {found : Option Bool} {r : OnChainIntent}
    (hentry : w.arb.lookup i = some entry) :
    Touched w (bootResolve w i entry found r) (.bootRead i entry found) := by
  unfold bootResolve
  split
  · exact .setStage rfl fun _ => rfl
  · split
    · exact .setStage rfl fun _ => rfl
    · split
      · exact .same rfl
      · split
        · next hstage =>
          split
          · exact .setStage rfl fun _ => rfl
          · exact .setStage rfl fun hp => absurd hp (not_pastPosting_of_posting hentry hstage)
          · exact .same rfl
        · exact .same rfl

theorem runSolanaPayout_stage (hacting : point.acting = some i) (hpast : w.PastPosting i)
    (hnext : NextStage w next) (hnodup : (point.acting.toList ++ next.listed).Nodup) :
    StageKept w (runSolanaPayout w i).1 point (some ⟨(runSolanaPayout w i).2, next, none⟩) := by
  unfold runSolanaPayout
  dsimp only
  split
  all_goals
    refine .wait ?_ hnext hnodup ?_ ?_
    · exact .same rfl
    · exact hacting.symm
    · exact hpast

theorem resumes_stage {a : Answer} (hpoint : PointStage w point) (hnext : NextStage w next)
    (hnodup : (point.acting.toList ++ next.listed).Nodup)
    (h : Resumes P w next point a w' stop) : StageKept w w' point stop := by
  cases h with
  | unrouted =>
    refine .onward (.setStage rfl ?_) hnext hnodup
    exact fun hp => absurd hp (not_pastPosting_of_startable hpoint)
  | routed hstart =>
    refine .wait ?_ hnext hnodup ?_ ?_
    · exact .same rfl
    · rfl
    · exact hpoint
  | inProgress => exact .onward (.same rfl) hnext hnodup
  | gatePasses hgate =>
    refine .wait ?_ hnext hnodup ?_ ?_
    · exact .same rfl
    · rfl
    · exact hpoint
  | gateRefuses =>
    refine .onward (.setStage rfl ?_) hnext hnodup
    exact fun hp => absurd hp (not_pastPosting_of_startable hpoint)
  | signed hfresh => exact onSigned_stage hpoint hnext hnodup
  | unsigned hdone =>
    obtain ⟨hpost, hpast⟩ := signing_stage hpoint
    exact finishes_stage rfl hnext hnodup hpost hpast (txDone_cases hdone)
  | receipt hdone =>
    obtain ⟨hpost, hpast⟩ := outcome_stage hpoint
    exact finishes_stage rfl hnext hnodup hpost hpast (txDone_cases hdone)
  | sendThrew hdone =>
    obtain ⟨hpost, hpast⟩ := outcome_stage hpoint
    obtain ⟨htouched, hstop⟩ :=
      finishes_stage (w := w.txThrew _) rfl hnext hnodup hpost hpast (txDone_cases hdone)
    exact ⟨⟨htouched.others, htouched.past⟩, hstop⟩
  | readAgain =>
    refine .wait ?_ hnext hnodup ?_ ?_
    · exact .same rfl
    · rfl
    · exact hpoint
  | mismatch => exact .onward (.same rfl) hnext hnodup
  | verified => exact runSolanaPayout_stage rfl hpoint hnext hnodup
  | paid =>
    refine .wait ?_ hnext hnodup ?_ ?_
    · exact .same rfl
    · rfl
    · exact hpoint
  | unpaid =>
    refine .wait ?_ hnext hnodup ?_ ?_
    · exact .same rfl
    · rfl
    · exact hpoint
  | payoutOk =>
    refine .wait ?_ hnext hnodup ?_ ?_
    · exact .same rfl
    · rfl
    · exact hpoint
  | retries hnow =>
    refine .wait ?_ hnext hnodup ?_ ?_
    · exact .same rfl
    · rfl
    · exact hpoint
  | givesUp =>
    refine .onward (.setStage rfl ?_) hnext hnodup
    exact fun _ => rfl
  | payoutAgain => exact runSolanaPayout_stage rfl hpoint hnext hnodup
  | alreadySettled hstatus =>
    refine .onward (.setStage rfl ?_) hnext hnodup
    exact fun _ => rfl
  | closedOtherwise => exact .onward (.same rfl) hnext hnodup
  | confirms =>
    refine .wait ?_ hnext hnodup ?_ ?_
    · exact .same rfl
    · rfl
    · exact hpoint
  | payoutLanded =>
    refine .wait ?_ hnext hnodup ?_ ?_
    · exact .same rfl
    · rfl
    · exact hpoint
  | landedNoProof => exact .onward (.same rfl) hnext hnodup
  | slashes =>
    refine .wait ?_ hnext hnodup ?_ ?_
    · exact .same rfl
    · rfl
    · exact hpoint
  | reconciled hrecon => exact .onward (.same rfl) trivial List.nodup_nil
  | bootReconciled => exact .onward (.same rfl) hnext hnodup
  | notReconciled => exact .onward (.same rfl) hnext hnodup
  | receiptRead =>
    refine .wait ?_ hnext hnodup ?_ ?_
    · exact .same rfl
    · rfl
    · exact hpoint
  | noReceipt =>
    refine .wait ?_ hnext hnodup ?_ ?_
    · exact .same rfl
    · rfl
    · exact hpoint
  | resolved => exact .onward (bootResolve_stage hpoint.1) hnext hnodup
  | threw hthrows =>
    refine ⟨.same rfl, ?_⟩
    intro st origin checkedAt hst
    exact goesOn_stage hnext (List.nodup_append.mp hnodup).2.1 (throws_cases hst) origin checkedAt

end Resumes

/-! ## Another flow's step -/

/-- A flow that acts has an intent whose collateral is not out yet, or is, or it is the boot's. -/
theorem acting_cases {point : Point ι} (h : PointStage w point) (hacting : point.acting = some i) :
    (point.part = .opening ∧ ¬w.PastPosting i) ∨ point.part = .mid ∨ w.PastPosting i := by
  cases point with
  | selecting j =>
    cases hacting
    exact Or.inl ⟨rfl, not_pastPosting_of_startable h⟩
  | balance j solver =>
    cases hacting
    exact Or.inl ⟨rfl, not_pastPosting_of_startable h⟩
  | signing j kind =>
    cases hacting
    cases kind with
    | post solver => exact Or.inl ⟨rfl, not_pastPosting_of_startable h⟩
    | confirm => exact Or.inr (Or.inr h)
    | slash => exact Or.inr (Or.inr h)
  | outcome j kind hash =>
    cases hacting
    cases kind with
    | post solver => exact Or.inl ⟨rfl, (outcome_stage h).1 solver rfl⟩
    | confirm => exact Or.inr (Or.inr h)
    | slash => exact Or.inr (Or.inr h)
  | bootReceipt j entry hash => exact Or.inr (Or.inl rfl)
  | bootRead j entry found => exact Or.inr (Or.inl rfl)
  | reconciling j sig => cases hacting
  | newlySettled ids => cases hacting
  | verifying j solver attempt =>
    cases hacting
    exact Or.inr (Or.inr h)
  | paying j c =>
    cases hacting
    exact Or.inr (Or.inr h)
  | payoutReturned j ok =>
    cases hacting
    exact Or.inr (Or.inr h)
  | retrySleep j =>
    cases hacting
    exact Or.inr (Or.inr h)
  | confirmRead j =>
    cases hacting
    exact Or.inr (Or.inr h)
  | checking j sig =>
    cases hacting
    exact Or.inr (Or.inr h)

/-- A flow keeps what it knows while another one acts at `point`: either the entry there is past
its collateral, or it is not and this flow is not one that pays. -/
theorem FlowStage.other {point : Point ι} (h : Touched w w' point) {g : Flow ι}
    (hg : FlowStage w g) (hrole : FlowRole w g)
    (hapart : ∀ j, point.acting = some j → (w.PastPosting j ∧ g.origin ≠ .boot) ∨
      (¬w.PastPosting j ∧ g.origin.main = false)) : FlowStage w' g := by
  have hopen : ∀ {j : ι}, g.origin.main = true → ¬w.PastPosting j →
      w'.arb.lookup j = w.arb.lookup j := by
    intro j hmain hj
    refine h.others j ?_
    intro hacting
    rcases hapart j hacting with ⟨hpast, -⟩ | ⟨-, hnot⟩
    · exact hj hpast
    · rw [hmain] at hnot
      cases hnot
  have hboot : g.origin = .boot → ∀ j, w'.arb.lookup j = w.arb.lookup j := by
    intro horigin j
    refine h.others j ?_
    intro hacting
    rcases hapart j hacting with ⟨-, hne⟩ | ⟨-, hnot⟩
    · exact hne horigin
    · rw [horigin] at hnot
      cases hnot
  obtain ⟨hpoint, hnext, hnodup⟩ := hg
  obtain ⟨hpart, -, -⟩ := hrole
  refine ⟨?_, ?_, hnodup⟩
  · revert hpart hpoint
    cases g.point with
    | selecting j =>
      intro hpoint hpart
      have hnot := not_pastPosting_of_startable hpoint
      exact (startable_of_lookup (hopen (main_of_opening hpart) hnot)).trans hpoint
    | balance j solver =>
      intro hpoint hpart
      have hnot := not_pastPosting_of_startable hpoint
      exact (startable_of_lookup (hopen (main_of_opening hpart) hnot)).trans hpoint
    | signing j kind =>
      cases kind with
      | post solver =>
        intro hpoint hpart
        have hnot := not_pastPosting_of_startable hpoint
        exact (startable_of_lookup (hopen (main_of_opening hpart) hnot)).trans hpoint
      | confirm => exact fun hpoint _ => h.past j hpoint
      | slash => exact fun hpoint _ => h.past j hpoint
    | outcome j kind hash =>
      cases kind with
      | post solver =>
        rintro ⟨entry, hentry, hstage, hhash⟩ hpart
        have hnot := not_pastPosting_of_posting hentry hstage
        exact ⟨entry, (hopen (main_of_opening hpart) hnot).trans hentry, hstage, hhash⟩
      | confirm => exact fun hpoint _ => h.past j hpoint
      | slash => exact fun hpoint _ => h.past j hpoint
    | bootReceipt j entry hash =>
      exact fun hpoint hpart => ⟨(hboot (boot_of_mid hpart) j).trans hpoint.1, hpoint.2⟩
    | bootRead j entry found =>
      exact fun hpoint hpart => ⟨(hboot (boot_of_mid hpart) j).trans hpoint.1, hpoint.2⟩
    | reconciling j sig => exact fun _ _ => trivial
    | newlySettled ids => exact fun _ _ => trivial
    | verifying j solver attempt => exact fun hpoint _ => h.past j hpoint
    | paying j c => exact fun hpoint _ => h.past j hpoint
    | payoutReturned j ok => exact fun hpoint _ => h.past j hpoint
    | retrySleep j => exact fun hpoint _ => h.past j hpoint
    | confirmRead j => exact fun hpoint _ => h.past j hpoint
    | checking j sig => exact fun hpoint _ => h.past j hpoint
  · revert hpart hnext
    cases g.next with
    | tick rest => exact fun hnext _ e he => h.past e.1 (hnext e he)
    | bootMid rest =>
      intro hnext hpart e he
      have hisBoot : (Next.bootMid rest).isBoot = true := rfl
      have horigin := boot_of_isBoot (List.ne_nil_of_mem hpart) hisBoot
      rw [hboot horigin e.1]
      exact hnext e he
    | _ => exact fun _ _ => trivial

/-! ## Runs -/

theorem FlowStage.of_arb (h : w'.arb = w.arb) {f : Flow ι} (hf : FlowStage w f) :
    FlowStage w' f := by
  obtain ⟨hpoint, hnext, hnodup⟩ := hf
  refine ⟨?_, ?_, hnodup⟩
  · unfold PointStage World.startable World.PastPosting at hpoint ⊢
    rw [h]
    exact hpoint
  · unfold NextStage World.PastPosting at hnext ⊢
    rw [h]
    exact hnext

/-- Each flow knows the stage of what it works on. -/
def Staged (s : Sys ι) : Prop := ∀ k f, s.flows k = some f → FlowStage s.world f

theorem Around.arb {e : Event ι} (h : Around P w e w') : w'.arb = w.arb := by
  cases h <;> rfl

theorem begins_stage {origin : Origin} {next : Next ι} (h : Begins w origin next) :
    NextStage w next ∧ next.listed.Nodup := by
  cases h with
  | boot => exact ⟨trivial, List.nodup_nil⟩
  | tick =>
    refine ⟨?_, ArbitrumLedger.nodup_entriesAt _ _⟩
    intro e he
    obtain ⟨hentry, hstage⟩ := ArbitrumLedger.mem_entriesAt.mp he
    refine ⟨e.2, hentry, ?_⟩
    rw [List.mem_singleton.mp hstage]
    rfl
  | recon => exact ⟨trivial, List.nodup_nil⟩

section Runs

variable {s s' : Sys ι} {bound : Nat}

/-- Two flows are apart: where one acts, the other does not pay, or the collateral is out. -/
theorem Orderly.apart (h : Orderly bound s) (hs : Staged s) {k l : Nat} {f g : Flow ι}
    (hf : s.flows k = some f) (hg : s.flows l = some g) (hne : k ≠ l) (j : ι)
    (hacting : f.point.acting = some j) :
    (s.world.PastPosting j ∧ g.origin ≠ .boot) ∨
      (¬s.world.PastPosting j ∧ g.origin.main = false) := by
  have hnotBoot : g.origin ≠ .boot := fun hboot => hne (h.alone.only_boot hg hboot hf).symm
  have hpart := (h.roles k f hf).part
  rcases acting_cases (hs k f hf).point hacting with ⟨hopening, hnot⟩ | hmid | hpast
  · refine Or.inr ⟨hnot, ?_⟩
    rw [hopening] at hpart
    cases hmain : g.origin.main with
    | false => rfl
    | true => exact absurd (h.alone.main k l f g hf hg (main_of_opening hpart) hmain) hne
  · rw [hmid] at hpart
    exact absurd (h.alone.only_boot hf (boot_of_mid hpart) hg) hne
  · exact Or.inl ⟨hpast, hnotBoot⟩

theorem Staged.step (hs : Staged s) (horderly : Orderly bound s) {e : Event ι}
    (hstep : Steps P bound s e s') : Staged s' := by
  -- a loop begins
  have start : ∀ {s₀ : Sys ι} {k origin next}, s₀.world = s.world → s₀.flows = s.flows →
      Begins s.world origin next →
      Staged (s₀.put k origin s.world.now (goOn P s.world next)) := by
    intro s₀ k origin next hworld hflows hbegins l f hl
    rw [put_world, hworld]
    rcases flow_of_put hl with ⟨-, st, hst, rfl⟩ | ⟨-, hl⟩
    · obtain ⟨hnext, hnodup⟩ := begins_stage hbegins
      exact goesOn_stage hnext hnodup (goOn_cases hst) _ _
    · rw [hflows] at hl
      exact hs l f hl
  cases hstep with
  | around h => exact fun k f hf => (hs k f hf).of_arb h.arb
  | crash =>
    intro k f hf
    cases hf
  | died =>
    intro k f hf
    cases hf
  | boot hphase hk => exact start rfl rfl .boot
  | tick hphase hfree hk => exact start rfl rfl .tick
  | recon hphase hfree hk => exact start rfl rfl .recon
  | job hphase hfree hk hnoJob hpasses =>
    intro l f hl
    rcases flow_of_put hl with ⟨-, st, hst, rfl⟩ | ⟨-, hl⟩
    · cases hst
      exact ⟨(Bool.and_eq_true_iff.mp hpasses).2, trivial, List.nodup_singleton _⟩
    · exact hs l f hl
  | resumeNext hflow hne hfree hl hleft hstop =>
    intro m f hm
    rcases flow_of_put hm with ⟨-, st, hst, rfl⟩ | ⟨-, hm⟩
    · rw [hstop] at hst
      obtain ⟨point, hpoint, rfl⟩ := Option.map_eq_some_iff.mp hst
      obtain ⟨hacting, hstage⟩ := resumeCollateralPosted_stage hpoint
      refine ⟨hstage, trivial, ?_⟩
      show (point.acting.toList ++ []).Nodup
      rw [hacting]
      exact List.nodup_singleton _
    · rcases flow_of_put hm with ⟨-, st, hst, rfl⟩ | ⟨-, hm⟩
      · rw [hleft] at hst
        have hold := hs _ _ hflow
        split at hst
        · cases hst
        · cases hst
          exact ⟨trivial, hold.next, hold.nodup⟩
      · exact hs m f hm
  | @resume k f a w stop hflow htrue hresumes =>
    have hf := hs k f hflow
    obtain ⟨htouched, hstop⟩ := resumes_stage hf.point hf.next hf.nodup hresumes
    intro m g hm
    rcases flow_of_put hm with ⟨-, st, hst, rfl⟩ | ⟨hne, hm⟩
    · exact hstop st _ _ hst
    · exact (hs m g hm).other htouched (horderly.roles m g hm)
        (horderly.apart hs hflow hm hne.symm)

end Runs

end Maat.Orchestrator
