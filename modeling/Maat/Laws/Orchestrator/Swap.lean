import Maat.Laws.Orchestrator.ChainTruth
import Maat.Laws.Orchestrator.Slashing

/-!
# The two legs of a settlement

`confirmSettlement` hands the escrow on Arbitrum to the solver, `slashSolver` hands it and the
collateral to the owner. The first is signed only for an intent whose payout has landed on Solana,
the second only for one whose payout never does.
-/

namespace Maat.Orchestrator

open Js

variable {ι : Type} [DecidableEq ι] {P : Params ι} {w w' : World ι} {i : ι}

/-- A payout of the intent has landed. -/
def World.Delivered (w : World ι) (i : ι) : Prop :=
  ∃ sig p, w.payouts sig = some p ∧ p.intent = i ∧ p.landed = true

/-- What a flow at `point` has been told of the delivery. -/
def PointPaid (w : World ι) : Point ι → Prop
  | .payoutReturned i true | .confirmRead i | .signing i .confirm | .outcome i .confirm _ =>
    w.Delivered i
  | _ => True

structure WorldPaid (w : World ι) : Prop where
  settled : ∀ i, w.settled.isAlreadySettled i = true → w.Delivered i
  recorded : ∀ i sig, w.Recorded i sig → ∃ p, w.payouts sig = some p ∧ p.intent = i
  confirms : ∀ hash tx, w.txs hash = some tx → tx.kind = .confirm → w.Delivered tx.intent

/-- Payouts stay, and stay landed. -/
def PayoutsKept (w w' : World ι) : Prop :=
  ∀ sig p, w.payouts sig = some p →
    ∃ p', w'.payouts sig = some p' ∧ p'.intent = p.intent ∧ (p.landed = true → p'.landed = true)

omit [DecidableEq ι] in
theorem PayoutsKept.of_eq (h : w'.payouts = w.payouts) : PayoutsKept w w' := by
  intro sig p hp
  rw [h]
  exact ⟨p, hp, rfl, id⟩

omit [DecidableEq ι] in
theorem PayoutsKept.update {sig : Str} {p : Payout ι} (p' : Payout ι) (hp : w.payouts sig = some p)
    (hintent : p'.intent = p.intent) (hlanded : p.landed = true → p'.landed = true)
    (h : w'.payouts = Function.update w.payouts sig (some p')) : PayoutsKept w w' := by
  intro sig' q hq
  rw [h]
  by_cases hs : sig' = sig
  · subst hs
    rw [hp] at hq
    cases hq
    exact ⟨p', Function.update_self _ _ _, hintent, hlanded⟩
  · exact ⟨q, (Function.update_of_ne hs _ _).trans hq, rfl, id⟩

omit [DecidableEq ι] in
theorem World.Delivered.kept (h : PayoutsKept w w') (hd : w.Delivered i) : w'.Delivered i := by
  obtain ⟨sig, p, hp, hi, hlanded⟩ := hd
  obtain ⟨p', hp', hi', hlanded'⟩ := h sig p hp
  exact ⟨sig, p', hp', hi'.trans hi, hlanded' hlanded⟩

omit [DecidableEq ι] in
theorem PointPaid.kept (h : PayoutsKept w w') {point : Point ι} (hp : PointPaid w point) :
    PointPaid w' point := by
  cases point with
  | payoutReturned i ok =>
    cases ok with
    | false => trivial
    | true => exact World.Delivered.kept h hp
  | confirmRead i => exact World.Delivered.kept h hp
  | signing i kind =>
    cases kind with
    | confirm => exact World.Delivered.kept h hp
    | _ => trivial
  | outcome i kind hash =>
    cases kind with
    | confirm => exact World.Delivered.kept h hp
    | _ => trivial
  | _ => trivial

/-! ## What a step keeps -/

theorem WorldPaid.of_eq (hw : WorldPaid w) (hpayouts : w'.payouts = w.payouts)
    (hsettled : w'.settled = w.settled) (htxs : w'.txs = w.txs) : WorldPaid w' := by
  have hkept : PayoutsKept w w' := .of_eq hpayouts
  refine ⟨?_, ?_, ?_⟩
  · rw [hsettled]
    exact fun i hi => (hw.settled i hi).kept hkept
  · intro i sig hr
    rw [World.Recorded, hsettled] at hr
    rw [hpayouts]
    exact hw.recorded i sig hr
  · rw [htxs]
    exact fun hash tx htx hkind => (hw.confirms hash tx htx hkind).kept hkept

theorem WorldPaid.onlyArb (hw : WorldPaid w) (h : OnlyArb w w') : WorldPaid w' :=
  hw.of_eq h.payouts h.settled h.txs

/-- Marking an intent settled needs its payout to have landed. -/
theorem WorldPaid.markSettled (hw : WorldPaid w) (hi : w.Delivered i) :
    WorldPaid (w.markSettled i) := by
  refine ⟨?_, ?_, hw.confirms⟩
  · intro j hj
    by_cases h : j = i
    · exact h ▸ hi
    · apply hw.settled j
      change (w.settled.markSettled i).isAlreadySettled j = true at hj
      rwa [SettledLedger.isAlreadySettled, SettledLedger.markSettled, AList.lookup_set_ne h]
        at hj
  · rintro j sig ⟨status, hlookup⟩
    change (w.settled.markSettled i).lookup j = _ at hlookup
    rw [SettledLedger.markSettled] at hlookup
    by_cases h : j = i
    · subst h
      rw [AList.lookup_set] at hlookup
      cases hentry : w.settled.lookup j with
      | none =>
        rw [hentry] at hlookup
        cases hlookup
      | some entry =>
        obtain ⟨status', sig'⟩ := entry
        rw [hentry] at hlookup
        cases hlookup
        exact hw.recorded j sig ⟨status', hentry⟩
    · rw [AList.lookup_set_ne h] at hlookup
      exact hw.recorded j sig ⟨status, hlookup⟩

/-- A transaction is new, or changes in nothing but its state. -/
theorem WorldPaid.updateTx (hw : WorldPaid w) {hash : Str} {new : Option (Tx ι)}
    (hnew : ∀ tx, new = some tx → tx.kind = .confirm → w.Delivered tx.intent) :
    WorldPaid { w with txs := Function.update w.txs hash new } := by
  refine ⟨hw.settled, hw.recorded, ?_⟩
  intro h tx htx hkind
  change Function.update w.txs hash _ h = some tx at htx
  by_cases hh : h = hash
  · subst hh
    rw [Function.update_self] at htx
    exact hnew tx htx hkind
  · rw [Function.update_of_ne hh] at htx
    exact hw.confirms h tx htx hkind

theorem WorldPaid.txThrew (hw : WorldPaid w) {hash : Str} : WorldPaid (w.txThrew hash) := by
  refine hw.updateTx ?_
  intro tx htx hkind
  obtain ⟨tx₀, htx₀, rfl⟩ := Option.map_eq_some_iff.mp htx
  exact hw.confirms hash tx₀ htx₀ hkind

theorem resumed_paid (hw : WorldPaid w) {point : Point ι}
    (h : resumeCollateralPostedIntent P w i = some point) : PointPaid w point := by
  unfold resumeCollateralPostedIntent at h
  split at h
  · cases h
  · split at h
    · cases h
    · split at h
      · cases h
      · split at h
        · next hsettled =>
          cases h
          exact hw.settled i hsettled
        · cases h
          trivial

/-- A settled entry of the ledger leads to `confirmSettlement`. -/
theorem goesOn_paid (hw : WorldPaid w) {next : Next ι} {stop : Stop ι}
    (h : GoesOn P w next stop) : PointPaid w stop.point := by
  cases h with
  | @due passed rest i entry point hdue hpoint =>
    unfold dueEntry at hpoint
    split at hpoint
    · next sig hlookup =>
      split at hpoint
      · cases hpoint
        exact hw.settled i ((Option.any_eq_true _ _).mpr ⟨_, hlookup, rfl⟩)
      · cases hpoint
    · cases hpoint
      trivial
    · cases hpoint
      trivial
  | posted hboot hpoint => exact resumed_paid hw hpoint
  | _ => trivial

/-! ## A flow's step -/

def PaidKept (w w' : World ι) (stop : Option (Stop ι)) : Prop :=
  WorldPaid w' ∧ PayoutsKept w w' ∧ ∀ st, stop = some st → PointPaid w' st.point

theorem PaidKept.wait (hw : WorldPaid w') (hkept : PayoutsKept w w') {point : Point ι}
    (hpoint : PointPaid w' point) {next : Next ι} {checkedAt : Option Int} :
    PaidKept w w' (some ⟨point, next, checkedAt⟩) := by
  refine ⟨hw, hkept, ?_⟩
  intro st hst
  cases hst
  exact hpoint

theorem PaidKept.onward (hw : WorldPaid w') (hkept : PayoutsKept w w') {next : Next ι} :
    PaidKept w w' (goOn P w' next) :=
  ⟨hw, hkept, fun _ hst => goesOn_paid hw (goOn_cases hst)⟩

theorem finishes_paid (hw : WorldPaid w) {next : Next ι} {kind : TxKind} {ok : Bool}
    {hash : Option Str} {stop : Option (Stop ι)}
    (hpoint : kind = .confirm → w.Delivered i) (h : Finishes P w next i hash kind ok w' stop) :
    PaidKept w w' stop := by
  have hw' := hw.onlyArb h.onlyArb
  have hkept : PayoutsKept w w' := .of_eq h.onlyArb.payouts
  cases h with
  | posted =>
    refine .wait hw' hkept ?_
    trivial
  | notPosted => exact .onward hw' hkept
  | confirmed => exact .onward hw' hkept
  | confirmsLate => exact .onward hw' hkept
  | confirmsAgain =>
    refine .wait hw' hkept ?_
    exact hpoint rfl
  | slashed => exact .onward hw' hkept
  | notSlashed => exact .onward hw' hkept

theorem onSigned_paid (hw : WorldPaid w) {next : Next ι} {kind : TxKind} {hash : Str}
    (hpoint : PointPaid w (.signing i kind)) :
    PaidKept w (onSigned P (w.sign i kind hash) i hash kind)
      (some ⟨.outcome i kind hash, next, none⟩) := by
  have hsigned : WorldPaid (w.sign i kind hash) := by
    refine hw.updateTx ?_
    rintro tx ⟨⟩ hkind
    cases hkind
    exact hpoint
  have honly := onlyArb_onSigned (P := P) (w.sign i kind hash) i hash kind
  have hkept : PayoutsKept w (onSigned P (w.sign i kind hash) i hash kind) := .of_eq honly.payouts
  refine .wait (hsigned.onlyArb honly) hkept ?_
  cases kind with
  | confirm =>
    have hdelivered : w.Delivered i := hpoint
    exact hdelivered.kept hkept
  | _ => trivial

theorem runSolanaPayout_paid (hw : WorldPaid w) {next : Next ι} :
    PaidKept w (runSolanaPayout w i).1 (some ⟨(runSolanaPayout w i).2, next, none⟩) := by
  unfold runSolanaPayout
  dsimp only
  split
  · next sig hlookup =>
    refine PaidKept.wait ?_ ?_ ?_
    · exact hw.of_eq rfl rfl rfl
    · exact .of_eq rfl
    · exact hw.settled i ((Option.any_eq_true _ _).mpr ⟨_, hlookup, rfl⟩)
  all_goals
    refine PaidKept.wait ?_ ?_ ?_
    · exact hw.of_eq rfl rfl rfl
    · exact .of_eq rfl
    · trivial

/-- The payout on record is the intent's, so that it landed is that the intent is delivered. -/
theorem delivered_of_recorded (hw : WorldPaid w) {sig : Str} (hr : w.Recorded i sig)
    (hlanded : ((w.payouts sig).any fun p => p.landed) = true) : w.Delivered i := by
  obtain ⟨p, hp, hi⟩ := hw.recorded i sig hr
  rw [hp] at hlanded
  exact ⟨sig, p, hp, hi, hlanded⟩

theorem resumes_paid (hw : WorldPaid w) {next : Next ι} {point : Point ι} {a : Answer}
    {stop : Option (Stop ι)} (hknows : PointKnows w point) (hpoint : PointPaid w point)
    (hchild : ∀ i c, point = .paying i c → a = .closed true → w.Delivered i)
    (htrue : truthful w point a = true) (h : Resumes P w next point a w' stop) :
    PaidKept w w' stop := by
  have hlanded : ∀ {j : ι} {sig : Str}, w.Recorded j sig →
      decide (true = (w.payouts sig).any fun p => p.landed) = true → w.Delivered j :=
    fun hr htold => delivered_of_recorded hw hr (of_decide_eq_true htold).symm
  have hmark : ∀ {j : ι}, PayoutsKept w (w.markSettled j) := .of_eq rfl
  cases h with
  | unrouted => exact .onward (hw.onlyArb (onlyArb_setStage _ _ _ _)) (.of_eq rfl)
  | inProgress => exact .onward hw (.of_eq rfl)
  | gateRefuses => exact .onward (hw.onlyArb (onlyArb_setStage _ _ _ _)) (.of_eq rfl)
  | signed hfresh => exact onSigned_paid hw hpoint
  | @unsigned i kind w' stop hdone =>
    refine finishes_paid hw ?_ (txDone_cases hdone)
    rintro rfl
    exact hpoint
  | @receipt i kind hash ok w' stop hdone =>
    refine finishes_paid hw ?_ (txDone_cases hdone)
    rintro rfl
    exact hpoint
  | @sendThrew i kind hash w' stop hdone =>
    refine finishes_paid hw.txThrew ?_ (txDone_cases hdone)
    rintro rfl
    exact hpoint
  | mismatch => exact .onward hw (.of_eq rfl)
  | verified => exact runSolanaPayout_paid hw
  | payoutAgain => exact runSolanaPayout_paid hw
  | @paid i c =>
    have hdelivered : w.Delivered i := hchild i c rfl rfl
    have hremoved : WorldPaid (w.removeChild c) := hw.of_eq rfl rfl rfl
    have hkept : PayoutsKept w ((w.removeChild c).markSettled i) := .of_eq rfl
    refine .wait (hremoved.markSettled hdelivered) hkept ?_
    exact hdelivered.kept hkept
  | unpaid =>
    refine PaidKept.wait ?_ ?_ ?_
    · exact hw.of_eq rfl rfl rfl
    · exact .of_eq rfl
    · trivial
  | payoutOk =>
    refine .wait hw (.of_eq rfl) ?_
    exact hpoint
  | givesUp => exact .onward (hw.onlyArb (onlyArb_setStage _ _ _ _)) (.of_eq rfl)
  | alreadySettled hstatus =>
    exact .onward (hw.onlyArb (onlyArb_setStage _ _ _ _)) (.of_eq rfl)
  | closedOtherwise => exact .onward hw (.of_eq rfl)
  | confirms =>
    refine .wait hw (.of_eq rfl) ?_
    exact hpoint
  | payoutLanded =>
    have hdelivered := hlanded hknows htrue
    refine .wait (hw.markSettled hdelivered) hmark ?_
    exact hdelivered.kept hmark
  | landedNoProof => exact .onward (hw.markSettled (hlanded hknows htrue)) hmark
  | reconciled hnext => exact .onward (hw.markSettled (hlanded hknows htrue)) hmark
  | bootReconciled => exact .onward (hw.markSettled (hlanded hknows htrue)) hmark
  | notReconciled => exact .onward hw (.of_eq rfl)
  | @resolved i entry found r =>
    have honly := onlyArb_bootResolve w i entry found r
    exact .onward (hw.onlyArb honly) (.of_eq honly.payouts)
  | threw hthrows => exact ⟨hw, .of_eq rfl, fun _ hst => goesOn_paid hw (throws_cases hst)⟩
  | _ =>
    refine .wait hw (.of_eq rfl) ?_
    trivial

/-! ## Around the flows -/

theorem around_payoutsKept {s : Sys ι} {e : Event ι} (hpayouts : Payouts s)
    (h : Around P s.world e w) : PayoutsKept s.world w := by
  cases h with
  | @childSigns c i sig go told hchild hfresh =>
    intro sig' p hp
    have hne : sig' ≠ sig := by
      rintro rfl
      rw [hfresh] at hp
      cases hp
    exact ⟨p, (Function.update_of_ne hne _ _).trans hp, rfl, id⟩
  | @childSends c i sig attached hchild =>
    obtain ⟨p, hp, -⟩ := hpayouts.signed _ _ _ hchild rfl
    rw [hp, Option.map_some]
    exact PayoutsKept.update { p with sent := true } hp rfl id rfl
  | @lands i sig landed hpayout =>
    exact PayoutsKept.update ⟨i, true, true⟩ hpayout rfl (fun _ => rfl) rfl
  | _ => exact .of_eq rfl

theorem around_paid {s : Sys ι} {e : Event ι} (hw : WorldPaid s.world) (hpayouts : Payouts s)
    (h : Around P s.world e w) : WorldPaid w := by
  have hkept := around_payoutsKept hpayouts h
  have hrecorded : ∀ {j : ι} {sig : Str}, s.world.Recorded j sig →
      ∃ p, w.payouts sig = some p ∧ p.intent = j := by
    intro j sig hr
    obtain ⟨p, hp, hj⟩ := hw.recorded j sig hr
    obtain ⟨p', hp', hj', -⟩ := hkept sig p hp
    exact ⟨p', hp', hj'.trans hj⟩
  -- a transaction that is included was signed
  have hupdate : ∀ {hash : Str} {j : ι} {kind : TxKind} {state : TxState} {threw : Bool},
      s.world.txs hash = some ⟨j, kind, .sent, threw⟩ → ∀ h tx,
      Function.update s.world.txs hash (some ⟨j, kind, state, threw⟩) h = some tx →
      tx.kind = .confirm → s.world.Delivered tx.intent := by
    intro hash j kind state threw htx h tx htx' hkind
    by_cases hh : h = hash
    · subst hh
      rw [Function.update_self] at htx'
      cases htx'
      have hd : s.world.Delivered j := hw.confirms h _ htx hkind
      exact hd
    · rw [Function.update_of_ne hh] at htx'
      exact hw.confirms h tx htx' hkind
  have hconfirms : ∀ hash tx, s.world.txs hash = some tx → tx.kind = .confirm →
      w.Delivered tx.intent := fun hash tx htx hkind => (hw.confirms hash tx htx hkind).kept hkept
  cases h with
  | @childSigns c i sig go told hchild hfresh =>
    refine ⟨?_, ?_, hconfirms⟩
    · intro j hj
      obtain ⟨entry, hentry, hstatus⟩ := (Option.any_eq_true _ _).mp hj
      change (s.world.settled.markSettling i sig).lookup j = some entry at hentry
      rw [SettledLedger.markSettling] at hentry
      by_cases h : j = i
      · subst h
        rw [AList.lookup_set] at hentry
        cases hentry
        cases hstatus
      · rw [AList.lookup_set_ne h] at hentry
        exact (hw.settled j ((Option.any_eq_true _ _).mpr ⟨entry, hentry, hstatus⟩)).kept hkept
    · rintro j sig' ⟨status, hlookup⟩
      change (s.world.settled.markSettling i sig).lookup j = _ at hlookup
      rw [SettledLedger.markSettling] at hlookup
      by_cases h : j = i
      · subst h
        rw [AList.lookup_set] at hlookup
        cases hlookup
        exact ⟨_, Function.update_self _ _ _, rfl⟩
      · rw [AList.lookup_set_ne h] at hlookup
        exact hrecorded ⟨status, hlookup⟩
  | included htx hcall => exact ⟨hw.settled, hw.recorded, hupdate htx⟩
  | reverted htx => exact ⟨hw.settled, hw.recorded, hupdate htx⟩
  | _ => exact ⟨fun j hj => (hw.settled j hj).kept hkept, fun j sig hr => hrecorded hr, hconfirms⟩

/-! ## Runs -/

theorem paid_kept (bound : Nat) :
    KeptBy P (fun s _ => Orderly bound s) WorldPaid
      (fun w f => FlowRole w f ∧ PointPaid w f.point) where
  around := by
    intro s e w hok hs h
    refine ⟨around_paid hs.1 hok.payouts h, ?_⟩
    have hkept := around_payoutsKept hok.payouts h
    exact fun f hf => ⟨hf.1.kept (hok.payouts.ledgerKept h), hf.2.kept hkept⟩
  crash hw := hw.of_eq rfl rfl rfl
  begins hw hbegins h := ⟨role_kept.begins trivial hbegins h, goesOn_paid hw h⟩
  job hw hpasses := ⟨role_kept.job trivial hpasses, trivial⟩
  shorter hw hf := ⟨(role_kept (P := P)).shorter trivial hf.1, trivial⟩
  resumed hw hf hpoint := ⟨role_kept.resumed trivial hf.1 hpoint, resumed_paid hw hpoint⟩
  resume := by
    intro s k f a w stop hok hs hflow htrue h
    obtain ⟨hrole, hpoint⟩ := hs.2 k f hflow
    -- the child that ended well has seen its payout land
    have hchild : ∀ i c, f.point = .paying i c → a = .closed true → s.world.Delivered i := by
      rintro i c hpaying rfl
      obtain ⟨child, hc, hi, -⟩ := hok.payouts.awaited k f i c hflow hpaying
      rw [hpaying] at htrue
      change ((s.world.children c).any _) = true at htrue
      rw [hc, Option.any_some] at htrue
      obtain ⟨sig, hsig, hlanded⟩ := (Option.any_eq_true _ _).mp htrue
      obtain ⟨p, hp, hintent⟩ := hok.payouts.signed c child sig hc hsig
      rw [hp] at hlanded
      exact ⟨sig, p, hp, hintent.trans hi, hlanded⟩
    obtain ⟨hw, hkept, hstop⟩ := resumes_paid hs.1 hrole.point hpoint hchild htrue h
    obtain ⟨hledger, hroles⟩ := resumes_role hrole.part hrole.point hrole.next h
    refine ⟨hw, ?_, ?_⟩
    · exact fun g hg => ⟨hg.1.kept hledger, hg.2.kept hkept⟩
    · exact fun st hst => ⟨hroles st _ hst, hstop st hst⟩

structure PaidFor (bound : Nat) (s : Sys ι) : Prop where
  orderly : Orderly bound s
  paid : Each WorldPaid (fun w f => FlowRole w f ∧ PointPaid w f.point) s

theorem PaidFor.step {bound : Nat} {s s' : Sys ι} {e : Event ι} (h : PaidFor bound s)
    (hstep : step P bound s e = some s') : PaidFor bound s' :=
  ⟨h.orderly.step (step_cases hstep), (paid_kept bound).step h.orderly h.paid (step_cases hstep)⟩

theorem initial_paidFor (bound : Nat) (now : Int) : PaidFor bound (Sys.initial (ι := ι) now) := by
  refine ⟨initial_orderly now, ⟨?_, ?_, ?_⟩, ?_⟩
  · intro i hi
    cases hi
  · rintro i sig ⟨status, hlookup⟩
    cases hlookup
  · intro hash tx htx
    cases htx
  · intro k f hf
    cases hf

theorem run_paidFor {bound : Nat} {now : Int} {es : List (Event ι)} {s : Sys ι}
    (h : Run.run (step P bound) (Sys.initial now) es = some s) : PaidFor bound s :=
  Run.run_keeps (fun _ _ _ hs h => hs.step h) h (initial_paidFor bound now)

/-- Whatever crashes and whoever else acts: a `confirmSettlement` is signed, and an intent is
written down as settled, only once a payout of the intent has landed. -/
theorem confirms_after_delivery (P : Params ι) (bound : Nat) (now : Int) (es : List (Event ι))
    (s : Sys ι) (hrun : Run.run (step P bound) (Sys.initial now) es = some s) :
    (∀ hash tx, s.world.txs hash = some tx → tx.kind = .confirm → s.world.Delivered tx.intent) ∧
    ∀ i, s.world.settled.isAlreadySettled i = true → s.world.Delivered i := by
  obtain ⟨hw, -⟩ := (run_paidFor hrun).paid
  exact ⟨hw.confirms, hw.settled⟩

/-- The sample's intent is confirmed, so it was paid. -/
theorem confirms_after_delivery_sample :
    ∃ s, Run.run (step sampleParams 2) (Sys.initial 0) (sampleOpening ++ sampleClosing) = some s ∧
      s.world.txs ['c'] = some ⟨9, .confirm, .success, false⟩ ∧ s.world.Delivered 9 := by
  have hsome : ((Run.run (step sampleParams 2) (Sys.initial 0)
      (sampleOpening ++ sampleClosing)).any fun s =>
        s.world.txs ['c'] == some ⟨9, .confirm, .success, false⟩) = true := by
    decide
  obtain ⟨s, hrun, hs⟩ := (Option.any_eq_true _ _).mp hsome
  have htx := eq_of_beq hs
  exact ⟨s, hrun, htx, (confirms_after_delivery sampleParams 2 0 _ s hrun).1 ['c'] _ htx rfl⟩

/-! ## Both legs -/

/-- Nobody else confirms or slashes: `IntentManager` takes these calls from the orchestrator
alone. -/
def ownCalls : Event ι → Bool
  | .others _ _ .confirmSettlement | .others _ _ .slashSolver => false
  | _ => true

/-- Payouts land in time, and nobody else makes the orchestrator's calls. -/
def inTimeAndAlone (P : Params ι) (s : Sys ι) (e : Event ι) : Bool :=
  landsInTime P s e && ownCalls e

/-- What ended on Arbitrum was ended by a transaction of the orchestrator. -/
structure ChainOwn (w : World ι) : Prop where
  settled : ∀ i, (w.contract i).current.status = INTENT_STATUS_SETTLED →
    ∃ hash, w.IsTx i .confirm hash
  slashed : ∀ i, (w.contract i).current.status = INTENT_STATUS_SLASHED →
    ∃ hash, w.IsTx i .slash hash

omit [DecidableEq ι] in
theorem ChainOwn.of_later (hw : ChainOwn w) (h : Later w w') (hcontract : w'.contract = w.contract) :
    ChainOwn w' := by
  have hkeep : ∀ {i : ι} {kind : TxKind}, (∃ hash, w.IsTx i kind hash) →
      ∃ hash, w'.IsTx i kind hash := fun ⟨hash, htx⟩ => ⟨hash, h.isTx htx⟩
  refine ⟨?_, ?_⟩
  · intro i hi
    rw [hcontract] at hi
    exact hkeep (hw.settled i hi)
  · intro i hi
    rw [hcontract] at hi
    exact hkeep (hw.slashed i hi)

/-- A call that succeeds changes the status of its intent in its own way. -/
theorem ChainOwn.call (hw : ChainOwn w) (h : Later w w') {intent : OnChainIntent}
    {past : List OnChainIntent}
    (hcontract : w'.contract = Function.update w.contract i ⟨intent, past⟩)
    (hsettled : intent.status = INTENT_STATUS_SETTLED → ∃ hash, w'.IsTx i .confirm hash)
    (hslashed : intent.status = INTENT_STATUS_SLASHED → ∃ hash, w'.IsTx i .slash hash) :
    ChainOwn w' := by
  have hkeep : ∀ {j : ι} {kind : TxKind}, (∃ hash, w.IsTx j kind hash) →
      ∃ hash, w'.IsTx j kind hash := fun ⟨hash, htx⟩ => ⟨hash, h.isTx htx⟩
  refine ⟨?_, ?_⟩
  · intro j hj
    rw [hcontract] at hj
    by_cases hji : j = i
    · subst hji
      rw [Function.update_self] at hj
      exact hsettled hj
    · rw [Function.update_of_ne hji] at hj
      exact hkeep (hw.settled j hj)
  · intro j hj
    rw [hcontract] at hj
    by_cases hji : j = i
    · subst hji
      rw [Function.update_self] at hj
      exact hslashed hj
    · rw [Function.update_of_ne hji] at hj
      exact hkeep (hw.slashed j hj)

/-- The status that a call leaves behind. -/
def ChainAction.leaves : ChainAction → Nat
  | .submitIntent _ _ _ | .postCollateral _ _ => INTENT_STATUS_PENDING
  | .confirmSettlement => INTENT_STATUS_SETTLED
  | .slashSolver => INTENT_STATUS_SLASHED
  | .cancelIntent => INTENT_STATUS_EXPIRED
  | .claimRefund => INTENT_STATUS_REFUNDED

theorem apply_status {expiry timestamp : Int} {r intent : OnChainIntent} {action : ChainAction}
    (h : action.apply expiry timestamp r = some intent) : intent.status = action.leaves := by
  have hpending := apply_pending h
  cases action
  all_goals
    unfold ChainAction.apply at h
    dsimp only at h
    split at h
    · cases h
      first
        | exact hpending
        | rfl
    · cases h

theorem Resumes.contract {next : Next ι} {point : Point ι} {a : Answer} {stop : Option (Stop ι)}
    (h : Resumes P w next point a w' stop) : w'.contract = w.contract := by
  cases h with
  | signed hfresh => exact (onlyArb_onSigned (w.sign _ _ _) _ _ _).contract
  | unsigned hdone => exact (txDone_cases hdone).onlyArb.contract
  | receipt hdone => exact (txDone_cases hdone).onlyArb.contract
  | sendThrew hdone => exact (txDone_cases hdone).onlyArb.contract
  | verified =>
    unfold runSolanaPayout
    dsimp only
    split <;> rfl
  | payoutAgain =>
    unfold runSolanaPayout
    dsimp only
    split <;> rfl
  | resolved => exact (onlyArb_bootResolve w _ _ _ _).contract
  | _ => rfl

theorem around_own (hw : WorldTrue w) (hown : ChainOwn w) {e : Event ι} (halone : ownCalls e = true)
    (h : Around P w e w') : ChainOwn w' := by
  have hlater := (around_true hw h).2
  cases h with
  | @included i kind hash timestamp threw intent htx hcall =>
    have hstatus := apply_status hcall
    refine hown.call hlater rfl ?_ ?_
    · intro hs
      rw [hs] at hstatus
      cases kind with
      | confirm => exact ⟨hash, _, Function.update_self _ _ _, rfl, rfl⟩
      | _ => cases hstatus
    · intro hs
      rw [hs] at hstatus
      cases kind with
      | slash => exact ⟨hash, _, Function.update_self _ _ _, rfl, rfl⟩
      | _ => cases hstatus
  | @others i timestamp action intent hcall =>
    have hstatus := apply_status hcall
    refine hown.call hlater rfl ?_ ?_
    · intro hs
      rw [hs] at hstatus
      cases action with
      | confirmSettlement => cases halone
      | _ => cases hstatus
    · intro hs
      rw [hs] at hstatus
      cases action with
      | slashSolver => cases halone
      | _ => cases hstatus
  | _ => exact hown.of_later hlater rfl

theorem own_kept : KeptBy P (fun _ e => ownCalls e = true) (fun w => WorldTrue w ∧ ChainOwn w)
    FlowTrue where
  around := by
    intro s e w hok hs h
    obtain ⟨hw, hlater⟩ := around_true hs.1.1 h
    exact ⟨⟨hw, around_own hs.1.1 hs.1.2 hok h⟩, fun f hf => hf.later hlater⟩
  crash hw := ⟨hw.1.of_eq rfl rfl rfl, hw.2.of_later (.of_eq rfl rfl) rfl⟩
  begins hw := true_kept.begins hw.1
  job hw := true_kept.job hw.1
  shorter hw := (true_kept (P := P)).shorter hw.1
  resumed hw := true_kept.resumed hw.1
  resume := by
    intro s k f a w stop _ hs hflow htrue h
    obtain ⟨hpoint, hnext⟩ := hs.2 k f hflow
    obtain ⟨hw, hlater, hstop⟩ := resumes_true hs.1.1 hpoint hnext htrue h
    exact ⟨⟨hw, hs.1.2.of_later hlater h.contract⟩, fun g hg => hg.later hlater, hstop⟩

/-- Everything the two legs know of each other. -/
structure Swapped (P : Params ι) (bound : Nat) (s : Sys ι) : Prop where
  backed : PaidFor bound s
  due : Each (WorldDue P) (FlowDue P) s
  own : Each (fun w => WorldTrue w ∧ ChainOwn w) FlowTrue s

theorem Swapped.step {bound : Nat} {s s' : Sys ι} {e : Event ι} (h : Swapped P bound s)
    (hok : inTimeAndAlone P s e = true) (hstep : step P bound s e = some s') :
    Swapped P bound s' := by
  obtain ⟨hlands, halone⟩ := Bool.and_eq_true_iff.mp hok
  exact ⟨h.backed.step hstep, (due_kept bound).step ⟨hlands, h.backed.orderly⟩ h.due
    (step_cases hstep), own_kept.step halone h.own (step_cases hstep)⟩

theorem initial_swapped (P : Params ι) (bound : Nat) (now : Int) :
    Swapped P bound (Sys.initial (ι := ι) now) := by
  obtain ⟨htrue, hflows⟩ := initial_true (ι := ι) now
  refine ⟨initial_paidFor bound now, ⟨⟨?_, ?_, ?_⟩, ?_⟩, ⟨htrue, ⟨?_, ?_⟩⟩, hflows⟩
  · intro sig p hp
    cases hp
  · intro i entry hentry
    cases hentry
  · intro hash tx htx
    cases htx
  · intro k f hf
    cases hf
  · intro i hi
    cases hi
  · intro i hi
    cases hi

theorem run_swapped {bound : Nat} {now : Int} {es : List (Event ι)} {s : Sys ι}
    (h : Run.run (Run.restrict (inTimeAndAlone P) (step P bound)) (Sys.initial now) es = some s) :
    Swapped P bound s := by
  refine Run.run_keeps ?_ h (initial_swapped P bound now)
  intro s e s' hs hstep
  obtain ⟨hok, hstep⟩ := Run.restrict_eq_some.mp hstep
  exact hs.step hok hstep

/-- In a run in which payouts land before their intents expire, if at all: an intent that is
settled on Arbitrum has been paid on Solana, one that is slashed has not, and no intent has both a
`confirmSettlement` and a `slashSolver` signed for it. -/
theorem legs_agree (P : Params ι) (bound : Nat) (now : Int) (es : List (Event ι)) (s : Sys ι)
    (hrun : Run.run (Run.restrict (inTimeAndAlone P) (step P bound)) (Sys.initial now) es = some s)
    (i : ι) :
    ((s.world.contract i).current.status = INTENT_STATUS_SETTLED → s.world.Delivered i) ∧
    ((s.world.contract i).current.status = INTENT_STATUS_SLASHED → ¬s.world.Delivered i) ∧
    ∀ hash hash', s.world.IsTx i .confirm hash → ¬s.world.IsTx i .slash hash' := by
  obtain ⟨⟨-, hpaid, -⟩, ⟨hdue, -⟩, ⟨-, hown⟩, -⟩ := run_swapped hrun
  have hconfirmed : ∀ {hash}, s.world.IsTx i .confirm hash → s.world.Delivered i := by
    rintro hash ⟨tx, htx, rfl, hkind⟩
    exact hpaid.confirms hash tx htx hkind
  have hslashed : ∀ {hash}, s.world.IsTx i .slash hash → ¬s.world.Delivered i := by
    rintro hash ⟨tx, htx, rfl, hkind⟩ ⟨sig, p, hp, hi, hlanded⟩
    rw [(hdue.slashed hash tx htx hkind).payouts sig p hp hi] at hlanded
    cases hlanded
  refine ⟨?_, ?_, ?_⟩
  · intro hs
    obtain ⟨hash, htx⟩ := hown.settled i hs
    exact hconfirmed htx
  · intro hs
    obtain ⟨hash, htx⟩ := hown.slashed i hs
    exact hslashed htx
  · intro hash hash' htx htx'
    exact hslashed htx' (hconfirmed htx)

/-- The sample's intent ends settled, and is paid. -/
theorem legs_agree_sample :
    ∃ s, Run.run (Run.restrict (inTimeAndAlone sampleParams) (step sampleParams 2))
        (Sys.initial 0) (sampleOpening ++ sampleClosing) = some s ∧
      (s.world.contract 9).current.status = INTENT_STATUS_SETTLED ∧ s.world.Delivered 9 := by
  have hsome : ((Run.run (Run.restrict (inTimeAndAlone sampleParams) (step sampleParams 2))
      (Sys.initial 0) (sampleOpening ++ sampleClosing)).any fun s =>
        (s.world.contract 9).current.status == INTENT_STATUS_SETTLED) = true := by
    decide
  obtain ⟨s, hrun, hs⟩ := (Option.any_eq_true _ _).mp hsome
  have hsettled := eq_of_beq hs
  exact ⟨s, hrun, hsettled, (legs_agree sampleParams 2 0 _ s hrun 9).1 hsettled⟩

end Maat.Orchestrator
