import Maat.Laws.Orchestrator.Payouts

/-!
# Slashing

A slash is signed only after the expiry, and after the payout on record, if there is one, was
found not to have landed. A payout that has not landed by the expiry never does, so the intent's
payout does not land later either.
-/

namespace Maat.Orchestrator

open Js

variable {ι : Type} [DecidableEq ι] {P : Params ι} {w w' : World ι} {i : ι}

/-- Payouts land before the intent's expiry, if at all. -/
def landsInTime (P : Params ι) (s : Sys ι) : Event ι → Bool
  | .lands sig => (s.world.payouts sig).all fun p => decide (s.world.now < P.expiry p.intent)
  | _ => true

/-- The intent has expired and no payout of it has landed. -/
structure NotDelivered (P : Params ι) (w : World ι) (i : ι) : Prop where
  expired : P.expiry i ≤ w.now
  payouts : ∀ sig p, w.payouts sig = some p → p.intent = i → p.landed = false

/-- The expiry that is written down, if any, is that of the proof. -/
def ExpiryKnown (P : Params ι) (i : ι) (entry : ArbitrumLedgerEntry) : Prop :=
  ∀ expiry, entry.expiry = some expiry → expiry = P.expiry i

/-- What a flow at `point` knows about the delivery. -/
def PointDue (P : Params ι) (w : World ι) : Point ι → Prop
  | .checking i _ => P.expiry i ≤ w.now
  | .signing i .slash | .outcome i .slash _ => NotDelivered P w i
  | _ => True

/-- A tick's remaining entries carry the expiries of their proofs. -/
def NextDue (P : Params ι) : Next ι → Prop
  | .tick rest => ∀ e ∈ rest, ExpiryKnown P e.1 e.2
  | _ => True

/-- What a flow knows and what it has still to do are due. -/
structure FlowDue (P : Params ι) (w : World ι) (f : Flow ι) : Prop where
  role : FlowRole w f
  point : PointDue P w f.point
  next : NextDue P f.next

/-- Payouts are on record, entries carry the expiry of their proof, and slashes are of intents not
delivered. -/
structure WorldDue (P : Params ι) (w : World ι) : Prop where
  recorded : ∀ sig p, w.payouts sig = some p → w.Recorded p.intent sig
  expiry : ∀ i entry, w.arb.lookup i = some entry → ExpiryKnown P i entry
  slashed : ∀ hash tx, w.txs hash = some tx → tx.kind = .slash → NotDelivered P w tx.intent

/-! ## What is kept -/

/-- Nothing lands after the expiry. -/
structure NoLateLanding (P : Params ι) (w w' : World ι) : Prop where
  now : w.now ≤ w'.now
  payouts : ∀ sig p, w'.payouts sig = some p → p.landed = true →
    (∃ p₀, w.payouts sig = some p₀ ∧ p₀.intent = p.intent ∧ p₀.landed = true) ∨
      w.now < P.expiry p.intent

omit [DecidableEq ι] in
theorem NoLateLanding.of_eq (hnow : w'.now = w.now) (hpayouts : w'.payouts = w.payouts) :
    NoLateLanding P w w' := by
  refine ⟨le_of_eq hnow.symm, ?_⟩
  intro sig p hp hlanded
  rw [hpayouts] at hp
  exact Or.inl ⟨p, hp, rfl, hlanded⟩

omit [DecidableEq ι] in
/-- An intent that was not delivered by its expiry never is. -/
theorem NotDelivered.kept (h : NoLateLanding P w w') (hd : NotDelivered P w i) :
    NotDelivered P w' i := by
  refine ⟨hd.expired.trans h.now, ?_⟩
  intro sig p hp hi
  cases hlanded : p.landed with
  | false => rfl
  | true =>
    rcases h.payouts sig p hp hlanded with ⟨p₀, hp₀, hi₀, hlanded₀⟩ | hlate
    · rw [hd.payouts sig p₀ hp₀ (hi₀.trans hi)] at hlanded₀
      cases hlanded₀
    · rw [hi] at hlate
      exact absurd hd.expired (not_le.mpr hlate)

omit [DecidableEq ι] in
/-- What a flow knows about the delivery stays true while others move. -/
theorem PointDue.kept (h : NoLateLanding P w w') {point : Point ι} (hp : PointDue P w point) :
    PointDue P w' point := by
  cases point with
  | checking i sig => exact le_trans hp h.now
  | signing i kind =>
    cases kind with
    | slash => exact NotDelivered.kept h hp
    | _ => trivial
  | outcome i kind hash =>
    cases kind with
    | slash => exact NotDelivered.kept h hp
    | _ => trivial
  | _ => trivial

/-- A payout on record stands for all of the intent's payouts. -/
theorem notDelivered_of_recorded (hrecorded : ∀ sig p, w.payouts sig = some p →
    w.Recorded p.intent sig) (hexpired : P.expiry i ≤ w.now)
    (hlanded : ∀ sig p, w.Recorded i sig → w.payouts sig = some p → p.landed = false) :
    NotDelivered P w i := by
  refine ⟨hexpired, ?_⟩
  intro sig p hp hi
  exact hlanded sig p (hi ▸ hrecorded sig p hp) hp

/-- An entry that has expired is taken up at a point that is due. -/
theorem dueEntry_due (hw : WorldDue P w) (hexpired : P.expiry i ≤ w.now) {point : Point ι}
    (h : dueEntry w i = some point) : PointDue P w point := by
  unfold dueEntry at h
  split at h
  · split at h
    · cases h
      trivial
    · cases h
  · cases h
    exact hexpired
  · next hsettled hsettling =>
    cases h
    refine notDelivered_of_recorded hw.recorded hexpired ?_
    -- no payout is on record
    rintro sig p ⟨status, hlookup⟩ _
    cases status with
    | settling => exact absurd hlookup (hsettling sig)
    | settled => exact absurd hlookup (hsettled _)

/-- A flow goes on to a point that is due. -/
theorem goesOn_due (hw : WorldDue P w) {next : Next ι} (hnext : NextDue P next) {stop : Stop ι}
    (h : GoesOn P w next stop) : PointDue P w stop.point ∧ NextDue P stop.next := by
  cases h with
  | @due passed rest i entry point hdue hpoint =>
    obtain ⟨expiry, hexpiry, hle⟩ := (Option.any_eq_true _ _).mp hdue
    have hknown : ExpiryKnown P i entry := hnext (i, entry) List.mem_append_cons_self
    refine ⟨dueEntry_due hw ?_ hpoint, ?_⟩
    · rw [← hknown expiry hexpiry]
      exact of_decide_eq_true hle
    · exact fun e he => hnext e (List.mem_append_right _ (List.mem_cons_of_mem _ he))
  | posted hboot hpoint =>
    refine ⟨?_, trivial⟩
    unfold resumeCollateralPostedIntent at hpoint
    repeat' split at hpoint
    all_goals cases hpoint
    all_goals trivial
  | _ => exact ⟨trivial, trivial⟩

/-! ## A flow's step -/

/-- The world may differ in what these facts are not about. -/
theorem WorldDue.of_eq (hw : WorldDue P w) (hnow : w'.now = w.now) (harb : w'.arb = w.arb)
    (htxs : w'.txs = w.txs) (hpayouts : w'.payouts = w.payouts) (hledger : LedgerKept w w') :
    WorldDue P w' := by
  refine ⟨?_, ?_, ?_⟩
  · intro sig p hp
    rw [hpayouts] at hp
    exact hledger.recorded (hw.recorded sig p hp)
  · rw [harb]
    exact hw.expiry
  · rw [htxs]
    exact fun hash tx htx hkind => (hw.slashed hash tx htx hkind).kept (.of_eq hnow hpayouts)

/-- A stage may be set, with the expiry of the proof or the one on record. -/
theorem WorldDue.setStage (hw : WorldDue P w) {stage : ArbitrumStage}
    {patch : ArbitrumLedgerEntry → ArbitrumLedgerEntry}
    (hpatch : ∀ e, (patch e).expiry = some (P.expiry i) ∨ (patch e).expiry = e.expiry) :
    WorldDue P (w.setStage i stage patch) := by
  have hslashed : ∀ hash tx, w.txs hash = some tx → tx.kind = .slash →
      NotDelivered P (w.setStage i stage patch) tx.intent := by
    intro hash tx htx hkind
    obtain ⟨hexpired, hpayouts⟩ := hw.slashed hash tx htx hkind
    exact ⟨hexpired, hpayouts⟩
  refine ⟨hw.recorded, ?_, hslashed⟩
  intro j entry hj expiry hexpiry
  change (w.arb.setArbitrumStage i stage patch).lookup j = some entry at hj
  by_cases h : j = i
  · subst h
    rw [ArbitrumLedger.lookup_setArbitrumStage_self] at hj
    cases hj
    rcases hpatch ((w.arb.lookup j).getD { stage }) with hset | hkeep
    · exact Option.some.inj (hexpiry.symm.trans hset)
    · change (patch _).expiry = _ at hexpiry
      rw [hkeep] at hexpiry
      cases hentry : w.arb.lookup j with
      | none =>
        rw [hentry] at hexpiry
        cases hexpiry
      | some old =>
        rw [hentry] at hexpiry
        exact hw.expiry j old hentry expiry hexpiry
  · rw [ArbitrumLedger.lookup_setArbitrumStage_of_ne h] at hj
    exact hw.expiry j entry hj expiry hexpiry

theorem WorldDue.refuse (hw : WorldDue P w) : WorldDue P (refuse P w i) :=
  hw.setStage fun _ => Or.inl rfl

/-- A transaction is new, or changes in nothing but its state. -/
theorem WorldDue.txs (hw : WorldDue P w) {hash : Str} {new : Option (Tx ι)}
    (hnew : ∀ tx, new = some tx → tx.kind = .slash → NotDelivered P w tx.intent) :
    WorldDue P { w with txs := Function.update w.txs hash new } := by
  refine ⟨hw.recorded, hw.expiry, ?_⟩
  intro h tx htx hkind
  have hd : NotDelivered P w tx.intent := by
    change Function.update w.txs hash _ h = some tx at htx
    by_cases hh : h = hash
    · subst hh
      rw [Function.update_self] at htx
      exact hnew tx htx hkind
    · rw [Function.update_of_ne hh] at htx
      exact hw.slashed h tx htx hkind
  exact ⟨hd.expired, hd.payouts⟩

theorem WorldDue.txThrew (hw : WorldDue P w) {hash : Str} : WorldDue P (w.txThrew hash) := by
  refine hw.txs ?_
  intro tx htx hkind
  obtain ⟨tx₀, htx₀, rfl⟩ := Option.map_eq_some_iff.mp htx
  exact hw.slashed hash tx₀ htx₀ hkind

/-- The world is due after a step, and so is where the flow stops. -/
def DueKept (P : Params ι) (w' : World ι) (stop : Option (Stop ι)) : Prop :=
  WorldDue P w' ∧ ∀ st, stop = some st → PointDue P w' st.point ∧ NextDue P st.next

theorem DueKept.wait (hw : WorldDue P w') {next : Next ι} (hnext : NextDue P next)
    {point : Point ι} (hpoint : PointDue P w' point) {checkedAt : Option Int} :
    DueKept P w' (some ⟨point, next, checkedAt⟩) := by
  refine ⟨hw, ?_⟩
  intro st hst
  cases hst
  exact ⟨hpoint, hnext⟩

theorem DueKept.onward (hw : WorldDue P w') {next : Next ι} (hnext : NextDue P next) :
    DueKept P w' (goOn P w' next) :=
  ⟨hw, fun _ hst => goesOn_due hw hnext (goOn_cases hst)⟩

theorem finishes_due (hw : WorldDue P w) {next : Next ι} (hnext : NextDue P next)
    {kind : TxKind} {ok : Bool} {hash : Option Str} {stop : Option (Stop ι)}
    (h : Finishes P w next i hash kind ok w' stop) : DueKept P w' stop := by
  cases h with
  | posted =>
    apply DueKept.wait (hw.setStage fun _ => Or.inl rfl) hnext
    trivial
  | notPosted hw' =>
    rw [hw']
    exact .onward (hw.setStage fun _ => Or.inl rfl) hnext
  | confirmed hw' =>
    rw [hw']
    exact .onward (hw.setStage fun _ => Or.inl rfl) hnext
  | confirmsLate => exact .onward hw hnext
  | confirmsAgain =>
    apply DueKept.wait hw hnext
    trivial
  | slashed hw' =>
    rw [hw']
    refine .onward (hw.setStage ?_) hnext
    exact fun _ => Or.inr rfl
  | notSlashed => exact .onward hw hnext

/-- A transaction is signed where its point was due. -/
theorem onSigned_due (hw : WorldDue P w) {next : Next ι} (hnext : NextDue P next)
    {kind : TxKind} {hash : Str} (hpoint : PointDue P w (.signing i kind)) :
    DueKept P (onSigned P (w.sign i kind hash) i hash kind)
      (some ⟨.outcome i kind hash, next, none⟩) := by
  have hsigned : WorldDue P (w.sign i kind hash) := by
    refine hw.txs ?_
    rintro tx ⟨⟩ hkind
    cases hkind
    exact hpoint
  cases kind with
  | post solver =>
    apply DueKept.wait (hsigned.setStage fun _ => Or.inl rfl) hnext
    trivial
  | confirm =>
    apply DueKept.wait (hsigned.setStage fun _ => Or.inl rfl) hnext
    trivial
  | slash =>
    refine DueKept.wait (hsigned.setStage ?_) hnext ?_
    · exact fun _ => Or.inr rfl
    · obtain ⟨hexpired, hpayouts⟩ := hpoint
      exact ⟨hexpired, hpayouts⟩

/-- The reconciliation at boot sets stages only. -/
theorem bootResolve_due (hw : WorldDue P w) {entry : ArbitrumLedgerEntry} {found : Option Bool}
    {r : OnChainIntent} : WorldDue P (bootResolve w i entry found r) := by
  unfold bootResolve
  split
  · exact hw.setStage fun _ => Or.inr rfl
  · split
    · exact hw.setStage fun _ => Or.inr rfl
    · split
      · exact hw
      · split
        · split
          · exact hw.setStage fun _ => Or.inr rfl
          · exact hw.setStage fun _ => Or.inr rfl
          · exact hw
        · exact hw

theorem runSolanaPayout_due (hw : WorldDue P w) {next : Next ι} (hnext : NextDue P next) :
    DueKept P (runSolanaPayout w i).1 (some ⟨(runSolanaPayout w i).2, next, none⟩) := by
  unfold runSolanaPayout
  dsimp only
  split
  all_goals
    refine DueKept.wait ?_ hnext ?_
    · exact hw.of_eq rfl rfl rfl rfl (.of_eq rfl)
    · trivial

/-- Whatever a flow is answered truthfully, its step keeps the world due. -/
theorem resumes_due (hw : WorldDue P w) {next : Next ι} {point : Point ι} {a : Answer}
    {stop : Option (Stop ι)} (hknows : PointKnows w point) (hpoint : PointDue P w point)
    (hnext : NextDue P next) (htrue : truthful w point a = true)
    (h : Resumes P w next point a w' stop) : DueKept P w' stop := by
  have hmark : ∀ {j : ι}, WorldDue P (w.markSettled j) :=
    hw.of_eq rfl rfl rfl rfl (.markSettled rfl)
  cases h with
  | unrouted => exact .onward hw.refuse hnext
  | inProgress => exact .onward hw hnext
  | gateRefuses => exact .onward hw.refuse hnext
  | signed hfresh => exact onSigned_due hw hnext hpoint
  | unsigned hdone => exact finishes_due hw hnext (txDone_cases hdone)
  | receipt hdone => exact finishes_due hw hnext (txDone_cases hdone)
  | sendThrew hdone => exact finishes_due hw.txThrew hnext (txDone_cases hdone)
  | mismatch => exact .onward hw hnext
  | verified => exact runSolanaPayout_due hw hnext
  | payoutAgain => exact runSolanaPayout_due hw hnext
  | paid =>
    refine DueKept.wait ?_ hnext ?_
    · exact hw.of_eq rfl rfl rfl rfl (.markSettled rfl)
    · trivial
  | unpaid =>
    refine DueKept.wait ?_ hnext ?_
    · exact hw.of_eq rfl rfl rfl rfl (.of_eq rfl)
    · trivial
  | givesUp => exact .onward (hw.setStage fun _ => Or.inl rfl) hnext
  | alreadySettled hstatus => exact .onward (hw.setStage fun _ => Or.inl rfl) hnext
  | closedOtherwise => exact .onward hw hnext
  | payoutLanded =>
    apply DueKept.wait hmark hnext
    trivial
  | landedNoProof => exact .onward hmark hnext
  | @slashes i sig =>
    -- the payout on record has not landed
    apply DueKept.wait hw hnext
    refine notDelivered_of_recorded hw.recorded hpoint ?_
    rintro sig' p ⟨status', hlookup'⟩ hp
    obtain ⟨status, hlookup⟩ := hknows
    rw [hlookup] at hlookup'
    cases hlookup'
    have hlanded := of_decide_eq_true htrue
    rw [hp] at hlanded
    exact hlanded.symm
  | reconciled hrecon =>
    refine DueKept.onward hmark ?_
    trivial
  | bootReconciled => exact .onward hmark hnext
  | notReconciled => exact .onward hw hnext
  | resolved => exact .onward (bootResolve_due hw) hnext
  | threw hthrows => exact ⟨hw, fun _ hst => goesOn_due hw hnext (throws_cases hst)⟩
  | _ =>
    apply DueKept.wait hw hnext
    trivial

/-! ## Runs -/

/-- A flow's step sends no payout and lands none. -/
theorem Resumes.payouts {next : Next ι} {point : Point ι} {a : Answer} {stop : Option (Stop ι)}
    (htrue : truthful w point a = true) (h : Resumes P w next point a w' stop) :
    w'.payouts = w.payouts := by
  cases resumes_effect htrue h with
  | other hchildren hnext hpayouts => exact hpayouts
  | spawns hlookup hchildren hnext hpayouts => exact hpayouts
  | closes ok hchildren hnext hpayouts => exact hpayouts

theorem Resumes.now {next : Next ι} {point : Point ι} {a : Answer} {stop : Option (Stop ι)}
    (h : Resumes P w next point a w' stop) : w'.now = w.now := by
  cases h with
  | signed hfresh => exact (onlyArb_onSigned (w.sign _ _ _) _ _ _).now
  | unsigned hdone => exact (txDone_cases hdone).onlyArb.now
  | receipt hdone => exact (txDone_cases hdone).onlyArb.now
  | sendThrew hdone => exact (txDone_cases hdone).onlyArb.now
  | verified =>
    unfold runSolanaPayout
    dsimp only
    split <;> rfl
  | payoutAgain =>
    unfold runSolanaPayout
    dsimp only
    split <;> rfl
  | resolved => exact (onlyArb_bootResolve w _ _ _ _).now
  | _ => rfl

omit [DecidableEq ι] in
/-- What has landed after one payout changed had landed before, or lands in time. -/
theorem update_payout {sig sig' : Str} {p p' q : Payout ι} (hp : w.payouts sig = some p)
    (hintent : p'.intent = p.intent) (hlanded : p'.landed = true → p.landed = true ∨
      w.now < P.expiry p.intent)
    (hq : Function.update w.payouts sig (some p') sig' = some q) (hql : q.landed = true) :
    (∃ p₀, w.payouts sig' = some p₀ ∧ p₀.intent = q.intent ∧ p₀.landed = true) ∨
      w.now < P.expiry q.intent := by
  by_cases hs : sig' = sig
  · subst hs
    rw [Function.update_self] at hq
    cases hq
    rcases hlanded hql with h | h
    · exact Or.inl ⟨p, hp, hintent.symm, h⟩
    · exact Or.inr (hintent ▸ h)
  · rw [Function.update_of_ne hs] at hq
    exact Or.inl ⟨q, hq, rfl, hql⟩

/-- What goes on around the flows lands nothing after an expiry. -/
theorem around_noLateLanding {s : Sys ι} {e : Event ι} (hlands : landsInTime P s e = true)
    (hpayouts : Payouts s) (h : Around P s.world e w) : NoLateLanding P s.world w := by
  cases h with
  | time ht => exact ⟨ht, fun sig p hp hl => Or.inl ⟨p, hp, rfl, hl⟩⟩
  | @childSigns c i sig go told hchild hfresh =>
    refine ⟨le_rfl, ?_⟩
    intro sig' p hp hl
    change Function.update s.world.payouts sig _ sig' = some p at hp
    by_cases hs : sig' = sig
    · subst hs
      rw [Function.update_self] at hp
      cases hp
      cases hl
    · rw [Function.update_of_ne hs] at hp
      exact Or.inl ⟨p, hp, rfl, hl⟩
  | @childSends c i sig attached hchild =>
    obtain ⟨p, hp, -⟩ := hpayouts.signed _ _ _ hchild rfl
    rw [hp, Option.map_some]
    refine ⟨le_rfl, ?_⟩
    intro sig' q hq hl
    refine update_payout hp ?_ ?_ hq hl
    · rfl
    · exact Or.inl
  | @lands i sig landed hpayout =>
    rw [landsInTime, hpayout, Option.all_some] at hlands
    have hnow := of_decide_eq_true hlands
    refine ⟨le_rfl, ?_⟩
    intro sig' q hq hl
    refine update_payout hpayout ?_ ?_ hq hl
    · rfl
    · exact fun _ => Or.inr hnow
  | _ => exact .of_eq rfl rfl

/-- What goes on around the flows keeps the world due. -/
theorem around_due {s : Sys ι} {e : Event ι} (hw : WorldDue P s.world)
    (hlands : landsInTime P s e = true) {bound : Nat} (horderly : Orderly bound s)
    (h : Around P s.world e w) : WorldDue P w := by
  have hlate := around_noLateLanding hlands horderly.payouts h
  have hrecorded := (horderly.payouts.around horderly.alone horderly.roles h).recorded
  have hold : ∀ {hash : Str} {tx : Tx ι}, s.world.txs hash = some tx → tx.kind = .slash →
      NotDelivered P w tx.intent := fun htx hkind => (hw.slashed _ _ htx hkind).kept hlate
  -- a transaction that is included was signed
  have hupdate : ∀ {hash : Str} {j : ι} {kind : TxKind} {state : TxState} {threw : Bool},
      s.world.txs hash = some ⟨j, kind, .sent, threw⟩ → ∀ h tx,
      Function.update s.world.txs hash (some ⟨j, kind, state, threw⟩) h = some tx →
      tx.kind = .slash → NotDelivered P w tx.intent := by
    intro hash j kind state threw htx h tx htx' hkind
    by_cases hh : h = hash
    · subst hh
      rw [Function.update_self] at htx'
      cases htx'
      have hd := hold htx hkind
      exact hd
    · rw [Function.update_of_ne hh] at htx'
      exact hold htx' hkind
  cases h with
  | included htx hcall => exact ⟨hrecorded, hw.expiry, hupdate htx⟩
  | reverted htx => exact ⟨hrecorded, hw.expiry, hupdate htx⟩
  | _ => exact ⟨hrecorded, hw.expiry, fun _ _ => hold⟩

/-- All that the invariant asks of a step, for the flows and around them. -/
theorem due_kept (bound : Nat) :
    KeptBy P (fun s e => landsInTime P s e = true ∧ Orderly bound s) (WorldDue P)
      (FlowDue P) where
  around := by
    intro s e w hok hs h
    refine ⟨around_due hs.1 hok.1 hok.2 h, ?_⟩
    have hlate := around_noLateLanding hok.1 hok.2.payouts h
    exact fun f hf => ⟨hf.role.kept (hok.2.payouts.ledgerKept h), hf.point.kept hlate, hf.next⟩
  crash hw := hw.of_eq rfl rfl rfl rfl (.of_eq rfl)
  begins := by
    intro w origin next stop hw hbegins h
    have hnext : NextDue P next := by
      cases hbegins with
      | tick => exact fun e he => hw.expiry e.1 e.2 (ArbitrumLedger.mem_entriesAt.mp he).1
      | _ => trivial
    obtain ⟨hpoint, hnext'⟩ := goesOn_due hw hnext h
    exact ⟨role_kept.begins trivial hbegins h, hpoint, hnext'⟩
  job hw hpasses := ⟨role_kept.job trivial hpasses, trivial, trivial⟩
  shorter hw hf := ⟨(role_kept (P := P)).shorter trivial hf.role, trivial, hf.next⟩
  resumed := by
    intro w origin i ids next checkedAt point hw hf hpoint
    refine ⟨role_kept.resumed trivial hf.role hpoint, ?_, trivial⟩
    unfold resumeCollateralPostedIntent at hpoint
    repeat' split at hpoint
    all_goals cases hpoint
    all_goals trivial
  resume := by
    intro s k f a w stop hok hs hflow htrue h
    have hf := hs.2 k f hflow
    obtain ⟨hw, hstop⟩ := resumes_due hs.1 hf.role.point hf.point hf.next htrue h
    obtain ⟨hledger, hrole⟩ := resumes_role hf.role.part hf.role.point hf.role.next h
    have hlate : NoLateLanding P s.world w := .of_eq h.now (h.payouts htrue)
    refine ⟨hw, ?_, ?_⟩
    · exact fun g hg => ⟨hg.role.kept hledger, hg.point.kept hlate, hg.next⟩
    · exact fun st hst => ⟨hrole st _ hst, (hstop st hst).1, (hstop st hst).2⟩

/-- In a run in which no payout lands after its intent's expiry, no intent that a `slashSolver`
was signed for has a payout that landed. -/
theorem delivered_never_slashed (P : Params ι) (bound : Nat) (now : Int) (es : List (Event ι))
    (s : Sys ι)
    (hrun : Run.run (Run.restrict (landsInTime P) (step P bound)) (Sys.initial now) es = some s)
    (hash : Str) (tx : Tx ι) (htx : s.world.txs hash = some tx) (hslash : tx.kind = .slash)
    (sig : Str) (p : Payout ι) (hp : s.world.payouts sig = some p) (hi : p.intent = tx.intent) :
    p.landed = false := by
  have hinvariant : Orderly bound s ∧ Each (WorldDue P) (FlowDue P) s := by
    refine Run.run_keeps (I := fun s => Orderly bound s ∧ Each (WorldDue P) (FlowDue P) s) ?_
      hrun ⟨initial_orderly now, ?_⟩
    · rintro s e s' ⟨horderly, hdue⟩ hstep
      obtain ⟨hlands, hstep⟩ := Run.restrict_eq_some.mp hstep
      exact ⟨horderly.step (step_cases hstep),
        (due_kept bound).step ⟨hlands, horderly⟩ hdue (step_cases hstep)⟩
    · refine ⟨⟨?_, ?_, ?_⟩, ?_⟩
      · intro sig p hp
        cases hp
      · intro i entry hentry
        cases hentry
      · intro hash tx htx
        cases htx
      · intro k f hf
        cases hf
  exact (hinvariant.2.1.slashed hash tx htx hslash).payouts sig p hp hi

/-- The payout of the sample is sent but does not land, and the solver is slashed. -/
def sampleSlashing : List (Event Nat) :=
  sampleOpening.dropLast ++ [.resume 0 (.closed false), .time 950, .resume 0 .ready, .time 1000,
    .startTick 0, .resume 0 (.landed false), .resume 0 (.signed ['z'])]

theorem delivered_never_slashed_sample :
    ∃ s tx p, Run.run (Run.restrict (landsInTime sampleParams) (step sampleParams 2))
        (Sys.initial 0) sampleSlashing = some s ∧ s.world.txs ['z'] = some tx ∧
      tx.kind = .slash ∧ s.world.payouts ['x'] = some p ∧ p.sent = true ∧ p.landed = false := by
  have hsome : ((Run.run (Run.restrict (landsInTime sampleParams) (step sampleParams 2))
      (Sys.initial 0) sampleSlashing).any fun s =>
        s.world.txs ['z'] == some ⟨9, .slash, .sent, false⟩ &&
          (s.world.payouts ['x']).any fun p => p.intent == 9 && p.sent) = true := by
    decide
  obtain ⟨s, hrun, hs⟩ := (Option.any_eq_true _ _).mp hsome
  obtain ⟨htx, hpayout⟩ := Bool.and_eq_true_iff.mp hs
  obtain ⟨p, hp, hfields⟩ := (Option.any_eq_true _ _).mp hpayout
  obtain ⟨hi, hsent⟩ := Bool.and_eq_true_iff.mp hfields
  exact ⟨s, _, p, hrun, eq_of_beq htx, rfl, hp, hsent,
    delivered_never_slashed sampleParams 2 0 _ s hrun ['z'] _ (eq_of_beq htx) rfl ['x'] p hp
      (eq_of_beq hi)⟩

end Maat.Orchestrator
