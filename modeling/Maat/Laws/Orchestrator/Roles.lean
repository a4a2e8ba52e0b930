import Maat.Laws.Orchestrator.Steps

/-!
# Who does what

Each kind of flow keeps to a part of the protocol, and the flows that may pay (the boot
reconciliation and the job) are never two at a time.
-/

namespace Maat.Orchestrator

open Js

variable {ι : Type} [DecidableEq ι] {P : Params ι} {w w' : World ι} {i : ι}

/-! ## Parts -/

/-- The parts of the protocol: collateral, payout, confirmation, slashing, the reconciliation of
payouts, the resumptions after it, and that of transactions at boot. -/
inductive Part where
  | opening
  | payout
  | confirm
  | slash
  | settling
  | resuming
  | mid
  deriving DecidableEq

def Point.part : Point ι → Part
  | .selecting _ | .balance _ _ | .signing _ (.post _) | .outcome _ (.post _) _ => .opening
  | .verifying _ _ _ | .paying _ _ | .payoutReturned _ _ | .retrySleep _ => .payout
  | .confirmRead _ | .signing _ .confirm | .outcome _ .confirm _ => .confirm
  | .checking _ _ | .signing _ .slash | .outcome _ .slash _ => .slash
  | .reconciling _ _ => .settling
  | .newlySettled _ => .resuming
  | .bootReceipt _ _ _ | .bootRead _ _ _ => .mid

/-- The parts that a flow takes, by the loop it is in. -/
def Origin.parts : Origin → Next ι → List Part
  | .boot, .bootRecon _ => [.settling]
  | .boot, .bootMid _ => [.mid]
  | .boot, .bootPosted _ => [.payout, .confirm]
  | .job, .stop => [.opening, .payout, .confirm]
  | .tick, .tick _ => [.confirm, .slash]
  | .recon, .recon _ _ => [.settling]
  | .recon, .stop => [.resuming]
  | .resume, .stop => [.confirm]
  | _, _ => []

section Parts

variable {origin : Origin} {next : Next ι}

omit [DecidableEq ι] in
theorem payout_of_opening (h : Part.opening ∈ origin.parts next) :
    Part.payout ∈ origin.parts next := by
  cases origin <;> cases next <;> simp [Origin.parts] at h ⊢

omit [DecidableEq ι] in
theorem confirm_of_payout (h : Part.payout ∈ origin.parts next) :
    Part.confirm ∈ origin.parts next := by
  cases origin <;> cases next <;> simp [Origin.parts] at h ⊢

omit [DecidableEq ι] in
theorem confirm_of_slash (h : Part.slash ∈ origin.parts next) :
    Part.confirm ∈ origin.parts next := by
  cases origin <;> cases next <;> simp [Origin.parts] at h ⊢

/-- The flows that pay. -/
def Origin.main : Origin → Bool
  | .boot | .job => true
  | _ => false

omit [DecidableEq ι] in
theorem main_of_payout (h : Part.payout ∈ origin.parts next) : origin.main = true := by
  cases origin <;> cases next <;> simp [Origin.parts, Origin.main] at h ⊢

omit [DecidableEq ι] in
theorem main_of_opening (h : Part.opening ∈ origin.parts next) : origin.main = true :=
  main_of_payout (payout_of_opening h)

omit [DecidableEq ι] in
theorem boot_of_mid (h : Part.mid ∈ origin.parts next) : origin = .boot := by
  cases origin <;> cases next <;> simp [Origin.parts] at h ⊢

omit [DecidableEq ι] in
theorem recon_of_resuming (h : Part.resuming ∈ origin.parts next) :
    origin = .recon ∧ next = .stop := by
  cases origin <;> cases next <;> simp [Origin.parts] at h ⊢

omit [DecidableEq ι] in
theorem boot_of_isBoot (h : origin.parts next ≠ []) (hboot : next.isBoot = true) :
    origin = .boot := by
  cases origin <;> cases next <;> simp [Origin.parts, Next.isBoot] at h hboot ⊢

omit [DecidableEq ι] in
theorem isBoot_of_midEntries {e : ι × ArbitrumLedgerEntry}
    {rest : List (ι × ArbitrumLedgerEntry)} (h : midEntries w next = e :: rest) :
    next.isBoot = true := by
  unfold midEntries at h
  split at h
  · rfl
  · rfl
  · cases h

end Parts

/-! ## The settled ledger -/

/-- The payout of the intent is on record with this signature. -/
def World.Recorded (w : World ι) (i : ι) (sig : Str) : Prop :=
  ∃ status, w.settled.lookup i = some ⟨status, some sig⟩

/-- Entries stay with their signatures, and what is settled stays settled. -/
def LedgerKept (w w' : World ι) : Prop :=
  ∀ i entry, w.settled.lookup i = some entry → ∃ status,
    w'.settled.lookup i = some ⟨status, entry.solanaSig⟩ ∧
      (entry.status = .settled → status = .settled)

theorem LedgerKept.of_eq (h : w'.settled = w.settled) : LedgerKept w w' := by
  intro i entry hentry
  rw [h]
  exact ⟨entry.status, hentry, id⟩

theorem LedgerKept.trans {w₁ w₂ w₃ : World ι} (h : LedgerKept w₁ w₂) (h' : LedgerKept w₂ w₃) :
    LedgerKept w₁ w₃ := by
  intro i entry hentry
  obtain ⟨status, hentry', hsettled⟩ := h i entry hentry
  obtain ⟨status', hentry'', hsettled'⟩ := h' i _ hentry'
  exact ⟨status', hentry'', fun hs => hsettled' (hsettled hs)⟩

theorem LedgerKept.markSettled (h : w'.settled = w.settled.markSettled i) : LedgerKept w w' := by
  intro j entry hentry
  rw [h]
  by_cases hj : j = i
  · subst hj
    refine ⟨.settled, ?_, fun _ => rfl⟩
    rw [SettledLedger.markSettled, AList.lookup_set, hentry]
    rfl
  · rw [SettledLedger.markSettled, AList.lookup_set_ne hj]
    exact ⟨entry.status, hentry, id⟩

theorem LedgerKept.recorded (h : LedgerKept w w') {sig : Str} (hr : w.Recorded i sig) :
    w'.Recorded i sig := by
  obtain ⟨status, hr⟩ := hr
  obtain ⟨status', hr', -⟩ := h i _ hr
  exact ⟨status', hr'⟩

theorem LedgerKept.settled (h : LedgerKept w w')
    (hs : w.settled.isAlreadySettled i = true) : w'.settled.isAlreadySettled i = true := by
  obtain ⟨entry, hentry, hstatus⟩ := (Option.any_eq_true _ _).mp hs
  obtain ⟨status, hentry', hstatus'⟩ := h i entry hentry
  apply (Option.any_eq_true _ _).mpr
  exact ⟨_, hentry', beq_iff_eq.mpr (hstatus' (eq_of_beq hstatus))⟩

/-! ## Roles -/

/-- What the flow knows of the settled ledger at `point`. -/
def PointKnows (w : World ι) : Point ι → Prop
  | .checking i sig | .reconciling i sig => w.Recorded i sig
  | .newlySettled ids => ∀ i ∈ ids, w.settled.isAlreadySettled i = true
  | _ => True

def NextKnows (w : World ι) : Next ι → Prop
  | .recon rest newly =>
    (∀ e ∈ rest, w.Recorded e.1 e.2) ∧ ∀ i ∈ newly, w.settled.isAlreadySettled i = true
  | .bootRecon rest => ∀ e ∈ rest, w.Recorded e.1 e.2
  | _ => True

structure FlowRole (w : World ι) (f : Flow ι) : Prop where
  part : f.point.part ∈ f.origin.parts f.next
  point : PointKnows w f.point
  next : NextKnows w f.next

theorem PointKnows.kept (h : LedgerKept w w') {point : Point ι} (hp : PointKnows w point) :
    PointKnows w' point := by
  cases point with
  | checking i sig => exact h.recorded hp
  | reconciling i sig => exact h.recorded hp
  | newlySettled ids => exact fun i hi => h.settled (hp i hi)
  | _ => trivial

theorem NextKnows.kept (h : LedgerKept w w') {next : Next ι} (hn : NextKnows w next) :
    NextKnows w' next := by
  cases next with
  | recon rest newly =>
    exact ⟨fun e he => h.recorded (hn.1 e he), fun i hi => h.settled (hn.2 i hi)⟩
  | bootRecon rest => exact fun e he => h.recorded (hn e he)
  | _ => trivial

theorem FlowRole.kept (h : LedgerKept w w') {f : Flow ι} (hf : FlowRole w f) : FlowRole w' f :=
  ⟨hf.part, hf.point.kept h, hf.next.kept h⟩

theorem isAlreadySettled_markSettled (ledger : SettledLedger ι) :
    (ledger.markSettled i).isAlreadySettled i = true := by
  rw [SettledLedger.isAlreadySettled, SettledLedger.markSettled, AList.lookup_set]
  rfl

theorem recorded_of_settling {sig : Str} (h : (i, sig) ∈ w.settled.getSettlingEntries) :
    w.Recorded i sig :=
  ⟨.settling, SettledLedger.mem_getSettlingEntries.mp h⟩

/-- A resumption settles or confirms, and only confirms what is settled. -/
theorem resumeCollateralPosted_part {point : Point ι}
    (h : resumeCollateralPostedIntent P w i = some point) :
    (point.part = .confirm ∨ point.part = .payout ∧ w.settled.isAlreadySettled i = false) ∧
      PointKnows w point := by
  unfold resumeCollateralPostedIntent at h
  split at h
  · cases h
  · split at h
    · cases h
    · split at h
      · cases h
      · split at h
        · cases h
          exact ⟨Or.inl rfl, trivial⟩
        · next hsettled =>
          cases h
          exact ⟨Or.inr ⟨rfl, Bool.not_eq_true _ ▸ hsettled⟩, trivial⟩

theorem dueEntry_part {point : Point ι} (h : dueEntry w i = some point) :
    (point.part = .confirm ∨ point.part = .slash) ∧ PointKnows w point := by
  unfold dueEntry at h
  split at h
  · split at h
    · cases h
      exact ⟨Or.inl rfl, trivial⟩
    · cases h
  · next sig hlookup =>
    cases h
    exact ⟨Or.inr rfl, .settling, hlookup⟩
  · cases h
    exact ⟨Or.inr rfl, trivial⟩

/-- The loop is one of the origin's. -/
theorem goesOn_role {origin : Origin} {next : Next ι} {stop : Stop ι} {checkedAt : Int}
    (hparts : origin.parts next ≠ []) (hknows : NextKnows w next) (h : GoesOn P w next stop) :
    FlowRole w (stop.flow origin checkedAt) := by
  cases h with
  | due hdue hpoint =>
    obtain ⟨hpart, hpoint⟩ := dueEntry_part hpoint
    refine ⟨?_, hpoint, trivial⟩
    cases origin with
    | tick =>
      show _ ∈ [Part.confirm, Part.slash]
      rcases hpart with h | h
      · rw [Stop.flow, h]
        exact List.mem_cons_self
      · rw [Stop.flow, h]
        exact List.mem_cons_of_mem _ List.mem_cons_self
    | _ => exact absurd rfl hparts
  | settling =>
    refine ⟨?_, hknows.1 _ List.mem_cons_self, ?_⟩
    · cases origin with
      | recon => exact List.mem_cons_self
      | _ => exact absurd rfl hparts
    · exact ⟨fun e he => hknows.1 e (List.mem_cons_of_mem _ he), hknows.2⟩
  | newly =>
    refine ⟨?_, hknows.2, trivial⟩
    cases origin with
    | recon => exact List.mem_cons_self
    | _ => exact absurd rfl hparts
  | bootSettling =>
    refine ⟨?_, hknows _ List.mem_cons_self, fun e he => hknows e (List.mem_cons_of_mem _ he)⟩
    cases origin with
    | boot => exact List.mem_cons_self
    | _ => exact absurd rfl hparts
  | midReceipt hentries hhash =>
    rw [boot_of_isBoot hparts (isBoot_of_midEntries hentries)]
    exact ⟨List.mem_cons_self, trivial, trivial⟩
  | midRead hentries hhash =>
    rw [boot_of_isBoot hparts (isBoot_of_midEntries hentries)]
    exact ⟨List.mem_cons_self, trivial, trivial⟩
  | posted hboot hpoint =>
    obtain ⟨hpart, hpoint⟩ := resumeCollateralPosted_part hpoint
    rw [boot_of_isBoot hparts hboot]
    refine ⟨?_, hpoint, trivial⟩
    show _ ∈ [Part.payout, Part.confirm]
    rcases hpart with h | ⟨h, -⟩
    · rw [Stop.flow, h]
      exact List.mem_cons_of_mem _ List.mem_cons_self
    · rw [Stop.flow, h]
      exact List.mem_cons_self

theorem runSolanaPayout_settled (w : World ι) (i : ι) :
    (runSolanaPayout w i).1.settled = w.settled := by
  unfold runSolanaPayout
  dsimp only
  split <;> rfl

/-- After a flow's step, of a flow that keeps its role. -/
def RoleKept (origin : Origin) (w w' : World ι) (stop : Option (Stop ι)) : Prop :=
  LedgerKept w w' ∧ ∀ st checkedAt, stop = some st → FlowRole w' (st.flow origin checkedAt)

section Resumes

variable {origin : Origin} {next : Next ι}

theorem RoleKept.wait (hledger : LedgerKept w w') (hnext : NextKnows w next) {point : Point ι}
    (hpart : point.part ∈ origin.parts next) (hpoint : PointKnows w' point)
    {checkedAt : Option Int} : RoleKept origin w w' (some ⟨point, next, checkedAt⟩) := by
  refine ⟨hledger, ?_⟩
  intro st checkedAt hst
  cases hst
  exact ⟨hpart, hpoint, hnext.kept hledger⟩

theorem RoleKept.onward (hledger : LedgerKept w w') (hnext : NextKnows w next) {part : Part}
    (hpart : part ∈ origin.parts next) : RoleKept origin w w' (goOn P w' next) := by
  refine ⟨hledger, ?_⟩
  intro st checkedAt hst
  exact goesOn_role (List.ne_nil_of_mem hpart) (hnext.kept hledger) (goOn_cases hst)

theorem runSolanaPayout_role (hnext : NextKnows w next)
    (hpart : Part.payout ∈ origin.parts next) :
    RoleKept origin w (runSolanaPayout w i).1
      (some ⟨(runSolanaPayout w i).2, next, none⟩) := by
  unfold runSolanaPayout
  dsimp only
  split
  all_goals
    refine RoleKept.wait ?_ hnext ?_ ?_
    · exact .of_eq rfl
    · exact hpart
    · trivial

theorem finishes_role {kind : TxKind} {ok : Bool} {hash : Option Str} {stop : Option (Stop ι)}
    (hpart : (Point.signing i kind).part ∈ origin.parts next) (hnext : NextKnows w next)
    (h : Finishes P w next i hash kind ok w' stop) : RoleKept origin w w' stop := by
  have hledger : LedgerKept w w' := .of_eq h.onlyArb.settled
  cases h with
  | posted =>
    apply RoleKept.wait hledger hnext
    · exact payout_of_opening hpart
    · trivial
  | notPosted hw => exact .onward hledger hnext hpart
  | confirmed hw => exact .onward hledger hnext hpart
  | confirmsLate => exact .onward hledger hnext hpart
  | confirmsAgain =>
    apply RoleKept.wait hledger hnext
    · exact hpart
    · trivial
  | slashed hw => exact .onward hledger hnext hpart
  | notSlashed => exact .onward hledger hnext hpart

omit [DecidableEq ι] in
theorem signing_part (kind : TxKind) (hash : Str) :
    (Point.outcome i kind hash).part = (Point.signing i kind).part := by
  cases kind <;> rfl

/-- A flow leaves the settled ledger, or settles an entry of it. -/
theorem Resumes.ledgerKept {point : Point ι} {a : Answer} {stop : Option (Stop ι)}
    (h : Resumes P w next point a w' stop) : LedgerKept w w' := by
  cases h with
  | signed hfresh => exact .of_eq (onlyArb_onSigned (w.sign _ _ _) _ _ _).settled
  | unsigned hdone => exact .of_eq (txDone_cases hdone).onlyArb.settled
  | receipt hdone => exact .of_eq (txDone_cases hdone).onlyArb.settled
  | sendThrew hdone => exact .of_eq (txDone_cases hdone).onlyArb.settled
  | verified => exact .of_eq (runSolanaPayout_settled w _)
  | payoutAgain => exact .of_eq (runSolanaPayout_settled w _)
  | paid => exact .markSettled rfl
  | payoutLanded => exact .markSettled rfl
  | landedNoProof => exact .markSettled rfl
  | reconciled hnext => exact .markSettled rfl
  | bootReconciled => exact .markSettled rfl
  | resolved => exact .of_eq (onlyArb_bootResolve w _ _ _ _).settled
  | _ => exact .of_eq rfl

theorem resumes_role {point : Point ι} {a : Answer} {stop : Option (Stop ι)}
    (hpart : point.part ∈ origin.parts next) (hpoint : PointKnows w point)
    (hnext : NextKnows w next) (h : Resumes P w next point a w' stop) :
    RoleKept origin w w' stop := by
  have hledger := h.ledgerKept
  cases h with
  | unrouted => exact .onward hledger hnext hpart
  | routed hstart =>
    apply RoleKept.wait hledger hnext
    · exact hpart
    · trivial
  | inProgress => exact .onward hledger hnext hpart
  | gatePasses hgate =>
    apply RoleKept.wait hledger hnext
    · exact hpart
    · trivial
  | gateRefuses => exact .onward hledger hnext hpart
  | signed hfresh =>
    apply RoleKept.wait hledger hnext
    · rw [signing_part]
      exact hpart
    · trivial
  | unsigned hdone => exact finishes_role hpart hnext (txDone_cases hdone)
  | receipt hdone =>
    rw [signing_part] at hpart
    exact finishes_role hpart hnext (txDone_cases hdone)
  | sendThrew hdone =>
    rw [signing_part] at hpart
    exact finishes_role (w := w.txThrew _) hpart hnext (txDone_cases hdone)
  | readAgain =>
    apply RoleKept.wait hledger hnext
    · exact hpart
    · trivial
  | mismatch => exact .onward hledger hnext hpart
  | verified => exact runSolanaPayout_role hnext hpart
  | paid =>
    apply RoleKept.wait hledger hnext
    · exact hpart
    · trivial
  | unpaid =>
    apply RoleKept.wait hledger hnext
    · exact hpart
    · trivial
  | payoutOk =>
    apply RoleKept.wait hledger hnext
    · exact confirm_of_payout hpart
    · trivial
  | retries hnow =>
    apply RoleKept.wait hledger hnext
    · exact hpart
    · trivial
  | givesUp => exact .onward hledger hnext hpart
  | payoutAgain => exact runSolanaPayout_role hnext hpart
  | alreadySettled hstatus => exact .onward hledger hnext hpart
  | closedOtherwise => exact .onward hledger hnext hpart
  | confirms =>
    apply RoleKept.wait hledger hnext
    · exact hpart
    · trivial
  | payoutLanded =>
    apply RoleKept.wait hledger hnext
    · exact confirm_of_slash hpart
    · trivial
  | landedNoProof => exact .onward hledger hnext hpart
  | slashes =>
    apply RoleKept.wait hledger hnext
    · exact hpart
    · trivial
  | @reconciled i sig rest newly h =>
    subst h
    refine ⟨hledger, ?_⟩
    intro st checkedAt hst
    refine goesOn_role ?_ ?_ (goOn_cases hst)
    · cases origin with
      | recon => exact List.cons_ne_nil _ _
      | _ => cases hpart
    · refine ⟨fun e he => hledger.recorded (hnext.1 e he), ?_⟩
      intro j hj
      rcases List.mem_append.mp hj with hj | hj
      · exact hledger.settled (hnext.2 j hj)
      · rw [List.mem_singleton.mp hj]
        exact isAlreadySettled_markSettled w.settled
  | bootReconciled => exact .onward hledger hnext hpart
  | notReconciled => exact .onward hledger hnext hpart
  | receiptRead =>
    apply RoleKept.wait hledger hnext
    · exact hpart
    · trivial
  | noReceipt =>
    apply RoleKept.wait hledger hnext
    · exact hpart
    · trivial
  | resolved => exact .onward hledger hnext hpart
  | threw hthrows =>
    refine ⟨hledger, ?_⟩
    intro st checkedAt hst
    exact goesOn_role (List.ne_nil_of_mem hpart) hnext (throws_cases hst)

end Resumes

/-- Roles are kept by the steps that keep the settled ledger. -/
theorem role_kept : KeptBy P (fun s e => ∀ w, Around P s.world e w → LedgerKept s.world w)
    (fun _ => True) FlowRole where
  around := by
    intro s e w hok _ h
    exact ⟨trivial, fun f hf => hf.kept (hok w h)⟩
  crash _ := trivial
  begins := by
    intro w origin next stop _ hbegins h
    cases hbegins with
    | boot =>
      refine goesOn_role ?_ ?_ h
      · exact List.cons_ne_nil _ _
      · exact fun e he => recorded_of_settling he
    | tick =>
      refine goesOn_role ?_ ?_ h
      · exact List.cons_ne_nil _ _
      · trivial
    | recon =>
      refine goesOn_role ?_ ?_ h
      · exact List.cons_ne_nil _ _
      · exact ⟨fun e he => recorded_of_settling he, fun i hi => nomatch hi⟩
  job _ _ := ⟨List.mem_cons_self, trivial, trivial⟩
  shorter := by
    intro w origin i ids next checkedAt _ hf
    exact ⟨hf.part, fun j hj => hf.point j (List.mem_cons_of_mem _ hj), hf.next⟩
  resumed := by
    intro w origin i ids next checkedAt point _ hf hpoint
    have hsettled : w.settled.isAlreadySettled i = true := hf.point i List.mem_cons_self
    obtain ⟨hpart | ⟨-, hunsettled⟩, hknows⟩ := resumeCollateralPosted_part hpoint
    · refine ⟨?_, hknows, trivial⟩
      show point.part ∈ [Part.confirm]
      rw [hpart]
      exact List.mem_cons_self
    · rw [hsettled] at hunsettled
      cases hunsettled
  resume := by
    intro s k f a w stop _ hs hflow _ h
    have hrole := hs.2 k f hflow
    obtain ⟨hledger, hstop⟩ := resumes_role hrole.part hrole.point hrole.next h
    exact ⟨trivial, fun g hg => hg.kept hledger, fun st hst => hstop st _ hst⟩

/-! ## The flows that pay -/

/-- Which flows there are in which phase, and one at most that may pay. -/
structure Alone (bound : Nat) (s : Sys ι) : Prop where
  bounded : ∀ k f, s.flows k = some f → k < bound
  phase : ∀ k f, s.flows k = some f → s.phase = if f.origin = .boot then .booting else .running
  main : ∀ k l f g, s.flows k = some f → s.flows l = some g → f.origin.main = true →
    g.origin.main = true → k = l

section Alone

variable {bound : Nat} {s : Sys ι}

omit [DecidableEq ι] in
theorem Alone.of_no_flows (h : ∀ k, s.flows k = none) : Alone bound s := by
  refine ⟨?_, ?_, ?_⟩
  · intro k f hf
    rw [h k] at hf
    cases hf
  · intro k f hf
    rw [h k] at hf
    cases hf
  · intro k l f g hf
    rw [h k] at hf
    cases hf

omit [DecidableEq ι] in
theorem Alone.no_flows_of_down (h : Alone bound s) (hdown : s.phase = .down) (k : Nat) :
    s.flows k = none := by
  cases hk : s.flows k with
  | none => rfl
  | some f =>
    have := h.phase k f hk
    rw [hdown] at this
    split at this <;> cases this

omit [DecidableEq ι] in
/-- The boot flow is the only one. -/
theorem Alone.only_boot (h : Alone bound s) {k l : Nat} {f g : Flow ι}
    (hf : s.flows k = some f) (hboot : f.origin = .boot) (hg : s.flows l = some g) : k = l := by
  have hphase := h.phase k f hf
  rw [if_pos hboot] at hphase
  have hgphase := h.phase l g hg
  rw [hphase] at hgphase
  split at hgphase
  · next hg' =>
    apply h.main k l f g hf hg
    · rw [hboot]
      rfl
    · rw [hg']
      rfl
  · cases hgphase

omit [DecidableEq ι] in
theorem Alone.setWorld (h : Alone bound s) (w : World ι) : Alone bound (s.setWorld w) :=
  ⟨h.bounded, h.phase, h.main⟩

omit [DecidableEq ι] in
/-- A flow goes on or ends. -/
theorem Alone.put_again (h : Alone bound s) {k : Nat} {f : Flow ι} (hf : s.flows k = some f)
    {checkedAt : Int} {stop : Option (Stop ι)} :
    Alone bound (s.put k f.origin checkedAt stop) := by
  have hold : ∀ l g, (s.put k f.origin checkedAt stop).flows l = some g →
      ∃ g₀, s.flows l = some g₀ ∧ g.origin = g₀.origin := by
    intro l g hg
    rcases flow_of_put hg with ⟨rfl, st, -, rfl⟩ | ⟨-, hg⟩
    · exact ⟨f, hf, rfl⟩
    · exact ⟨g, hg, rfl⟩
  refine ⟨?_, ?_, ?_⟩
  · intro l g hg
    obtain ⟨g₀, hg₀, -⟩ := hold l g hg
    exact h.bounded l g₀ hg₀
  · intro l g hg
    obtain ⟨g₀, hg₀, horigin⟩ := hold l g hg
    rw [horigin, ← h.phase l g₀ hg₀]
    -- the phase changes only where the boot flow ends, and then no flow is left
    apply if_neg
    rintro ⟨hboot, rfl⟩
    obtain rfl := h.only_boot hf hboot hg₀
    rcases flow_of_put hg with ⟨-, st, hst, -⟩ | ⟨hne, -⟩
    · cases hst
    · exact hne rfl
  · intro l m g g' hg hg' hmain hmain'
    obtain ⟨g₀, hg₀, horigin⟩ := hold l g hg
    obtain ⟨g₀', hg₀', horigin'⟩ := hold m g' hg'
    exact h.main l m g₀ g₀' hg₀ hg₀' (horigin ▸ hmain) (horigin' ▸ hmain')

omit [DecidableEq ι] in
/-- A new flow of a running orchestrator. -/
theorem Alone.put_new (h : Alone bound s) {k : Nat} (hk : k < bound) {origin : Origin}
    (hphase : s.phase = .running) (hboot : origin ≠ .boot)
    (hmain : origin.main = true → ∀ l g, s.flows l = some g → g.origin.main = false)
    {checkedAt : Int} {stop : Option (Stop ι)} : Alone bound (s.put k origin checkedAt stop) := by
  have hphase' : (s.put k origin checkedAt stop).phase = .running := by
    rw [← hphase]
    exact if_neg fun hc => hboot hc.1
  refine ⟨?_, ?_, ?_⟩
  · intro l g hg
    rcases flow_of_put hg with ⟨rfl, -⟩ | ⟨-, hg⟩
    · exact hk
    · exact h.bounded l g hg
  · intro l g hg
    rw [hphase']
    rcases flow_of_put hg with ⟨-, st, -, rfl⟩ | ⟨-, hg⟩
    · exact (if_neg hboot).symm
    · exact hphase.symm.trans (h.phase l g hg)
  · intro l m g g' hg hg' hgmain hgmain'
    rcases flow_of_put hg with ⟨rfl, st, -, rfl⟩ | ⟨-, hgold⟩
    · rcases flow_of_put hg' with ⟨rfl, -⟩ | ⟨-, hgold'⟩
      · rfl
      · rw [hmain hgmain m g' hgold'] at hgmain'
        cases hgmain'
    · rcases flow_of_put hg' with ⟨rfl, st, -, rfl⟩ | ⟨-, hgold'⟩
      · rw [hmain hgmain' l g hgold] at hgmain
        cases hgmain
      · exact h.main l m g g' hgold hgold' hgmain hgmain'

omit [DecidableEq ι] in
/-- A job starts when there is none. -/
theorem Alone.no_main (h : Alone bound s) (hphase : s.phase = .running)
    (hnoJob : s.noJob bound = true) (l : Nat) (g : Flow ι) (hg : s.flows l = some g) :
    g.origin.main = false := by
  have hjob := List.all_eq_true.mp hnoJob l (List.mem_range.mpr (h.bounded l g hg))
  rw [hg] at hjob
  have hg' := h.phase l g hg
  rw [hphase] at hg'
  cases horigin : g.origin with
  | boot =>
    rw [if_pos horigin] at hg'
    cases hg'
  | job =>
    rw [Option.all_some, horigin] at hjob
    cases hjob
  | _ => rfl

theorem alone_step {s' : Sys ι} {e : Event ι} (h : Alone bound s)
    (hrole : ∀ k f, s.flows k = some f → FlowRole s.world f) (hstep : Steps P bound s e s') :
    Alone bound s' := by
  cases hstep with
  | around => exact h.setWorld _
  | crash => exact .of_no_flows fun _ => rfl
  | died => exact .of_no_flows fun _ => rfl
  | @boot k hphase hk =>
    have hnone := h.no_flows_of_down hphase
    refine ⟨?_, ?_, ?_⟩
    · intro l g hg
      rcases flow_of_put hg with ⟨rfl, -⟩ | ⟨-, hg⟩
      · exact hk
      · rw [show _ = _ from hnone l] at hg
        cases hg
    · intro l g hg
      rcases flow_of_put hg with ⟨-, st, hst, rfl⟩ | ⟨-, hg⟩
      · rw [hst]
        rfl
      · rw [show _ = _ from hnone l] at hg
        cases hg
    · intro l m g g' hg hg' _ _
      rcases flow_of_put hg with ⟨rfl, -⟩ | ⟨-, hg⟩
      · rcases flow_of_put hg' with ⟨rfl, -⟩ | ⟨-, hg'⟩
        · rfl
        · rw [show _ = _ from hnone m] at hg'
          cases hg'
      · rw [show _ = _ from hnone l] at hg
        cases hg
  | job hphase hfree hk hnoJob hpasses =>
    refine h.put_new hk hphase ?_ ?_
    · exact nofun
    · exact fun _ => h.no_main hphase hnoJob
  | tick hphase hfree hk =>
    refine h.put_new hk hphase ?_ ?_
    · exact nofun
    · exact nofun
  | recon hphase hfree hk =>
    refine h.put_new hk hphase ?_ ?_
    · exact nofun
    · exact nofun
  | resumeNext hflow hne hfree hl hleft hstop =>
    have horigin := (recon_of_resuming (hrole _ _ hflow).part).1
    have hphase := h.phase _ _ hflow
    dsimp only at horigin
    subst horigin
    refine (h.put_again hflow).put_new hl ?_ ?_ ?_
    · exact hphase
    · exact nofun
    · exact nofun
  | @resume k f a w stop hflow htrue hresumes =>
    have h' := h.setWorld w
    exact h'.put_again hflow

end Alone

end Maat.Orchestrator
