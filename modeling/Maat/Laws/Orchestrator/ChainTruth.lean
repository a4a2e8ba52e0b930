import Maat.Lib.Run
import Maat.Laws.Orchestrator.Steps

/-!
# The ledger and the chain

A stage of the Arbitrum ledger is written from a receipt, from a read of the intent that may be
old, or from what the code remembers. The contract never leaves a closed status and a transaction
that succeeded stays so; what a flow was told therefore still holds when it writes.
-/

namespace Maat.Orchestrator

open Js

variable {ι : Type} [DecidableEq ι] {P : Params ι} {w w' : World ι} {i : ι}

/-! ## Facts about the chain -/

/-- The transaction was signed by a flow, for this intent and this call. -/
def World.IsTx (w : World ι) (i : ι) (kind : TxKind) (hash : Str) : Prop :=
  ∃ tx, w.txs hash = some tx ∧ tx.intent = i ∧ tx.kind = kind

/-- A `postCollateral` of a flow succeeded. -/
def World.Posted (w : World ι) (i : ι) : Prop :=
  ∃ hash tx solver, w.txs hash = some tx ∧ tx.intent = i ∧ tx.kind = .post solver ∧
    tx.state = .success

/-- The receipt `ok` of the entry's transaction was seen. -/
def World.Receipt (w : World ι) (entry : ArbitrumLedgerEntry) (ok : Bool) : Prop :=
  ∃ hash tx, stageHash entry = some hash ∧ w.txs hash = some tx ∧
    tx.state = if ok then .success else .reverted

/-- The chain only goes on. -/
structure Later (w w' : World ι) : Prop where
  tx : ∀ hash tx, w.txs hash = some tx → ∃ tx', w'.txs hash = some tx' ∧
    tx'.intent = tx.intent ∧ tx'.kind = tx.kind ∧ (tx.state ≠ .sent → tx'.state = tx.state)
  closed : ∀ i, (w.contract i).current.status ≠ INTENT_STATUS_PENDING →
    (w'.contract i).current.status = (w.contract i).current.status

omit [DecidableEq ι] in
theorem Later.of_eq (htxs : w'.txs = w.txs) (hcontract : w'.contract = w.contract) :
    Later w w' := by
  constructor
  · intro hash tx h
    rw [htxs]
    exact ⟨tx, h, rfl, rfl, fun _ => rfl⟩
  · intro i _
    rw [hcontract]

omit [DecidableEq ι] in
theorem Later.trans {w₁ w₂ w₃ : World ι} (h : Later w₁ w₂) (h' : Later w₂ w₃) : Later w₁ w₃ := by
  constructor
  · intro hash tx htx
    obtain ⟨tx', htx', hi, hkind, hstate⟩ := h.tx hash tx htx
    obtain ⟨tx'', htx'', hi', hkind', hstate'⟩ := h'.tx hash tx' htx'
    refine ⟨tx'', htx'', hi'.trans hi, hkind'.trans hkind, ?_⟩
    intro hsent
    have := hstate hsent
    rw [hstate' (this ▸ hsent), this]
  · intro i hi
    have := h.closed i hi
    rw [h'.closed i (this ▸ hi), this]

omit [DecidableEq ι] in
theorem Later.isTx (h : Later w w') {kind : TxKind} {hash : Str} (hs : w.IsTx i kind hash) :
    w'.IsTx i kind hash := by
  obtain ⟨tx, htx, hi, hkind⟩ := hs
  obtain ⟨tx', htx', hi', hkind', -⟩ := h.tx hash tx htx
  exact ⟨tx', htx', hi'.trans hi, hkind'.trans hkind⟩

omit [DecidableEq ι] in
theorem Later.posted (h : Later w w') (hp : w.Posted i) : w'.Posted i := by
  obtain ⟨hash, tx, solver, htx, hi, hkind, hstate⟩ := hp
  obtain ⟨tx', htx', hi', hkind', hstate'⟩ := h.tx hash tx htx
  refine ⟨hash, tx', solver, htx', hi'.trans hi, hkind'.trans hkind, ?_⟩
  rw [hstate' (by rw [hstate]; exact nofun), hstate]

omit [DecidableEq ι] in
theorem Later.receipt (h : Later w w') {entry : ArbitrumLedgerEntry} {ok : Bool}
    (hr : w.Receipt entry ok) : w'.Receipt entry ok := by
  obtain ⟨hash, tx, hhash, htx, hstate⟩ := hr
  obtain ⟨tx', htx', -, -, hstate'⟩ := h.tx hash tx htx
  refine ⟨hash, tx', hhash, htx', ?_⟩
  rw [hstate' (by rw [hstate]; cases ok <;> exact nofun), hstate]

omit [DecidableEq ι] in
theorem Later.status (h : Later w w') {status : Nat} (hne : status ≠ INTENT_STATUS_PENDING)
    (hs : (w.contract i).current.status = status) : (w'.contract i).current.status = status := by
  rw [h.closed i (by rwa [hs]), hs]

/-- The contract acts on pending intents only. -/
theorem apply_pending {expiry timestamp : Int} {intent intent' : OnChainIntent}
    {action : ChainAction} (h : action.apply expiry timestamp intent = some intent') :
    intent.status = INTENT_STATUS_PENDING := by
  unfold ChainAction.apply at h
  split at h
  all_goals
    split at h
    · next hc => simp only [hc]
    · cases h

/-! ## What the ledger and the flows rest on -/

/-- What the stage of an entry says. -/
def EntryTrue (w : World ι) (i : ι) (entry : ArbitrumLedgerEntry) : Prop :=
  match entry.stage with
  | .confirmed => (w.contract i).current.status = INTENT_STATUS_SETTLED
  | .slashed => (w.contract i).current.status = INTENT_STATUS_SLASHED
  | .posting_collateral =>
    ∀ hash, entry.collateralTxHash = some hash → ∃ solver, w.IsTx i (.post solver) hash
  | .collateral_failed => True
  | _ => w.Posted i

/-- What a flow was told before it came to `point`. -/
def PointTrue (w : World ι) : Point ι → Prop
  | .selecting _ | .balance _ _ | .signing _ (.post _) | .reconciling _ _ | .newlySettled _ => True
  | .outcome i (.post solver) hash => w.IsTx i (.post solver) hash
  | .outcome i kind hash => w.IsTx i kind hash ∧ w.Posted i
  | .bootReceipt i entry hash => EntryTrue w i entry ∧ stageHash entry = some hash
  | .bootRead i entry found => EntryTrue w i entry ∧ ∀ ok, found = some ok → w.Receipt entry ok
  | .signing i _ | .verifying i _ _ | .paying i _ | .payoutReturned i _ | .retrySleep i
  | .confirmRead i | .checking i _ => w.Posted i

def NextTrue (w : World ι) : Next ι → Prop
  | .tick rest => ∀ e ∈ rest, w.Posted e.1
  | .bootMid rest => ∀ e ∈ rest, EntryTrue w e.1 e.2
  | _ => True

def FlowTrue (w : World ι) (f : Flow ι) : Prop := PointTrue w f.point ∧ NextTrue w f.next

/-- What the success of a transaction says. -/
def CallTrue (w : World ι) (i : ι) : TxKind → Prop
  | .post _ => True
  | .confirm => (w.contract i).current.status = INTENT_STATUS_SETTLED
  | .slash => (w.contract i).current.status = INTENT_STATUS_SLASHED

/-- The contract's history, the transactions that succeeded, and the ledger. -/
structure WorldTrue (w : World ι) : Prop where
  past : ∀ i, ∀ r ∈ (w.contract i).past, r.status = INTENT_STATUS_PENDING
  succeeded : ∀ hash tx, w.txs hash = some tx → tx.state = .success →
    CallTrue w tx.intent tx.kind
  entries : ∀ i entry, w.arb.lookup i = some entry → EntryTrue w i entry

omit [DecidableEq ι] in
theorem EntryTrue.later (h : Later w w') {entry : ArbitrumLedgerEntry}
    (he : EntryTrue w i entry) : EntryTrue w' i entry := by
  unfold EntryTrue at he ⊢
  split at he
  · exact h.status (by decide) he
  · exact h.status (by decide) he
  · intro hash hhash
    obtain ⟨solver, htx⟩ := he hash hhash
    exact ⟨solver, h.isTx htx⟩
  · trivial
  · exact h.posted he

omit [DecidableEq ι] in
theorem CallTrue.later (h : Later w w') {kind : TxKind} (hc : CallTrue w i kind) :
    CallTrue w' i kind := by
  cases kind with
  | post solver => trivial
  | confirm => exact h.status (by decide) hc
  | slash => exact h.status (by decide) hc

omit [DecidableEq ι] in
theorem PointTrue.later (h : Later w w') {point : Point ι} (hp : PointTrue w point) :
    PointTrue w' point := by
  cases point with
  | selecting i => trivial
  | balance i solver => trivial
  | reconciling i sig => trivial
  | newlySettled ids => trivial
  | signing i kind =>
    cases kind with
    | post solver => trivial
    | confirm => exact h.posted hp
    | slash => exact h.posted hp
  | outcome i kind hash =>
    cases kind with
    | post solver => exact h.isTx hp
    | confirm => exact ⟨h.isTx hp.1, h.posted hp.2⟩
    | slash => exact ⟨h.isTx hp.1, h.posted hp.2⟩
  | bootReceipt i entry hash => exact ⟨hp.1.later h, hp.2⟩
  | bootRead i entry found => exact ⟨hp.1.later h, fun ok hok => h.receipt (hp.2 ok hok)⟩
  | verifying i solver attempt => exact h.posted hp
  | paying i c => exact h.posted hp
  | payoutReturned i ok => exact h.posted hp
  | retrySleep i => exact h.posted hp
  | confirmRead i => exact h.posted hp
  | checking i sig => exact h.posted hp

omit [DecidableEq ι] in
theorem NextTrue.later (h : Later w w') {next : Next ι} (hn : NextTrue w next) :
    NextTrue w' next := by
  cases next with
  | tick rest => exact fun e he => h.posted (hn e he)
  | bootMid rest => exact fun e he => (hn e he).later h
  | _ => trivial

/-! ## A flow's step -/

/-- The chain is as it was, and so is the ledger. -/
theorem WorldTrue.of_eq (hw : WorldTrue w) (htxs : w'.txs = w.txs)
    (hcontract : w'.contract = w.contract) (harb : w'.arb = w.arb) : WorldTrue w' := by
  have hlater : Later w w' := .of_eq htxs hcontract
  constructor
  · rw [hcontract]
    exact hw.past
  · rw [htxs]
    exact fun hash tx htx hstate => (hw.succeeded hash tx htx hstate).later hlater
  · rw [harb]
    exact fun i entry h => (hw.entries i entry h).later hlater

/-- Only the stage of an entry has to be justified. -/
theorem WorldTrue.setStage (hw : WorldTrue w) {stage : ArbitrumStage}
    {patch : ArbitrumLedgerEntry → ArbitrumLedgerEntry}
    (he : EntryTrue w i { patch ((w.arb.lookup i).getD { stage }) with stage }) :
    WorldTrue (w.setStage i stage patch) := by
  refine ⟨hw.past, hw.succeeded, ?_⟩
  intro j entry hj
  by_cases h : j = i
  · subst h
    rw [show (w.setStage j stage patch).arb = w.arb.setArbitrumStage j stage patch from rfl,
      ArbitrumLedger.lookup_setArbitrumStage_self] at hj
    cases hj
    exact he
  · rw [show (w.setStage i stage patch).arb = w.arb.setArbitrumStage i stage patch from rfl,
      ArbitrumLedger.lookup_setArbitrumStage_of_ne h] at hj
    exact hw.entries j entry hj

theorem Later.setStage {stage : ArbitrumStage}
    {patch : ArbitrumLedgerEntry → ArbitrumLedgerEntry} : Later w (w.setStage i stage patch) :=
  .of_eq rfl rfl

theorem WorldTrue.markSettled (hw : WorldTrue w) : WorldTrue (w.markSettled i) :=
  hw.of_eq rfl rfl rfl

theorem Later.markSettled : Later w (w.markSettled i) := .of_eq rfl rfl

/-- A read that shows a closed intent shows the present one. -/
theorem WorldTrue.read (hw : WorldTrue w) {r : OnChainIntent} {status : Nat}
    (hr : r ∈ (w.contract i).current :: (w.contract i).past) (hstatus : r.status = status)
    (hne : status ≠ INTENT_STATUS_PENDING) : (w.contract i).current.status = status := by
  rcases List.mem_cons.mp hr with rfl | hpast
  · exact hstatus
  · exact absurd (hstatus.symm.trans (hw.past i r hpast)) hne

theorem WorldTrue.posted (hw : WorldTrue w) {entry : ArbitrumLedgerEntry}
    (he : w.arb.lookup i = some entry)
    (hstage : entry.stage ∈ [.collateral_posted, .awaiting_expiry_slash, .confirming,
      ArbitrumStage.slashing]) : w.Posted i := by
  have := hw.entries i entry he
  unfold EntryTrue at this
  split at this
  all_goals
    first
    | exact this
    | next h =>
      rw [h] at hstage
      simp at hstage

theorem resumeCollateralPosted_true (hw : WorldTrue w) {point : Point ι}
    (h : resumeCollateralPostedIntent P w i = some point) : PointTrue w point := by
  unfold resumeCollateralPostedIntent at h
  split at h
  · cases h
  · next entry hentry =>
    split at h
    · cases h
    · next hstage =>
      have hposted : w.Posted i := by
        apply hw.posted hentry
        rw [not_not.mp hstage]
        exact List.mem_cons_self
      split at h
      · cases h
      · split at h
        · cases h
          exact hposted
        · cases h
          exact hposted

theorem dueEntry_true (hposted : w.Posted i) {point : Point ι}
    (h : dueEntry w i = some point) : PointTrue w point := by
  unfold dueEntry at h
  split at h
  · split at h
    · cases h
      exact hposted
    · cases h
  · cases h
    exact hposted
  · cases h
    exact hposted

theorem midEntries_true (hw : WorldTrue w) {next : Next ι} (hnext : NextTrue w next) :
    ∀ e ∈ midEntries w next, EntryTrue w e.1 e.2 := by
  intro e he
  unfold midEntries at he
  split at he
  · exact hw.entries e.1 e.2 (ArbitrumLedger.mem_entriesAt.mp he).1
  · exact hnext e he
  · cases he

theorem goesOn_true (hw : WorldTrue w) {next : Next ι} (hnext : NextTrue w next) {stop : Stop ι}
    (h : GoesOn P w next stop) : PointTrue w stop.point ∧ NextTrue w stop.next := by
  cases h with
  | due hdue hpoint =>
    refine ⟨dueEntry_true (hnext _ List.mem_append_cons_self) hpoint, ?_⟩
    intro e he
    exact hnext e (List.mem_append_right _ (List.mem_cons_of_mem _ he))
  | settling => exact ⟨trivial, trivial⟩
  | newly => exact ⟨trivial, trivial⟩
  | bootSettling => exact ⟨trivial, trivial⟩
  | midReceipt hentries hhash =>
    have hall := midEntries_true hw hnext
    rw [hentries] at hall
    exact ⟨⟨hall _ List.mem_cons_self, hhash⟩, fun e he => hall e (List.mem_cons_of_mem _ he)⟩
  | midRead hentries hhash =>
    have hall := midEntries_true hw hnext
    rw [hentries] at hall
    exact ⟨⟨hall _ List.mem_cons_self, nofun⟩, fun e he => hall e (List.mem_cons_of_mem _ he)⟩
  | posted hboot hpoint => exact ⟨resumeCollateralPosted_true hw hpoint, trivial⟩

/-- After a flow's step: the world is true, the chain went on, and what the flow comes to is
justified. -/
def Kept (w w' : World ι) (stop : Option (Stop ι)) : Prop :=
  WorldTrue w' ∧ Later w w' ∧
    ∀ st, stop = some st → PointTrue w' st.point ∧ NextTrue w' st.next

/-- The flow waits at another point for the same intent. -/
theorem Kept.wait (hw : WorldTrue w') (hlater : Later w w') {next : Next ι}
    (hnext : NextTrue w next) {point : Point ι} (hpoint : PointTrue w' point)
    {checkedAt : Option Int} : Kept w w' (some ⟨point, next, checkedAt⟩) := by
  refine ⟨hw, hlater, ?_⟩
  intro st hst
  cases hst
  exact ⟨hpoint, hnext.later hlater⟩

/-- The flow is done with the intent. -/
theorem Kept.onward (hw : WorldTrue w') (hlater : Later w w') {next : Next ι}
    (hnext : NextTrue w next) : Kept w w' (goOn P w' next) :=
  ⟨hw, hlater, fun _ hst => goesOn_true hw (hnext.later hlater) (goOn_cases hst)⟩

theorem refuse_true (hw : WorldTrue w) : WorldTrue (refuse P w i) := hw.setStage trivial

theorem txDone_true (hw : WorldTrue w) {next : Next ι} (hnext : NextTrue w next) {kind : TxKind}
    {ok : Bool} {hash : Option Str} {stop : Option (Stop ι)}
    (hposted : (∀ solver, kind ≠ .post solver) → w.Posted i)
    (hok : ok = true → ∃ h tx, hash = some h ∧ w.txs h = some tx ∧ tx.intent = i ∧
      tx.kind = kind ∧ tx.state = .success)
    (h : Finishes P w next i hash kind ok w' stop) : Kept w w' stop := by
  cases h with
  | posted =>
    obtain ⟨hash, tx, rfl, htx, hi, hkind, hstate⟩ := hok rfl
    have hposted : w.Posted i := ⟨hash, tx, _, htx, hi, hkind, hstate⟩
    refine .wait (hw.setStage ?_) .setStage hnext ?_
    · exact hposted
    · exact hposted
  | notPosted hw' =>
    rw [hw']
    refine .onward (hw.setStage ?_) .setStage hnext
    trivial
  | confirmed hw' =>
    obtain ⟨hash, tx, rfl, htx, rfl, hkind, hstate⟩ := hok rfl
    rw [hw']
    have hcall := hw.succeeded hash tx htx hstate
    rw [hkind] at hcall
    refine .onward (hw.setStage ?_) .setStage hnext
    exact hcall
  | confirmsLate => exact .onward hw (.of_eq rfl rfl) hnext
  | confirmsAgain =>
    refine .wait hw (.of_eq rfl rfl) hnext ?_
    exact hposted nofun
  | slashed hw' =>
    obtain ⟨hash, tx, rfl, htx, rfl, hkind, hstate⟩ := hok rfl
    rw [hw']
    have hcall := hw.succeeded hash tx htx hstate
    rw [hkind] at hcall
    refine .onward (hw.setStage ?_) .setStage hnext
    exact hcall
  | notSlashed => exact .onward hw (.of_eq rfl rfl) hnext

omit [DecidableEq ι] in
theorem later_sign {kind : TxKind} {hash : Str} (hfresh : w.txs hash = none) :
    Later w (w.sign i kind hash) := by
  refine ⟨?_, fun _ _ => rfl⟩
  intro h tx htx
  have hne : h ≠ hash := by
    rintro rfl
    rw [hfresh] at htx
    cases htx
  refine ⟨tx, ?_, rfl, rfl, fun _ => rfl⟩
  exact (Function.update_of_ne hne _ _).trans htx

theorem sign_true (hw : WorldTrue w) {kind : TxKind} {hash : Str} (hfresh : w.txs hash = none) :
    WorldTrue (w.sign i kind hash) := by
  have hold : ∀ h tx, (w.sign i kind hash).txs h = some tx → tx.state = .success →
      w.txs h = some tx := by
    intro h tx htx hstate
    change Function.update w.txs hash _ h = some tx at htx
    by_cases hh : h = hash
    · subst hh
      rw [Function.update_self] at htx
      cases htx
      cases hstate
    · rwa [Function.update_of_ne hh] at htx
  refine ⟨hw.past, ?_, fun j e hj => (hw.entries j e hj).later (later_sign hfresh)⟩
  intro h tx htx hstate
  exact hw.succeeded h tx (hold h tx htx hstate) hstate

omit [DecidableEq ι] in
theorem isTx_sign {kind : TxKind} {hash : Str} : (w.sign i kind hash).IsTx i kind hash :=
  ⟨_, Function.update_self _ _ _, rfl, rfl⟩

theorem onSigned_kept (hw : WorldTrue w) {next : Next ι} (hnext : NextTrue w next)
    {kind : TxKind} {hash : Str} (hpoint : PointTrue w (.signing i kind))
    (hfresh : w.txs hash = none) : Kept w (onSigned P (w.sign i kind hash) i hash kind)
      (some ⟨.outcome i kind hash, next, none⟩) := by
  have hsigned : WorldTrue (w.sign i kind hash) := sign_true hw hfresh
  have hlater : Later w (w.sign i kind hash) := later_sign hfresh
  have htx : (w.sign i kind hash).IsTx i kind hash := isTx_sign
  cases kind with
  | post solver =>
    refine .wait (hsigned.setStage ?_) ⟨hlater.tx, hlater.closed⟩ hnext ?_
    · intro h hh
      cases hh
      exact ⟨solver, htx⟩
    · exact htx
  | confirm =>
    have hposted := hlater.posted hpoint
    refine .wait (hsigned.setStage ?_) ⟨hlater.tx, hlater.closed⟩ hnext ?_
    · exact hposted
    · exact ⟨htx, hposted⟩
  | slash =>
    have hposted := hlater.posted hpoint
    refine .wait (hsigned.setStage ?_) ⟨hlater.tx, hlater.closed⟩ hnext ?_
    · exact hposted
    · exact ⟨htx, hposted⟩

omit [DecidableEq ι] in
theorem later_txThrew {hash : Str} : Later w (w.txThrew hash) := by
  refine ⟨?_, fun _ _ => rfl⟩
  intro h tx htx
  by_cases hh : h = hash
  · subst hh
    refine ⟨{ tx with threw := true }, ?_, rfl, rfl, fun _ => rfl⟩
    rw [show (w.txThrew h).txs h = _ from Function.update_self _ _ _, htx]
    rfl
  · exact ⟨tx, (Function.update_of_ne hh _ _).trans htx, rfl, rfl, fun _ => rfl⟩

theorem txThrew_true (hw : WorldTrue w) {hash : Str} : WorldTrue (w.txThrew hash) := by
  have hold : ∀ h tx, (w.txThrew hash).txs h = some tx → ∃ tx₀, w.txs h = some tx₀ ∧
      tx.intent = tx₀.intent ∧ tx.kind = tx₀.kind ∧ tx.state = tx₀.state := by
    intro h tx htx
    change Function.update w.txs hash _ h = some tx at htx
    by_cases hh : h = hash
    · subst hh
      rw [Function.update_self] at htx
      obtain ⟨tx₀, htx₀, rfl⟩ := Option.map_eq_some_iff.mp htx
      exact ⟨tx₀, htx₀, rfl, rfl, rfl⟩
    · rw [Function.update_of_ne hh] at htx
      exact ⟨tx, htx, rfl, rfl, rfl⟩
  refine ⟨hw.past, ?_, fun j e hj => (hw.entries j e hj).later later_txThrew⟩
  intro h tx htx hstate
  obtain ⟨tx₀, htx₀, hi, hk, hs⟩ := hold h tx htx
  rw [hi, hk]
  exact hw.succeeded h tx₀ htx₀ (hs ▸ hstate)

theorem bootResolve_true (hw : WorldTrue w) {entry : ArbitrumLedgerEntry} {found : Option Bool}
    {r : OnChainIntent} (hentry : EntryTrue w i entry)
    (hfound : ∀ ok, found = some ok → w.Receipt entry ok)
    (hr : r ∈ (w.contract i).current :: (w.contract i).past) :
    WorldTrue (bootResolve w i entry found r) ∧ Later w (bootResolve w i entry found r) := by
  unfold bootResolve
  split
  · next hstatus => exact ⟨hw.setStage (hw.read hr hstatus (by decide)), .setStage⟩
  · split
    · next hstatus => exact ⟨hw.setStage (hw.read hr hstatus (by decide)), .setStage⟩
    · split
      · exact ⟨hw, .of_eq rfl rfl⟩
      · split
        · next hstage =>
          split
          · -- the receipt is that of the entry's `postCollateral`
            obtain ⟨hash, tx, hhash, htx, hstate⟩ := hfound true rfl
            rw [EntryTrue, hstage] at hentry
            rw [stageHash, hstage] at hhash
            obtain ⟨solver, tx', htx', hi, hkind⟩ := hentry hash hhash
            rw [htx] at htx'
            cases htx'
            exact ⟨hw.setStage ⟨hash, tx, solver, htx, hi, hkind, hstate⟩, .setStage⟩
          · exact ⟨hw.setStage trivial, .setStage⟩
          · exact ⟨hw, .of_eq rfl rfl⟩
        · exact ⟨hw, .of_eq rfl rfl⟩

theorem runSolanaPayout_kept (hw : WorldTrue w) {next : Next ι} (hnext : NextTrue w next)
    (hposted : w.Posted i) :
    Kept w (runSolanaPayout w i).1 (some ⟨(runSolanaPayout w i).2, next, none⟩) := by
  unfold runSolanaPayout
  dsimp only
  split
  all_goals
    refine Kept.wait ?_ ?_ hnext ?_
    · exact hw.of_eq rfl rfl rfl
    · exact .of_eq rfl rfl
    · exact hposted

omit [DecidableEq ι] in
theorem truthful_receipt {i : ι} {kind : TxKind} {hash : Str} {ok : Bool}
    (h : truthful w (.outcome i kind hash) (.receipt ok) = true) :
    ∃ tx, w.txs hash = some tx ∧ tx.state = if ok then .success else .reverted := by
  obtain ⟨tx, htx, hstate⟩ := (Option.any_eq_true _ _).mp h
  exact ⟨tx, htx, eq_of_beq hstate⟩

/-- What one step of a flow keeps. -/
theorem resumes_true (hw : WorldTrue w) {next : Next ι} {point : Point ι} {a : Answer}
    {stop : Option (Stop ι)} (hpoint : PointTrue w point) (hnext : NextTrue w next)
    (htrue : truthful w point a = true) (h : Resumes P w next point a w' stop) :
    Kept w w' stop := by
  cases h with
  | unrouted => exact .onward (refuse_true hw) .setStage hnext
  | routed hstart =>
    refine .wait hw (.of_eq rfl rfl) hnext ?_
    exact trivial
  | inProgress => exact .onward hw (.of_eq rfl rfl) hnext
  | gatePasses hgate =>
    refine .wait hw (.of_eq rfl rfl) hnext ?_
    exact trivial
  | gateRefuses => exact .onward (refuse_true hw) .setStage hnext
  | signed hfresh => exact onSigned_kept hw hnext hpoint hfresh
  | @unsigned i kind _ _ hdone =>
    refine txDone_true hw hnext ?_ ?_ (txDone_cases hdone)
    · intro hkind
      cases kind with
      | post solver => exact absurd rfl (hkind solver)
      | confirm => exact hpoint
      | slash => exact hpoint
    · exact nofun
  | @receipt i kind hash ok _ _ hdone =>
    obtain ⟨tx, htx, hstate⟩ := truthful_receipt htrue
    have hsigned : w.IsTx i kind hash := by
      cases kind with
      | post solver => exact hpoint
      | confirm => exact hpoint.1
      | slash => exact hpoint.1
    refine txDone_true hw hnext ?_ ?_ (txDone_cases hdone)
    · intro hkind
      cases kind with
      | post solver => exact absurd rfl (hkind solver)
      | confirm => exact hpoint.2
      | slash => exact hpoint.2
    · rintro rfl
      obtain ⟨tx', htx', hi, hkind⟩ := hsigned
      rw [htx] at htx'
      cases htx'
      exact ⟨hash, tx, rfl, htx, hi, hkind, hstate⟩
  | @sendThrew i kind hash _ _ hdone =>
    have hlater : Later w (w.txThrew hash) := later_txThrew
    have hkept : Kept (w.txThrew hash) w' stop := by
      refine txDone_true (txThrew_true hw) (hnext.later hlater) ?_ ?_ (txDone_cases hdone)
      · intro hkind
        cases kind with
        | post solver => exact absurd rfl (hkind solver)
        | confirm => exact hlater.posted hpoint.2
        | slash => exact hlater.posted hpoint.2
      · exact nofun
    exact ⟨hkept.1, hlater.trans hkept.2.1, hkept.2.2⟩
  | readAgain =>
    refine .wait hw (.of_eq rfl rfl) hnext ?_
    exact hpoint
  | mismatch => exact .onward hw (.of_eq rfl rfl) hnext
  | verified => exact runSolanaPayout_kept hw hnext hpoint
  | paid =>
    refine Kept.wait ?_ ?_ hnext ?_
    · exact hw.of_eq rfl rfl rfl
    · exact .of_eq rfl rfl
    · exact hpoint
  | unpaid =>
    refine Kept.wait ?_ ?_ hnext ?_
    · exact hw.of_eq rfl rfl rfl
    · exact .of_eq rfl rfl
    · exact hpoint
  | payoutOk =>
    refine .wait hw (.of_eq rfl rfl) hnext ?_
    exact hpoint
  | retries hnow =>
    refine .wait hw (.of_eq rfl rfl) hnext ?_
    exact hpoint
  | givesUp =>
    refine .onward (hw.setStage ?_) .setStage hnext
    exact hpoint
  | payoutAgain => exact runSolanaPayout_kept hw hnext hpoint
  | alreadySettled hstatus =>
    refine .onward (hw.setStage ?_) .setStage hnext
    exact hw.read (of_decide_eq_true htrue) hstatus (by decide)
  | closedOtherwise => exact .onward hw (.of_eq rfl rfl) hnext
  | confirms =>
    refine .wait hw (.of_eq rfl rfl) hnext ?_
    exact hpoint
  | payoutLanded =>
    refine .wait hw.markSettled .markSettled hnext ?_
    exact hpoint
  | landedNoProof => exact .onward hw.markSettled .markSettled hnext
  | slashes =>
    refine .wait hw (.of_eq rfl rfl) hnext ?_
    exact hpoint
  | @reconciled i sig rest newly h =>
    have hnext' : NextTrue w (.recon rest (newly ++ [i])) := trivial
    exact .onward hw.markSettled .markSettled hnext'
  | bootReconciled => exact .onward hw.markSettled .markSettled hnext
  | notReconciled => exact .onward hw (.of_eq rfl rfl) hnext
  | @receiptRead i entry hash ok =>
    obtain ⟨tx, htx, hstate⟩ := (Option.any_eq_true _ _).mp htrue
    have hfound : w.Receipt entry ok := ⟨hash, tx, hpoint.2, htx, eq_of_beq hstate⟩
    refine .wait hw (.of_eq rfl rfl) hnext ?_
    refine ⟨hpoint.1, ?_⟩
    intro ok' hok
    cases hok
    exact hfound
  | noReceipt =>
    refine .wait hw (.of_eq rfl rfl) hnext ?_
    exact ⟨hpoint.1, nofun⟩
  | resolved =>
    obtain ⟨hw', hlater⟩ := bootResolve_true hw hpoint.1 hpoint.2 (of_decide_eq_true htrue)
    exact .onward hw' hlater hnext
  | threw hthrows =>
    exact ⟨hw, .of_eq rfl rfl, fun _ hst => goesOn_true hw hnext (throws_cases hst)⟩

/-! ## The contract and the network -/

/-- A call on the contract, by a transaction of a flow or by anyone else. -/
theorem later_call (intent : OnChainIntent) {txs : Str → Option (Tx ι)}
    (hpending : (w.contract i).current.status = INTENT_STATUS_PENDING)
    (htx : ∀ hash tx, w.txs hash = some tx → ∃ tx', txs hash = some tx' ∧
      tx'.intent = tx.intent ∧ tx'.kind = tx.kind ∧ (tx.state ≠ .sent → tx'.state = tx.state)) :
    Later w { w with
      txs := txs
      contract := Function.update w.contract i
        ⟨intent, (w.contract i).current :: (w.contract i).past⟩ } := by
  refine ⟨htx, ?_⟩
  intro j hj
  by_cases h : j = i
  · subst h
    exact absurd hpending hj
  · exact congrArg (fun c : Contract => c.current.status) (Function.update_of_ne h _ _)

theorem call_past (hw : WorldTrue w) {intent : OnChainIntent}
    (hpending : (w.contract i).current.status = INTENT_STATUS_PENDING) :
    ∀ j, ∀ r ∈ (Function.update w.contract i
      ⟨intent, (w.contract i).current :: (w.contract i).past⟩ j).past,
      r.status = INTENT_STATUS_PENDING := by
  intro j r hr
  by_cases h : j = i
  · subst h
    rw [Function.update_self] at hr
    rcases List.mem_cons.mp hr with rfl | hr
    · exact hpending
    · exact hw.past j r hr
  · rw [Function.update_of_ne h] at hr
    exact hw.past j r hr

omit [DecidableEq ι] in
/-- An update of a transaction that is still out. -/
theorem update_tx (state : TxState) {hash : Str} {kind : TxKind} {threw : Bool}
    (hsent : w.txs hash = some ⟨i, kind, .sent, threw⟩) :
    ∀ h tx, w.txs h = some tx →
      ∃ tx', Function.update w.txs hash (some ⟨i, kind, state, threw⟩) h = some tx' ∧
        tx'.intent = tx.intent ∧ tx'.kind = tx.kind ∧ (tx.state ≠ .sent → tx'.state = tx.state) := by
  intro h tx htx
  by_cases hh : h = hash
  · subst hh
    rw [hsent] at htx
    cases htx
    exact ⟨_, Function.update_self _ _ _, rfl, rfl, fun hne => absurd rfl hne⟩
  · exact ⟨tx, (Function.update_of_ne hh _ _).trans htx, rfl, rfl, fun _ => rfl⟩

omit [DecidableEq ι] in
/-- A transaction that succeeds has changed the intent as its call says. -/
theorem callTrue_apply {expiry timestamp : Int} {intent : OnChainIntent} {kind : TxKind}
    {r : OnChainIntent} (hcall : (kind.action P i).apply expiry timestamp r = some intent)
    (hcurrent : (w.contract i).current = intent) : CallTrue w i kind := by
  cases kind with
  | post solver => trivial
  | confirm =>
    unfold TxKind.action ChainAction.apply at hcall
    dsimp only at hcall
    split at hcall
    · cases hcall
      exact congrArg OnChainIntent.status hcurrent
    · cases hcall
  | slash =>
    unfold TxKind.action ChainAction.apply at hcall
    dsimp only at hcall
    split at hcall
    · cases hcall
      exact congrArg OnChainIntent.status hcurrent
    · cases hcall

theorem around_true (hw : WorldTrue w) {e : Event ι} (h : Around P w e w') :
    WorldTrue w' ∧ Later w w' := by
  cases h with
  | time ht => exact ⟨hw.of_eq rfl rfl rfl, .of_eq rfl rfl⟩
  | childSigns hchild hfresh => exact ⟨hw.of_eq rfl rfl rfl, .of_eq rfl rfl⟩
  | childSends hchild => exact ⟨hw.of_eq rfl rfl rfl, .of_eq rfl rfl⟩
  | lands hpayout => exact ⟨hw.of_eq rfl rfl rfl, .of_eq rfl rfl⟩
  | proof => exact ⟨hw.of_eq rfl rfl rfl, .of_eq rfl rfl⟩
  | @included i kind hash timestamp threw intent htx hcall =>
    have hpending := apply_pending hcall
    have hlater := later_call intent hpending (update_tx .success htx)
    refine ⟨⟨call_past hw hpending, ?_, fun j e hj => (hw.entries j e hj).later hlater⟩, hlater⟩
    intro h tx h' hstate
    dsimp only at h'
    by_cases hh : h = hash
    · subst hh
      rw [Function.update_self] at h'
      cases h'
      apply callTrue_apply hcall
      show (Function.update w.contract i _ i).current = intent
      rw [Function.update_self]
    · rw [Function.update_of_ne hh] at h'
      exact (hw.succeeded h tx h' hstate).later hlater
  | @reverted i kind hash timestamp threw htx =>
    have hlater : Later w { w with
        txs := Function.update w.txs hash (some ⟨i, kind, .reverted, threw⟩) } :=
      ⟨update_tx .reverted htx, fun _ _ => rfl⟩
    refine ⟨⟨hw.past, ?_, fun j e hj => (hw.entries j e hj).later hlater⟩, hlater⟩
    intro h tx h' hstate
    dsimp only at h'
    by_cases hh : h = hash
    · subst hh
      rw [Function.update_self] at h'
      cases h'
      cases hstate
    · rw [Function.update_of_ne hh] at h'
      exact (hw.succeeded h tx h' hstate).later hlater
  | @others i timestamp action intent hcall =>
    have hpending := apply_pending hcall
    have hlater := later_call intent hpending
      (fun hash tx htx => ⟨tx, htx, rfl, rfl, fun _ => rfl⟩)
    refine ⟨⟨call_past hw hpending, ?_, fun j e hj => (hw.entries j e hj).later hlater⟩, hlater⟩
    exact fun h tx h' hstate => (hw.succeeded h tx h' hstate).later hlater

/-! ## Runs -/

omit [DecidableEq ι] in
theorem FlowTrue.later (h : Later w w') {f : Flow ι} (hf : FlowTrue w f) : FlowTrue w' f :=
  ⟨hf.1.later h, hf.2.later h⟩

theorem true_kept : KeptBy P (fun _ _ => True) WorldTrue FlowTrue where
  around := by
    intro s e w _ hs h
    obtain ⟨hw, hlater⟩ := around_true hs.1 h
    exact ⟨hw, fun f hf => hf.later hlater⟩
  crash hw := hw.of_eq rfl rfl rfl
  begins := by
    intro w origin next stop hw hbegins h
    have hnext : NextTrue w next := by
      cases hbegins with
      | boot => trivial
      | tick =>
        intro e he
        obtain ⟨hentry, hstage⟩ := ArbitrumLedger.mem_entriesAt.mp he
        apply hw.posted hentry
        rw [List.mem_singleton.mp hstage]
        exact List.mem_cons_of_mem _ List.mem_cons_self
      | recon => trivial
    exact goesOn_true hw hnext h
  job _ _ := ⟨trivial, trivial⟩
  shorter _ hf := ⟨trivial, hf.2⟩
  resumed hw _ hpoint := ⟨resumeCollateralPosted_true hw hpoint, trivial⟩
  resume := by
    intro s k f a w stop _ hs hflow htrue h
    obtain ⟨hpoint, hnext⟩ := hs.2 k f hflow
    obtain ⟨hw, hlater, hstop⟩ := resumes_true hs.1 hpoint hnext htrue h
    exact ⟨hw, fun g hg => hg.later hlater, hstop⟩

theorem initial_true (now : Int) : Each WorldTrue FlowTrue (Sys.initial (ι := ι) now) := by
  refine ⟨⟨?_, ?_, ?_⟩, ?_⟩
  · intro i r hr
    cases hr
  · intro hash tx htx
    cases htx
  · intro i entry hentry
    cases hentry
  · intro k f hf
    cases hf

/-- The run's ledger and flows are true of its chain. -/
theorem run_true {bound : Nat} {now : Int} {es : List (Event ι)} {s : Sys ι}
    (h : Run.run (step P bound) (Sys.initial now) es = some s) : Each WorldTrue FlowTrue s :=
  Run.run_keeps (fun _ _ _ hs h => true_kept.step trivial hs (step_cases h)) h (initial_true now)

/-- A confirmed intent is settled on Arbitrum, a slashed one is slashed, and an intent that is
past its collateral has had a `postCollateral` of the orchestrator succeed. -/
theorem ledger_tells_the_truth (P : Params ι) (bound : Nat) (now : Int) (es : List (Event ι))
    (s : Sys ι) (hrun : Run.run (step P bound) (Sys.initial now) es = some s) (i : ι)
    (entry : ArbitrumLedgerEntry) (hentry : s.world.arb.lookup i = some entry) :
    (entry.stage = .confirmed →
      (s.world.contract i).current.status = INTENT_STATUS_SETTLED) ∧
    (entry.stage = .slashed →
      (s.world.contract i).current.status = INTENT_STATUS_SLASHED) ∧
    (entry.stage ∈ [.collateral_posted, .awaiting_expiry_slash, .confirming,
        ArbitrumStage.slashing] →
      ∃ hash tx solver, s.world.txs hash = some tx ∧ tx.intent = i ∧ tx.kind = .post solver ∧
        tx.state = .success) := by
  obtain ⟨hworld, -⟩ := run_true hrun
  have htrue := hworld.entries i entry hentry
  refine ⟨?_, ?_, hworld.posted hentry⟩
  · intro hstage
    rwa [EntryTrue, hstage] at htrue
  · intro hstage
    rwa [EntryTrue, hstage] at htrue

theorem ledger_tells_the_truth_sample :
    ∃ s entry, Run.run (step sampleParams 2) (Sys.initial 0) (sampleOpening ++ sampleClosing) =
        some s ∧ s.world.arb.lookup 9 = some entry ∧ entry.stage = .confirmed ∧
      (s.world.contract 9).current.status = INTENT_STATUS_SETTLED := by
  have hsome : ((Run.run (step sampleParams 2) (Sys.initial 0)
      (sampleOpening ++ sampleClosing)).any fun s =>
        (s.world.arb.lookup 9).any fun entry => entry.stage == .confirmed) = true := by
    decide
  obtain ⟨s, hrun, hs⟩ := (Option.any_eq_true _ _).mp hsome
  obtain ⟨entry, hentry, hstage⟩ := (Option.any_eq_true _ _).mp hs
  have hconfirmed := eq_of_beq hstage
  exact ⟨s, entry, hrun, hentry, hconfirmed,
    (ledger_tells_the_truth sampleParams 2 0 _ s hrun 9 entry hentry).1 hconfirmed⟩

end Maat.Orchestrator
