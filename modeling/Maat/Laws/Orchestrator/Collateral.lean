import Maat.Laws.Orchestrator.ChainTruth
import Maat.Laws.Orchestrator.Stages

/-!
# Collateral that is out

A `postCollateral` that was signed is in the ledger with its hash. The entry loses it where the
call that sends the transaction, or that waits for its receipt, throws: the code takes this for a
failure, whatever becomes of the transaction.
-/

namespace Maat.Orchestrator

open Js

variable {ι : Type} [DecidableEq ι] {P : Params ι} {w w' : World ι} {i : ι}

/-- The ledger knows the transaction, in a stage that a boot or a resumption comes back to. -/
def World.Held (w : World ι) (i : ι) (hash : Str) : Prop :=
  ∃ entry, w.arb.lookup i = some entry ∧ entry.stage ≠ .collateral_failed ∧
    entry.collateralTxHash = some hash

/-- The transaction succeeded, or is out and no call about it threw. -/
def Tx.counts (tx : Tx ι) : Bool :=
  match tx.state with
  | .success => true
  | .sent => !tx.threw
  | .reverted => false

/-- A `postCollateral` of the intent that counts. -/
def World.Counts (w : World ι) (i : ι) (hash : Str) : Prop :=
  ∃ tx solver, w.txs hash = some tx ∧ tx.intent = i ∧ tx.kind = .post solver ∧ tx.counts = true

def WorldHeld (w : World ι) : Prop := ∀ i hash, w.Counts i hash → w.Held i hash

/-- No call about a `postCollateral` throws that is included successfully, before or after. -/
def callsReturn (s : Sys ι) : Event ι → Bool
  | .included hash _ true => (s.world.txs hash).all fun tx =>
    match tx.kind with
    | .post _ => !tx.threw
    | _ => true
  | .resume k .error => (s.flows k).all fun f =>
    match f.point with
    | .outcome _ (.post _) hash => (s.world.txs hash).all fun tx => tx.state != .success
    | _ => true
  | _ => true

/-! ## Writing an entry -/

theorem WorldHeld.of_eq (hw : WorldHeld w) (harb : w'.arb = w.arb) (htxs : w'.txs = w.txs) :
    WorldHeld w' := by
  intro i hash hc
  unfold World.Counts at hc
  rw [htxs] at hc
  unfold World.Held
  rw [harb]
  exact hw i hash hc

/-- Only the transaction that the entry has matters. -/
theorem WorldHeld.setStage (hw : WorldHeld w) {stage : ArbitrumStage}
    {patch : ArbitrumLedgerEntry → ArbitrumLedgerEntry}
    (h : ∀ hash entry, w.arb.lookup i = some entry → entry.stage ≠ .collateral_failed →
      entry.collateralTxHash = some hash → w.Counts i hash →
      stage ≠ .collateral_failed ∧ (patch entry).collateralTxHash = some hash) :
    WorldHeld (w.setStage i stage patch) := by
  intro j hash hc
  obtain ⟨entry, hentry, hstage, hhash⟩ := hw j hash hc
  by_cases hj : j = i
  · subst hj
    obtain ⟨hstage', hhash'⟩ := h hash entry hentry hstage hhash hc
    have hnew := lookup_setStage w j stage patch
    rw [hentry, Option.getD_some] at hnew
    exact ⟨_, hnew, hstage', hhash'⟩
  · exact ⟨entry, (touches_setStage w i stage patch j hj).trans hentry, hstage, hhash⟩

/-- The entry stays about the same transaction. -/
theorem WorldHeld.keep (hw : WorldHeld w) {stage : ArbitrumStage}
    {patch : ArbitrumLedgerEntry → ArbitrumLedgerEntry} (hstage : stage ≠ .collateral_failed)
    (hpatch : ∀ e, (patch e).collateralTxHash = e.collateralTxHash) :
    WorldHeld (w.setStage i stage patch) := by
  refine hw.setStage ?_
  intro hash entry _ _ hhash _
  exact ⟨hstage, (hpatch entry).trans hhash⟩

/-- A job that starts finds no collateral out. -/
theorem WorldHeld.of_startable (hw : WorldHeld w) (h : w.startable i = true)
    {stage : ArbitrumStage} {patch : ArbitrumLedgerEntry → ArbitrumLedgerEntry} :
    WorldHeld (w.setStage i stage patch) := by
  refine hw.setStage ?_
  intro hash entry hentry hstage
  rw [World.startable, hentry, Option.all_some] at h
  exact absurd (eq_of_beq h) hstage

theorem not_counts_of_startable (hw : WorldHeld w) (h : w.startable i = true) (hash : Str) :
    ¬w.Counts i hash := by
  intro hc
  obtain ⟨entry, hentry, hstage, -⟩ := hw i hash hc
  rw [World.startable, hentry, Option.all_some] at h
  exact hstage (eq_of_beq h)

/-! ## Transactions -/

/-- A transaction that is new, or counts only if it did before. -/
theorem WorldHeld.updateTx (hw : WorldHeld w) {hash : Str} {new : Option (Tx ι)}
    (h : ∀ tx solver, new = some tx → tx.kind = .post solver → tx.counts = true →
      w.Counts tx.intent hash) :
    WorldHeld { w with txs := Function.update w.txs hash new } := by
  rintro j hash' ⟨tx, solver, htx, hi, hkind, hcounts⟩
  change Function.update w.txs hash new hash' = some tx at htx
  by_cases hh : hash' = hash
  · subst hh
    rw [Function.update_self] at htx
    exact hw j hash' (hi ▸ h tx solver htx hkind hcounts)
  · rw [Function.update_of_ne hh] at htx
    exact hw j hash' ⟨tx, solver, htx, hi, hkind, hcounts⟩

theorem WorldHeld.txThrew (hw : WorldHeld w) {hash : Str} : WorldHeld (w.txThrew hash) := by
  refine hw.updateTx ?_
  intro tx solver htx hkind hcounts
  obtain ⟨tx₀, htx₀, rfl⟩ := Option.map_eq_some_iff.mp htx
  refine ⟨tx₀, solver, htx₀, rfl, hkind, ?_⟩
  unfold Tx.counts at hcounts ⊢
  dsimp only at hcounts
  cases hstate : tx₀.state with
  | success => rfl
  | sent =>
    rw [hstate] at hcounts
    cases hcounts
  | reverted =>
    rw [hstate] at hcounts
    cases hcounts

theorem onSigned_held (hw : WorldHeld w) {kind : TxKind} {hash : Str}
    (hpoint : PointStage w (.signing i kind)) :
    WorldHeld (onSigned P (w.sign i kind hash) i hash kind) := by
  cases kind with
  | post solver =>
    -- the new transaction is the intent's only one
    rintro j hash' ⟨tx, solver', htx, hi, hkind, hcounts⟩
    change Function.update w.txs hash _ hash' = some tx at htx
    by_cases hh : hash' = hash
    · subst hh
      rw [Function.update_self] at htx
      cases htx
      cases hi
      exact ⟨_, lookup_setStage _ i _ _, nofun, rfl⟩
    · rw [Function.update_of_ne hh] at htx
      have hc : w.Counts j hash' := ⟨tx, solver', htx, hi, hkind, hcounts⟩
      have hj : j ≠ i := by
        rintro rfl
        exact not_counts_of_startable hw hpoint hash' hc
      obtain ⟨entry, hentry, hrest⟩ := hw j hash' hc
      exact ⟨entry, (touches_setStage (w.sign i _ hash) i _ _ j hj).trans hentry, hrest⟩
  | confirm =>
    have hsigned : WorldHeld (w.sign i .confirm hash) := by
      refine hw.updateTx ?_
      rintro tx solver ⟨⟩ hkind
      cases hkind
    exact hsigned.keep nofun fun _ => rfl
  | slash =>
    have hsigned : WorldHeld (w.sign i .slash hash) := by
      refine hw.updateTx ?_
      rintro tx solver ⟨⟩ hkind
      cases hkind
    exact hsigned.keep nofun fun _ => rfl

/-! ## A flow's step -/

/-- The outcome of a transaction. That of the collateral is about the entry's transaction, which
counts only if it succeeded. -/
theorem finishes_held (hw : WorldHeld w) {next : Next ι} {kind : TxKind} {ok : Bool}
    {hash : Option Str} {stop : Option (Stop ι)}
    (hposted : ∀ solver hash' entry, kind = .post solver → w.arb.lookup i = some entry →
      entry.stage ≠ .collateral_failed → entry.collateralTxHash = some hash' →
      w.Counts i hash' → ok = true ∧ hash = some hash')
    (h : Finishes P w next i hash kind ok w' stop) : WorldHeld w' := by
  cases h with
  | posted =>
    refine hw.setStage ?_
    intro hash' entry hentry hstage hhash hc
    exact ⟨nofun, (hposted _ hash' entry rfl hentry hstage hhash hc).2⟩
  | notPosted hw' =>
    rw [hw']
    refine hw.setStage ?_
    intro hash' entry hentry hstage hhash hc
    cases (hposted _ hash' entry rfl hentry hstage hhash hc).1
  | confirmed hw' =>
    rw [hw']
    exact hw.keep nofun fun _ => rfl
  | confirmsLate => exact hw
  | confirmsAgain => exact hw
  | slashed hw' =>
    rw [hw']
    exact hw.keep nofun fun _ => rfl
  | notSlashed => exact hw

theorem bootResolve_held (hw : WorldHeld w) {entry : ArbitrumLedgerEntry} {found : Option Bool}
    {r : OnChainIntent} (hentry : w.arb.lookup i = some entry)
    (hfound : ∀ ok, found = some ok → w.Receipt entry ok) :
    WorldHeld (bootResolve w i entry found r) := by
  unfold bootResolve
  split
  · exact hw.keep (by decide) fun _ => rfl
  · split
    · exact hw.keep (by decide) fun _ => rfl
    · split
      · exact hw
      · split
        · next hposting =>
          have hhash : stageHash entry = entry.collateralTxHash := by
            rw [stageHash, hposting]
          split
          · refine hw.setStage ?_
            intro hash entry' hentry' _ hhash' _
            rw [hentry] at hentry'
            cases hentry'
            exact ⟨by decide, hhash.trans hhash'⟩
          · -- the receipt was that of a revert
            obtain ⟨hash, tx, hstageHash, htx, hstate⟩ := hfound false rfl
            refine hw.setStage ?_
            rintro hash' entry' hentry' _ hhash' ⟨tx', solver, htx', -, -, hcounts⟩
            rw [hentry] at hentry'
            cases hentry'
            rw [hhash, hhash'] at hstageHash
            cases hstageHash
            rw [htx] at htx'
            cases htx'
            rw [Tx.counts, hstate] at hcounts
            cases hcounts
          · exact hw
        · exact hw

theorem runSolanaPayout_held (hw : WorldHeld w) : WorldHeld (runSolanaPayout w i).1 := by
  unfold runSolanaPayout
  dsimp only
  split
  all_goals exact hw.of_eq rfl rfl

/-- What a flow's step keeps, if it was not told that a call threw about a transaction that
succeeded. -/
theorem resumes_held (hw : WorldHeld w) {next : Next ι} {point : Point ι} {a : Answer}
    {stop : Option (Stop ι)} (hstage : PointStage w point) (hpoint : PointTrue w point)
    (htrue : truthful w point a = true)
    (hthrew : ∀ i solver hash tx, point = .outcome i (.post solver) hash → a = .error →
      w.txs hash = some tx → tx.state ≠ .success)
    (h : Resumes P w next point a w' stop) : WorldHeld w' := by
  cases h with
  | unrouted => exact hw.of_startable hstage
  | gateRefuses => exact hw.of_startable hstage
  | signed hfresh => exact onSigned_held hw hstage
  | unsigned hdone =>
    refine finishes_held hw ?_ (txDone_cases hdone)
    rintro solver hash' entry rfl - - - hc
    exact absurd hc (not_counts_of_startable hw hstage hash')
  | @receipt i kind hash ok _ _ hdone =>
    refine finishes_held hw ?_ (txDone_cases hdone)
    rintro solver hash' entry rfl hentry - hhash ⟨tx, -, htx, -, -, hcounts⟩
    obtain ⟨entry', hentry', -, hhash'⟩ := hstage
    rw [hentry] at hentry'
    cases hentry'
    rw [hhash] at hhash'
    cases hhash'
    refine ⟨?_, rfl⟩
    obtain ⟨tx', htx', hstate⟩ := truthful_receipt htrue
    rw [htx] at htx'
    cases htx'
    cases ok with
    | true => rfl
    | false =>
      rw [Tx.counts, hstate] at hcounts
      cases hcounts
  | @sendThrew i kind hash _ _ hdone =>
    refine finishes_held hw.txThrew ?_ (txDone_cases hdone)
    rintro solver hash' entry rfl hentry - hhash ⟨tx, -, htx, -, -, hcounts⟩
    obtain ⟨entry', hentry', -, hhash'⟩ := hstage
    change w.arb.lookup i = some entry at hentry
    rw [hentry] at hentry'
    cases hentry'
    obtain rfl := Option.some.inj (hhash'.symm.trans hhash)
    -- it does not count: the call threw, and it has not succeeded
    change Function.update w.txs hash _ hash = some tx at htx
    rw [Function.update_self] at htx
    obtain ⟨tx₀, htx₀, rfl⟩ := Option.map_eq_some_iff.mp htx
    have hstate := hthrew i solver hash tx₀ rfl rfl htx₀
    unfold Tx.counts at hcounts
    dsimp only at hcounts
    split at hcounts
    · next hs => exact absurd hs hstate
    · cases hcounts
    · cases hcounts
  | verified => exact runSolanaPayout_held hw
  | payoutAgain => exact runSolanaPayout_held hw
  | givesUp => exact hw.keep nofun fun _ => rfl
  | alreadySettled hstatus => exact hw.keep nofun fun _ => rfl
  | resolved => exact bootResolve_held hw hstage.1 hpoint.2
  | _ => exact hw.of_eq rfl rfl

theorem around_held {s : Sys ι} {e : Event ι} (hw : WorldHeld s.world)
    (hreturn : callsReturn s e = true) (h : Around P s.world e w) : WorldHeld w := by
  cases h with
  | @included i kind hash timestamp threw intent htx hcall =>
    have hheld : WorldHeld { s.world with
        txs := Function.update s.world.txs hash (some ⟨i, kind, .success, threw⟩) } := by
      refine hw.updateTx ?_
      rintro tx solver ⟨⟩ hkind -
      rw [callsReturn, htx, Option.all_some] at hreturn
      dsimp only at hkind hreturn
      subst hkind
      exact ⟨_, solver, htx, rfl, rfl, hreturn⟩
    exact hheld.of_eq rfl rfl
  | @reverted i kind hash timestamp threw htx =>
    refine hw.updateTx ?_
    rintro tx solver ⟨⟩ hkind hcounts
    cases hcounts
  | _ => exact hw.of_eq rfl rfl

/-! ## Transactions that no longer count -/

/-- The transaction was signed for collateral, and reverted, or a call about it threw. -/
def World.Lost (w : World ι) (hash : Str) : Prop :=
  ∃ tx solver, w.txs hash = some tx ∧ tx.kind = .post solver ∧ tx.counts = false

omit [DecidableEq ι] in
theorem World.Lost.of_txs (h : w'.txs = w.txs) {hash : Str} (hl : w.Lost hash) :
    w'.Lost hash := by
  unfold World.Lost
  rw [h]
  exact hl

omit [DecidableEq ι] in
theorem World.Lost.sign {kind : TxKind} {hash hash' : Str} (hfresh : w.txs hash' = none)
    (hl : w.Lost hash) : (w.sign i kind hash').Lost hash := by
  obtain ⟨tx, solver, htx, hrest⟩ := hl
  have hne : hash ≠ hash' := by
    rintro rfl
    rw [hfresh] at htx
    cases htx
  exact ⟨tx, solver, (Function.update_of_ne hne _ _).trans htx, hrest⟩

omit [DecidableEq ι] in
theorem World.Lost.txThrew {hash hash' : Str} (hl : w.Lost hash) :
    (w.txThrew hash').Lost hash := by
  obtain ⟨tx, solver, htx, hkind, hcounts⟩ := hl
  by_cases hh : hash = hash'
  · subst hh
    refine ⟨{ tx with threw := true }, solver, ?_, hkind, ?_⟩
    · show Function.update w.txs hash _ hash = _
      rw [Function.update_self, htx]
      rfl
    · unfold Tx.counts at hcounts ⊢
      dsimp only
      split at hcounts
      · cases hcounts
      · rfl
      · rfl
  · exact ⟨tx, solver, (Function.update_of_ne hh _ _).trans htx, hkind, hcounts⟩

theorem Resumes.lost {next : Next ι} {point : Point ι} {a : Answer} {stop : Option (Stop ι)}
    {hash : Str} (h : Resumes P w next point a w' stop) (hl : w.Lost hash) : w'.Lost hash := by
  cases h with
  | signed hfresh => exact (hl.sign hfresh).of_txs (onlyArb_onSigned _ _ _ _).txs
  | unsigned hdone => exact hl.of_txs (txDone_cases hdone).onlyArb.txs
  | receipt hdone => exact hl.of_txs (txDone_cases hdone).onlyArb.txs
  | sendThrew hdone => exact hl.txThrew.of_txs (txDone_cases hdone).onlyArb.txs
  | verified =>
    unfold runSolanaPayout
    dsimp only
    split
    all_goals exact hl.of_txs rfl
  | payoutAgain =>
    unfold runSolanaPayout
    dsimp only
    split
    all_goals exact hl.of_txs rfl
  | resolved => exact hl.of_txs (onlyArb_bootResolve _ _ _ _ _).txs
  | _ => exact hl.of_txs rfl

/-- It is not included successfully any more. -/
theorem around_lost {s : Sys ι} {e : Event ι} (hreturn : callsReturn s e = true)
    (h : Around P s.world e w) {hash : Str} (hl : s.world.Lost hash) : w.Lost hash := by
  obtain ⟨tx, solver, htx, hkind, hcounts⟩ := id hl
  cases h with
  | @included i kind hash' timestamp threw intent hsent hcall =>
    have hne : hash ≠ hash' := by
      rintro rfl
      rw [hsent] at htx
      cases htx
      rw [callsReturn, hsent, Option.all_some] at hreturn
      dsimp only at hkind hreturn
      subst hkind
      rw [Tx.counts] at hcounts
      dsimp only at hcounts hreturn
      rw [hreturn] at hcounts
      cases hcounts
    exact ⟨tx, solver, (Function.update_of_ne hne _ _).trans htx, hkind, hcounts⟩
  | @reverted i kind hash' timestamp threw hsent =>
    by_cases hh : hash = hash'
    · subst hh
      rw [hsent] at htx
      cases htx
      exact ⟨_, solver, Function.update_self _ _ _, hkind, rfl⟩
    · exact ⟨tx, solver, (Function.update_of_ne hh _ _).trans htx, hkind, hcounts⟩
  | _ => exact hl.of_txs rfl

/-! ## Runs -/

/-- What the collateral's fate rests on. -/
structure Accounted (bound : Nat) (s : Sys ι) : Prop where
  orderly : Orderly bound s
  truth : Each WorldTrue FlowTrue s
  staged : Staged s
  held : WorldHeld s.world

theorem Accounted.step {bound : Nat} {s s' : Sys ι} {e : Event ι} (h : Accounted bound s)
    (hreturn : callsReturn s e = true) (hstep : Steps P bound s e s') : Accounted bound s' := by
  refine ⟨h.orderly.step hstep, true_kept.step trivial h.truth hstep,
    h.staged.step h.orderly hstep, ?_⟩
  cases hstep with
  | around hw => exact around_held h.held hreturn hw
  | resume hflow htrue hresumes =>
    refine resumes_held h.held (h.staged _ _ hflow).point (h.truth.2 _ _ hflow).1 htrue ?_ hresumes
    rintro i solver hash tx hpoint rfl htx
    rw [callsReturn, hflow, Option.all_some, hpoint] at hreturn
    dsimp only at hreturn
    rw [htx, Option.all_some] at hreturn
    exact ne_of_beq_false (Bool.not_eq_true' _ ▸ hreturn)
  | _ => exact h.held.of_eq rfl rfl

theorem initial_accounted (bound : Nat) (now : Int) :
    Accounted bound (Sys.initial (ι := ι) now) := by
  refine ⟨initial_orderly now, initial_true now, ?_, ?_⟩
  · intro k f hf
    cases hf
  · rintro i hash ⟨tx, solver, htx, -⟩
    cases htx

theorem lost_step {bound : Nat} {s s' : Sys ι} {e : Event ι} {hash : Str}
    (hreturn : callsReturn s e = true) (hstep : Steps P bound s e s')
    (hl : s.world.Lost hash) : s'.world.Lost hash := by
  cases hstep with
  | around hw => exact around_lost hreturn hw hl
  | resume hflow htrue hresumes => exact hresumes.lost hl
  | _ => exact hl.of_txs rfl

/-- In a run in which no call throws about a `postCollateral` that is included successfully: a
`postCollateral` that is signed and succeeds, now or later, is held by the ledger. -/
theorem successful_collateral_held (P : Params ι) (bound : Nat) (now : Int)
    (es es' : List (Event ι)) (s s' : Sys ι)
    (hrun : Run.run (Run.restrict callsReturn (step P bound)) (Sys.initial now) es = some s)
    (hrun' : Run.run (Run.restrict callsReturn (step P bound)) s es' = some s')
    (hash : Str) (tx tx' : Tx ι) (solver : Str) (htx : s.world.txs hash = some tx)
    (hkind : tx.kind = .post solver) (htx' : s'.world.txs hash = some tx')
    (hsuccess : tx'.state = .success) :
    ∃ entry, s.world.arb.lookup tx.intent = some entry ∧ entry.stage ≠ .collateral_failed ∧
      entry.collateralTxHash = some hash := by
  have haccounted : Accounted bound s := by
    refine Run.run_keeps ?_ hrun (initial_accounted bound now)
    intro s e s' h hstep
    obtain ⟨hreturn, hstep⟩ := Run.restrict_eq_some.mp hstep
    exact h.step hreturn (step_cases hstep)
  cases hcounts : tx.counts with
  | true => exact haccounted.held tx.intent hash ⟨tx, solver, htx, rfl, hkind, hcounts⟩
  | false =>
    -- then it never succeeds
    have hlost : s'.world.Lost hash := by
      refine Run.run_keeps (I := fun s => s.world.Lost hash) ?_ hrun'
        ⟨tx, solver, htx, hkind, hcounts⟩
      intro s e s' hl hstep
      obtain ⟨hreturn, hstep⟩ := Run.restrict_eq_some.mp hstep
      exact lost_step hreturn (step_cases hstep) hl
    obtain ⟨tx₁, -, htx₁, -, hcounts₁⟩ := hlost
    rw [htx'] at htx₁
    cases htx₁
    rw [Tx.counts, hsuccess] at hcounts₁
    cases hcounts₁

/-- The sample's collateral, before its receipt and to the end. -/
theorem successful_collateral_held_sample :
    ∃ s s', Run.run (Run.restrict callsReturn (step sampleParams 2)) (Sys.initial 0)
        (sampleOpening.take 7) = some s ∧
      Run.run (Run.restrict callsReturn (step sampleParams 2)) s
        (sampleOpening.drop 7 ++ sampleClosing) = some s' ∧
      ∃ entry, s.world.arb.lookup 9 = some entry ∧ entry.stage ≠ .collateral_failed ∧
        entry.collateralTxHash = some ['p'] := by
  have hsome : ((Run.run (Run.restrict callsReturn (step sampleParams 2)) (Sys.initial 0)
      (sampleOpening.take 7)).any fun s =>
        s.world.txs ['p'] == some ⟨9, .post ['s'], .sent, false⟩ &&
          (Run.run (Run.restrict callsReturn (step sampleParams 2)) s
            (sampleOpening.drop 7 ++ sampleClosing)).any fun s' =>
              s'.world.txs ['p'] == some ⟨9, .post ['s'], .success, false⟩) = true := by
    decide
  obtain ⟨s, hrun, hs⟩ := (Option.any_eq_true _ _).mp hsome
  obtain ⟨htx, hs'⟩ := Bool.and_eq_true_iff.mp hs
  obtain ⟨s', hrun', htx'⟩ := (Option.any_eq_true _ _).mp hs'
  exact ⟨s, s', hrun, hrun', successful_collateral_held sampleParams 2 0 _ _ s s' hrun hrun' ['p']
    _ _ ['s'] (eq_of_beq htx) rfl (eq_of_beq htx') rfl⟩

/-- The transaction reaches the network and the call that sends it throws. -/
def sampleLostCollateral : List (Event Nat) :=
  sampleOpening.take 7 ++ [.resume 0 .error, .included ['p'] 5 true]

/-- The collateral is posted, the entry says it failed, and the hash is gone. -/
theorem thrown_send_forgets_collateral :
    ∃ s entry, Run.run (step sampleParams 2) (Sys.initial 0) sampleLostCollateral = some s ∧
      s.world.txs ['p'] = some ⟨9, .post ['s'], .success, true⟩ ∧
      s.world.arb.lookup 9 = some entry ∧ entry.stage = .collateral_failed ∧
      entry.collateralTxHash = none := by
  have hsome : ((Run.run (step sampleParams 2) (Sys.initial 0) sampleLostCollateral).any fun s =>
      s.world.txs ['p'] == some ⟨9, .post ['s'], .success, true⟩ &&
        (s.world.arb.lookup 9).any fun entry =>
          entry.stage == .collateral_failed && entry.collateralTxHash == none) = true := by
    decide
  obtain ⟨s, hrun, hs⟩ := (Option.any_eq_true _ _).mp hsome
  obtain ⟨htx, hentry⟩ := Bool.and_eq_true_iff.mp hs
  obtain ⟨entry, hentry, hfields⟩ := (Option.any_eq_true _ _).mp hentry
  obtain ⟨hstage, hhash⟩ := Bool.and_eq_true_iff.mp hfields
  exact ⟨s, entry, hrun, eq_of_beq htx, hentry, eq_of_beq hstage, eq_of_beq hhash⟩

end Maat.Orchestrator
