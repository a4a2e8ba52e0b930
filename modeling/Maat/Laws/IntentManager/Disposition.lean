import Maat.Laws.IntentManager.Safety

/-!
# Exactly one disposition, and solvency

The two invariants of every run, read off `Inv`. Between two idle points of a run the terms of an
intent never change, a closed intent never changes at all, and no `submitIntent` reuses an id; at
each idle point the history of every intent is exactly what its status says
(`exactly_one_disposition`). In every reachable state, also while a callee runs, the contract
holds at least what it owes (`solvent`).
-/

namespace Maat.IntentManager

open Resumption Resumption.Prog

variable {E : Env} {id : Bytes32}

/-! ## Collateral on a closed intent -/

/-- A program that reverts. -/
def Reverts (r : Res World Answer Err Unit) : Prop := ∃ w e, r = .throw w e

theorem reverts_failIf_bind {c : Prop} [Decidable c] {e : Err} {w : World}
    {f : Unit → World → Res World Answer Err Unit} (h : ¬ c → Reverts (f () w)) :
    Reverts ((failIf c e w).bind f) := by
  by_cases hc : c
  · exact ⟨w, e, by rw [failIf_apply, if_pos hc, Res.bind_throw]⟩
  · rw [failIf_apply, if_neg hc, Res.bind_ret]
    exact h hc

theorem reverts_of_failIf {c : Prop} [Decidable c] {e : Err} {w : World}
    {f : Unit → World → Res World Answer Err Unit} (hc : c) : Reverts ((failIf c e w).bind f) :=
  reverts_failIf_bind fun hn => absurd hc hn

theorem reverts_nonReentrant {w : World} {body : Tx Unit}
    (h : Reverts (body { w with entered := true })) : Reverts (nonReentrant body w) := by
  simp only [nonReentrant, bind_apply, read_apply, Res.bind_ret]
  refine reverts_failIf_bind fun _ => ?_
  obtain ⟨w', e, hthrow⟩ := h
  exact ⟨w', e, by simp only [bind_apply, update_apply, Res.bind_ret, hthrow, Res.bind_throw]⟩

/-- `postCollateral` reverts on every intent that is not pending. -/
theorem postCollateral_closed {w : World} {msg : Msg} (h : Kept E w)
    (hclosed : (w.intents id).status ≠ .Pending) (balance : Nat) :
    Reverts (postCollateral msg id { w with balance }) := by
  simp only [postCollateral, whenNotPaused, bind_apply, read_apply, Res.bind_ret]
  refine reverts_failIf_bind fun _ => reverts_nonReentrant ?_
  simp only [bind_apply, read_apply, Res.bind_ret]
  refine reverts_failIf_bind fun _ => reverts_failIf_bind fun _ => ?_
  refine reverts_failIf_bind fun hsolver => reverts_of_failIf ?_
  by_contra hexpiry
  exact hclosed (pending_of_no_solver h (not_not.mp hsolver) (Nat.lt_of_not_le hexpiry))

/-- A call that reverts leaves the machine as it was. -/
theorem settle_reverts {w : World} {msg : Msg} {call : Call} {stack : List Frame}
    {r : Res World Answer Err Unit} (h : Reverts r) :
    settle E w msg call stack r = ⟨w, stack⟩ := by
  obtain ⟨w', e, rfl⟩ := h
  rfl

/-- Posting collateral on an intent that is not pending changes nothing, at any point of a run. -/
theorem step_postCollateral_closed {m m' : Machine} {msg : Msg} (h : Inv E m)
    (hclosed : (m.world.intents id).status ≠ .Pending)
    (hstep : step E m (.call msg (.postCollateral id)) = some m') : m' = m := by
  obtain ⟨hraw, -⟩ := Option.filter_eq_some_iff.mp hstep
  simp only [rawStep] at hraw
  split at hraw
  case isFalse => cases hraw
  obtain rfl := Option.some.inj hraw
  rcases h.cases with ⟨w, rfl, hidle⟩ | ⟨w, frame, rfl, hwaits⟩
  · exact settle_reverts (postCollateral_closed hidle.kept hclosed _)
  · have hlocked : w.entered = true := hwaits.waited.entered.trans hwaits.covers.entered
    exact settle_reverts (exec_locked hlocked rfl)

/-! ## Disposition -/

/-- The last idle world of an invariant machine is idle. -/
theorem Inv.committed_idle {m : Machine} (h : Inv E m) : Idle E m.committed := by
  rcases h.cases with ⟨w, rfl, hidle⟩ | ⟨w, frame, rfl, hwaits⟩
  · exact hidle
  · exact hwaits.saved

/-- At any two points of a run, in the worlds no running call can take back: an existing intent
keeps its terms, and once it has left `Pending` it never changes; each id is created once. At the
later point the postings, payments and forfeits of every intent are exactly those of its status,
and forfeited collateral is the treasury's, either still credited or drawn. On an intent that is
not pending `postCollateral` changes nothing. -/
theorem exactly_one_disposition {m m' : Machine} {events : List Event} (hreach : Reachable E m)
    (hrun : Run.run (step E) m events = some m') :
    (∀ id, (m.committed.intents id).owner ≠ 0 →
      (m.committed.intents id).Evolves (m'.committed.intents id)) ∧
    (createdIds m'.committed.logs).Nodup ∧
    (∀ id, (m'.committed.intents id).owner ≠ 0 ↔ id ∈ createdIds m'.committed.logs) ∧
    (∀ id, (m'.committed.intents id).Accounted m'.committed.timestamp
      (posted id m'.committed.logs) (paid id m'.committed.payments)
      (forfeited id m'.committed.logs)) ∧
    (∀ a, a ≠ m'.committed.treasury → m'.committed.pendingTreasuryWithdrawals a = 0) ∧
    (m'.committed.pendingTreasuryWithdrawals m'.committed.treasury +
        withdrawn m'.committed.treasury m'.committed.payments =
      totalForfeited m'.committed.logs) ∧
    (∀ msg id m'', (m'.world.intents id).status ≠ .Pending →
      step E m' (.call msg (.postCollateral id)) = some m'' → m'' = m') := by
  have hinv := inv_of_reachable hreach
  have hinv' : Inv E m' := Run.run_invariant (fun _ => True)
    (fun _ _ _ _ hs hstep => (step_inv hs hstep).1) (fun _ _ => trivial) hrun hinv
  have hkept := hinv'.committed_idle.kept
  exact ⟨(committed_evolves hinv hrun).intents, hkept.createdOnce, hkept.created, hkept.accounted,
    hkept.onlyTreasury, hkept.credit,
    fun _ _ _ hclosed hstep => step_postCollateral_closed hinv' hclosed hstep⟩

/-- A contract at address 1 whose hash function is the one entry of `keccak256` the sample run
needs. -/
def sampleEnv : Env where
  keccak256 _ := 0x7e95ed0d0fc2a016095348bbeda3a9ad1d4f12b6479aa32914aca3f96bd290bd
  self := 1
  tracked _ := true

def sampleId : Bytes32 := sampleEnv.keccak256 (encodePacked 6 0 1000)

/-- Deployed with orchestrator 2, treasury 3 and owner 4. -/
def sampleStorage : Storage :=
  { intents := fun _ => .empty, intentNonce := 0, orchestrator := 2, treasury := 3, owner := 4,
    approvedSolvers := fun _ => false, pendingTreasuryWithdrawals := fun _ => 0,
    dailyVolume := 0, dailyVolumeLimit := maxUint256, lastVolumeReset := 1000, paused := false,
    entered := false }

/-- Account 6 escrows 100 wei and the approved solver 5 posts 150 wei. -/
def sampleOpening : List Event :=
  [.call ⟨4, 0⟩ (.setSolver 5 true),
    .call ⟨6, 100⟩ (.submitIntent 0 100 0 1399811149 2000 50),
    .call ⟨5, 150⟩ (.postCollateral sampleId)]

/-- Orchestrator 2 confirms, and the solver takes both payments. -/
def sampleRun : List Event :=
  sampleOpening ++ [.call ⟨2, 0⟩ (.confirmSettlement sampleId 77), .reply 0, .reply 0]

theorem sample_reachable {m : Machine} {events : List Event}
    (h : Run.run (step sampleEnv) (deployed sampleStorage 1000) events = some m) :
    Reachable sampleEnv m :=
  ⟨2, 3, 4, 1000, sampleStorage, events, rfl, h⟩

/-- The sample run ends settled, the escrow and the collateral paid to the solver. -/
theorem exactly_one_disposition_sample :
    ∃ m, Run.run (step sampleEnv) (deployed sampleStorage 1000) sampleRun = some m ∧
      (m.committed.intents sampleId).status = .Settled ∧
      (m.committed.intents sampleId).Accounted m.committed.timestamp
        (posted sampleId m.committed.logs) (paid sampleId m.committed.payments)
        (forfeited sampleId m.committed.logs) := by
  obtain ⟨m, hm⟩ := Option.isSome_iff_exists.mp (by decide :
    (Run.run (step sampleEnv) (deployed sampleStorage 1000) sampleRun).isSome = true)
  have hstatus : (Run.run (step sampleEnv) (deployed sampleStorage 1000) sampleRun).map
      (fun m => (m.committed.intents sampleId).status) = some .Settled := by decide
  rw [hm] at hstatus
  have hdeployed : Reachable sampleEnv (deployed sampleStorage 1000) :=
    sample_reachable (Run.run_nil _)
  exact ⟨m, hm, Option.some.inj hstatus, (exactly_one_disposition hdeployed hm).2.2.2.1 sampleId⟩

/-! ## Solvency -/

/-- The ETH side of a waiting call: what is left covers all that is owed. -/
theorem Waits.eth {frame : Frame} {w : World} (h : Waits E frame w) :
    ethOwed w.toStorage + w.forced ≤ w.balance := by
  have hcovers := h.covers.eth
  have hmoved := h.waited.eth
  have howed : ethOwed w.toStorage = ethOwed frame.asked.toStorage :=
    ethOwed_congr h.waited.intents h.waited.pending
  omega

/-- The token side. -/
theorem Waits.token {frame : Frame} {w : World} (h : Waits E frame w) {T : Address} (h0 : T ≠ 0)
    (hT : E.tracked T = true) : tokenOwed T w.intents + w.donated T ≤ w.tokenBalance T := by
  have hcovers := h.covers.token T h0 hT
  obtain ⟨delivered, -, hmoved⟩ := h.waited.tokens T h0 hT
  rw [h.waited.intents]
  split at hcovers
  · next hsame =>
    rw [if_pos hsame] at hmoved
    omega
  · next hsame =>
    rw [if_neg hsame] at hmoved
    omega

/-- In every reachable state, also in the middle of a call, the contract's ETH covers native
escrow, collateral and treasury credit, and its balance of every token that moves only by
transfers covers the escrow in that token. In the worlds no running call can take back, what it
holds beyond that is exactly what was forced or donated. -/
theorem solvent {m : Machine} (hreach : Reachable E m) :
    (tokenOwed 0 m.world.intents + collateralHeld m.world.intents +
        treasuryOwed m.world.pendingTreasuryWithdrawals ≤ m.world.balance) ∧
    (∀ T, T ≠ 0 → E.tracked T = true → tokenOwed T m.world.intents ≤ m.world.tokenBalance T) ∧
    (m.committed.balance =
      tokenOwed 0 m.committed.intents + collateralHeld m.committed.intents +
        treasuryOwed m.committed.pendingTreasuryWithdrawals + m.committed.forced) ∧
    (∀ T, T ≠ 0 → E.tracked T = true → m.committed.tokenBalance T =
      tokenOwed T m.committed.intents + m.committed.donated T) := by
  have hinv := inv_of_reachable hreach
  have hsolvent := hinv.committed_idle.solvent
  refine ⟨?_, ?_, hsolvent.eth, hsolvent.token⟩
  · rcases hinv.cases with ⟨w, rfl, hidle⟩ | ⟨w, frame, rfl, hwaits⟩
    · have heth := hidle.solvent.eth
      simp only [ethOwed] at heth ⊢
      omega
    · have heth := hwaits.eth
      simp only [ethOwed] at heth ⊢
      omega
  · intro T h0 hT
    rcases hinv.cases with ⟨w, rfl, hidle⟩ | ⟨w, frame, rfl, hwaits⟩
    · have htoken := hidle.solvent.token T h0 hT
      show tokenOwed T w.intents ≤ w.tokenBalance T
      omega
    · have htoken := hwaits.token h0 hT
      show tokenOwed T w.intents ≤ w.tokenBalance T
      omega

/-- With the collateral posted, 250 wei cover what is owed. -/
theorem solvent_sample :
    ∃ m, Run.run (step sampleEnv) (deployed sampleStorage 1000) sampleOpening = some m ∧
      m.world.balance = 250 ∧
      tokenOwed 0 m.world.intents + collateralHeld m.world.intents +
        treasuryOwed m.world.pendingTreasuryWithdrawals ≤ m.world.balance := by
  obtain ⟨m, hm⟩ := Option.isSome_iff_exists.mp (by decide :
    (Run.run (step sampleEnv) (deployed sampleStorage 1000) sampleOpening).isSome = true)
  have hbalance : (Run.run (step sampleEnv) (deployed sampleStorage 1000) sampleOpening).map
      (fun m => m.world.balance) = some 250 := by decide
  rw [hm] at hbalance
  exact ⟨m, hm, Option.some.inj hbalance, (solvent (sample_reachable hm)).1⟩

end Maat.IntentManager
