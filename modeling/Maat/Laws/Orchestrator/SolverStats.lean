import Maat.Orchestrator.SolverStats

/-!
# What a solver's record counts

One pass of `readSolverRecord` counts, for each solver, the known intents whose outcome the pass
could tell. Everything about tiers then speaks of these counts: a record with reads missing is a
record of fewer intents, and the tier it earns is compared with the tier of the full one.
-/

namespace Maat.Orchestrator

open Js

variable {readIntent : Str → Except Str OnChainIntent} {exclusions : List SolverExclusionEntry}
variable {solver idHex : Str} {cache : TerminalCache} {st : Reading}

/-- The terminal outcome of an intent as the pass sees it: the cached one, or the one read. -/
def outcome (readIntent : Str → Except Str OnChainIntent) (cache : TerminalCache) (idHex : Str) :
    Option CachedTerminalIntent :=
  match cache idHex with
  | some cached => some cached
  | none =>
    match readIntent ('0' :: 'x' :: idHex) with
    | .error _ => none
    | .ok onChain =>
      if isTerminalStatus onChain.status = false then none
      else if toLowerCase onChain.owner = ZERO_ADDRESS then none
      else some ⟨onChain.status, toLowerCase onChain.solver⟩

/-- The outcome counts for the solver under this status. -/
def countsFor (exclusions : List SolverExclusionEntry) (solver : Str) (status : Nat) (idHex : Str) :
    Option CachedTerminalIntent → Bool
  | none => false
  | some cached =>
    cached.solver != ZERO_ADDRESS && cached.solver == solver &&
      !isExcluded exclusions idHex cached && cached.status == status

/-- The known intents that count for the solver under a status. -/
def countOf (readIntent : Str → Except Str OnChainIntent) (cache : TerminalCache)
    (exclusions : List SolverExclusionEntry) (solver : Str) (status : Nat) (ids : List Str) : Nat :=
  ids.countP fun idHex => countsFor exclusions solver status idHex (outcome readIntent cache idHex)

/-! ## One intent -/

/-- The accounts after an outcome, if there is one. -/
def credit (exclusions : List SolverExclusionEntry) (accounts : Str → Option Accumulator)
    (idHex : Str) : Option CachedTerminalIntent → Str → Option Accumulator
  | none => accounts
  | some cached =>
    if cached.solver = ZERO_ADDRESS then accounts
    else Function.update accounts cached.solver
      (some (((accounts cached.solver).getD emptyRecordAccumulator).add
        (isExcluded exclusions idHex cached) cached.status))

theorem accumulators_tally (cached : CachedTerminalIntent) :
    (tally exclusions st idHex cached).accumulators =
      credit exclusions st.accumulators idHex (some cached) := by
  by_cases hz : cached.solver = ZERO_ADDRESS
  · simp only [tally, credit, hz, if_true]
  · simp only [tally, credit, hz, if_false]

theorem cache_tally (cached : CachedTerminalIntent) :
    (tally exclusions st idHex cached).cache = st.cache := by
  unfold tally
  split <;> rfl

theorem accumulators_readOne :
    (readOne readIntent exclusions st idHex).accumulators =
      credit exclusions st.accumulators idHex (outcome readIntent st.cache idHex) := by
  unfold readOne outcome
  cases hc : st.cache idHex with
  | some cached => exact accumulators_tally cached
  | none =>
    cases hr : readIntent ('0' :: 'x' :: idHex) with
    | error e => rfl
    | ok onChain =>
      dsimp only
      split
      · rfl
      · split
        · rfl
        · exact accumulators_tally _

/-- Reading one intent leaves every other intent's cached outcome as it was. -/
theorem cache_readOne {other : Str} (h : other ≠ idHex) :
    (readOne readIntent exclusions st idHex).cache other = st.cache other := by
  unfold readOne
  cases hc : st.cache idHex with
  | some cached => simp only [cache_tally]
  | none =>
    cases hr : readIntent ('0' :: 'x' :: idHex) with
    | error e => rfl
    | ok onChain =>
      dsimp only
      split
      · rfl
      · split
        · rfl
        · simp only [cache_tally]
          exact Function.update_of_ne h _ _

/-- So the intents still to come are cached as they were. -/
theorem same_readOne (readIntent : Str → Except Str OnChainIntent)
    (exclusions : List SolverExclusionEntry) {ids : List Str} (hfresh : idHex ∉ ids)
    (same : ∀ other ∈ idHex :: ids, st.cache other = cache other) :
    ∀ other ∈ ids, (readOne readIntent exclusions st idHex).cache other = cache other := by
  intro other hmem
  have hne : other ≠ idHex := fun h => hfresh (h ▸ hmem)
  rw [cache_readOne hne]
  exact same other (List.mem_cons_of_mem _ hmem)

/-- The account a solver without one starts from. -/
def accountOf (accounts : Str → Option Accumulator) (solver : Str) : Accumulator :=
  (accounts solver).getD emptyRecordAccumulator

theorem settled_add (acc : Accumulator) (excluded : Bool) (status : Nat) :
    (acc.add excluded status).settled =
      acc.settled + if !excluded && status == INTENT_STATUS_SETTLED then 1 else 0 := by
  unfold Accumulator.add
  cases excluded
  · simp
    split_ifs <;> rfl
  · simp

theorem slashed_add (acc : Accumulator) (excluded : Bool) (status : Nat) :
    (acc.add excluded status).slashed =
      acc.slashed + if !excluded && status == INTENT_STATUS_SLASHED then 1 else 0 := by
  unfold Accumulator.add
  cases excluded
  · by_cases hs : status = INTENT_STATUS_SETTLED
    · simp [hs, INTENT_STATUS_SETTLED, INTENT_STATUS_SLASHED]
    · simp [hs]
      split_ifs <;> rfl
  · simp

/-- What one outcome adds to a solver's counts. -/
theorem accountOf_credit (exclusions : List SolverExclusionEntry) (solver idHex : Str)
    (accounts : Str → Option Accumulator) (o : Option CachedTerminalIntent) :
    (accountOf (credit exclusions accounts idHex o) solver).settled =
        (accountOf accounts solver).settled +
          (if countsFor exclusions solver INTENT_STATUS_SETTLED idHex o then 1 else 0) ∧
      (accountOf (credit exclusions accounts idHex o) solver).slashed =
        (accountOf accounts solver).slashed +
          (if countsFor exclusions solver INTENT_STATUS_SLASHED idHex o then 1 else 0) := by
  cases o with
  | none => exact ⟨rfl, rfl⟩
  | some cached =>
    by_cases hz : cached.solver = ZERO_ADDRESS
    · simp [credit, countsFor, hz]
    · by_cases hs : cached.solver = solver
      · subst hs
        have hcredit : accountOf (credit exclusions accounts idHex (some cached)) cached.solver =
            (accountOf accounts cached.solver).add (isExcluded exclusions idHex cached)
              cached.status := by
          simp [credit, hz, accountOf]
        rw [hcredit, settled_add, slashed_add]
        simp [countsFor, hz]
      · have hcredit : accountOf (credit exclusions accounts idHex (some cached)) solver =
            accountOf accounts solver := by
          simp [credit, hz, accountOf, Function.update_of_ne (Ne.symm hs)]
        rw [hcredit]
        simp [countsFor, hs]

/-! ## A pass -/

/-- The pass counts each intent once, as the cache it started with and the chain tell. -/
theorem accountOf_foldl (readIntent : Str → Except Str OnChainIntent)
    (exclusions : List SolverExclusionEntry) (solver : Str) (cache : TerminalCache)
    (ids : List Str) (nodup : ids.Nodup) (st : Reading)
    (same : ∀ id ∈ ids, st.cache id = cache id) :
    (accountOf (ids.foldl (readOne readIntent exclusions) st).accumulators solver).settled =
        (accountOf st.accumulators solver).settled +
          countOf readIntent cache exclusions solver INTENT_STATUS_SETTLED ids ∧
      (accountOf (ids.foldl (readOne readIntent exclusions) st).accumulators solver).slashed =
        (accountOf st.accumulators solver).slashed +
          countOf readIntent cache exclusions solver INTENT_STATUS_SLASHED ids := by
  induction ids generalizing st with
  | nil => exact ⟨rfl, rfl⟩
  | cons id ids ih =>
    have hfresh := (List.nodup_cons.mp nodup).1
    have hrest := same_readOne readIntent exclusions hfresh same
    have hhere : outcome readIntent st.cache id = outcome readIntent cache id := by
      unfold outcome
      rw [same id List.mem_cons_self]
    obtain ⟨hsettled, hslashed⟩ := ih (List.nodup_cons.mp nodup).2 _ hrest
    rw [accumulators_readOne, hhere] at hsettled hslashed
    obtain ⟨hs, hl⟩ := accountOf_credit exclusions solver id st.accumulators
      (outcome readIntent cache id)
    simp only [List.foldl_cons]
    rw [hsettled, hslashed, hs, hl]
    simp only [countOf, List.countP_cons]
    constructor <;> omega

/-- The record routing looks up, a solver without one having the empty record. -/
def recordOf (result : ReadSolverRecordResult) (solver : Str) : SolverRecord :=
  (result.records (addrKey solver)).getD emptyRecordAccumulator.toRecord

/-- How many known intents a solver settled, and how many it was slashed for, as far as told. -/
def knownCount (readIntent : Str → Except Str OnChainIntent) (intentIds : List Str)
    (cache : TerminalCache) (exclusions : List SolverExclusionEntry) (solver : Str)
    (status : Nat) : Nat :=
  countOf readIntent cache exclusions (addrKey solver) status (distinct (intentIds.map keyOf))

/-- The counts of a record are the counts of the known intents. -/
theorem recordOf_readSolverRecord (readIntent : Str → Except Str OnChainIntent)
    (intentIds : List Str) (cache : TerminalCache) (exclusions : List SolverExclusionEntry)
    (solver : Str) :
    let record := recordOf (readSolverRecord readIntent intentIds cache exclusions).1 solver
    let settled := knownCount readIntent intentIds cache exclusions solver INTENT_STATUS_SETTLED
    let slashed := knownCount readIntent intentIds cache exclusions solver INTENT_STATUS_SLASHED
    record.resolved = settled + slashed ∧
      record.successRate = if settled + slashed = 0 then none
        else some (double ((settled : ℚ) / ((settled + slashed : Nat) : ℚ))) := by
  intro record settled slashed
  let st : Reading := (distinct (intentIds.map keyOf)).foldl (readOne readIntent exclusions)
    ⟨cache, fun _ => none, [], false⟩
  have hrecord : record = (accountOf st.accumulators (addrKey solver)).toRecord := by
    show ((st.accumulators (addrKey solver)).map Accumulator.toRecord).getD _ = _
    unfold accountOf
    cases st.accumulators (addrKey solver) <;> rfl
  obtain ⟨hsettled, hslashed⟩ := accountOf_foldl readIntent exclusions (addrKey solver) cache
    (distinct (intentIds.map keyOf)) (nodup_distinct _) ⟨cache, fun _ => none, [], false⟩
    (fun _ _ => rfl)
  have hs : (accountOf st.accumulators (addrKey solver)).settled = settled := by
    rw [hsettled]
    simp [accountOf, emptyRecordAccumulator, settled, knownCount]
  have hl : (accountOf st.accumulators (addrKey solver)).slashed = slashed := by
    rw [hslashed]
    simp [accountOf, emptyRecordAccumulator, slashed, knownCount]
  rw [hrecord]
  simp [Accumulator.toRecord, hs, hl]

theorem errors_readOne (reads : ∀ id, ∃ onChain, readIntent id = .ok onChain) :
    (readOne readIntent exclusions st idHex).errors = st.errors := by
  have htally : ∀ (st : Reading) cached, (tally exclusions st idHex cached).errors = st.errors := by
    intro st cached
    unfold tally
    split <;> rfl
  unfold readOne
  cases hc : st.cache idHex with
  | some cached => exact htally st cached
  | none =>
    obtain ⟨onChain, hr⟩ := reads ('0' :: 'x' :: idHex)
    simp only [hr]
    split
    · rfl
    · split
      · rfl
      · exact htally _ _

/-- A pass whose reads all succeed is complete. -/
theorem complete_of_reads (reads : ∀ id, ∃ onChain, readIntent id = .ok onChain)
    (intentIds : List Str) :
    (readSolverRecord readIntent intentIds cache exclusions).1.complete = true := by
  have herrors : ∀ (ids : List Str) (st : Reading),
      (ids.foldl (readOne readIntent exclusions) st).errors = st.errors := by
    intro ids
    induction ids with
    | nil => exact fun _ => rfl
    | cons id ids ih =>
      intro st
      rw [List.foldl_cons, ih, errors_readOne reads]
  unfold readSolverRecord
  simp only [herrors, List.isEmpty_nil]

/-! ## Tiers -/

/-- A solver with these counts is demoted. -/
def demoted (config : TierConfig) (settled slashed : Nat) : Prop :=
  0 < settled + slashed ∧
    config.demotes (settled + slashed) (double ((settled : ℚ) / ((settled + slashed : Nat) : ℚ)))

theorem toInt_clamp (tier : Int) : (Tier.clamp tier).toInt = min 3 (max 1 tier) := by
  unfold Tier.clamp
  split
  · next h => rw [h]; rfl
  · split
    · next h => rw [h]; rfl
    · next h1 h2 =>
      show (3 : Int) = _
      omega

theorem toInt_bounds (tier : Tier) : 1 ≤ tier.toInt ∧ tier.toInt ≤ 3 := by
  cases tier <;> decide

/-- The tier a record with missing reads earns: only demotion is left. -/
theorem computeTier_incomplete {record : SolverRecord} {settled slashed : Nat}
    (onboarding : Tier) (config : TierConfig)
    (resolved : record.resolved = settled + slashed)
    (rate : record.successRate = if settled + slashed = 0 then none
      else some (double ((settled : ℚ) / ((settled + slashed : Nat) : ℚ)))) :
    (demoted config settled slashed →
        (computeTier onboarding record config false).toInt = min 3 (onboarding.toInt + 1)) ∧
      (¬demoted config settled slashed →
        (computeTier onboarding record config false).toInt = onboarding.toInt) := by
  have hbounds := toInt_bounds onboarding
  unfold computeTier demoted
  by_cases hzero : settled + slashed = 0
  · rw [rate, if_pos hzero]
    exact ⟨fun h => absurd h.1 (by omega), fun _ => rfl⟩
  · rw [rate, if_neg hzero]
    simp only [resolved, hzero, if_false, Bool.false_and, Bool.false_eq_true]
    constructor
    · intro h
      rw [if_pos h.2, toInt_clamp]
      omega
    · intro h
      rw [if_neg (fun hd => h ⟨by omega, hd⟩), toInt_clamp]
      omega

/-- The tier the full record earns is at most the onboarding tier, unless it demotes. -/
theorem computeTier_complete {record : SolverRecord} {settled slashed : Nat}
    (onboarding : Tier) {config : TierConfig}
    (ordered : config.demoteMaxSuccess ≤ config.promoteMinSuccess)
    (resolved : record.resolved = settled + slashed)
    (rate : record.successRate = if settled + slashed = 0 then none
      else some (double ((settled : ℚ) / ((settled + slashed : Nat) : ℚ)))) :
    (demoted config settled slashed →
        (computeTier onboarding record config true).toInt = min 3 (onboarding.toInt + 1)) ∧
      (¬demoted config settled slashed →
        (computeTier onboarding record config true).toInt ≤ onboarding.toInt) := by
  have hbounds := toInt_bounds onboarding
  unfold computeTier demoted
  by_cases hzero : settled + slashed = 0
  · rw [rate, if_pos hzero]
    exact ⟨fun h => absurd h.1 (by omega), fun _ => le_rfl⟩
  · rw [rate, if_neg hzero]
    simp only [resolved, hzero, if_false, Bool.true_and]
    constructor
    · intro h
      -- a rate below the demotion bound is below the promotion bound
      have hpromote : config.promotes (settled + slashed)
          (double ((settled : ℚ) / ((settled + slashed : Nat) : ℚ))) = false := by
        have hlow := h.2
        simp only [TierConfig.demotes, Bool.and_eq_true, decide_eq_true_eq] at hlow
        simp only [TierConfig.promotes, Bool.and_eq_false_iff, decide_eq_false_iff_not, not_le]
        exact Or.inr (lt_of_lt_of_le hlow.2 ordered)
      rw [hpromote, if_neg (by decide), if_pos h.2, toInt_clamp]
      omega
    · intro h
      split
      · rw [toInt_clamp]
        omega
      · rw [if_neg (fun hd => h ⟨by omega, hd⟩), toInt_clamp]
        omega

theorem tierCapWei_anti {capPct : TierCapPct} {better worse : Tier} (maxTransferWei : Nat)
    (decreasing : ∀ s t : Tier, s.toInt ≤ t.toInt → capPct t ≤ capPct s)
    (h : better.toInt ≤ worse.toInt) :
    tierCapWei worse maxTransferWei capPct ≤ tierCapWei better maxTransferWei capPct := by
  have hround := round_mono (decreasing _ _ h)
  unfold tierCapWei
  apply Int.tdiv_le_tdiv (by norm_num)
  exact mul_le_mul_of_nonneg_left hround (Int.natCast_nonneg _)

/-- The chain answers with the true intents, except for the reads that fail. -/
def failing (chain : Str → OnChainIntent) (fails : Str → Option Str) (id : Str) :
    Except Str OnChainIntent :=
  match fails id with
  | some error => .error error
  | none => .ok (chain id)

/-- A record with failed reads gives no better tier and no larger cap than the full record,
exactly when the full record would not demote, or the intents still told of demote as well, or
there is no worse tier than the onboarding one. -/
theorem tier_of_missing_reads_iff (chain : Str → OnChainIntent) (fails : Str → Option Str)
    (intentIds : List Str) (cache : TerminalCache) (exclusions : List SolverExclusionEntry)
    (solver : Str) (onboarding : Tier) (config : TierConfig)
    (ordered : config.demoteMaxSuccess ≤ config.promoteMinSuccess)
    (incomplete :
      (readSolverRecord (failing chain fails) intentIds cache exclusions).1.complete = false) :
    let full := (readSolverRecord (fun id => .ok (chain id)) intentIds cache exclusions).1
    let told := (readSolverRecord (failing chain fails) intentIds cache exclusions).1
    let fullTier := computeTier onboarding (recordOf full solver) config full.complete
    let toldTier := computeTier onboarding (recordOf told solver) config told.complete
    let count := fun readIntent status =>
      knownCount readIntent intentIds cache exclusions solver status
    (fullTier.toInt ≤ toldTier.toInt ∧
        ∀ (maxTransferWei : Nat) (capPct : TierCapPct),
          (∀ s t : Tier, s.toInt ≤ t.toInt → capPct t ≤ capPct s) →
            tierCapWei toldTier maxTransferWei capPct ≤
              tierCapWei fullTier maxTransferWei capPct) ↔
      (demoted config (count (fun id => .ok (chain id)) INTENT_STATUS_SETTLED)
          (count (fun id => .ok (chain id)) INTENT_STATUS_SLASHED) →
        onboarding = .T3 ∨ demoted config (count (failing chain fails) INTENT_STATUS_SETTLED)
          (count (failing chain fails) INTENT_STATUS_SLASHED)) := by
  intro full told fullTier toldTier count
  obtain ⟨hfullResolved, hfullRate⟩ := recordOf_readSolverRecord (fun id => .ok (chain id))
    intentIds cache exclusions solver
  obtain ⟨htoldResolved, htoldRate⟩ := recordOf_readSolverRecord (failing chain fails)
    intentIds cache exclusions solver
  obtain ⟨hfullDemoted, hfullKept⟩ := computeTier_complete onboarding ordered
    hfullResolved hfullRate
  obtain ⟨htoldDemoted, htoldKept⟩ := computeTier_incomplete onboarding config
    htoldResolved htoldRate
  have hfull : fullTier = computeTier onboarding (recordOf full solver) config true := by
    rw [← complete_of_reads (fun id => ⟨chain id, rfl⟩) intentIds]
  have htold : toldTier = computeTier onboarding (recordOf told solver) config false := by
    rw [← incomplete]
  have hbounds := toInt_bounds onboarding
  rw [← hfull] at hfullDemoted hfullKept
  rw [← htold] at htoldDemoted htoldKept
  constructor
  · rintro ⟨htier, -⟩ hbad
    by_contra hnot
    obtain ⟨hworst, hkept⟩ := not_or.mp hnot
    have hsame := htoldKept hkept
    have hdown := hfullDemoted hbad
    have hthree : onboarding.toInt = 3 := by
      have hle : min 3 (onboarding.toInt + 1) ≤ onboarding.toInt := by
        rw [← hdown, ← hsame]
        exact htier
      omega
    apply hworst
    revert hthree
    cases onboarding <;> decide
  · intro h
    have htier : fullTier.toInt ≤ toldTier.toInt := by
      by_cases hbad : demoted config (count (fun id => .ok (chain id)) INTENT_STATUS_SETTLED)
          (count (fun id => .ok (chain id)) INTENT_STATUS_SLASHED)
      · have hdown : fullTier.toInt = min 3 (onboarding.toInt + 1) := hfullDemoted hbad
        by_cases hkept : demoted config (count (failing chain fails) INTENT_STATUS_SETTLED)
            (count (failing chain fails) INTENT_STATUS_SLASHED)
        · rw [hdown, htoldDemoted hkept]
        · have hworst := (h hbad).resolve_right hkept
          rw [hdown, htoldKept hkept, hworst]
          decide
      · have hup : fullTier.toInt ≤ onboarding.toInt := hfullKept hbad
        by_cases hkept : demoted config (count (failing chain fails) INTENT_STATUS_SETTLED)
            (count (failing chain fails) INTENT_STATUS_SLASHED)
        · rw [htoldDemoted hkept]
          omega
        · rw [htoldKept hkept]
          exact hup
    exact ⟨htier, fun maxTransferWei capPct decreasing =>
      tierCapWei_anti maxTransferWei decreasing htier⟩

/-! ### Four intents -/

/-- The `n`th intent's id, without `0x`. -/
def sampleId (n : Fin 4) : Str := List.replicate 63 '0' ++ [Nat.digitChar n]

def sampleSolver : Str := '0' :: 'x' :: List.replicate 40 '7'

def sampleConfig : TierConfig := ⟨10, double (95 / 100), 3, double (4 / 5)⟩

/-- The solver settled the first two and was slashed for the others. -/
def sampleChain (id : Str) : OnChainIntent :=
  { owner := '0' :: 'x' :: List.replicate 40 '5'
    amount := 100
    tokenAddress := ZERO_ADDRESS
    status := if id = '0' :: 'x' :: sampleId 0 ∨ id = '0' :: 'x' :: sampleId 1
      then INTENT_STATUS_SETTLED else INTENT_STATUS_SLASHED
    solver := sampleSolver
    collateralPosted := 150 }

/-- Reading these two intents fails. -/
def sampleFails (m n : Fin 4) (id : Str) : Option Str :=
  if id = '0' :: 'x' :: sampleId m ∨ id = '0' :: 'x' :: sampleId n then some ['e'] else none

/-- Two settlements and two slashes demote a first-tier solver; with the reads of the slashes
failing it stays in the first tier, with the whole of the largest transfer as its cap. -/
theorem missing_slashes_keep_tier :
    let full := (readSolverRecord (fun id => .ok (sampleChain id)) (List.ofFn sampleId)
      (fun _ => none) []).1
    let told := (readSolverRecord (failing sampleChain (sampleFails 2 3)) (List.ofFn sampleId)
      (fun _ => none) []).1
    let capPct : TierCapPct := fun | .T1 => 100 | .T2 => 30 | .T3 => 5
    sampleConfig.demoteMaxSuccess ≤ sampleConfig.promoteMinSuccess ∧
      full.complete = true ∧ told.complete = false ∧
      computeTier .T1 (recordOf full sampleSolver) sampleConfig full.complete = .T2 ∧
      computeTier .T1 (recordOf told sampleSolver) sampleConfig told.complete = .T1 ∧
      tierCapWei .T2 10000 capPct < tierCapWei .T1 10000 capPct := by
  decide +kernel

/-- With a third slash, and the reads of the settlements failing, the demotion stands. -/
theorem tier_of_missing_reads_sample :
    let full := (readSolverRecord (fun id => .ok (sampleChain id))
      (List.ofFn sampleId ++ [List.replicate 64 'f']) (fun _ => none) []).1
    let told := (readSolverRecord (failing sampleChain (sampleFails 0 1))
      (List.ofFn sampleId ++ [List.replicate 64 'f']) (fun _ => none) []).1
    (computeTier .T1 (recordOf full sampleSolver) sampleConfig full.complete).toInt ≤
      (computeTier .T1 (recordOf told sampleSolver) sampleConfig told.complete).toInt := by
  intro full told
  refine ((tier_of_missing_reads_iff sampleChain (sampleFails 0 1)
    (List.ofFn sampleId ++ [List.replicate 64 'f']) (fun _ => none) [] sampleSolver .T1
    sampleConfig (by decide +kernel) (by decide +kernel)).mpr ?_).1
  intro _
  right
  unfold demoted
  decide +kernel

end Maat.Orchestrator
