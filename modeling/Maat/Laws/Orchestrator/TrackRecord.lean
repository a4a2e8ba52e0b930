import Mathlib.Data.List.Induction
import Maat.Laws.Orchestrator.SolverStats

/-!
# Track records over many runs

`readSolverRecord` run again and again over one chain, the cache file passed from run to run or
lost between them. A pass is a fold of one outcome per distinct intent (`accumulators_foldl`), and
a cached outcome is the chain's own (`backed_fileAfter`), so what a run counts is a function of the
chain (`track_record`): with no failed read it is what a run without a cache counts.
-/

namespace Maat.Orchestrator

open Js

variable {readIntent : Str → Except Str OnChainIntent} {exclusions : List SolverExclusionEntry}

/-! ## Buckets -/

/-- The five counts of a record. -/
inductive Bucket where
  | settled
  | slashed
  | refunded
  | expired
  | excluded
  deriving DecidableEq

/-- The count an outcome goes to. -/
def bucketOf (excluded : Bool) (status : Nat) : Option Bucket :=
  if excluded then some .excluded
  else if status = INTENT_STATUS_SETTLED then some .settled
  else if status = INTENT_STATUS_SLASHED then some .slashed
  else if status = INTENT_STATUS_REFUNDED then some .refunded
  else if status = INTENT_STATUS_EXPIRED then some .expired
  else none

def Accumulator.get (acc : Accumulator) : Bucket → Nat
  | .settled => acc.settled
  | .slashed => acc.slashed
  | .refunded => acc.refunded
  | .expired => acc.expired
  | .excluded => acc.excluded

theorem Accumulator.ext_get {acc acc' : Accumulator} (h : ∀ b, acc.get b = acc'.get b) :
    acc = acc' := by
  obtain ⟨settled, slashed, refunded, expired, excluded⟩ := acc
  obtain rfl : settled = acc'.settled := h .settled
  obtain rfl : slashed = acc'.slashed := h .slashed
  obtain rfl : refunded = acc'.refunded := h .refunded
  obtain rfl : expired = acc'.expired := h .expired
  obtain rfl : excluded = acc'.excluded := h .excluded
  rfl

/-- An outcome adds one to its bucket. -/
theorem get_add (acc : Accumulator) (excluded : Bool) (status : Nat) (b : Bucket) :
    (acc.add excluded status).get b =
      acc.get b + if bucketOf excluded status = some b then 1 else 0 := by
  unfold Accumulator.add bucketOf
  split_ifs <;> cases b <;> simp_all [Accumulator.get]

theorem add_comm (acc : Accumulator) (e e' : Bool) (s s' : Nat) :
    (acc.add e s).add e' s' = (acc.add e' s').add e s := by
  apply Accumulator.ext_get
  intro b
  simp only [get_add]
  exact Nat.add_right_comm _ _ _

/-! ## A pass as a fold -/

/-- Two outcomes can be credited in either order. -/
theorem credit_comm (accounts : Str → Option Accumulator) (id id' : Str)
    (o o' : Option CachedTerminalIntent) :
    credit exclusions (credit exclusions accounts id o) id' o' =
      credit exclusions (credit exclusions accounts id' o') id o := by
  cases o with
  | none => rfl
  | some c =>
    cases o' with
    | none => rfl
    | some c' =>
      simp only [credit]
      by_cases hz : c.solver = ZERO_ADDRESS
      · simp only [if_pos hz]
      by_cases hz' : c'.solver = ZERO_ADDRESS
      · simp only [if_pos hz', if_neg hz]
      simp only [if_neg hz, if_neg hz']
      by_cases hs : c.solver = c'.solver
      · rw [hs]
        simp only [Function.update_self, Function.update_idem, Option.getD_some, add_comm]
      · rw [Function.update_of_ne (Ne.symm hs), Function.update_of_ne hs,
          Function.update_comm (Ne.symm hs)]

/-- All outcomes of a list of intents. -/
def creditAll (exclusions : List SolverExclusionEntry)
    (told : Str → Option CachedTerminalIntent) (accounts : Str → Option Accumulator)
    (ids : List Str) : Str → Option Accumulator :=
  ids.foldl (fun accounts id => credit exclusions accounts id (told id)) accounts

theorem accumulators_foldl {cache : TerminalCache} {ids : List Str} (nodup : ids.Nodup)
    (st : Reading) (same : ∀ id ∈ ids, st.cache id = cache id) :
    (ids.foldl (readOne readIntent exclusions) st).accumulators =
      creditAll exclusions (outcome readIntent cache) st.accumulators ids := by
  induction ids generalizing st with
  | nil => rfl
  | cons id ids ih =>
    obtain ⟨hfresh, hnodup⟩ := List.nodup_cons.mp nodup
    have hrest := same_readOne readIntent exclusions hfresh same
    have hhere : outcome readIntent st.cache id = outcome readIntent cache id := by
      unfold outcome
      rw [same id List.mem_cons_self]
    rw [List.foldl_cons, ih hnodup _ hrest, accumulators_readOne, hhere]
    rfl

/-- The order of the intents does not matter. -/
theorem creditAll_perm {told : Str → Option CachedTerminalIntent} {ids ids' : List Str}
    (h : ids.Perm ids') (accounts : Str → Option Accumulator) :
    creditAll exclusions told accounts ids = creditAll exclusions told accounts ids' :=
  h.foldl_eq' (fun _ _ _ _ _ => credit_comm _ _ _ _ _) accounts

theorem creditAll_congr {told told' : Str → Option CachedTerminalIntent} {ids : List Str}
    (h : ∀ id ∈ ids, told id = told' id) (accounts : Str → Option Accumulator) :
    creditAll exclusions told accounts ids = creditAll exclusions told' accounts ids := by
  induction ids generalizing accounts with
  | nil => rfl
  | cons id ids ih =>
    have hrest := ih fun other hmem => h other (List.mem_cons_of_mem _ hmem)
    simp only [creditAll, List.foldl_cons] at hrest ⊢
    rw [h id List.mem_cons_self, hrest]

/-- The outcome goes to this bucket of this solver's account. -/
def goesTo (exclusions : List SolverExclusionEntry) (solver : Str) (b : Bucket) (idHex : Str) :
    Option CachedTerminalIntent → Bool
  | none => false
  | some cached =>
    cached.solver == solver &&
      decide (bucketOf (isExcluded exclusions idHex cached) cached.status = some b)

/-- Each account counts each intent once. -/
theorem get_creditAll {told : Str → Option CachedTerminalIntent} {solver : Str}
    (hsolver : solver ≠ ZERO_ADDRESS) (b : Bucket) (ids : List Str)
    (accounts : Str → Option Accumulator) :
    (accountOf (creditAll exclusions told accounts ids) solver).get b =
      (accountOf accounts solver).get b +
        ids.countP fun id => goesTo exclusions solver b id (told id) := by
  induction ids generalizing accounts with
  | nil => rfl
  | cons id ids ih =>
    have hone : (accountOf (credit exclusions accounts id (told id)) solver).get b =
        (accountOf accounts solver).get b +
          if goesTo exclusions solver b id (told id) then 1 else 0 := by
      cases hc : told id with
      | none => rfl
      | some cached =>
        by_cases hs : cached.solver = solver
        · subst hs
          simp only [credit, if_neg hsolver, accountOf, Function.update_self, Option.getD_some,
            get_add, goesTo, beq_self_eq_true, Bool.true_and, decide_eq_true_eq]
        · have hother : accountOf (credit exclusions accounts id (some cached)) solver =
              accountOf accounts solver := by
            by_cases hz : cached.solver = ZERO_ADDRESS
            · simp only [credit, if_pos hz]
            · simp only [credit, if_neg hz, accountOf, Function.update_of_ne (Ne.symm hs)]
          rw [hother]
          simp [goesTo, hs]
    simp only [creditAll, List.foldl_cons] at ih ⊢
    rw [ih, hone, List.countP_cons]
    omega

/-- Nobody has the account of the zero address. -/
theorem creditAll_zero {told : Str → Option CachedTerminalIntent} (ids : List Str)
    (accounts : Str → Option Accumulator) :
    creditAll exclusions told accounts ids ZERO_ADDRESS = accounts ZERO_ADDRESS := by
  induction ids generalizing accounts with
  | nil => rfl
  | cons id ids ih =>
    simp only [creditAll, List.foldl_cons] at ih ⊢
    rw [ih]
    cases told id with
    | none => rfl
    | some cached =>
      by_cases hz : cached.solver = ZERO_ADDRESS
      · simp only [credit, if_pos hz]
      · simp only [credit, if_neg hz, Function.update_of_ne (Ne.symm hz)]

/-! ## What is left in the cache -/

theorem cache_readOne_self {st : Reading} {idHex : Str} {cached : CachedTerminalIntent}
    (h : (readOne readIntent exclusions st idHex).cache idHex = some cached) :
    outcome readIntent st.cache idHex = some cached := by
  unfold readOne at h
  unfold outcome
  cases hc : st.cache idHex with
  | some found =>
    simp only [hc, cache_tally] at h
    exact h
  | none =>
    cases hr : readIntent ('0' :: 'x' :: idHex) with
    | error e =>
      simp only [hc, hr] at h
      cases h
    | ok onChain =>
      simp only [hc, hr] at h ⊢
      split at h
      · rw [hc] at h
        cases h
      · next hterminal =>
        rw [if_neg hterminal]
        split at h
        · rw [hc] at h
          cases h
        · next howner =>
          rw [if_neg howner]
          rw [cache_tally] at h
          change Function.update st.cache idHex _ idHex = _ at h
          rw [Function.update_self] at h
          exact h

/-- Whatever a pass leaves in the cache was there before or is an outcome of the pass. -/
theorem cache_foldl (cache : TerminalCache) {ids : List Str} (nodup : ids.Nodup) {st : Reading}
    (same : ∀ id ∈ ids, st.cache id = cache id) {idHex : Str} {cached : CachedTerminalIntent}
    (h : (ids.foldl (readOne readIntent exclusions) st).cache idHex = some cached) :
    st.cache idHex = some cached ∨ outcome readIntent cache idHex = some cached := by
  induction ids generalizing st with
  | nil => exact .inl h
  | cons id ids ih =>
    obtain ⟨hfresh, hnodup⟩ := List.nodup_cons.mp nodup
    have hrest := same_readOne readIntent exclusions hfresh same
    rcases ih hnodup hrest h with hnow | hlater
    · by_cases hid : idHex = id
      · subst hid
        have hout := cache_readOne_self hnow
        unfold outcome at hout
        rw [same idHex List.mem_cons_self] at hout
        exact .inr hout
      · rw [cache_readOne hid] at hnow
        exact .inl hnow
    · exact .inr hlater

/-- A pass that reports no error read every intent that was not cached. -/
theorem reads_of_errors (cache : TerminalCache) {ids : List Str} (nodup : ids.Nodup) {st : Reading}
    (same : ∀ id ∈ ids, st.cache id = cache id)
    (h : (ids.foldl (readOne readIntent exclusions) st).errors = []) :
    st.errors = [] ∧ ∀ id ∈ ids, cache id = none →
      ∃ onChain, readIntent ('0' :: 'x' :: id) = .ok onChain := by
  induction ids generalizing st with
  | nil => exact ⟨h, fun _ hid => absurd hid List.not_mem_nil⟩
  | cons id ids ih =>
    obtain ⟨hfresh, hnodup⟩ := List.nodup_cons.mp nodup
    have hrest := same_readOne readIntent exclusions hfresh same
    obtain ⟨hnow, hlater⟩ := ih hnodup hrest h
    have htally : ∀ (st : Reading) cached,
        (tally exclusions st id cached).errors = st.errors := fun st cached => by
      unfold tally
      split <;> rfl
    have hread : st.errors = [] ∧
        (cache id = none → ∃ onChain, readIntent ('0' :: 'x' :: id) = .ok onChain) := by
      unfold readOne at hnow
      rw [same id List.mem_cons_self] at hnow
      cases hc : cache id with
      | some cached =>
        simp only [hc, htally] at hnow
        exact ⟨hnow, nofun⟩
      | none =>
        cases hr : readIntent ('0' :: 'x' :: id) with
        | error e =>
          simp only [hc, hr] at hnow
          exact absurd (List.append_eq_nil_iff.mp hnow).2 (List.cons_ne_nil _ _)
        | ok onChain =>
          refine ⟨?_, fun _ => ⟨onChain, rfl⟩⟩
          simp only [hc, hr] at hnow
          split at hnow
          · exact hnow
          · split at hnow
            · exact hnow
            · rw [htally] at hnow
              exact hnow
    refine ⟨hread.1, fun other hmem hnone => ?_⟩
    rcases List.mem_cons.mp hmem with rfl | hmem
    · exact hread.2 hnone
    · exact hlater other hmem hnone

/-! ## Runs over a history -/

/-- The chain over time: what `intents(id)` returns at each moment. -/
abbrev History := Nat → Str → OnChainIntent

/-- The chain says how the intent ended. -/
def OnChainIntent.ended (i : OnChainIntent) : Bool :=
  isTerminalStatus i.status && decide (toLowerCase i.owner ≠ ZERO_ADDRESS)

/-- How the intent ended, as it is cached. -/
def OnChainIntent.ending (i : OnChainIntent) : CachedTerminalIntent :=
  ⟨i.status, toLowerCase i.solver⟩

/-- An intent that has ended keeps its owner, status and solver. -/
def History.Final (history : History) : Prop :=
  ∀ id t t', t ≤ t' → (history t id).ended = true →
    (history t' id).ended = true ∧ (history t' id).status = (history t id).status ∧
      (history t' id).solver = (history t id).solver

/-- One call of `readSolverRecord`, with what happens around it. -/
structure StatsRun where
  intentIds : List Str
  /-- The moment at which `intents(id)` is read. -/
  readAt : Str → Nat
  /-- The error, for the reads that fail. -/
  fails : Str → Option Str
  exclusions : List SolverExclusionEntry
  /-- The cache file is missing or does not parse. -/
  cacheLost : Bool
  /-- The cache could be written back. -/
  saved : Bool

/-- What the chain says of the intent with this key during the run. -/
def StatsRun.onChain (history : History) (r : StatsRun) (idHex : Str) : OnChainIntent :=
  history (r.readAt ('0' :: 'x' :: idHex)) ('0' :: 'x' :: idHex)

def StatsRun.reads (history : History) (r : StatsRun) (id : Str) : Except Str OnChainIntent :=
  match r.fails id with
  | some error => .error error
  | none => .ok (history (r.readAt id) id)

def StatsRun.load (r : StatsRun) (file : TerminalCache) : TerminalCache :=
  if r.cacheLost then fun _ => none else file

/-- The run's result, and the cache file after it. -/
def StatsRun.perform (history : History) (r : StatsRun) (file : TerminalCache) :
    ReadSolverRecordResult × TerminalCache :=
  let (result, cache) :=
    readSolverRecord (r.reads history) r.intentIds (r.load file) r.exclusions
  (result, if r.saved then cache else r.load file)

def fileAfter (history : History) (runs : List StatsRun) : TerminalCache :=
  runs.foldl (fun file r => (r.perform history file).2) fun _ => none

/-- One run is over before the other starts. -/
def StatsRun.Before (r r' : StatsRun) : Prop := ∀ id id', r.readAt id ≤ r'.readAt id'

variable {history : History} {r : StatsRun}

/-- Every cached outcome was the chain's before any of the runs started. -/
def Backed (history : History) (later : StatsRun → Prop) (file : TerminalCache) : Prop :=
  ∀ idHex cached, file idHex = some cached → ∃ t,
    (∀ r, later r → ∀ id, t ≤ r.readAt id) ∧ (history t ('0' :: 'x' :: idHex)).ended = true ∧
      cached = (history t ('0' :: 'x' :: idHex)).ending

theorem backed_load {later : StatsRun → Prop} {file : TerminalCache}
    (h : Backed history later file) (r : StatsRun) : Backed history later (r.load file) := by
  unfold StatsRun.load
  split
  · exact fun _ _ hc => by cases hc
  · exact h

/-- A read outcome is the chain's. -/
theorem outcome_read {cache : TerminalCache} {idHex : Str} {cached : CachedTerminalIntent}
    (hnone : cache idHex = none)
    (h : outcome (r.reads history) cache idHex = some cached) :
    (r.onChain history idHex).ended = true ∧ cached = (r.onChain history idHex).ending := by
  unfold outcome at h
  rw [hnone] at h
  simp only [StatsRun.reads] at h
  cases hf : r.fails ('0' :: 'x' :: idHex) with
  | some error =>
    rw [hf] at h
    cases h
  | none =>
    rw [hf] at h
    dsimp only at h
    split at h
    · cases h
    · next hterminal =>
      split at h
      · cases h
      · next howner =>
        obtain rfl := Option.some.inj h
        refine ⟨Bool.and_eq_true_iff.mpr ⟨?_, decide_eq_true howner⟩, rfl⟩
        exact Bool.eq_true_of_not_eq_false hterminal

/-- A run leaves a backed cache file behind. -/
theorem backed_perform {later : StatsRun → Prop} {file : TerminalCache}
    (h : Backed history later file) (hlater : ∀ r', later r' → r.Before r') :
    Backed history later (r.perform history file).2 := by
  have hload := backed_load h r
  simp only [StatsRun.perform, readSolverRecord]
  split
  case isFalse => exact hload
  split
  case isFalse => exact hload
  intro idHex cached hcached
  rcases cache_foldl (r.load file) (nodup_distinct _) (fun _ _ => rfl) hcached with hold | hnew
  · exact hload idHex cached hold
  · cases hc : r.load file idHex with
    | some found =>
      unfold outcome at hnew
      rw [hc] at hnew
      exact hload idHex cached (hc.trans hnew)
    | none =>
      obtain ⟨hended, rfl⟩ := outcome_read hc hnew
      exact ⟨_, fun r' hr' id => hlater r' hr' _ id, hended, rfl⟩

/-- After any runs, the cache file is backed for every run after them. -/
theorem backed_fileAfter {later : StatsRun → Prop} {runs : List StatsRun}
    (h : ∀ r ∈ runs, ∀ r', later r' → r.Before r') :
    Backed history later (fileAfter history runs) := by
  induction runs using List.reverseRecOn with
  | nil => exact fun _ _ hc => by cases hc
  | append_singleton runs r ih =>
    rw [fileAfter, List.foldl_append]
    exact backed_perform (ih fun r' hr' => h r' (List.mem_append_left _ hr'))
      (h r (List.mem_append_right _ List.mem_cons_self))

/-! ## What a run counts -/

/-- The intent is cached, or was read and has ended. -/
def StatsRun.tells (history : History) (r : StatsRun) (file : TerminalCache) (idHex : Str) : Bool :=
  (r.load file idHex).isSome ||
    ((r.fails ('0' :: 'x' :: idHex)).isNone && (r.onChain history idHex).ended)

theorem outcome_ended {readIntent : Str → Except Str OnChainIntent} {cache : TerminalCache}
    {idHex : Str} {onChain : OnChainIntent} (hnone : cache idHex = none)
    (hread : readIntent ('0' :: 'x' :: idHex) = .ok onChain) :
    outcome readIntent cache idHex = if onChain.ended then some onChain.ending else none := by
  have hended : onChain.ended = true ↔
      isTerminalStatus onChain.status = true ∧ toLowerCase onChain.owner ≠ ZERO_ADDRESS := by
    rw [OnChainIntent.ended, Bool.and_eq_true, decide_eq_true_iff]
  unfold outcome
  rw [hnone, hread]
  dsimp only
  by_cases hterminal : isTerminalStatus onChain.status = false
  · rw [if_pos hterminal, if_neg fun h => ?_]
    rw [(hended.mp h).1] at hterminal
    cases hterminal
  rw [if_neg hterminal]
  by_cases howner : toLowerCase onChain.owner = ZERO_ADDRESS
  · rw [if_pos howner, if_neg fun h => (hended.mp h).2 howner]
  · rw [if_neg howner, if_pos (hended.mpr ⟨Bool.eq_true_of_not_eq_false hterminal, howner⟩)]
    rfl

/-- What is cached is what the chain still says. -/
theorem cached_ending (hf : history.Final) {file : TerminalCache}
    (hb : Backed history (· = r) file) {idHex : Str} {cached : CachedTerminalIntent}
    (hc : r.load file idHex = some cached) :
    (r.onChain history idHex).ended = true ∧ cached = (r.onChain history idHex).ending := by
  obtain ⟨t, hlater, hended, rfl⟩ := backed_load hb r idHex cached hc
  obtain ⟨hstill, hstatus, hsolver⟩ := hf _ t _ (hlater r rfl ('0' :: 'x' :: idHex)) hended
  refine ⟨hstill, ?_⟩
  simp only [OnChainIntent.ending, StatsRun.onChain, hstatus, hsolver]

theorem outcome_run (hf : history.Final) {file : TerminalCache}
    (hb : Backed history (· = r) file) (idHex : Str) :
    outcome (r.reads history) (r.load file) idHex =
      if r.tells history file idHex then some (r.onChain history idHex).ending else none := by
  unfold StatsRun.tells
  cases hc : r.load file idHex with
  | some cached =>
    have hending := (cached_ending hf hb hc).2
    unfold outcome
    rw [hc, hending]
    rfl
  | none =>
    cases hfail : r.fails ('0' :: 'x' :: idHex) with
    | some error =>
      have hread : r.reads history ('0' :: 'x' :: idHex) = .error error := by
        rw [StatsRun.reads, hfail]
      unfold outcome
      rw [hc, hread]
      rfl
    | none =>
      have hread : r.reads history ('0' :: 'x' :: idHex) = .ok (r.onChain history idHex) := by
        rw [StatsRun.reads, hfail]
        rfl
      rw [outcome_ended hc hread]
      simp only [Option.isSome_none, Option.isNone_none, Bool.true_and, Bool.false_or]

def SolverRecord.get (record : SolverRecord) : Bucket → Nat
  | .settled => record.settled
  | .slashed => record.slashed
  | .refunded => record.refunded
  | .expired => record.expired
  | .excluded => record.excluded

/-- A solver's count in a result. -/
def ReadSolverRecordResult.count (result : ReadSolverRecordResult) (solver : Str) (b : Bucket) :
    Nat :=
  match result.records solver with
  | none => 0
  | some record => record.get b

/-- The records are the accounts the outcomes add up to. -/
theorem records_readSolverRecord (ids : List Str) (cache : TerminalCache) :
    (readSolverRecord readIntent ids cache exclusions).1.records = fun solver =>
      (creditAll exclusions (outcome readIntent cache) (fun _ => none)
        (distinct (ids.map keyOf)) solver).map Accumulator.toRecord := by
  rw [← accumulators_foldl (nodup_distinct (ids.map keyOf)) ⟨cache, fun _ => none, [], false⟩
    fun _ _ => rfl]
  rfl

theorem count_readSolverRecord (readIntent : Str → Except Str OnChainIntent)
    (exclusions : List SolverExclusionEntry) (ids : List Str) (cache : TerminalCache)
    (solver : Str) (b : Bucket) :
    (readSolverRecord readIntent ids cache exclusions).1.count solver b =
      (accountOf (creditAll exclusions (outcome readIntent cache) (fun _ => none)
        (distinct (ids.map keyOf))) solver).get b := by
  rw [ReadSolverRecordResult.count, records_readSolverRecord, accountOf]
  dsimp only
  generalize creditAll exclusions _ _ _ solver = account
  cases account with
  | none => cases b <;> rfl
  | some acc => cases b <;> rfl

/-- An ended intent belongs to exactly one bucket. -/
theorem bucketOf_ended {i : OnChainIntent} (h : i.ended = true) (excluded : Bool) :
    ∃ b, bucketOf excluded i.status = some b := by
  have hterminal := (Bool.and_eq_true_iff.mp h).1
  simp only [isTerminalStatus, Bool.or_eq_true, beq_iff_eq] at hterminal
  unfold bucketOf
  split_ifs with he h1 h2 h3 h4
  · exact ⟨_, rfl⟩
  · exact ⟨_, rfl⟩
  · exact ⟨_, rfl⟩
  · exact ⟨_, rfl⟩
  · exact ⟨_, rfl⟩
  · tauto

/-- Over a chain on which ended intents stay as they ended, after any earlier runs: a run counts
each distinct intent that is cached or read as ended once, in one bucket of its on-chain solver's
record, and no intent without a solver; and if none of its reads failed its records are those of a
run without a cache over any list of the same intents. -/
theorem track_record (hf : history.Final) {before : List StatsRun}
    (horder : (before ++ [r]).Pairwise StatsRun.Before) :
    let file := fileAfter history before
    let result := (r.perform history file).1
    (∀ idHex, r.tells history file idHex = true → ∃ b,
      bucketOf (isExcluded r.exclusions idHex (r.onChain history idHex).ending)
        (r.onChain history idHex).status = some b) ∧
    (∀ solver, solver ≠ ZERO_ADDRESS → ∀ b, result.count solver b =
      (distinct (r.intentIds.map keyOf)).countP fun idHex =>
        r.tells history file idHex &&
          goesTo r.exclusions solver b idHex (some (r.onChain history idHex).ending)) ∧
    result.records ZERO_ADDRESS = none ∧
    (result.errors = [] → ∀ ids,
      (∀ idHex, idHex ∈ ids.map keyOf ↔ idHex ∈ r.intentIds.map keyOf) →
        (readSolverRecord (fun id => .ok (history (r.readAt id) id)) ids (fun _ => none)
          r.exclusions).1.records = result.records) := by
  intro file result
  have hbefore : ∀ r' ∈ before, r'.Before r := fun r' hr' =>
    (List.pairwise_append.mp horder).2.2 r' hr' r List.mem_cons_self
  have hb : Backed history (· = r) file :=
    backed_fileAfter fun r' hr' r'' hr'' => hr'' ▸ hbefore r' hr'
  have htold := outcome_run hf hb
  refine ⟨fun idHex htells => ?_, fun solver hsolver b => ?_, ?_, fun herrors ids hids => ?_⟩
  · refine bucketOf_ended ?_ _
    cases hc : r.load file idHex with
    | some cached => exact (cached_ending hf hb hc).1
    | none =>
      rw [StatsRun.tells, hc] at htells
      exact (Bool.and_eq_true_iff.mp htells).2
  · have hcount := count_readSolverRecord (r.reads history) r.exclusions r.intentIds
      (r.load file) solver b
    rw [get_creditAll hsolver] at hcount
    refine hcount.trans ?_
    have hzero : (accountOf (fun _ => none) solver).get b = 0 := by cases b <;> rfl
    rw [hzero, Nat.zero_add]
    refine List.countP_congr fun idHex _ => ?_
    rw [htold]
    cases r.tells history file idHex with
    | true => rfl
    | false => rfl
  · show (readSolverRecord _ _ _ _).1.records ZERO_ADDRESS = none
    rw [records_readSolverRecord]
    dsimp only
    rw [creditAll_zero]
    rfl
  · obtain ⟨-, hreads⟩ := reads_of_errors (r.load file)
      (nodup_distinct (r.intentIds.map keyOf)) (fun _ _ => rfl) herrors
    have hsame : (distinct (ids.map keyOf)).Perm (distinct (r.intentIds.map keyOf)) :=
      (List.perm_ext_iff_of_nodup (nodup_distinct _) (nodup_distinct _)).mpr fun idHex => by
        rw [mem_distinct, mem_distinct, hids]
    show _ = (readSolverRecord _ _ _ _).1.records
    rw [records_readSolverRecord, records_readSolverRecord, creditAll_perm hsame]
    funext solver
    rw [creditAll_congr fun idHex hmem => ?_]
    have hcold : outcome (fun id => .ok (history (r.readAt id) id)) (fun _ => none) idHex =
        if (r.onChain history idHex).ended then some (r.onChain history idHex).ending else none :=
      outcome_ended rfl rfl
    rw [htold, hcold]
    cases hc : r.load file idHex with
    | some cached =>
      rw [StatsRun.tells, hc, (cached_ending hf hb hc).1]
      rfl
    | none =>
      obtain ⟨onChain, hread⟩ := hreads idHex hmem hc
      have hok : r.fails ('0' :: 'x' :: idHex) = none := by
        cases hfail : r.fails ('0' :: 'x' :: idHex) with
        | none => rfl
        | some error =>
          rw [StatsRun.reads, hfail] at hread
          cases hread
      rw [StatsRun.tells, hc, hok]
      simp only [Option.isSome_none, Option.isNone_none, Bool.true_and, Bool.false_or]

/-- The first two intents are known when the first run reads them; the cache is kept, and the
second run, over other spellings of more ids, reads only what is new. -/
def sampleRuns (fails : Str → Option Str) : StatsRun :=
  { intentIds := List.ofFn sampleId, readAt := fun _ => 0, fails, exclusions := []
    cacheLost := false, saved := true }

theorem final_const (chain : Str → OnChainIntent) : History.Final fun _ => chain :=
  fun _ _ _ _ h => ⟨h, rfl, rfl⟩

theorem track_record_sample :
    let first := sampleRuns (sampleFails 2 3)
    let second := sampleRuns (sampleFails 0 1)
    let result := (second.perform (fun _ => sampleChain)
      (fileAfter (fun _ => sampleChain) [first])).1
    result.errors = [] ∧ result.count sampleSolver .settled = 2 ∧
      (readSolverRecord (fun id => .ok (sampleChain id)) (List.ofFn sampleId).reverse (fun _ => none)
        []).1.records = result.records := by
  intro first second result
  have herrors : result.errors = [] := by decide
  have horder : ([first] ++ [second]).Pairwise StatsRun.Before :=
    List.pairwise_pair.mpr fun _ _ => Nat.le_refl 0
  have hrecord := track_record (final_const sampleChain) horder
  refine ⟨herrors, by decide, hrecord.2.2.2 herrors _ fun idHex => ?_⟩
  rw [List.map_reverse, List.mem_reverse]
  rfl

/-- An intent that was cancelled: no solver ever posted collateral for it. -/
def cancelledChain (_ : Str) : OnChainIntent :=
  { owner := '0' :: 'x' :: List.replicate 40 '5'
    amount := 100
    tokenAddress := ZERO_ADDRESS
    status := INTENT_STATUS_EXPIRED
    solver := ZERO_ADDRESS
    collateralPosted := 0 }

/-- It is read as ended, and no record counts it. -/
theorem cancelled_intent_not_counted :
    let r := { sampleRuns (fun _ => none) with intentIds := [sampleId 0] }
    let result := (r.perform (fun _ => cancelledChain) (fileAfter (fun _ => cancelledChain) [])).1
    History.Final (fun _ => cancelledChain) ∧
      keyOf (sampleId 0) ∈ r.intentIds.map keyOf ∧
      r.tells (fun _ => cancelledChain) (fileAfter (fun _ => cancelledChain) [])
        (keyOf (sampleId 0)) = true ∧
      result.errors = [] ∧
      ∀ b, result.count (toLowerCase (cancelledChain (sampleId 0)).solver) b = 0 := by
  intro r result
  refine ⟨final_const _, by decide, by decide, by decide, fun b => ?_⟩
  cases b <;> decide

end Maat.Orchestrator
