import Mathlib.Data.Rat.Cast.Order
import Maat.Lib.Js

/-!
# Solver track records and tiers

`orchestrator/src/solver_stats.ts`: reading every known intent's outcome from the chain (through a
cache of terminal outcomes), tallying them by solver, and the tier and cap a record earns. Files
are passed in and out as values: the cache that was loaded, and the one that is saved.
-/

namespace Maat.Orchestrator

open Js

def ZERO_ADDRESS : Str := '0' :: 'x' :: List.replicate 40 '0'

def addrKey (address : Str) : Str := toLowerCase address

/-- Without `0x`, in lower case. -/
def keyOf : Str → Str
  | '0' :: 'x' :: hex => toLowerCase hex
  | '0' :: 'X' :: hex => toLowerCase hex
  | hex => toLowerCase hex

def INTENT_STATUS_PENDING : Nat := 0

def INTENT_STATUS_SETTLED : Nat := 1

def INTENT_STATUS_EXPIRED : Nat := 2

def INTENT_STATUS_SLASHED : Nat := 3

def INTENT_STATUS_REFUNDED : Nat := 4

/-- What `intents(id)` returns. -/
structure OnChainIntent where
  owner : Str
  amount : Nat
  tokenAddress : Str
  status : Nat
  solver : Str
  collateralPosted : Nat
  deriving DecidableEq, Repr

/-- A terminal outcome. The solver is in lower case. -/
structure CachedTerminalIntent where
  status : Nat
  solver : Str
  deriving DecidableEq, Repr

abbrev TerminalCache := Str → Option CachedTerminalIntent

structure SolverExclusionEntry where
  intentId : Str
  solver : Str
  reason : Str
  deriving DecidableEq, Repr

def isTerminalStatus (status : Nat) : Bool :=
  status == INTENT_STATUS_SETTLED || status == INTENT_STATUS_SLASHED ||
    status == INTENT_STATUS_REFUNDED || status == INTENT_STATUS_EXPIRED

structure Accumulator where
  settled : Nat
  slashed : Nat
  refunded : Nat
  expired : Nat
  excluded : Nat
  deriving DecidableEq, Repr

def emptyRecordAccumulator : Accumulator := ⟨0, 0, 0, 0, 0⟩

structure SolverRecord where
  settled : Nat
  slashed : Nat
  refunded : Nat
  expired : Nat
  excluded : Nat
  resolved : Nat
  successRate : Option ℚ
  deriving DecidableEq

structure ReadSolverRecordError where
  intentId : Str
  error : Str
  deriving DecidableEq, Repr

structure ReadSolverRecordResult where
  records : Str → Option SolverRecord
  errors : List ReadSolverRecordError
  complete : Bool

/-! ## readSolverRecord -/

/-- What `readSolverRecord` carries from one intent to the next. -/
structure Reading where
  cache : TerminalCache
  accumulators : Str → Option Accumulator
  errors : List ReadSolverRecordError
  cacheDirty : Bool

/-- The exclusion entry names this intent and its solver. -/
def isExcluded (exclusions : List SolverExclusionEntry) (idHex : Str)
    (cached : CachedTerminalIntent) : Bool :=
  match exclusions.find? fun e => keyOf e.intentId == idHex with
  | some exclusion => toLowerCase exclusion.solver == cached.solver
  | none => false

/-- One more outcome on a solver's account. -/
def Accumulator.add (acc : Accumulator) (excluded : Bool) (status : Nat) : Accumulator :=
  if excluded then { acc with excluded := acc.excluded + 1 }
  else if status = INTENT_STATUS_SETTLED then { acc with settled := acc.settled + 1 }
  else if status = INTENT_STATUS_SLASHED then { acc with slashed := acc.slashed + 1 }
  else if status = INTENT_STATUS_REFUNDED then { acc with refunded := acc.refunded + 1 }
  else if status = INTENT_STATUS_EXPIRED then { acc with expired := acc.expired + 1 }
  else acc

/-- The second half of the loop body: count a terminal outcome. -/
def tally (exclusions : List SolverExclusionEntry) (st : Reading) (idHex : Str)
    (cached : CachedTerminalIntent) : Reading :=
  if cached.solver = ZERO_ADDRESS then st
  else
    let excluded := isExcluded exclusions idHex cached
    let acc := (st.accumulators cached.solver).getD emptyRecordAccumulator
    { st with
      accumulators :=
        Function.update st.accumulators cached.solver (some (acc.add excluded cached.status)) }

/-- The loop body for one intent. A read that fails is recorded and the intent is not counted. -/
def readOne (readIntent : Str → Except Str OnChainIntent) (exclusions : List SolverExclusionEntry)
    (st : Reading) (idHex : Str) : Reading :=
  match st.cache idHex with
  | some cached => tally exclusions st idHex cached
  | none =>
    match readIntent ('0' :: 'x' :: idHex) with
    | .error error => { st with errors := st.errors ++ [⟨'0' :: 'x' :: idHex, error⟩] }
    | .ok onChain =>
      if isTerminalStatus onChain.status = false then st
      else if toLowerCase onChain.owner = ZERO_ADDRESS then st
      else
        let cached : CachedTerminalIntent := ⟨onChain.status, toLowerCase onChain.solver⟩
        tally exclusions
          { st with cache := Function.update st.cache idHex (some cached), cacheDirty := true }
          idHex cached

def Accumulator.toRecord (acc : Accumulator) : SolverRecord :=
  let resolved := acc.settled + acc.slashed
  { settled := acc.settled, slashed := acc.slashed, refunded := acc.refunded,
    expired := acc.expired, excluded := acc.excluded, resolved,
    successRate :=
      if resolved = 0 then none else some (double ((acc.settled : ℚ) / (resolved : ℚ))) }

/-- The records of every solver, and the cache as it is saved. -/
def readSolverRecord (readIntent : Str → Except Str OnChainIntent) (intentIds : List Str)
    (cache : TerminalCache) (exclusions : List SolverExclusionEntry) :
    ReadSolverRecordResult × TerminalCache :=
  let st := (distinct (intentIds.map keyOf)).foldl (readOne readIntent exclusions)
    ⟨cache, fun _ => none, [], false⟩
  ({ records := fun solver => (st.accumulators solver).map Accumulator.toRecord
     errors := st.errors
     complete := st.errors.isEmpty },
   if st.cacheDirty then st.cache else cache)

/-! ## Tiers -/

/-- 1 is the best, 3 is probation. -/
inductive Tier where
  | T1
  | T2
  | T3
  deriving DecidableEq, Repr

def Tier.toInt : Tier → Int
  | .T1 => 1
  | .T2 => 2
  | .T3 => 3

/-- `Math.min(3, Math.max(1, tier))` -/
def Tier.clamp (tier : Int) : Tier :=
  if min 3 (max 1 tier) = 1 then .T1 else if min 3 (max 1 tier) = 2 then .T2 else .T3

structure TierConfig where
  promoteMinResolved : ℚ
  promoteMinSuccess : ℚ
  demoteMinResolved : ℚ
  demoteMaxSuccess : ℚ

/-- The record is good enough to promote. -/
def TierConfig.promotes (config : TierConfig) (resolved : Nat) (successRate : ℚ) : Bool :=
  decide (config.promoteMinResolved ≤ (resolved : ℚ)) &&
    decide (config.promoteMinSuccess ≤ successRate)

/-- The record is bad enough to demote. -/
def TierConfig.demotes (config : TierConfig) (resolved : Nat) (successRate : ℚ) : Bool :=
  decide (config.demoteMinResolved ≤ (resolved : ℚ)) &&
    decide (successRate < config.demoteMaxSuccess)

/-- At most one step from the onboarding tier. Only a complete record promotes. -/
def computeTier (onboardingTier : Tier) (record : SolverRecord) (config : TierConfig)
    (complete : Bool) : Tier :=
  match record.successRate with
  | none => onboardingTier
  | some successRate =>
    if record.resolved = 0 then onboardingTier
    else if complete && config.promotes record.resolved successRate then
      .clamp (onboardingTier.toInt - 1)
    else if config.demotes record.resolved successRate then .clamp (onboardingTier.toInt + 1)
    else .clamp onboardingTier.toInt

/-- Percentages of `MAX_TRANSFER_WEI`. -/
abbrev TierCapPct := Tier → ℚ

def tierCapWei (tier : Tier) (maxTransferWei : Nat) (capPct : TierCapPct) : Int :=
  (maxTransferWei * Js.round (capPct tier)).tdiv 100

end Maat.Orchestrator
