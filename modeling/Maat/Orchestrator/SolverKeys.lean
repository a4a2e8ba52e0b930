import Mathlib.Data.List.AList
import Maat.Lib.Decimal

/-!
# The solvers' private keys

Which environment variables `orchestrator/src/arbitrum_settlement.ts` loads the solvers' keys from,
and which it says that it ignores. The loops over the indices take fuel; the number of variables is
enough of it.
-/

namespace Maat.Orchestrator.SolverKeys

open Js

/-- `process.env`. No object has `2^53` properties. -/
structure Env where
  vars : AList fun _ : Str => Str
  few : vars.keys.length < 2 ^ 53

/-- The variable is there and not empty. -/
def Env.isSet (env : Env) (name : Str) : Bool := (env.vars.lookup name).any (!·.isEmpty)

/-- `ARBITRUM_SOLVER_PRIVATE_KEY` -/
def legacyName : Str := "ARBITRUM_SOLVER_PRIVATE_KEY".toList

/-- `ARBITRUM_SOLVER_PRIVATE_KEY_` and an index as it is written. -/
def indexedName (digits : Str) : Str := legacyName ++ '_' :: digits

/-- `ARBITRUM_SOLVER_PRIVATE_KEY_${i}` -/
def numberedName (i : Nat) : Str := indexedName (Nat.toDigits 10 i)

structure SolverPrivateKeyEnvEntry where
  envVarName : Str
  privateKey : Str
  deriving DecidableEq, Repr

/-- The loop of `collectSolverPrivateKeyEnvEntries` from an index on. -/
def collectFrom (env : Env) : (fuel i : Nat) → List SolverPrivateKeyEnvEntry
  | 0, _ => []
  | fuel + 1, i =>
    match env.vars.lookup (numberedName i) with
    | some v => if v.isEmpty then [] else ⟨numberedName i, v⟩ :: collectFrom env fuel (i + 1)
    | none => []

/-- Numbered keys from 1 up to the first gap, else the legacy one. -/
def collectSolverPrivateKeyEnvEntries (env : Env) : List SolverPrivateKeyEnvEntry :=
  match collectFrom env (env.vars.keys.length + 1) 1 with
  | [] =>
    match env.vars.lookup legacyName with
    | some legacy => if legacy.isEmpty then [] else [⟨legacyName, legacy⟩]
    | none => []
  | numbered => numbered

/-- The loop that counts `contiguous` up. -/
def contiguousFrom (env : Env) : (fuel contiguous : Nat) → Nat
  | 0, contiguous => contiguous
  | fuel + 1, contiguous =>
    if env.isSet (numberedName (contiguous + 1)) then contiguousFrom env fuel (contiguous + 1)
    else contiguous

def contiguous (env : Env) : Nat := contiguousFrom env (env.vars.keys.length + 1) 0

/-- Group 1 of `/^ARBITRUM_SOLVER_PRIVATE_KEY_(\d+)$/`. -/
def indexDigits (name : Str) : Option Str :=
  if (legacyName ++ ['_']).isPrefixOf name then
    let digits := name.drop (legacyName.length + 1)
    if digits.isEmpty = false ∧ digits.all Char.isDigit then some digits else none
  else none

/-- `... is set but _... is missing - ignoring it` -/
def orphanMessage (idx : Number) (firstMissing : Nat) : Str :=
  indexedName idx.integerText ++ " is set but _".toList ++ Nat.toDigits 10 firstMissing ++
    " is missing - ignoring it".toList

/-- The indices of the variables that are set past the first gap, in order. -/
def orphanIndices (env : Env) : List Number :=
  (env.vars.keys.filterMap fun key =>
    (indexDigits key).bind fun digits =>
      let idx := Number.ofDigits digits
      if Number.lt (.ofInt (contiguous env)) idx && env.isSet key then some idx else none)
    |>.mergeSort fun a b => !Number.lt b a

def findOrphanedSolverPrivateKeyEnvVars (env : Env) : List Str :=
  (orphanIndices env).map fun idx => orphanMessage idx (contiguous env + 1)

def legacyNote : Str :=
  legacyName ++ " (legacy) is also set but is ignored because ".toList ++ numberedName 1 ++
    " is present - remove one to avoid confusion".toList

def legacySolverKeyIgnoredNote (env : Env) : Option Str :=
  if env.isSet (numberedName 1) && env.isSet legacyName then some legacyNote else none

end Maat.Orchestrator.SolverKeys
