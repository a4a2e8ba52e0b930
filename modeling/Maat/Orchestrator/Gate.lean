import Maat.Lib.Js
import Maat.Orchestrator.SolverStats

/-!
# The checks before collateral

`evaluateArbitrumGate` of `orchestrator/src/arbitrum_settlement.ts`, and the part of a proof's
output that the orchestrator reads.
-/

namespace Maat.Orchestrator

open Js

/-- What the prover wrote about an intent. `expiry` is in seconds. -/
structure ProofOutputJson where
  intent_id : Str
  amount : Nat
  token_address : Str
  expiry : Int
  deriving DecidableEq, Repr

structure ArbitrumGateParams where
  maxTransferWei : Nat
  solverBalanceWei : Int
  gasBufferWei : Nat
  nowSec : Int
  deliveryMarginSec : Int
  deriving DecidableEq, Repr

/-- The collateral of an amount. -/
def requiredCollateral (amount : Nat) : Nat := amount * 150 / 100

/-- The checks that fail, in the order they are made. -/
def evaluateArbitrumGate (json : ProofOutputJson) (params : ArbitrumGateParams) : List String :=
  (if toLowerCase json.token_address ≠ ZERO_ADDRESS then ["token_not_native"] else []) ++
  (if json.amount > params.maxTransferWei then ["amount_exceeds_max_transfer"] else []) ++
  (if params.solverBalanceWei < requiredCollateral json.amount + params.gasBufferWei
    then ["insufficient_solver_balance"] else []) ++
  (if params.nowSec ≥ json.expiry - params.deliveryMarginSec then ["too_close_to_expiry"] else [])

end Maat.Orchestrator
