import Mathlib.Logic.Function.Basic
import Maat.Lib.Resumption
import Maat.Lib.Bytes

/-!
# The IntentManager contract

`contracts/evm/src/IntentManager.sol`, function by function. A call is a resumption program over
the `World` the contract runs in: its storage, its ETH and token balances, the block timestamp,
and the logs and payments of the run. Every call into other code (`call{value:}`, `balanceOf`,
`safeTransferFrom`, `safeTransfer`) is a question to the outside; the answer `none` is a revert
of the callee, and while the program waits the outside may call back.

Amounts are `Nat` with Solidity's checked arithmetic written out (`checkedAdd`, `checkedSub`);
`uint64` and `uint16` fields keep their widths. OpenZeppelin's `ReentrancyGuard`, `Pausable` and
`SafeERC20` are modelled by what they are documented to do.
-/

namespace Maat.IntentManager

open Resumption Resumption.Prog

/-- A 160-bit account address. -/
abbrev Address := Fin (2 ^ 160)

/-- A 256-bit word. -/
abbrev Bytes32 := Fin (2 ^ 256)

def maxUint256 : Nat := 2 ^ 256 - 1

inductive IntentStatus where
  | Pending
  | Settled
  | Expired
  | Slashed
  | Refunded
  deriving DecidableEq, Repr

structure Intent where
  owner : Address
  amount : Nat
  /-- `0` is native ETH; any other address is the ERC-20 token held in escrow. -/
  tokenAddress : Address
  destinationWallet : Bytes32
  destinationChainId : UInt64
  expiry : UInt64
  slippageBps : UInt16
  status : IntentStatus
  solver : Address
  collateralPosted : Nat
  zkProofHash : Bytes32
  createdAt : Nat
  settledAt : Nat
  deriving DecidableEq

/-- What a mapping slot nobody wrote reads as. -/
def Intent.empty : Intent :=
  { owner := 0, amount := 0, tokenAddress := 0, destinationWallet := 0, destinationChainId := 0,
    expiry := 0, slippageBps := 0, status := .Pending, solver := 0, collateralPosted := 0,
    zkProofHash := 0, createdAt := 0, settledAt := 0 }

def COLLATERAL_RATIO : Nat := 150

/-- 24 hours. -/
def REFUND_GRACE : Nat := 86400

/-- 24 hours. -/
def VOLUME_WINDOW : Nat := 86400

/-- The events the contract emits. -/
inductive Log where
  | IntentCreated (intentId : Bytes32) (sender : Address) (amount : Nat) (tokenAddress : Address)
      (destinationWallet : Bytes32) (destinationChainId expiry : UInt64) (slippageBps : UInt16)
  | CollateralPosted (intentId : Bytes32) (solver : Address) (collateralAmount : Nat)
  | IntentSettled (intentId : Bytes32) (solver : Address) (amount : Nat) (zkProofHash : Bytes32)
  | SolverSlashed (intentId : Bytes32) (solver : Address) (collateralSlashed : Nat)
      (treasury : Address)
  | IntentCancelled (intentId : Bytes32) (user : Address) (amount : Nat)
  | CircuitBreakerTriggered (amount dailyVolume dailyVolumeLimit : Nat)
  | DailyVolumeLimitUpdated (newLimit : Nat)
  | OrchestratorChanged (previousOrchestrator newOrchestrator : Address)
  | SolverApproved (solver : Address) (approved : Bool)
  | CollateralReturned (intentId : Bytes32) (solver : Address) (amount : Nat)
  | IntentRefunded (intentId : Bytes32) (owner : Address) (amount collateral : Nat)
  | Paused (account : Address)
  | Unpaused (account : Address)
  deriving DecidableEq

/-- The contract's errors, the OpenZeppelin ones it can raise, and the arithmetic panic. -/
inductive Err where
  | InvalidAmount
  | ExpiryInPast
  | IncorrectValue
  | DailyVolumeLimitExceeded
  | IntentDoesNotExist
  | SolverAlreadyPosted
  | IntentExpired
  | IntentNotExpired
  | InsufficientCollateral
  | NotOrchestrator
  | NotAdmin
  | NotIntentOwner
  | IntentNotPending
  | NoSolver
  | EthTransferFailed
  | ZeroAddress
  | NotApprovedSolver
  | ReentrancyGuardReentrantCall
  | EnforcedPause
  | ExpectedPause
  | SafeERC20FailedOperation
  /-- The call to a token's `balanceOf` reverted. -/
  | TokenCallReverted
  /-- Solidity 0.8 arithmetic overflow or underflow. -/
  | Panic
  /-- ETH sent to a function that is not `payable`. -/
  | NonPayable
  deriving DecidableEq, Repr

/-- The contract's storage and immutables. -/
structure Storage where
  intents : Bytes32 → Intent
  intentNonce : Nat
  orchestrator : Address
  treasury : Address
  owner : Address
  approvedSolvers : Address → Bool
  pendingTreasuryWithdrawals : Address → Nat
  dailyVolume : Nat
  dailyVolumeLimit : Nat
  lastVolumeReset : Nat
  /-- OpenZeppelin `Pausable`. -/
  paused : Bool
  /-- OpenZeppelin `ReentrancyGuard`: a guarded call is running. -/
  entered : Bool

/-- One call into the contract: who, with how much ETH. -/
structure Msg where
  sender : Address
  value : Nat
  deriving DecidableEq

/-- The contract's external functions with their arguments. -/
inductive Call where
  | submitIntent (tokenAddress : Address) (amount : Nat) (destinationWallet : Bytes32)
      (destinationChainId expiry : UInt64) (slippageBps : UInt16)
  | postCollateral (intentId : Bytes32)
  | confirmSettlement (intentId zkProofHash : Bytes32)
  | slashSolver (intentId : Bytes32)
  | cancelIntent (intentId : Bytes32)
  | claimRefund (intentId : Bytes32)
  | withdrawTreasury
  | pause
  | unpause
  | setDailyVolumeLimit (newLimit : Nat)
  | setOrchestrator (newOrchestrator : Address)
  | setSolver (solver : Address) (approved : Bool)
  deriving DecidableEq

/-- Value leaving the contract, with the call that sent it. `asset = 0` is ETH. -/
structure Payment where
  during : Call
  recipient : Address
  asset : Address
  amount : Nat
  deriving DecidableEq

/-- The contract's storage and the part of the chain it can see or move. -/
structure World extends Storage where
  /-- The contract's own ETH. -/
  balance : Nat
  /-- What each token's ledger holds for the contract. -/
  tokenBalance : Address → Nat
  /-- ETH that arrived without a call into the contract, in total. -/
  forced : Nat
  /-- Tokens that arrived while no `transferFrom` of that token was running, in total. -/
  donated : Address → Nat
  /-- `block.timestamp`. -/
  timestamp : Nat
  logs : List Log
  payments : List Payment
  /-- The strings hashed into intent ids. -/
  hashed : List (List UInt8)

/-- A call out of the contract. -/
inductive ExtCall where
  /-- `payable(recipient).call{value: value}("")` -/
  | sendEth (recipient : Address) (value : Nat)
  /-- `IERC20(token).balanceOf(address(this))` -/
  | balanceOf (token : Address)
  /-- `IERC20(token).safeTransferFrom(sender, address(this), amount)` -/
  | transferFrom (token sender : Address) (amount : Nat)
  /-- `IERC20(token).safeTransfer(recipient, amount)` -/
  | transfer (token recipient : Address) (amount : Nat)
  deriving DecidableEq

/-- The callee reverted, or returned a word. -/
abbrev Answer : ExtCall → Type := fun _ => Option Nat

/-- A function of the contract as a program. -/
abbrev Tx : Type → Type := Prog World Answer Err

/-- `keccak256`, the contract's own address, and the tokens whose ledger moves only by
transfers. -/
structure Env where
  keccak256 : List UInt8 → Bytes32
  self : Address
  tracked : Address → Bool

/-! ## Solidity's own vocabulary -/

def checkedAdd (a b : Nat) : Tx Nat :=
  if a + b ≤ maxUint256 then pure (a + b) else fail .Panic

def checkedSub (a b : Nat) : Tx Nat :=
  if b ≤ a then pure (a - b) else fail .Panic

def checkedMul (a b : Nat) : Tx Nat :=
  if a * b ≤ maxUint256 then pure (a * b) else fail .Panic

def emit (log : Log) : Tx Unit := update fun w => { w with logs := w.logs ++ [log] }

/-- `abi.encodePacked(msg.sender, intentNonce, block.timestamp)`: 20, 32 and 32 bytes. -/
def encodePacked (sender : Address) (intentNonce timestamp : Nat) : List UInt8 :=
  Bytes.beBytes 20 sender.val ++ (Bytes.beBytes 32 intentNonce ++ Bytes.beBytes 32 timestamp)

/-- `(bool ok,) = payable(recipient).call{value: value}(""); if (!ok) revert EthTransferFailed();` -/
def sendEth (recipient : Address) (value : Nat) : Tx Unit := do
  let ok ← ask (.sendEth recipient value)
  failIf (ok = none) .EthTransferFailed

def balanceOf (token : Address) : Tx Nat := do
  match ← ask (.balanceOf token) with
  | some balance => pure balance
  | none => fail .TokenCallReverted

def safeTransferFrom (token sender : Address) (amount : Nat) : Tx Unit := do
  let ok ← ask (.transferFrom token sender amount)
  failIf (ok = none) .SafeERC20FailedOperation

def safeTransfer (token recipient : Address) (amount : Nat) : Tx Unit := do
  let ok ← ask (.transfer token recipient amount)
  failIf (ok = none) .SafeERC20FailedOperation

/-! ## Modifiers -/

def nonPayable (msg : Msg) (body : Tx Unit) : Tx Unit := do
  failIf (msg.value ≠ 0) .NonPayable
  body

def whenNotPaused {α : Type} (body : Tx α) : Tx α := do
  let w ← read
  failIf (w.paused = true) .EnforcedPause
  body

def nonReentrant {α : Type} (body : Tx α) : Tx α := do
  let w ← read
  failIf (w.entered = true) .ReentrancyGuardReentrantCall
  update fun w => { w with entered := true }
  let result ← body
  update fun w => { w with entered := false }
  pure result

def onlyOrchestrator (msg : Msg) (body : Tx Unit) : Tx Unit := do
  let w ← read
  failIf (msg.sender ≠ w.orchestrator) .NotOrchestrator
  body

def onlyAdmin (msg : Msg) (body : Tx Unit) : Tx Unit := do
  let w ← read
  failIf (msg.sender ≠ w.owner) .NotAdmin
  body

/-! ## The functions -/

/-- The constructor, at block timestamp `timestamp`; `none` is its `ZeroAddress` revert. -/
def constructor (orchestrator treasury owner : Address) (timestamp : Nat) : Option Storage :=
  if orchestrator = 0 ∨ treasury = 0 ∨ owner = 0 then none
  else some
    { intents := fun _ => .empty, intentNonce := 0, orchestrator, treasury, owner,
      approvedSolvers := fun _ => false, pendingTreasuryWithdrawals := fun _ => 0,
      dailyVolume := 0, dailyVolumeLimit := maxUint256, lastVolumeReset := timestamp,
      paused := false, entered := false }

/-- The escrow step of `submitIntent`: native ETH must be the amount asked; a token is pulled
and the amount becomes what actually arrived. -/
def pullEscrow (msg : Msg) (tokenAddress : Address) (amount : Nat) : Tx Nat :=
  if tokenAddress = 0 then do
    failIf (msg.value ≠ amount) .IncorrectValue
    pure amount
  else do
    failIf (msg.value ≠ 0) .IncorrectValue
    let balBefore ← balanceOf tokenAddress
    safeTransferFrom tokenAddress msg.sender amount
    let balAfter ← balanceOf tokenAddress
    let amount ← checkedSub balAfter balBefore
    failIf (amount = 0) .InvalidAmount
    pure amount

/-- The circuit breaker of `submitIntent`: start a new window if the last one has lapsed, then
add the amount under the limit. -/
def countVolume (amount : Nat) : Tx Unit := do
  let w ← read
  let windowEnd ← checkedAdd w.lastVolumeReset VOLUME_WINDOW
  if w.timestamp > windowEnd then
    update fun w => { w with dailyVolume := 0, lastVolumeReset := w.timestamp }
  let w ← read
  let volume ← checkedAdd w.dailyVolume amount
  if volume > w.dailyVolumeLimit then
    emit (.CircuitBreakerTriggered amount w.dailyVolume w.dailyVolumeLimit)
    fail .DailyVolumeLimitExceeded
  update fun w => { w with dailyVolume := volume }

def submitIntent (E : Env) (msg : Msg) (tokenAddress : Address) (amount : Nat)
    (destinationWallet : Bytes32) (destinationChainId expiry : UInt64) (slippageBps : UInt16) :
    Tx Bytes32 :=
  whenNotPaused <| nonReentrant do
    failIf (amount = 0) .InvalidAmount
    let w ← read
    failIf (expiry.toNat ≤ w.timestamp) .ExpiryInPast
    let amount ← pullEscrow msg tokenAddress amount
    countVolume amount
    let w ← read
    let preimage := encodePacked msg.sender w.intentNonce w.timestamp
    let intentId := E.keccak256 preimage
    let intentNonce ← checkedAdd w.intentNonce 1
    update fun w => { w with
      intentNonce
      hashed := w.hashed ++ [preimage]
      intents := Function.update w.intents intentId
        { owner := msg.sender, amount, tokenAddress, destinationWallet, destinationChainId,
          expiry, slippageBps, status := .Pending, solver := 0, collateralPosted := 0,
          zkProofHash := 0, createdAt := w.timestamp, settledAt := 0 } }
    emit (.IntentCreated intentId msg.sender amount tokenAddress destinationWallet
      destinationChainId expiry slippageBps)
    pure intentId

/-- Write one intent's record. -/
def setIntent (intentId : Bytes32) (intent : Intent) : Tx Unit :=
  update fun w => { w with intents := Function.update w.intents intentId intent }

def postCollateral (msg : Msg) (intentId : Bytes32) : Tx Unit :=
  whenNotPaused <| nonReentrant do
    let w ← read
    failIf (w.approvedSolvers msg.sender = false) .NotApprovedSolver
    let intent := w.intents intentId
    failIf (intent.owner = 0) .IntentDoesNotExist
    failIf (intent.solver ≠ 0) .SolverAlreadyPosted
    failIf (w.timestamp ≥ intent.expiry.toNat) .IntentExpired
    let scaled ← checkedMul intent.amount COLLATERAL_RATIO
    let required := scaled / 100
    failIf (msg.value ≠ required) .InsufficientCollateral
    setIntent intentId { intent with solver := msg.sender, collateralPosted := msg.value }
    emit (.CollateralPosted intentId msg.sender msg.value)

/-- `_releaseFunds`: native ETH when `tokenAddress` is zero, otherwise the token. -/
def releaseFunds (recipient : Address) (amount : Nat) (tokenAddress : Address) : Tx Unit :=
  if tokenAddress = 0 then sendEth recipient amount else safeTransfer tokenAddress recipient amount

/-- `pendingTreasuryWithdrawals[treasury] += collateral` -/
def creditTreasury (collateral : Nat) : Tx Unit := do
  let w ← read
  let credited ← checkedAdd (w.pendingTreasuryWithdrawals w.treasury) collateral
  update fun w => { w with
    pendingTreasuryWithdrawals :=
      Function.update w.pendingTreasuryWithdrawals w.treasury credited }

def confirmSettlement (msg : Msg) (intentId zkProofHash : Bytes32) : Tx Unit :=
  onlyOrchestrator msg <| nonReentrant do
    let w ← read
    let intent := w.intents intentId
    failIf (intent.status ≠ .Pending) .IntentNotPending
    failIf (intent.solver = 0) .NoSolver
    let solver := intent.solver
    let amount := intent.amount
    let collateral := intent.collateralPosted
    setIntent intentId { intent with
      status := .Settled, zkProofHash, settledAt := w.timestamp, collateralPosted := 0 }
    releaseFunds solver amount intent.tokenAddress
    sendEth solver collateral
    emit (.IntentSettled intentId solver amount zkProofHash)
    emit (.CollateralReturned intentId solver collateral)

def slashSolver (msg : Msg) (intentId : Bytes32) : Tx Unit :=
  onlyOrchestrator msg <| nonReentrant do
    let w ← read
    let intent := w.intents intentId
    failIf (intent.status ≠ .Pending) .IntentNotPending
    failIf (w.timestamp < intent.expiry.toNat) .IntentNotExpired
    failIf (intent.solver = 0) .NoSolver
    let solver := intent.solver
    let user := intent.owner
    let amount := intent.amount
    let collateral := intent.collateralPosted
    setIntent intentId { intent with status := .Slashed, collateralPosted := 0 }
    releaseFunds user amount intent.tokenAddress
    creditTreasury collateral
    emit (.SolverSlashed intentId solver collateral w.treasury)

def cancelIntent (msg : Msg) (intentId : Bytes32) : Tx Unit :=
  nonReentrant do
    let w ← read
    let intent := w.intents intentId
    failIf (intent.owner ≠ msg.sender) .NotIntentOwner
    failIf (intent.status ≠ .Pending) .IntentNotPending
    failIf (w.timestamp < intent.expiry.toNat) .IntentNotExpired
    failIf (intent.solver ≠ 0) .SolverAlreadyPosted
    setIntent intentId { intent with status := .Expired }
    let amount := intent.amount
    releaseFunds msg.sender amount intent.tokenAddress
    emit (.IntentCancelled intentId msg.sender amount)

def claimRefund (msg : Msg) (intentId : Bytes32) : Tx Unit :=
  nonReentrant do
    let w ← read
    let intent := w.intents intentId
    failIf (intent.owner ≠ msg.sender) .NotIntentOwner
    failIf (intent.status ≠ .Pending) .IntentNotPending
    failIf (intent.solver = 0) .NoSolver
    let refundFrom ← checkedAdd intent.expiry.toNat REFUND_GRACE
    failIf (w.timestamp < refundFrom) .IntentNotExpired
    let amount := intent.amount
    let collateral := intent.collateralPosted
    setIntent intentId { intent with status := .Refunded, collateralPosted := 0 }
    releaseFunds msg.sender amount intent.tokenAddress
    creditTreasury collateral
    emit (.IntentRefunded intentId msg.sender amount collateral)

def withdrawTreasury (msg : Msg) : Tx Unit :=
  nonReentrant do
    let w ← read
    let amount := w.pendingTreasuryWithdrawals msg.sender
    update fun w => { w with
      pendingTreasuryWithdrawals :=
        Function.update w.pendingTreasuryWithdrawals msg.sender 0 }
    sendEth msg.sender amount

/-! ## Admin -/

def pause (msg : Msg) : Tx Unit :=
  onlyAdmin msg <| whenNotPaused do
    update fun w => { w with paused := true }
    emit (.Paused msg.sender)

def unpause (msg : Msg) : Tx Unit :=
  onlyAdmin msg do
    let w ← read
    failIf (w.paused = false) .ExpectedPause
    update fun w => { w with paused := false }
    emit (.Unpaused msg.sender)

def setDailyVolumeLimit (msg : Msg) (newLimit : Nat) : Tx Unit :=
  onlyAdmin msg do
    update fun w => { w with dailyVolumeLimit := newLimit }
    emit (.DailyVolumeLimitUpdated newLimit)

def setOrchestrator (msg : Msg) (newOrchestrator : Address) : Tx Unit :=
  onlyAdmin msg do
    failIf (newOrchestrator = 0) .ZeroAddress
    let w ← read
    let previous := w.orchestrator
    update fun w => { w with orchestrator := newOrchestrator }
    emit (.OrchestratorChanged previous newOrchestrator)

def setSolver (msg : Msg) (solver : Address) (approved : Bool) : Tx Unit :=
  onlyAdmin msg do
    failIf (solver = 0) .ZeroAddress
    update fun w => { w with approvedSolvers := Function.update w.approvedSolvers solver approved }
    emit (.SolverApproved solver approved)

/-- The call dispatcher. -/
def exec (E : Env) (msg : Msg) : Call → Tx Unit
  | .submitIntent tokenAddress amount destinationWallet destinationChainId expiry slippageBps => do
    let _ ← submitIntent E msg tokenAddress amount destinationWallet destinationChainId expiry
      slippageBps
    pure ()
  | .postCollateral intentId => postCollateral msg intentId
  | .confirmSettlement intentId zkProofHash =>
    nonPayable msg (confirmSettlement msg intentId zkProofHash)
  | .slashSolver intentId => nonPayable msg (slashSolver msg intentId)
  | .cancelIntent intentId => nonPayable msg (cancelIntent msg intentId)
  | .claimRefund intentId => nonPayable msg (claimRefund msg intentId)
  | .withdrawTreasury => nonPayable msg (withdrawTreasury msg)
  | .pause => nonPayable msg (pause msg)
  | .unpause => nonPayable msg (unpause msg)
  | .setDailyVolumeLimit newLimit => nonPayable msg (setDailyVolumeLimit msg newLimit)
  | .setOrchestrator newOrchestrator => nonPayable msg (setOrchestrator msg newOrchestrator)
  | .setSolver solver approved => nonPayable msg (setSolver msg solver approved)

end Maat.IntentManager
