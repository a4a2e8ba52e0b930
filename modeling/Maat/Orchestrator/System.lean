import Maat.Lib.Run
import Maat.Orchestrator.Flow

/-!
# The orchestrator as it is wired

The flows of `listener.ts` side by side: one boot reconciliation before anything else, then one
settlement job at a time (`ProverQueue`), and timer-driven slash polls and settling
reconciliations that may overlap with it and with each other. Around them the contract on
Arbitrum, the payouts on Solana and the `settle_intent.js` children, which outlive a crash. An
event is one atomic step of any of these.
-/

namespace Maat.Orchestrator

open Js

variable {ι : Type} [DecidableEq ι]

inductive Phase where
  | down
  | booting
  | running
  deriving DecidableEq, Repr

inductive Origin where
  | boot
  | job
  | tick
  | recon
  | resume
  deriving DecidableEq, Repr

structure Flow (ι : Type) where
  origin : Origin
  point : Point ι
  next : Next ι
  checkedAt : Int
  deriving DecidableEq

structure Sys (ι : Type) where
  world : World ι
  phase : Phase
  flows : Nat → Option (Flow ι)

/-! ## The contract's rules -/

/-- What a call can do to an intent. -/
inductive ChainAction where
  | submitIntent (owner tokenAddress : Str) (amount : Nat)
  | postCollateral (solver : Str) (value : Nat)
  | confirmSettlement
  | slashSolver
  | cancelIntent
  | claimRefund
  deriving DecidableEq

/-- A day after the expiry. -/
def REFUND_GRACE : Int := 86400

/-- The status and solver rules of `IntentManager.sol`: the intent after a call that succeeds at
block time `timestamp`. -/
def ChainAction.apply (expiry timestamp : Int) (intent : OnChainIntent) :
    ChainAction → Option OnChainIntent
  | .submitIntent owner tokenAddress amount =>
    if intent.owner = ZERO_ADDRESS ∧ intent.status = INTENT_STATUS_PENDING ∧
        intent.solver = ZERO_ADDRESS then
      some { intent with owner, tokenAddress, amount }
    else none
  | .postCollateral solver value =>
    if intent.owner ≠ ZERO_ADDRESS ∧ intent.solver = ZERO_ADDRESS ∧ timestamp < expiry ∧
        intent.status = INTENT_STATUS_PENDING ∧ solver ≠ ZERO_ADDRESS then
      some { intent with solver, collateralPosted := value }
    else none
  | .confirmSettlement =>
    if intent.status = INTENT_STATUS_PENDING ∧ intent.solver ≠ ZERO_ADDRESS then
      some { intent with status := INTENT_STATUS_SETTLED, collateralPosted := 0 }
    else none
  | .slashSolver =>
    if intent.status = INTENT_STATUS_PENDING ∧ expiry ≤ timestamp ∧
        intent.solver ≠ ZERO_ADDRESS then
      some { intent with status := INTENT_STATUS_SLASHED, collateralPosted := 0 }
    else none
  | .cancelIntent =>
    if intent.status = INTENT_STATUS_PENDING ∧ expiry ≤ timestamp ∧
        intent.solver = ZERO_ADDRESS then
      some { intent with status := INTENT_STATUS_EXPIRED }
    else none
  | .claimRefund =>
    if intent.status = INTENT_STATUS_PENDING ∧ expiry + REFUND_GRACE ≤ timestamp ∧
        intent.solver ≠ ZERO_ADDRESS then
      some { intent with status := INTENT_STATUS_REFUNDED, collateralPosted := 0 }
    else none

/-- The call that a transaction makes. -/
def TxKind.action (P : Params ι) (i : ι) : TxKind → ChainAction
  | .post solver => .postCollateral solver (requiredCollateral (P.json i).amount)
  | .confirm => .confirmSettlement
  | .slash => .slashSolver

/-! ## Events -/

inductive Event (ι : Type) where
  | time (t : Int)
  | crash
  | boot (k : Nat)
  /-- the settlement part of a `ProverQueue` job: the proof and the canonical block are there -/
  | startJob (k : Nat) (i : ι)
  | startTick (k : Nat)
  | startRecon (k : Nat)
  /-- flow `k` resumes the Arbitrum side of the next settled intent, as flow `l` -/
  | resumeNext (k l : Nat)
  | resume (k : Nat) (answer : Answer)
  /-- the child prints its signature; `go` is false when writing the display state throws -/
  | childSigns (c : Nat) (sig : Str) (go : Bool)
  | childSends (c : Nat)
  | lands (sig : Str)
  /-- a signed transaction is included -/
  | included (hash : Str) (timestamp : Int) (ok : Bool)
  /-- a call by anyone else -/
  | others (i : ι) (timestamp : Int) (action : ChainAction)
  | proof (i : ι) (present : Bool)
  deriving DecidableEq

namespace Sys

def setWorld (s : Sys ι) (world : World ι) : Sys ι := { s with world }

/-- Flow `k` comes to wait again, or ends. The end of the boot flow starts the watchers. -/
def put (s : Sys ι) (k : Nat) (origin : Origin) (checkedAt : Int) (stop : Option (Stop ι)) :
    Sys ι :=
  { s with
    flows := Function.update s.flows k (stop.map fun stop =>
      ⟨origin, stop.point, stop.next, stop.checkedAt.getD checkedAt⟩)
    phase := if origin = .boot ∧ stop = none then .running else s.phase }

/-- Everything in memory is lost. -/
def crash (s : Sys ι) : Sys ι where
  world := { s.world with
    children := fun c => (s.world.children c).map fun child => { child with attached := false } }
  phase := .down
  flows _ := none

/-- The flow ids in use are below `bound`, and none of them runs a job. -/
def noJob (s : Sys ι) (bound : Nat) : Bool :=
  (List.range bound).all fun k => (s.flows k).all fun f => f.origin != .job

end Sys

/-- The answers that a flow can be given are truthful: a receipt is that of the transaction, a
read returns the intent as it is or was, a payout is reported as it stands, and a child that ends
well has seen its payout land. -/
def truthful (w : World ι) : Point ι → Answer → Bool
  | .outcome _ _ hash, .receipt ok =>
    (w.txs hash).any fun tx => tx.state == if ok then .success else .reverted
  | .bootReceipt _ _ hash, .receipt ok =>
    (w.txs hash).any fun tx => tx.state == if ok then .success else .reverted
  | .verifying i _ _, .record r => decide (r ∈ (w.contract i).current :: (w.contract i).past)
  | .confirmRead i, .record r => decide (r ∈ (w.contract i).current :: (w.contract i).past)
  | .bootRead i _ _, .record r => decide (r ∈ (w.contract i).current :: (w.contract i).past)
  | .checking _ sig, .landed yes => decide (yes = (w.payouts sig).any fun p => p.landed)
  | .reconciling _ sig, .landed yes => decide (yes = (w.payouts sig).any fun p => p.landed)
  | .paying _ c, .closed true =>
    (w.children c).any fun child => child.sig.any fun sig => (w.payouts sig).any fun p => p.landed
  | _, _ => true

/-- The settlement part of a job can begin: the settle gate and the checks after it pass. -/
def jobPasses (P : Params ι) (w : World ι) (i : ι) : Bool :=
  decide (w.settled.lookup i = none) && decide (w.now < P.expiry i) && w.startable i

def step (P : Params ι) (bound : Nat) (s : Sys ι) : Event ι → Option (Sys ι)
  | .time t => if s.world.now ≤ t then some (s.setWorld { s.world with now := t }) else none
  | .crash => some s.crash
  | .boot k =>
    if s.phase = .down ∧ k < bound then
      some ({ s with phase := .booting }.put k .boot s.world.now
        (bootReconLoop P s.world s.world.settled.getSettlingEntries))
    else none
  | .startJob k i =>
    if s.phase = .running ∧ s.flows k = none ∧ k < bound ∧ s.noJob bound ∧
        jobPasses P s.world i then
      some (s.put k .job s.world.now (some ⟨.selecting i, .stop, none⟩))
    else none
  | .startTick k =>
    if s.phase = .running ∧ s.flows k = none ∧ k < bound then
      some (s.put k .tick s.world.now
        (tickLoop s.world s.world.arb.getAwaitingExpirySlashEntries))
    else none
  | .startRecon k =>
    if s.phase = .running ∧ s.flows k = none ∧ k < bound then
      some (s.put k .recon s.world.now (reconLoop [] s.world.settled.getSettlingEntries))
    else none
  | .resumeNext k l =>
    match s.flows k with
    | some ⟨origin, .newlySettled (i :: ids), next, checkedAt⟩ =>
      if k ≠ l ∧ s.flows l = none ∧ l < bound then
        let s := s.put k origin checkedAt
          (if ids.isEmpty then none else some ⟨.newlySettled ids, next, none⟩)
        some (s.put l .resume s.world.now ((resumeCollateralPostedIntent P s.world i).map
          fun point => ⟨point, .stop, some s.world.now⟩))
      else none
    | _ => none
  | .resume k answer =>
    match s.flows k with
    | some f =>
      if truthful s.world f.point answer then
        match f.point, answer with
        -- an exception in the first loop at boot ends the process
        | .bootRead _ _ _, .error => some s.crash
        | point, answer =>
          (Maat.Orchestrator.resume P s.world f.next point answer).map fun r =>
            (s.setWorld r.1).put k f.origin f.checkedAt r.2
      else none
    | none => none
  | .childSigns c sig go =>
    match s.world.children c with
    | some ⟨i, none, _, true⟩ =>
      if s.world.payouts sig = none then
        some (s.setWorld { s.world with
          children := Function.update s.world.children c (some ⟨i, some sig, go, true⟩)
          payouts := Function.update s.world.payouts sig (some ⟨i, false, false⟩)
          settled := s.world.settled.markSettling i sig })
      else none
    | _ => none
  | .childSends c =>
    match s.world.children c with
    | some ⟨_, some sig, true, _⟩ =>
      some (s.setWorld { s.world with
        payouts := Function.update s.world.payouts sig
          ((s.world.payouts sig).map fun p => { p with sent := true }) })
    | _ => none
  | .lands sig =>
    match s.world.payouts sig with
    | some ⟨i, true, _⟩ =>
      some (s.setWorld { s.world with
        payouts := Function.update s.world.payouts sig (some ⟨i, true, true⟩) })
    | _ => none
  | .included hash timestamp ok =>
    match s.world.txs hash with
    | some ⟨i, kind, .sent, threw⟩ =>
      if ok then
        ((kind.action P i).apply (P.expiry i) timestamp (s.world.contract i).current).map
          fun intent => s.setWorld { s.world with
            txs := Function.update s.world.txs hash (some ⟨i, kind, .success, threw⟩)
            contract := Function.update s.world.contract i
              ⟨intent, (s.world.contract i).current :: (s.world.contract i).past⟩ }
      else
        some (s.setWorld { s.world with
          txs := Function.update s.world.txs hash (some ⟨i, kind, .reverted, threw⟩) })
    | _ => none
  | .others i timestamp action =>
    (action.apply (P.expiry i) timestamp (s.world.contract i).current).map fun intent =>
      s.setWorld { s.world with
        contract := Function.update s.world.contract i
          ⟨intent, (s.world.contract i).current :: (s.world.contract i).past⟩ }
  | .proof i present =>
    some (s.setWorld { s.world with hasProof := Function.update s.world.hasProof i present })

/-- The intent before it is submitted. -/
def blankIntent : OnChainIntent :=
  ⟨ZERO_ADDRESS, 0, ZERO_ADDRESS, INTENT_STATUS_PENDING, ZERO_ADDRESS, 0⟩

/-- Nothing has happened yet. -/
def Sys.initial (now : Int) : Sys ι where
  world :=
    { now, arb := ∅, settled := ∅, hasProof := fun _ => false, txs := fun _ => none
      payouts := fun _ => none, children := fun _ => none, nextChild := 0
      contract := fun _ => ⟨blankIntent, []⟩, attempts := [] }
  phase := .down
  flows _ := none

end Maat.Orchestrator
