import Mathlib.Logic.Function.Basic
import Maat.Lib.Bytes
import Maat.Lib.Checks

/-!
# The Solana program

`contracts/solana/maat/programs/maat/src/lib.rs`, instruction by instruction. An instruction is a
function of the accounts it names, its arguments and the clock, over the lamports and the data of
all accounts; one that fails leaves everything as it was. What Anchor's account constraints check
and what `init` and the system program do is written out. The accounts an instruction names may
coincide.
-/

namespace Maat.Solana

open Checks

abbrev Pubkey := Fin (2 ^ 256)

inductive IntentStatus where
  | Pending
  | Settled
  | Expired
  | Slashed
  deriving DecidableEq, Repr

structure ProgramState where
  admin : Pubkey
  orchestrator : Pubkey
  paused : Bool
  intent_nonce : UInt64
  deriving DecidableEq

structure Intent where
  owner : Pubkey
  amount : UInt64
  destination : Pubkey
  expiry : Int
  slippage_bps : UInt16
  source_chain_id : UInt64
  status : IntentStatus
  zk_proof_hash : Fin (2 ^ 256)
  created_at : Int
  settled_at : Int
  settled_amount : UInt64
  nonce : UInt64
  deriving DecidableEq

structure CircuitBreaker where
  channel_id : UInt64
  halted : Bool
  authority : Pubkey
  deriving DecidableEq

inductive MaatError where
  | ProgramPaused
  | NotOrchestrator
  | NotAdmin
  | IntentNotPending
  | IntentExpired
  | ChannelHalted
  | ChannelMismatch
  | AccountSubstitution
  | InsufficientFunds
  | Overflow
  | NotIntentOwner
  | IntentNotCancellable
  | SlippageExceeded
  | SettlementExceedsEscrow
  | Unauthorized
  deriving DecidableEq, Repr

/-- The program's own errors, a violated account constraint, and a refusal of the system program
or the runtime. -/
inductive ProgramError where
  | maat (e : MaatError)
  | constraint
  | system
  deriving DecidableEq, Repr

/-- What an account holds: nothing yet (it is the system program's), one of the program's
accounts, or some other program's data. -/
inductive AccountData where
  | system
  | programState (s : ProgramState)
  | intent (i : Intent)
  | circuitBreaker (cb : CircuitBreaker)
  | foreign
  deriving DecidableEq

structure Bank where
  lamports : Pubkey → Nat
  data : Pubkey → AccountData

/-- The seeds of the program's addresses. -/
inductive Seeds where
  | program_state
  | intent (owner : Pubkey) (nonce : UInt64)
  | cb (channel_id : UInt64)
  deriving DecidableEq

/-- `findProgramAddress`, and `minimum_balance` of an account by its size. -/
structure Cluster where
  address : Seeds → Pubkey
  minimum_balance : Nat → Nat

/-! ## Sizes -/

def ProgramState.INIT_SPACE : Nat := 32 + 32 + 1 + 8

def Intent.INIT_SPACE : Nat := 32 + 8 + 32 + 8 + 2 + 8 + 1 + 32 + 8 + 8 + 8 + 8 + 1

def CircuitBreaker.INIT_SPACE : Nat := 8 + 1 + 32 + 1

/-- The rent-exempt reserve of an intent account. -/
def Cluster.intentRent (cluster : Cluster) : Nat := cluster.minimum_balance (8 + Intent.INIT_SPACE)

/-! ## Accounts -/

namespace Bank

def setData (bank : Bank) (key : Pubkey) (data : AccountData) : Bank :=
  { bank with data := Function.update bank.data key data }

/-- `lamports.checked_sub(amount).ok_or(e)` -/
def debit (bank : Bank) (key : Pubkey) (amount : Nat) (e : ProgramError) :
    Except ProgramError Bank :=
  if amount ≤ bank.lamports key then
    .ok { bank with lamports := Function.update bank.lamports key (bank.lamports key - amount) }
  else .error e

/-- `lamports.checked_add(amount).ok_or(e)` -/
def credit (bank : Bank) (key : Pubkey) (amount : Nat) (e : ProgramError) :
    Except ProgramError Bank :=
  if bank.lamports key + amount < 2 ^ 64 then
    .ok { bank with lamports := Function.update bank.lamports key (bank.lamports key + amount) }
  else .error e

/-- The system program moves lamports of its own accounts only. -/
def transfer (bank : Bank) (source target : Pubkey) (amount : Nat) : Except ProgramError Bank :=
  (require (bank.data source = .system) ProgramError.system).bind fun _ =>
  (bank.debit source amount .system).bind fun bank =>
  bank.credit target amount .system

/-- `init`: the account is fresh, and is brought to its rent-exempt reserve by the payer. -/
def init (cluster : Cluster) (bank : Bank) (payer key : Pubkey) (space : Nat) (data : AccountData) :
    Except ProgramError Bank :=
  (require (bank.data key = .system) ProgramError.system).bind fun _ =>
  (if bank.lamports key = 0 then bank.transfer payer key (cluster.minimum_balance (8 + space))
    else
      (require (payer ≠ key) ProgramError.constraint).bind fun _ =>
      bank.transfer payer key
        (max (cluster.minimum_balance (8 + space)) 1 - bank.lamports key)).bind fun bank =>
  .ok (bank.setData key data)

/-- `Account<'info, ProgramState>` with its seeds. -/
def program_state (cluster : Cluster) (bank : Bank) : Except ProgramError ProgramState :=
  match bank.data (cluster.address .program_state) with
  | .programState state => .ok state
  | _ => .error .constraint

/-- `Account<'info, Intent>` with its seeds. -/
def intent (cluster : Cluster) (bank : Bank) (key : Pubkey) : Except ProgramError Intent :=
  match bank.data key with
  | .intent i => if key = cluster.address (.intent i.owner i.nonce) then .ok i else .error .constraint
  | _ => .error .constraint

/-- `Account<'info, CircuitBreaker>` with its seeds. -/
def circuit_breaker (cluster : Cluster) (bank : Bank) (key : Pubkey) :
    Except ProgramError CircuitBreaker :=
  match bank.data key with
  | .circuitBreaker cb =>
    if key = cluster.address (.cb cb.channel_id) then .ok cb else .error .constraint
  | _ => .error .constraint

end Bank

/-! ## Instructions -/

/-- `initialize` -/
def initialize_program (cluster : Cluster) (deployer admin orchestrator : Pubkey) (bank : Bank) :
    Except ProgramError Bank :=
  bank.init cluster deployer (cluster.address .program_state) ProgramState.INIT_SPACE
    (.programState ⟨admin, orchestrator, false, 0⟩)

/-- The account is created before the handler runs, and filled in by it. -/
def submit_intent (cluster : Cluster) (clock : Int) (owner : Pubkey) (amount : UInt64)
    (destination : Pubkey) (expiry : Int) (slippage_bps : UInt16) (source_chain_id : UInt64)
    (bank : Bank) : Except ProgramError Bank :=
  (bank.program_state cluster).bind fun state =>
  let key := cluster.address (.intent owner state.intent_nonce)
  let intent : Intent :=
    { owner, amount, destination, expiry, slippage_bps, source_chain_id, status := .Pending,
      zk_proof_hash := 0, created_at := clock, settled_at := 0, settled_amount := 0,
      nonce := state.intent_nonce }
  (bank.init cluster owner key Intent.INIT_SPACE (.intent intent)).bind fun bank =>
  (require (state.paused = false) (.maat .ProgramPaused)).bind fun _ =>
  (bank.transfer owner key amount.toNat).bind fun bank =>
  (require (state.intent_nonce.toNat + 1 < 2 ^ 64) (.maat .Overflow)).bind fun _ =>
  .ok (bank.setData (cluster.address .program_state)
    (.programState { state with intent_nonce := state.intent_nonce + 1 }))

/-- `amount * slippage_bps / 10_000` in `u128`, cut to `u64`. -/
def slippage_deduction (amount : UInt64) (slippage_bps : UInt16) : Nat :=
  amount.toNat * slippage_bps.toNat / 10000 % 2 ^ 64

def receive_settlement (cluster : Cluster) (clock : Int)
    (intentKey circuitBreaker orchestrator destination owner : Pubkey)
    (zk_proof_hash : Fin (2 ^ 256)) (settlement_amount : UInt64) (bank : Bank) :
    Except ProgramError Bank :=
  (bank.program_state cluster).bind fun state =>
  (bank.intent cluster intentKey).bind fun intent =>
  (bank.circuit_breaker cluster circuitBreaker).bind fun cb =>
  (require (state.paused = false) (.maat .ProgramPaused)).bind fun _ =>
  (require (orchestrator = state.orchestrator) (.maat .NotOrchestrator)).bind fun _ =>
  (require (intent.status = .Pending) (.maat .IntentNotPending)).bind fun _ =>
  (require (clock < intent.expiry) (.maat .IntentExpired)).bind fun _ =>
  (require (cb.channel_id = intent.source_chain_id) (.maat .ChannelMismatch)).bind fun _ =>
  (require (cb.halted = false) (.maat .ChannelHalted)).bind fun _ =>
  (require (intent.destination = destination) (.maat .AccountSubstitution)).bind fun _ =>
  (require (owner = intent.owner) (.maat .Unauthorized)).bind fun _ =>
  let deduction := slippage_deduction intent.amount intent.slippage_bps
  (require (deduction ≤ intent.amount.toNat) (.maat .Overflow)).bind fun _ =>
  (require (intent.amount.toNat - deduction ≤ settlement_amount.toNat)
    (.maat .SlippageExceeded)).bind fun _ =>
  (require (settlement_amount ≤ intent.amount) (.maat .SettlementExceedsEscrow)).bind fun _ =>
  let bank := bank.setData intentKey (.intent { intent with
    status := .Settled, settled_at := clock, zk_proof_hash, settled_amount := settlement_amount })
  (bank.debit intentKey settlement_amount.toNat (.maat .InsufficientFunds)).bind fun bank =>
  (bank.credit destination settlement_amount.toNat (.maat .Overflow)).bind fun bank =>
  let refund_amount := intent.amount.toNat - settlement_amount.toNat
  if 0 < refund_amount then
    (bank.debit intentKey refund_amount (.maat .InsufficientFunds)).bind fun bank =>
    bank.credit owner refund_amount (.maat .Overflow)
  else .ok bank

def cancel_intent (cluster : Cluster) (clock : Int) (intentKey owner : Pubkey) (bank : Bank) :
    Except ProgramError Bank :=
  (bank.program_state cluster).bind fun state =>
  (bank.intent cluster intentKey).bind fun intent =>
  (require (owner = intent.owner) (.maat .NotIntentOwner)).bind fun _ =>
  (require (intent.status = .Pending) (.maat .IntentNotPending)).bind fun _ =>
  (require (clock > intent.expiry ∨ state.paused = true)
    (.maat .IntentNotCancellable)).bind fun _ =>
  let bank := bank.setData intentKey (.intent { intent with status := .Expired })
  (bank.debit intentKey intent.amount.toNat (.maat .InsufficientFunds)).bind fun bank =>
  bank.credit owner intent.amount.toNat (.maat .Overflow)

/-- `init_if_needed`: a breaker that exists is overwritten. -/
def set_circuit_breaker (cluster : Cluster) (admin : Pubkey) (channel_id : UInt64) (halted : Bool)
    (bank : Bank) : Except ProgramError Bank :=
  let key := cluster.address (.cb channel_id)
  let cb : AccountData := .circuitBreaker ⟨channel_id, halted, admin⟩
  (bank.program_state cluster).bind fun state =>
  (match bank.data key with
    | .system => bank.init cluster admin key CircuitBreaker.INIT_SPACE cb
    | .circuitBreaker _ => .ok (bank.setData key cb)
    | _ => .error .constraint).bind fun bank =>
  (require (admin = state.admin) (ProgramError.maat .NotAdmin)).bind fun _ =>
  .ok bank

def setPaused (cluster : Cluster) (paused : Bool) (admin : Pubkey) (bank : Bank) :
    Except ProgramError Bank :=
  (bank.program_state cluster).bind fun state =>
  (require (admin = state.admin) (ProgramError.maat .NotAdmin)).bind fun _ =>
  .ok (bank.setData (cluster.address .program_state) (.programState { state with paused }))

def pause (cluster : Cluster) (admin : Pubkey) (bank : Bank) : Except ProgramError Bank :=
  setPaused cluster true admin bank

def unpause (cluster : Cluster) (admin : Pubkey) (bank : Bank) : Except ProgramError Bank :=
  setPaused cluster false admin bank

/-! ## Runs -/

/-- The instructions of the program with their accounts and arguments, and a transfer of the
system program by anyone. -/
inductive Instruction where
  | initialize_program (deployer admin orchestrator : Pubkey)
  | submit_intent (owner : Pubkey) (amount : UInt64) (destination : Pubkey) (expiry : Int)
      (slippage_bps : UInt16) (source_chain_id : UInt64)
  | receive_settlement (intent circuitBreaker orchestrator destination owner : Pubkey)
      (zk_proof_hash : Fin (2 ^ 256)) (settlement_amount : UInt64)
  | cancel_intent (intent owner : Pubkey)
  | set_circuit_breaker (admin : Pubkey) (channel_id : UInt64) (halted : Bool)
  | pause (admin : Pubkey)
  | unpause (admin : Pubkey)
  | transfer (source target : Pubkey) (amount : UInt64)
  deriving DecidableEq

/-- An instruction at a moment. Whoever has to sign it does. -/
def execute (cluster : Cluster) (bank : Bank) (clock : Int) :
    Instruction → Except ProgramError Bank
  | .initialize_program deployer admin orchestrator =>
    Solana.initialize_program cluster deployer admin orchestrator bank
  | .submit_intent owner amount destination expiry slippage_bps source_chain_id =>
    Solana.submit_intent cluster clock owner amount destination expiry slippage_bps
      source_chain_id bank
  | .receive_settlement intent circuitBreaker orchestrator destination owner hash amount =>
    Solana.receive_settlement cluster clock intent circuitBreaker orchestrator destination owner
      hash amount bank
  | .cancel_intent intent owner => Solana.cancel_intent cluster clock intent owner bank
  | .set_circuit_breaker admin channel_id halted =>
    Solana.set_circuit_breaker cluster admin channel_id halted bank
  | .pause admin => Solana.pause cluster admin bank
  | .unpause admin => Solana.unpause cluster admin bank
  | .transfer source target amount => bank.transfer source target amount.toNat

/-- A step of a run: an instruction that succeeds. -/
def step (cluster : Cluster) (bank : Bank) (event : Int × Instruction) : Option Bank :=
  (execute cluster bank event.1 event.2).toOption

/-- No account of the program exists yet. -/
def Bank.Fresh (bank : Bank) : Prop := ∀ key, bank.data key = .system ∨ bank.data key = .foreign

end Maat.Solana
