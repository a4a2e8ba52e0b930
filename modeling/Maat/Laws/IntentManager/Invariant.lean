import Maat.Laws.IntentManager.Accounting

/-!
# The invariant and the protocol of a waiting call

`Idle` is what holds of the world whenever no call into the contract is running: the records
and their history agree (`Kept`), and the contract's ETH and every tracked token it holds are
exactly what it owes plus what was forced or donated (`Solvent`).

While a call waits for a callee the records are half-way: `Waited` says what the outside may
have done meanwhile. It may run admin calls, bring in money and debit the transfer it was asked
for; it cannot touch intents, credits or the lock, because every operation on them is guarded by
the lock the waiting call holds. `protocol` packages this as the rely of the program logic, and
`Covers` as what the contract guarantees whenever it waits: after the value it has just sent,
it still holds all it owes.
-/

namespace Maat.IntentManager

open Resumption

/-- The records agree with the history. -/
structure Kept (E : Env) (w : World) : Prop where
  treasury_ne : w.treasury ≠ 0
  noZeroSolver : w.approvedSolvers 0 = false
  unowned : ∀ id, (w.intents id).owner = 0 → w.intents id = .empty
  parties : ∀ id, (w.intents id).owner ≠ 0 →
    (w.intents id).owner ≠ E.self ∧
      ((w.intents id).tokenAddress ≠ 0 → (w.intents id).tokenAddress ≠ E.self)
  origin : ∀ id, (w.intents id).owner ≠ 0 → ∃ x ∈ w.hashed, E.keccak256 x = id
  nonces : ∀ x ∈ w.hashed, ∃ sender nonce timestamp,
    x = encodePacked sender nonce timestamp ∧ nonce < w.intentNonce
  nonceRange : w.intentNonce ≤ maxUint256
  created : ∀ id, (w.intents id).owner ≠ 0 ↔ id ∈ createdIds w.logs
  createdOnce : (createdIds w.logs).Nodup
  accounted : ∀ id, (w.intents id).Accounted w.timestamp (posted id w.logs) (paid id w.payments)
    (forfeited id w.logs)
  onlyTreasury : ∀ a, a ≠ w.treasury → w.pendingTreasuryWithdrawals a = 0
  credit : w.pendingTreasuryWithdrawals w.treasury + withdrawn w.treasury w.payments =
    totalForfeited w.logs

/-- The contract holds exactly what it owes, what was forced or donated, and `extra` ETH that
the running call has brought and not yet accounted for. -/
structure Solvent (E : Env) (extra : Nat) (w : World) : Prop where
  eth : w.balance = ethOwed w.toStorage + w.forced + extra
  token : ∀ T, T ≠ 0 → E.tracked T = true →
    w.tokenBalance T = tokenOwed T w.intents + w.donated T

/-- No call is running. -/
structure Idle (E : Env) (w : World) : Prop where
  kept : Kept E w
  solvent : Solvent E 0 w
  unlocked : w.entered = false
  ethRange : w.balance < 2 ^ 256

/-- How an intent record may change between two idle worlds: its terms never do, a solver once
recorded stays, and a closed intent does not change at all. -/
structure Intent.Evolves (i i' : Intent) : Prop where
  owner : i'.owner = i.owner
  amount : i'.amount = i.amount
  tokenAddress : i'.tokenAddress = i.tokenAddress
  destinationWallet : i'.destinationWallet = i.destinationWallet
  destinationChainId : i'.destinationChainId = i.destinationChainId
  expiry : i'.expiry = i.expiry
  slippageBps : i'.slippageBps = i.slippageBps
  createdAt : i'.createdAt = i.createdAt
  solver : i.solver ≠ 0 → i'.solver = i.solver
  closed : i.status ≠ .Pending → i' = i

theorem Intent.Evolves.refl (i : Intent) : i.Evolves i :=
  ⟨rfl, rfl, rfl, rfl, rfl, rfl, rfl, rfl, fun _ => rfl, fun _ => rfl⟩

theorem Intent.Evolves.trans {i j k : Intent} (h : i.Evolves j) (h' : j.Evolves k) :
    i.Evolves k where
  owner := h'.owner.trans h.owner
  amount := h'.amount.trans h.amount
  tokenAddress := h'.tokenAddress.trans h.tokenAddress
  destinationWallet := h'.destinationWallet.trans h.destinationWallet
  destinationChainId := h'.destinationChainId.trans h.destinationChainId
  expiry := h'.expiry.trans h.expiry
  slippageBps := h'.slippageBps.trans h.slippageBps
  createdAt := h'.createdAt.trans h.createdAt
  solver hs := by
    have hj := h.solver hs
    exact (h'.solver (hj ▸ hs)).trans hj
  closed hs := by
    have hj := h.closed hs
    exact (h'.closed (hj ▸ hs)).trans hj

/-- How the world may change between two idle points of a run. -/
structure Evolves (w w' : World) : Prop where
  timestamp : w.timestamp ≤ w'.timestamp
  treasury : w'.treasury = w.treasury
  intents : ∀ id, (w.intents id).owner ≠ 0 → (w.intents id).Evolves (w'.intents id)
  payments : w.payments <+: w'.payments
  logs : w.logs <+: w'.logs

theorem Evolves.refl (w : World) : Evolves w w :=
  ⟨Nat.le_refl _, rfl, fun _ _ => .refl _, List.prefix_refl _, List.prefix_refl _⟩

theorem Evolves.trans {a b c : World} (h : Evolves a b) (h' : Evolves b c) : Evolves a c where
  timestamp := h.timestamp.trans h'.timestamp
  treasury := h'.treasury.trans h.treasury
  intents id ha := by
    have hb := h.intents id ha
    exact hb.trans (h'.intents id (hb.owner ▸ ha))
  payments := h.payments.trans h'.payments
  logs := h.logs.trans h'.logs

/-! ## Waiting -/

/-- The call asks `token` to move tokens into the contract. -/
def ExtCall.pulls (token : Address) : ExtCall → Bool
  | .transferFrom asset _ _ => decide (asset = token)
  | _ => false

/-- What the outside may have done while a call waits on `ext`, of which a token has still to
debit `due`. -/
structure Waited (E : Env) (call : Call) (ext : ExtCall) (asked : World) (due : Nat)
    (now : World) : Prop where
  intents : now.intents = asked.intents
  intentNonce : now.intentNonce = asked.intentNonce
  treasury : now.treasury = asked.treasury
  pending : now.pendingTreasuryWithdrawals = asked.pendingTreasuryWithdrawals
  dailyVolume : now.dailyVolume = asked.dailyVolume
  lastVolumeReset : now.lastVolumeReset = asked.lastVolumeReset
  entered : now.entered = asked.entered
  timestamp : now.timestamp = asked.timestamp
  hashed : now.hashed = asked.hashed
  noZeroSolver : asked.approvedSolvers 0 = false → now.approvedSolvers 0 = false
  payments : now.payments = asked.payments ++ ext.payment call
  logs : ∃ admin, now.logs = asked.logs ++ admin ∧ ∀ l ∈ admin, l.isAdmin = true
  eth : now.balance + ext.ethValue + asked.forced = asked.balance + now.forced
  dueLe : due ≤ ext.tokensDue
  tokens : ∀ T, T ≠ 0 → E.tracked T = true → ∃ delivered,
    (if ext.pulls T then now.donated T = asked.donated T else delivered = 0) ∧
      now.tokenBalance T + (if ext.target = T then ext.tokensDue - due else 0) + asked.donated T =
        asked.tokenBalance T + now.donated T + delivered
  static : ext.isStatic = true → now = depart call ext asked

/-- Whenever the contract waits, what it holds after the value it is sending covers all it
owes. -/
structure Covers (E : Env) (w : World) (ext : ExtCall) : Prop where
  entered : w.entered = true
  range : w.balance < 2 ^ 256
  eth : ethOwed w.toStorage + w.forced + ext.ethValue ≤ w.balance
  token : ∀ T, T ≠ 0 → E.tracked T = true →
    tokenOwed T w.intents + w.donated T + (if ext.target = T then ext.tokensDue else 0) ≤
      w.tokenBalance T

/-- The contract holds exactly what it owes, what it is about to send through `ext`, and `extra`
ETH more. -/
structure Sends (E : Env) (ext : ExtCall) (extra : Nat) (w : World) : Prop where
  entered : w.entered = true
  range : w.balance < 2 ^ 256
  eth : w.balance = ethOwed w.toStorage + w.forced + ext.ethValue + extra
  token : ∀ T, T ≠ 0 → E.tracked T = true →
    w.tokenBalance T =
      tokenOwed T w.intents + w.donated T + if ext.target = T then ext.tokensDue else 0

theorem Sends.covers {E : Env} {ext : ExtCall} {extra : Nat} {w : World}
    (h : Sends E ext extra w) : Covers E w ext where
  entered := h.entered
  range := h.range
  eth := by rw [h.eth]; omega
  token T h0 hT := (h.token T h0 hT).ge

theorem ethOwed_congr {s s' : Storage} (hi : s'.intents = s.intents)
    (hp : s'.pendingTreasuryWithdrawals = s.pendingTreasuryWithdrawals) :
    ethOwed s' = ethOwed s := by
  simp only [ethOwed, hi, hp]

/-- Once it has gone out, the contract holds exactly what it owes and the extra. -/
theorem Sends.waited {E : Env} {call : Call} {ext : ExtCall} {extra : Nat} {w now : World}
    (h : Sends E ext extra w) (hpulls : ∀ T, ext.pulls T = false)
    (hw : Waited E call ext w 0 now) : Solvent E extra now where
  eth := by
    have hbefore := h.eth
    have hafter := hw.eth
    have howed : ethOwed now.toStorage = ethOwed w.toStorage :=
      ethOwed_congr hw.intents hw.pending
    omega
  token T h0 hT := by
    obtain ⟨delivered, hnone, hmoved⟩ := hw.tokens T h0 hT
    have hbefore := h.token T h0 hT
    have hzero : delivered = 0 := by
      rw [hpulls T] at hnone
      exact hnone
    rw [hw.intents]
    rw [Nat.sub_zero] at hmoved
    omega

/-- The rely of a contract call: it resumes in the world it asked in if the callee reverted, and
otherwise in one the outside may have left, with an honest answer from a tracked token. -/
def protocol (E : Env) (call : Call) : Protocol World Answer where
  pause _ w ext := Covers E w ext
  rely w ext w' answer :=
    match answer with
    | none => w' = w
    | some word =>
      E.reachable ext w = true ∧ Waited E call ext w 0 w' ∧ w'.balance < 2 ^ 256 ∧
        ∀ T, ext = .balanceOf T → E.tracked T = true → word = w'.tokenBalance T

/-- What a call that began in the idle world `w` owes when it completes. -/
def Completes (E : Env) (w : World) : World → World → Unit → Prop :=
  fun _ w' _ => E.collisionFree w'.hashed → Idle E w' ∧ Evolves w w'

/-- A contract call meets the protocol. A call that reverts owes nothing. -/
abbrev Meets (E : Env) (call : Call) {α : Type} (post : World → World → α → Prop) :
    World → Res World Answer Err α → Prop :=
  Sat (protocol E call) post fun _ _ _ => True

end Maat.IntentManager
