import Maat.Laws.IntentManager.EscapeHatch
import Maat.Laws.IntentManager.Window

/-!
# The volume breaker without a limit

With the limit at its constructor value `type(uint256).max` the breaker's comparison never fails,
but the sum it compares is checked arithmetic. So a native submission reverts exactly where the
window's volume, counted in raw units of every asset, leaves no room for the amount
(`native_submission_iff`), and one token that reports a huge balance leaves none
(`native_submission_locked_out`).
-/

namespace Maat.IntentManager

open Resumption Resumption.Prog

variable {E : Env}

/-! ## Windows start in the past -/

def ResetPast (w : World) : Prop := w.lastVolumeReset ≤ w.timestamp

theorem resetPast_of_reachable {m : Machine} (h : Reachable E m) : ResetPast m.world :=
  (booked_of_reachable h).sound.start_le

/-! ## Native submissions -/

/-- There is room for the amount: the window has lapsed, or the volume so far and the amount
together fit 256 bits. -/
def Room (w : World) (amount : Nat) : Prop :=
  w.lastVolumeReset + VOLUME_WINDOW < w.timestamp ∨ w.dailyVolume + amount ≤ maxUint256

/-- Without a limit the breaker lets an amount pass where there is room, and panics elsewhere. -/
theorem countVolume_noLimit {w : World} {amount : Nat} (hlimit : w.dailyVolumeLimit = maxUint256)
    (hwindow : w.lastVolumeReset + VOLUME_WINDOW ≤ maxUint256) (hamount : amount ≤ maxUint256) :
    (Room w amount → ∃ dailyVolume lastVolumeReset,
      countVolume amount w = .ret { w with dailyVolume, lastVolumeReset } ()) ∧
    (¬ Room w amount → countVolume amount w = .throw w .Panic) := by
  simp -implicitDefEqProofs only [countVolume, bind_apply, read_apply, Res.bind_ret, checkedAdd,
    if_pos hwindow, pure_apply]
  by_cases hlapsed : w.lastVolumeReset + VOLUME_WINDOW < w.timestamp
  · refine ⟨fun _ => ⟨amount, w.timestamp, ?_⟩, fun hroom => absurd (.inl hlapsed) hroom⟩
    have hbelow : ¬ amount > w.dailyVolumeLimit := by omega
    simp -implicitDefEqProofs only [if_pos hlapsed, bind_apply, update_apply, Res.bind_ret,
      read_apply, Nat.zero_add, if_pos hamount, pure_apply, if_neg hbelow]
  · by_cases hfits : w.dailyVolume + amount ≤ maxUint256
    · refine ⟨fun _ => ⟨w.dailyVolume + amount, w.lastVolumeReset, ?_⟩,
        fun hroom => absurd (.inr hfits) hroom⟩
      have hbelow : ¬ w.dailyVolume + amount > w.dailyVolumeLimit := by omega
      simp -implicitDefEqProofs only [if_neg hlapsed, bind_apply, read_apply, Res.bind_ret,
        if_pos hfits, pure_apply, if_neg hbelow, update_apply]
    · refine ⟨fun hroom => absurd hroom (not_or.mpr ⟨hlapsed, hfits⟩), fun _ => ?_⟩
      simp -implicitDefEqProofs only [if_neg hlapsed, bind_apply, read_apply, Res.bind_ret,
        if_neg hfits, fail_apply, Res.bind_throw]

/-- The record of a native intent. -/
def nativeIntent (owner : Address) (amount : Nat) (wallet : Bytes32) (chainId expiry : UInt64)
    (slippageBps : UInt16) (createdAt : Nat) : Intent :=
  { Intent.empty with
    owner, amount, destinationWallet := wallet, destinationChainId := chainId, expiry, slippageBps,
    createdAt }

/-- The call returns, and the intent is on record. -/
def Submits (E : Env) (w : World) (sender : Address) (amount : Nat) (wallet : Bytes32)
    (chainId expiry : UInt64) (slippageBps : UInt16) : Prop :=
  ∃ w', exec E ⟨sender, amount⟩ (.submitIntent 0 amount wallet chainId expiry slippageBps)
      { w with balance := w.balance + amount } = .ret w' () ∧
    w'.intents (E.keccak256 (encodePacked sender w.intentNonce w.timestamp)) =
      nativeIntent sender amount wallet chainId expiry slippageBps w.timestamp

/-- From an idle world, a native submission that passes its own checks goes through if and only if
there is room for it and a nonce left. -/
theorem submits_iff {w : World} (h : Idle E w) (hreset : ResetPast w) (hunpaused : w.paused = false)
    (hlimit : w.dailyVolumeLimit = maxUint256) (sender : Address) {amount : Nat} (wallet : Bytes32)
    (chainId : UInt64) {expiry : UInt64} (slippageBps : UInt16) (hpositive : 0 < amount)
    (heth : w.balance + amount < 2 ^ 256) (hexpiry : w.timestamp < expiry.toNat) :
    Submits E w sender amount wallet chainId expiry slippageBps ↔
      Room w amount ∧ w.intentNonce < maxUint256 := by
  have hrunning : ¬ w.paused = true := by rw [hunpaused]; exact Bool.false_ne_true
  have hopen : ({ w with balance := w.balance + amount } : World).entered = false := h.unlocked
  have hwindow : w.lastVolumeReset + VOLUME_WINDOW ≤ maxUint256 := by
    have hstart : w.lastVolumeReset ≤ w.timestamp := hreset
    have hend := expiry.toNat_lt
    simp only [VOLUME_WINDOW, maxUint256]
    omega
  have hamount : amount ≤ maxUint256 := by
    simp only [maxUint256]
    omega
  obtain ⟨hpass, hpanic⟩ := countVolume_noLimit
    (w := { w with balance := w.balance + amount, entered := true }) hlimit hwindow hamount
  simp only [Submits, exec, submitIntent, whenNotPaused, bind_apply, read_apply, Res.bind_ret]
  rw [failIf_bind_neg hrunning, nonReentrant_idle hopen, bind_apply,
    failIf_bind_neg (Nat.ne_of_gt hpositive), bind_apply, read_apply, Res.bind_ret, bind_apply,
    failIf_bind_neg (Nat.not_le.mpr hexpiry), bind_apply, pullEscrow, if_pos rfl, bind_apply,
    failIf_bind_neg (not_not.mpr rfl), pure_apply, Res.bind_ret, bind_apply]
  by_cases hroom : Room w amount
  · obtain ⟨dailyVolume, lastVolumeReset, hcount⟩ := hpass hroom
    rw [hcount]
    by_cases hnonce : w.intentNonce + 1 ≤ maxUint256
    · simp only [Res.bind_ret, bind_apply, read_apply, checkedAdd, if_pos hnonce, pure_apply,
        update_apply, emit]
      exact ⟨fun _ => ⟨hroom, hnonce⟩, fun _ => ⟨_, rfl, Function.update_self ..⟩⟩
    · simp only [Res.bind_ret, bind_apply, read_apply, checkedAdd, if_neg hnonce, fail_apply,
        Res.bind_throw]
      constructor
      · rintro ⟨_, ⟨⟩, -⟩
      · rintro ⟨-, hlt⟩
        exact absurd hlt hnonce
  · rw [hpanic hroom]
    constructor
    · rintro ⟨_, ⟨⟩, -⟩
    · rintro ⟨hr, -⟩
      exact absurd hr hroom

/-- In every reachable state without a running call, unpaused and without a limit, a native
submission goes through if and only if there is room for it and a nonce left. -/
theorem native_submission_iff {m : Machine} (hreach : Reachable E m) (hidle : m.stack = [])
    (hunpaused : m.world.paused = false) (hlimit : m.world.dailyVolumeLimit = maxUint256)
    (sender : Address) (amount : Nat) (wallet : Bytes32) (chainId expiry : UInt64)
    (slippageBps : UInt16) (hpositive : 0 < amount)
    (heth : m.world.balance + amount < 2 ^ 256) (hexpiry : m.world.timestamp < expiry.toNat) :
    Submits E m.world sender amount wallet chainId expiry slippageBps ↔
      Room m.world amount ∧ m.world.intentNonce < maxUint256 := by
  have hreset := resetPast_of_reachable hreach
  have hinv := inv_of_reachable hreach
  obtain ⟨w, stack⟩ := m
  subst hidle
  exact submits_iff hinv hreset hunpaused hlimit sender wallet chainId slippageBps hpositive heth
    hexpiry

/-- Before any token was submitted there is room. -/
theorem native_submission_sample :
    Submits sampleEnv (deployed sampleStorage 1000).world 7 1 0 1399811149 2000 50 ↔
      Room (deployed sampleStorage 1000).world 1 ∧
        (deployed sampleStorage 1000).world.intentNonce < maxUint256 :=
  native_submission_iff (sample_reachable (Run.run_nil _)) rfl rfl rfl 7 1 0 1399811149 2000 50
    Nat.one_pos (by decide) (by decide)

/-! ## A window without room -/

/-- Account 9's token is not tracked: it may report any balance. -/
def lockoutEnv : Env where
  keccak256 bs :=
    if bs = encodePacked 6 0 1000 then
      0x7e95ed0d0fc2a016095348bbeda3a9ad1d4f12b6479aa32914aca3f96bd290bd
    else 0
  self := 1
  tracked T := decide (T ≠ 9)

/-- Account 6 submits an intent in a token that reports no balance before the transfer and
`type(uint256).max` after it. -/
def lockoutRun : List Event :=
  [.call ⟨6, 0⟩ (.submitIntent 9 1 0 1399811149 2000 50), .reply 0, .reply 1, .reply maxUint256]

/-- Nobody changed the limit, nothing is paused, and an escrow of one wei is refused. -/
theorem native_submission_locked_out :
    ∃ m, Run.run (step lockoutEnv) (deployed sampleStorage 1000) lockoutRun = some m ∧
      m.stack = [] ∧ m.world.paused = false ∧ m.world.dailyVolumeLimit = maxUint256 ∧
      m.world.timestamp < (2000 : UInt64).toNat ∧
      ¬ Submits lockoutEnv m.world 7 1 0 1399811149 2000 50 := by
  have hrun : (Run.run (step lockoutEnv) (deployed sampleStorage 1000) lockoutRun).any (fun m =>
      m.stack.isEmpty && decide (m.world.paused = false ∧ m.world.dailyVolumeLimit = maxUint256 ∧
        m.world.timestamp < (2000 : UInt64).toNat ∧
        ¬ (m.world.lastVolumeReset + VOLUME_WINDOW < m.world.timestamp) ∧
        ¬ (m.world.dailyVolume + 1 ≤ maxUint256) ∧ m.world.balance = 0)) = true := by
    decide
  obtain ⟨m, hm, hcheck⟩ := (Option.any_eq_true _ _).mp hrun
  obtain ⟨hstack, hfacts⟩ := Bool.and_eq_true_iff.mp hcheck
  obtain ⟨hunpaused, hlimit, htime, hwindow, hvolume, hbalance⟩ := of_decide_eq_true hfacts
  have hstack := List.isEmpty_iff.mp hstack
  refine ⟨m, hm, hstack, hunpaused, hlimit, htime, fun hsubmits => ?_⟩
  have hreach : Reachable lockoutEnv m := ⟨2, 3, 4, 1000, sampleStorage, lockoutRun, rfl, hm⟩
  have hinv := inv_of_reachable hreach
  have hreset := resetPast_of_reachable hreach
  obtain ⟨w, stack⟩ := m
  subst hstack
  obtain ⟨hroom, -⟩ := (submits_iff hinv hreset hunpaused hlimit 7 0 1399811149 50 Nat.one_pos
    (by rw [hbalance]; decide) htime).mp hsubmits
  exact hroom.elim hwindow hvolume

end Maat.IntentManager
