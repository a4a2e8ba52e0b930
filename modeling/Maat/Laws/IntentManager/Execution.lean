import Maat.Laws.IntentManager.Submission

/-!
# Every call, idle or locked

Two facts about the dispatcher. Begun in an idle world, every call meets the protocol
(`meets_exec`). Begun while another call holds the lock, a call either reverts or is an admin
call, and an admin call changes nothing that a waiting call relies on (`exec_locked`).
-/

namespace Maat.IntentManager

open Resumption Resumption.Prog

variable {E : Env} {call : Call} {msg : Msg}

/-! ## Admin calls -/

/-- The calls that take neither lock nor money. -/
def Call.isAdmin : Call → Bool
  | .pause | .unpause | .setDailyVolumeLimit _ | .setOrchestrator _ | .setSolver _ _ => true
  | _ => false

/-- What an admin call may change: the admin settings and the logs. -/
structure Administers (w w' : World) : Prop where
  intents : w'.intents = w.intents
  intentNonce : w'.intentNonce = w.intentNonce
  treasury : w'.treasury = w.treasury
  pending : w'.pendingTreasuryWithdrawals = w.pendingTreasuryWithdrawals
  dailyVolume : w'.dailyVolume = w.dailyVolume
  lastVolumeReset : w'.lastVolumeReset = w.lastVolumeReset
  entered : w'.entered = w.entered
  balance : w'.balance = w.balance
  tokenBalance : w'.tokenBalance = w.tokenBalance
  forced : w'.forced = w.forced
  donated : w'.donated = w.donated
  timestamp : w'.timestamp = w.timestamp
  payments : w'.payments = w.payments
  hashed : w'.hashed = w.hashed
  noZeroSolver : w.approvedSolvers 0 = false → w'.approvedSolvers 0 = false
  logs : ∃ admin, w'.logs = w.logs ++ admin ∧ ∀ l ∈ admin, l.isAdmin = true

/-- A program reverts, or ends after changing admin settings only. -/
def Settles (w : World) (r : Res World Answer Err Unit) : Prop :=
  (∃ w' e, r = .throw w' e) ∨ ∃ w', r = .ret w' () ∧ Administers w w'

theorem Settles.throw (w w' : World) (e : Err) : Settles w (.throw w' e) := .inl ⟨w', e, rfl⟩

theorem settles_failIf_bind {c : Prop} [Decidable c] {e : Err} {w w₁ : World}
    {f : Unit → World → Res World Answer Err Unit} (h : ¬ c → Settles w (f () w₁)) :
    Settles w ((failIf c e w₁).bind f) := by
  by_cases hc : c
  · rw [failIf_apply, if_pos hc, Res.bind_throw]
    exact .throw _ _ _
  · rw [failIf_apply, if_neg hc, Res.bind_ret]
    exact h hc

/-- Ending with one admin log line, the other fields as given. -/
theorem settles_ret {w w' : World} {log : Log} (hlog : log.isAdmin = true)
    (h : w' = { w with
      paused := w'.paused, dailyVolumeLimit := w'.dailyVolumeLimit
      orchestrator := w'.orchestrator, approvedSolvers := w'.approvedSolvers
      logs := w.logs ++ [log] })
    (hzero : w.approvedSolvers 0 = false → w'.approvedSolvers 0 = false) :
    Settles w (.ret w' ()) := by
  refine .inr ⟨w', rfl, ?_⟩
  exact
    { intents := by rw [h], intentNonce := by rw [h], treasury := by rw [h], pending := by rw [h]
      dailyVolume := by rw [h], lastVolumeReset := by rw [h], entered := by rw [h]
      balance := by rw [h], tokenBalance := by rw [h], forced := by rw [h], donated := by rw [h]
      timestamp := by rw [h], payments := by rw [h], hashed := by rw [h], noZeroSolver := hzero
      logs := ⟨[log], by rw [h], fun l hl => by rw [List.mem_singleton.mp hl, hlog]⟩ }

theorem settles_onlyAdmin {w : World} {body : Tx Unit} (h : Settles w (body w)) :
    Settles w (onlyAdmin msg body w) := by
  simp only [onlyAdmin, bind_apply, read_apply, Res.bind_ret]
  exact settles_failIf_bind fun _ => h

theorem settles_pause (w : World) : Settles w (pause msg w) := by
  refine settles_onlyAdmin ?_
  simp only [whenNotPaused, bind_apply, read_apply, Res.bind_ret]
  refine settles_failIf_bind fun _ => ?_
  simp only [emit, bind_apply, update_apply, Res.bind_ret]
  exact settles_ret rfl rfl fun hz => hz

theorem settles_unpause (w : World) : Settles w (unpause msg w) := by
  refine settles_onlyAdmin ?_
  simp only [bind_apply, read_apply, Res.bind_ret]
  refine settles_failIf_bind fun _ => ?_
  simp only [emit, bind_apply, update_apply, Res.bind_ret]
  exact settles_ret rfl rfl fun hz => hz

theorem settles_setDailyVolumeLimit (newLimit : Nat) (w : World) :
    Settles w (setDailyVolumeLimit msg newLimit w) := by
  refine settles_onlyAdmin ?_
  simp only [emit, bind_apply, update_apply, Res.bind_ret]
  exact settles_ret rfl rfl fun hz => hz

theorem settles_setOrchestrator (newOrchestrator : Address) (w : World) :
    Settles w (setOrchestrator msg newOrchestrator w) := by
  refine settles_onlyAdmin ?_
  simp only [bind_apply]
  refine settles_failIf_bind fun _ => ?_
  simp only [emit, bind_apply, read_apply, update_apply, Res.bind_ret]
  exact settles_ret rfl rfl fun hz => hz

/-- Approving a solver never approves the zero address. -/
theorem settles_setSolver (solver : Address) (approved : Bool) (w : World) :
    Settles w (setSolver msg solver approved w) := by
  refine settles_onlyAdmin ?_
  simp only [bind_apply]
  refine settles_failIf_bind fun hsolver => ?_
  simp only [emit, bind_apply, update_apply, Res.bind_ret]
  refine settles_ret rfl rfl fun hz => ?_
  exact (Function.update_of_ne (Ne.symm hsolver) _ _).trans hz

/-- A function that is not payable, called without ETH or not at all. -/
theorem nonPayable_cases (body : Tx Unit) (w : World) :
    (∃ w' e, nonPayable msg body w = .throw w' e) ∨
      msg.value = 0 ∧ nonPayable msg body w = body w := by
  by_cases hvalue : msg.value = 0
  · refine .inr ⟨hvalue, ?_⟩
    simp only [nonPayable, bind_apply, failIf_apply, hvalue, ne_eq, not_true_eq_false, if_false,
      Res.bind_ret]
  · refine .inl ⟨w, .NonPayable, ?_⟩
    simp only [nonPayable, bind_apply, failIf_apply, ne_eq, hvalue, not_false_eq_true, if_true,
      Res.bind_throw]

theorem settles_nonPayable {body : Tx Unit} {w : World} (h : Settles w (body w)) :
    Settles w (nonPayable msg body w) := by
  rcases nonPayable_cases body w with hthrow | ⟨-, hbody⟩
  · exact .inl hthrow
  · rw [hbody]
    exact h

/-- An admin call reverts, or changes admin settings only. -/
theorem exec_admin (h : call.isAdmin = true) (w : World) : Settles w (exec E msg call w) := by
  cases call with
  | pause => exact settles_nonPayable (settles_pause w)
  | unpause => exact settles_nonPayable (settles_unpause w)
  | setDailyVolumeLimit newLimit =>
    exact settles_nonPayable (settles_setDailyVolumeLimit newLimit w)
  | setOrchestrator newOrchestrator =>
    exact settles_nonPayable (settles_setOrchestrator newOrchestrator w)
  | setSolver solver approved => exact settles_nonPayable (settles_setSolver solver approved w)
  | _ => cases h

/-- An admin call that does not revert brought no ETH. -/
theorem exec_admin_value (h : call.isAdmin = true) {w w' : World}
    (hret : exec E msg call w = .ret w' ()) : msg.value = 0 := by
  have key : ∀ body : Tx Unit, nonPayable msg body w = .ret w' () → msg.value = 0 :=
    fun body hb => by
      rcases nonPayable_cases body w with ⟨v, e, hthrow⟩ | ⟨hvalue, -⟩
      · rw [hthrow] at hb
        cases hb
      · exact hvalue
  cases call with
  | pause => exact key _ hret
  | unpause => exact key _ hret
  | setDailyVolumeLimit newLimit => exact key _ hret
  | setOrchestrator newOrchestrator => exact key _ hret
  | setSolver solver approved => exact key _ hret
  | _ => cases h

/-! ## Under the lock -/

/-- The guard: a nested guarded call reverts. -/
theorem nonReentrant_locked {α : Type} {w : World} (h : w.entered = true) (body : Tx α) :
    nonReentrant body w = .throw w .ReentrancyGuardReentrantCall := by
  simp only [nonReentrant, bind_apply, read_apply, Res.bind_ret, failIf_apply, if_pos h,
    Res.bind_throw]

theorem throws_whenNotPaused {α : Type} {w : World} (h : w.entered = true) (body : Tx α) :
    ∃ e, whenNotPaused (nonReentrant body) w = .throw w e := by
  simp only [whenNotPaused, bind_apply, read_apply, Res.bind_ret, failIf_apply]
  split
  · exact ⟨_, Res.bind_throw _ _ _⟩
  · exact ⟨_, by rw [Res.bind_ret, nonReentrant_locked h]⟩

theorem throws_onlyOrchestrator {w : World} (h : w.entered = true) (body : Tx Unit) :
    ∃ e, onlyOrchestrator msg (nonReentrant body) w = .throw w e := by
  simp only [onlyOrchestrator, bind_apply, read_apply, Res.bind_ret, failIf_apply]
  split
  · exact ⟨_, Res.bind_throw _ _ _⟩
  · exact ⟨_, by rw [Res.bind_ret, nonReentrant_locked h]⟩

theorem throws_nonPayable {w : World} {body : Tx Unit} (h : ∃ e, body w = .throw w e) :
    ∃ w' e, nonPayable msg body w = .throw w' e := by
  obtain ⟨e, he⟩ := h
  rcases nonPayable_cases body w with hthrow | ⟨-, hbody⟩
  · exact hthrow
  · exact ⟨w, e, hbody.trans he⟩

/-- Under the lock every call reverts or is an admin call. -/
theorem exec_locked {w : World} (h : w.entered = true) (hcall : call.isAdmin = false) :
    ∃ w' e, exec E msg call w = .throw w' e := by
  cases call with
  | submitIntent tokenAddress amount destinationWallet destinationChainId expiry slippageBps =>
    obtain ⟨e, he⟩ := throws_whenNotPaused h _
    refine ⟨w, e, ?_⟩
    simp only [exec, submitIntent, bind_apply]
    rw [he, Res.bind_throw]
  | postCollateral intentId =>
    obtain ⟨e, he⟩ := throws_whenNotPaused h _
    exact ⟨w, e, he⟩
  | confirmSettlement intentId zkProofHash =>
    exact throws_nonPayable (throws_onlyOrchestrator h _)
  | slashSolver intentId => exact throws_nonPayable (throws_onlyOrchestrator h _)
  | cancelIntent intentId => exact throws_nonPayable ⟨_, nonReentrant_locked h _⟩
  | claimRefund intentId => exact throws_nonPayable ⟨_, nonReentrant_locked h _⟩
  | withdrawTreasury => exact throws_nonPayable ⟨_, nonReentrant_locked h _⟩
  | _ => cases hcall

/-! ## From an idle world -/

theorem Administers.kept {w w' : World} (h : Administers w w') (hk : Kept E w) : Kept E w' := by
  obtain ⟨admin, hlogs, hadmin⟩ := h.logs
  exact
    { treasury_ne := h.treasury ▸ hk.treasury_ne
      noZeroSolver := h.noZeroSolver hk.noZeroSolver
      unowned := fun j => by rw [h.intents]; exact hk.unowned j
      parties := fun j => by rw [h.intents]; exact hk.parties j
      origin := fun j => by rw [h.intents, h.hashed]; exact hk.origin j
      nonces := by rw [h.hashed, h.intentNonce]; exact hk.nonces
      nonceRange := h.intentNonce ▸ hk.nonceRange
      created := fun j => by
        rw [h.intents, hlogs, createdIds_append, (admin_history hadmin j).2.2.2, List.append_nil]
        exact hk.created j
      createdOnce := by
        rw [hlogs, createdIds_append, (admin_history hadmin 0).2.2.2, List.append_nil]
        exact hk.createdOnce
      accounted := fun j => by
        rw [h.intents, h.timestamp, h.payments, hlogs, posted_append, forfeited_append,
          (admin_history hadmin j).1, (admin_history hadmin j).2.1, List.append_nil,
          List.append_nil]
        exact hk.accounted j
      onlyTreasury := by rw [h.treasury, h.pending]; exact hk.onlyTreasury
      credit := by
        rw [h.treasury, h.pending, h.payments, hlogs, totalForfeited_append,
          (admin_history hadmin 0).2.2.1, Nat.add_zero]
        exact hk.credit }

theorem Administers.completes {w w' : World} (h : Administers w w') (hidle : Idle E w)
    (s : World) : Completes E w s w' () := by
  obtain ⟨admin, hlogs, -⟩ := h.logs
  refine fun _ => ⟨⟨h.kept hidle.kept, ⟨?_, fun T h0 hT => ?_⟩, h.entered.trans hidle.unlocked,
    h.balance ▸ hidle.ethRange⟩, ?_⟩
  · rw [h.balance, h.forced, ethOwed_congr h.intents h.pending]
    exact hidle.solvent.eth
  · rw [h.tokenBalance, h.donated, h.intents]
    exact hidle.solvent.token T h0 hT
  · exact
      { timestamp := h.timestamp.ge
        treasury := h.treasury
        intents := fun j _ => by rw [h.intents]; exact .refl _
        payments := h.payments ▸ List.prefix_refl _
        logs := ⟨_, hlogs.symm⟩ }

/-- A call to a function that is not payable starts from the idle world itself. -/
theorem meets_nonPayable {w : World} {body : Tx Unit} {s₀ : World}
    (h : Meets E call (Completes E w) s₀ (body w)) :
    Meets E call (Completes E w) s₀
      (nonPayable msg body { w with balance := w.balance + msg.value }) := by
  rcases nonPayable_cases body { w with balance := w.balance + msg.value } with
    ⟨w', e, hthrow⟩ | ⟨hvalue, hbody⟩
  · rw [hthrow]
    exact sat_throw.mpr trivial
  · rw [hbody, hvalue]
    exact h

/-- An admin call from an idle world. -/
theorem meets_admin {w : World} (h : Idle E w) {r : Res World Answer Err Unit}
    (hr : Settles w r) (s₀ : World) : Meets E call (Completes E w) s₀ r := by
  rcases hr with ⟨w', e, rfl⟩ | ⟨w', rfl, hadmin⟩
  · exact sat_throw.mpr trivial
  · exact sat_ret.mpr (hadmin.completes h s₀)

theorem meets_exec {w : World} (h : Idle E w) (hsender : msg.sender ≠ 0)
    (hself : msg.sender ≠ E.self) (hrange : w.balance + msg.value < 2 ^ 256) (s₀ : World) :
    Meets E call (Completes E w) s₀
      (exec E msg call { w with balance := w.balance + msg.value }) := by
  cases call with
  | submitIntent tokenAddress amount destinationWallet destinationChainId expiry slippageBps =>
    exact meets_submitIntent h hsender hself hrange s₀
  | postCollateral intentId => exact meets_postCollateral h hrange s₀
  | confirmSettlement intentId zkProofHash =>
    exact meets_nonPayable (meets_confirmSettlement h s₀)
  | slashSolver intentId => exact meets_nonPayable (meets_slashSolver h s₀)
  | cancelIntent intentId => exact meets_nonPayable (meets_cancelIntent h hsender s₀)
  | claimRefund intentId => exact meets_nonPayable (meets_claimRefund h hsender s₀)
  | withdrawTreasury => exact meets_nonPayable (meets_withdrawTreasury h s₀)
  | pause => exact meets_nonPayable (meets_admin h (settles_pause w) s₀)
  | unpause => exact meets_nonPayable (meets_admin h (settles_unpause w) s₀)
  | setDailyVolumeLimit newLimit =>
    exact meets_nonPayable (meets_admin h (settles_setDailyVolumeLimit newLimit w) s₀)
  | setOrchestrator newOrchestrator =>
    exact meets_nonPayable (meets_admin h (settles_setOrchestrator newOrchestrator w) s₀)
  | setSolver solver approved =>
    exact meets_nonPayable (meets_admin h (settles_setSolver solver approved w) s₀)

end Maat.IntentManager
