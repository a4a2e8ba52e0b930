import Maat.Laws.Solana.Escrow

/-!
# When an intent can be settled and when cancelled

`receive_settlement` looks at the pause and the time, and `cancel_intent` does so too. Of a pending
intent exactly one of the two is open, but for the second of the expiry itself: there
`receive_settlement` takes the intent for expired and `cancel_intent` does not yet
(`one_window_iff`). `cancelIntent` of the EVM contract opens at that second.
-/

namespace Maat.Solana

open Checks

def ProgramError.Untimely : ProgramError → Prop
  | .maat .ProgramPaused | .maat .IntentExpired | .maat .IntentNotCancellable => True
  | _ => False

/-- Refused for the pause or for the time. -/
def Untimely {α : Type} (r : Except ProgramError α) : Prop := ∃ e, r = .error e ∧ e.Untimely

section Timely

variable {α β : Type} {bank : Bank} {key : Pubkey} {amount : Nat} {e : ProgramError}

theorem untimely_error : Untimely (α := α) (.error e) ↔ e.Untimely := by
  constructor
  · rintro ⟨e', h, hu⟩
    cases h
    exact hu
  · intro h
    exact ⟨e, rfl, h⟩

theorem timely_bind {x : Except ProgramError α} {f : α → Except ProgramError β}
    (hx : ¬Untimely x) (hf : ∀ a, ¬Untimely (f a)) : ¬Untimely (x.bind f) := by
  rintro ⟨e, h, hu⟩
  rcases bind_eq_error.mp h with h | ⟨a, -, h⟩
  · exact hx ⟨e, h, hu⟩
  · exact hf a ⟨e, h, hu⟩

theorem timely_require {p : Prop} [Decidable p] (he : ¬e.Untimely) : ¬Untimely (require p e) := by
  rintro ⟨e', h, hu⟩
  obtain ⟨-, rfl⟩ := require_eq_error.mp h
  exact he hu

theorem timely_debit (he : ¬e.Untimely) : ¬Untimely (bank.debit key amount e) := by
  rintro ⟨e', h, hu⟩
  exact he ((debit_error h).2 ▸ hu)

theorem timely_credit (he : ¬e.Untimely) : ¬Untimely (bank.credit key amount e) := by
  rintro ⟨e', h, hu⟩
  exact he (credit_error h ▸ hu)

end Timely

variable {cluster : Cluster} {clock : Int} {bank : Bank} {state : ProgramState} {intent : Intent}
  {cb : CircuitBreaker} {intentKey circuitBreaker : Pubkey}

/-- The pause and the time that `receive_settlement` wants. -/
theorem receive_settlement_timely_iff (hstate : bank.program_state cluster = .ok state)
    (hintent : bank.intent cluster intentKey = .ok intent)
    (hcb : bank.circuit_breaker cluster circuitBreaker = .ok cb)
    (hpending : intent.status = .Pending) (destination owner : Pubkey)
    (zk_proof_hash : Fin (2 ^ 256)) (settlement_amount : UInt64) :
    ¬Untimely (receive_settlement cluster clock intentKey circuitBreaker state.orchestrator
        destination owner zk_proof_hash settlement_amount bank) ↔
      state.paused = false ∧ clock < intent.expiry := by
  unfold receive_settlement
  rw [hstate, ok_bind, hintent, ok_bind, hcb, ok_bind]
  by_cases hpaused : state.paused = false
  · by_cases htime : clock < intent.expiry
    · refine iff_of_true ?_ ⟨hpaused, htime⟩
      rw [require_bind_pos hpaused, require_bind_pos rfl, require_bind_pos hpending,
        require_bind_pos htime]
      -- what is checked from here on is not the time
      refine timely_bind (timely_require id) fun _ => ?_
      refine timely_bind (timely_require id) fun _ => ?_
      refine timely_bind (timely_require id) fun _ => ?_
      refine timely_bind (timely_require id) fun _ => ?_
      refine timely_bind (timely_require id) fun _ => ?_
      refine timely_bind (timely_require id) fun _ => ?_
      refine timely_bind (timely_require id) fun _ => ?_
      refine timely_bind (timely_debit id) fun _ => ?_
      refine timely_bind (timely_credit id) fun _ => ?_
      dsimp only
      split
      · exact timely_bind (timely_debit id) fun _ => timely_credit id
      · rintro ⟨e, h, -⟩
        cases h
    · refine iff_of_false (not_not_intro ?_) fun h => htime h.2
      rw [require_bind_pos hpaused, require_bind_pos rfl, require_bind_pos hpending,
        require_bind_neg htime]
      exact untimely_error.mpr trivial
  · refine iff_of_false (not_not_intro ?_) fun h => hpaused h.1
    rw [require_bind_neg hpaused]
    exact untimely_error.mpr trivial

/-- The pause and the time that `cancel_intent` wants. -/
theorem cancel_intent_timely_iff (hstate : bank.program_state cluster = .ok state)
    (hintent : bank.intent cluster intentKey = .ok intent) (hpending : intent.status = .Pending) :
    ¬Untimely (cancel_intent cluster clock intentKey intent.owner bank) ↔
      clock > intent.expiry ∨ state.paused = true := by
  unfold cancel_intent
  rw [hstate, ok_bind, hintent, ok_bind]
  rw [require_bind_pos rfl, require_bind_pos hpending]
  by_cases hopen : clock > intent.expiry ∨ state.paused = true
  · refine iff_of_true ?_ hopen
    rw [require_bind_pos hopen]
    exact timely_bind (timely_debit id) fun _ => timely_credit id
  · refine iff_of_false (not_not_intro ?_) hopen
    rw [require_bind_neg hopen]
    exact untimely_error.mpr trivial

/-- Exactly one of the two is open, at every time but the second of the expiry, and then too while
the program is paused. -/
theorem one_window_iff (hstate : bank.program_state cluster = .ok state)
    (hintent : bank.intent cluster intentKey = .ok intent)
    (hcb : bank.circuit_breaker cluster circuitBreaker = .ok cb)
    (hpending : intent.status = .Pending) (destination owner : Pubkey)
    (zk_proof_hash : Fin (2 ^ 256)) (settlement_amount : UInt64) :
    Xor (¬Untimely (receive_settlement cluster clock intentKey circuitBreaker state.orchestrator
          destination owner zk_proof_hash settlement_amount bank))
        (¬Untimely (cancel_intent cluster clock intentKey intent.owner bank)) ↔
      clock ≠ intent.expiry ∨ state.paused = true := by
  rw [receive_settlement_timely_iff hstate hintent hcb hpending,
    cancel_intent_timely_iff hstate hintent hpending, xor_iff_or_and_not_and]
  cases state.paused with
  | false => simp; omega
  | true => simp

/-- A pending intent of account 5 that expires at 100. -/
def windowIntent : Intent :=
  { owner := 5, amount := 1000, destination := 6, expiry := 100, slippage_bps := 50,
    source_chain_id := 7, status := .Pending, zk_proof_hash := 0, created_at := 12,
    settled_at := 0, settled_amount := 0, nonce := 0 }

/-- The intent, its channel and the state of the program, which is not paused. -/
def windowBank : Bank where
  lamports _ := 10000000
  data key :=
    if key = sampleCluster.address .program_state then .programState ⟨5, 5, false, 1⟩
    else if key = sampleCluster.address (.cb 7) then .circuitBreaker ⟨7, false, 5⟩
    else if key = sampleCluster.address (.intent 5 0) then .intent windowIntent
    else .system

theorem one_window_sample :
    Xor (¬Untimely (receive_settlement sampleCluster 99 (sampleCluster.address (.intent 5 0))
          (sampleCluster.address (.cb 7)) 5 6 5 0 1000 windowBank))
        (¬Untimely (cancel_intent sampleCluster 99 (sampleCluster.address (.intent 5 0)) 5
          windowBank)) :=
  (one_window_iff
    (show windowBank.program_state sampleCluster = .ok ⟨5, 5, false, 1⟩ from rfl)
    (show windowBank.intent sampleCluster (sampleCluster.address (.intent 5 0)) = .ok windowIntent
      from rfl)
    (show windowBank.circuit_breaker sampleCluster (sampleCluster.address (.cb 7)) =
      .ok ⟨7, false, 5⟩ from rfl)
    rfl 6 5 0 1000).mpr (.inl (by decide))

/-- At the second of the expiry neither is open. -/
theorem expiry_second_shut :
    ¬Xor (¬Untimely (receive_settlement sampleCluster 100 (sampleCluster.address (.intent 5 0))
          (sampleCluster.address (.cb 7)) 5 6 5 0 1000 windowBank))
        (¬Untimely (cancel_intent sampleCluster 100 (sampleCluster.address (.intent 5 0)) 5
          windowBank)) := by
  have hsettle : receive_settlement sampleCluster 100 (sampleCluster.address (.intent 5 0))
        (sampleCluster.address (.cb 7)) 5 6 5 0 1000 windowBank =
      .error (.maat .IntentExpired) := rfl
  have hcancel : cancel_intent sampleCluster 100 (sampleCluster.address (.intent 5 0)) 5
      windowBank = .error (.maat .IntentNotCancellable) := rfl
  rw [hsettle, hcancel]
  rintro (⟨h, -⟩ | ⟨h, -⟩) <;> exact h (untimely_error.mpr trivial)

end Maat.Solana
