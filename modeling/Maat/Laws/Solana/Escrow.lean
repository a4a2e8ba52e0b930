import Maat.Lib.Mapping
import Maat.Lib.Run
import Maat.Solana.Program

/-!
# The escrow of the Solana program

What each movement of lamports does to the accounts that hold an escrow, whichever accounts
coincide. An account owes a reserve by what it holds, and the invariant is that every account has
it; the program only debits an intent by what its status change frees.
-/

namespace Maat.Solana

open Checks

variable {cluster : Cluster} {bank bank' mid : Bank} {key source target payer : Pubkey}
variable {amount : Nat} {e e' : ProgramError} {clock : Int}

/-- All lamports there are. -/
def Bank.total (bank : Bank) : Nat := ∑ key, bank.lamports key

/-- What an account has to hold. -/
def reserve (cluster : Cluster) : AccountData → Nat
  | .intent i => if i.status = .Pending then cluster.intentRent + i.amount.toNat
      else cluster.intentRent
  | _ => 0

/-! ## Movements -/

/-- A movement keeps the data and the total, and debits one account at most. -/
structure Moves (bank bank' : Bank) (debited : Pubkey) (amount : Nat) : Prop where
  data : bank'.data = bank.data
  total : bank'.total = bank.total
  others : ∀ key, key ≠ debited → bank.lamports key ≤ bank'.lamports key
  debited : bank.lamports debited ≤ bank'.lamports debited + amount

theorem debit_ok (h : bank.debit key amount e = .ok bank') :
    amount ≤ bank.lamports key ∧ bank'.data = bank.data ∧
      bank'.lamports = Function.update bank.lamports key (bank.lamports key - amount) := by
  unfold Bank.debit at h
  split at h
  · next hle =>
    cases h
    exact ⟨hle, rfl, rfl⟩
  · cases h

theorem credit_ok (h : bank.credit key amount e = .ok bank') :
    bank'.data = bank.data ∧
      bank'.lamports = Function.update bank.lamports key (bank.lamports key + amount) := by
  unfold Bank.credit at h
  split at h
  · cases h
    exact ⟨rfl, rfl⟩
  · cases h

/-- A debit and the credit of the same amount, whether or not the two accounts are one. -/
theorem pay_ok (hdebit : bank.debit source amount e = .ok mid)
    (hcredit : mid.credit target amount e' = .ok bank') :
    Moves bank bank' source amount ∧
      (source ≠ target → bank'.lamports target = bank.lamports target + amount) := by
  obtain ⟨hle, hdata, hmid⟩ := debit_ok hdebit
  obtain ⟨hdata', hafter⟩ := credit_ok hcredit
  have hup : ∀ key, mid.lamports key ≤ bank'.lamports key := by
    intro key
    rw [hafter]
    by_cases hk : key = target
    · rw [hk, Function.update_self]
      exact Nat.le_add_right _ _
    · rw [Function.update_of_ne hk]
  refine ⟨⟨hdata'.trans hdata, ?_, ?_, ?_⟩, ?_⟩
  · have hout := Mapping.sum_update bank.lamports source (bank.lamports source - amount) id
    have hin := Mapping.sum_update mid.lamports target (mid.lamports target + amount) id
    rw [← hmid] at hout
    rw [← hafter] at hin
    simp only [id] at hout hin
    unfold Bank.total
    omega
  · intro key hk
    apply le_trans _ (hup key)
    rw [hmid, Function.update_of_ne hk]
  · have hsource := hup source
    rw [hmid, Function.update_self] at hsource
    omega
  · intro hne
    rw [hafter, Function.update_self, hmid, Function.update_of_ne hne.symm]

theorem transfer_ok (h : bank.transfer source target amount = .ok bank') :
    bank.data source = .system ∧ Moves bank bank' source amount ∧
      (source ≠ target → bank'.lamports target = bank.lamports target + amount) := by
  unfold Bank.transfer at h
  obtain ⟨_, hsystem, h⟩ := bind_eq_ok.mp h
  obtain ⟨mid, hdebit, hcredit⟩ := bind_eq_ok.mp h
  exact ⟨require_eq_ok.mp hsystem, pay_ok hdebit hcredit⟩

/-- What `init` does: a fresh account with its reserve, paid by a system account. -/
theorem init_ok {space : Nat} {data : AccountData}
    (h : bank.init cluster payer key space data = .ok bank') :
    bank.data key = .system ∧ bank'.data = Function.update bank.data key data ∧
      bank'.total = bank.total ∧ cluster.minimum_balance (8 + space) ≤ bank'.lamports key ∧
      ∀ other, bank.data other ≠ .system → bank.lamports other ≤ bank'.lamports other := by
  unfold Bank.init at h
  obtain ⟨_, hsystem, h⟩ := bind_eq_ok.mp h
  obtain ⟨paid, hpaid, h⟩ := bind_eq_ok.mp h
  cases h
  have hfresh := require_eq_ok.mp hsystem
  -- either way the payment is one transfer, which leaves the reserve in the account
  have hmoves : ∃ amount, bank.data payer = .system ∧ Moves bank paid payer amount ∧
      cluster.minimum_balance (8 + space) ≤ paid.lamports key := by
    split at hpaid
    · next hzero =>
      obtain ⟨hpayer, hmoves, hcredited⟩ := transfer_ok hpaid
      refine ⟨_, hpayer, hmoves, ?_⟩
      by_cases hsame : payer = key
      · have hdebited := hmoves.debited
        unfold Bank.transfer at hpaid
        obtain ⟨_, _, hpaid⟩ := bind_eq_ok.mp hpaid
        obtain ⟨_, hdebit, _⟩ := bind_eq_ok.mp hpaid
        have hle := (debit_ok hdebit).1
        rw [hsame, hzero] at hle
        omega
      · rw [hcredited hsame]
        omega
    · obtain ⟨_, hne, hpaid⟩ := bind_eq_ok.mp hpaid
      obtain ⟨hpayer, hmoves, hcredited⟩ := transfer_ok hpaid
      refine ⟨_, hpayer, hmoves, ?_⟩
      rw [hcredited (require_eq_ok.mp hne)]
      omega
  obtain ⟨amount, hpayer, hmoves, hreserve⟩ := hmoves
  refine ⟨hfresh, ?_, hmoves.total, hreserve, ?_⟩
  · unfold Bank.setData
    rw [hmoves.data]
  · intro other hother
    exact hmoves.others other fun h => hother (h ▸ hpayer)

/-! ## What an intent can become -/

/-- The bounds of a settlement: at least the amount less its slippage, at most the amount. -/
def WithinSlippage (i : Intent) (settled_amount : UInt64) : Prop :=
  (i.amount.toNat : Int) - (i.amount.toNat * i.slippage_bps.toNat / 10000 : Nat) ≤
      settled_amount.toNat ∧ settled_amount ≤ i.amount

/-- A pending intent settles within its slippage or expires, and nothing else changes. -/
inductive Evolves (i : Intent) : Intent → Prop where
  | stays : Evolves i i
  | settles (settled_at : Int) (zk_proof_hash : Fin (2 ^ 256)) (settled_amount : UInt64)
      (pending : i.status = .Pending) (within : WithinSlippage i settled_amount) :
      Evolves i { i with status := .Settled, settled_at, zk_proof_hash, settled_amount }
  | expires (pending : i.status = .Pending) : Evolves i { i with status := .Expired }

theorem Evolves.trans {i j k : Intent} (h : Evolves i j) (h' : Evolves j k) : Evolves i k := by
  cases h with
  | stays => exact h'
  | settles settled_at zk_proof_hash settled_amount pending within =>
    cases h' with
    | stays => exact .settles settled_at zk_proof_hash settled_amount pending within
    | settles _ _ _ pending' _ => cases pending'
    | expires pending' => cases pending'
  | expires pending =>
    cases h' with
    | stays => exact .expires pending
    | settles _ _ _ pending' _ => cases pending'
    | expires pending' => cases pending'

/-! ## What an instruction does -/

/-- A pending intent is closed and pays out at most its amount. -/
structure Closes (bank bank' : Bank) (key : Pubkey) (i i' : Intent) : Prop where
  pending : i.status = .Pending
  closed : i'.status ≠ .Pending
  evolves : Evolves i i'
  found : bank.data key = .intent i
  left : bank'.data = Function.update bank.data key (.intent i')
  paid : bank.lamports key ≤ bank'.lamports key + i.amount.toNat
  others : ∀ other, other ≠ key → bank.lamports other ≤ bank'.lamports other

/-- An instruction creates a pending intent with its escrow, closes a pending one, or leaves all
intents alone. -/
inductive Effect (cluster : Cluster) (bank bank' : Bank) : Prop where
  | creates (key : Pubkey) (i : Intent) (pending : i.status = .Pending)
      (fresh : bank.data key = .system) (created : bank'.data key = .intent i)
      (escrowed : cluster.intentRent + i.amount.toNat ≤ bank'.lamports key)
      (kept : ∀ other j, other ≠ key → (bank'.data other = .intent j ↔ bank.data other = .intent j))
      (others : ∀ other, bank.data other ≠ .system → bank.lamports other ≤ bank'.lamports other)
  | closes (key : Pubkey) (i i' : Intent) (h : Closes bank bank' key i i')
  | keeps (kept : ∀ other j, bank'.data other = .intent j ↔ bank.data other = .intent j)
      (others : ∀ other, bank.data other ≠ .system → bank.lamports other ≤ bank'.lamports other)

theorem program_state_ok {state : ProgramState} :
    bank.program_state cluster = .ok state ↔
      bank.data (cluster.address .program_state) = .programState state := by
  unfold Bank.program_state
  split <;> simp_all

theorem intent_ok {i : Intent} :
    bank.intent cluster key = .ok i ↔
      bank.data key = .intent i ∧ key = cluster.address (.intent i.owner i.nonce) := by
  unfold Bank.intent
  split
  · split <;> simp_all
    intro h
    rw [← h]
    assumption
  · simp_all

/-- What a successful `submit_intent` does. -/
theorem submit_intent_ok {owner destination : Pubkey} {amount source_chain_id : UInt64}
    {expiry : Int} {slippage_bps : UInt16}
    (h : submit_intent cluster clock owner amount destination expiry slippage_bps source_chain_id
      bank = .ok bank') :
    ∃ state, bank.data (cluster.address .program_state) = .programState state ∧
      bank.data (cluster.address (.intent owner state.intent_nonce)) = .system ∧
      state.intent_nonce.toNat + 1 < 2 ^ 64 ∧ bank'.total = bank.total ∧
      bank'.data = Function.update
        (Function.update bank.data (cluster.address (.intent owner state.intent_nonce)) (.intent
          { owner, amount, destination, expiry, slippage_bps, source_chain_id, status := .Pending,
            zk_proof_hash := 0, created_at := clock, settled_at := 0, settled_amount := 0,
            nonce := state.intent_nonce }))
        (cluster.address .program_state)
        (.programState { state with intent_nonce := state.intent_nonce + 1 }) ∧
      cluster.intentRent + amount.toNat ≤
        bank'.lamports (cluster.address (.intent owner state.intent_nonce)) ∧
      ∀ other, bank.data other ≠ .system → bank.lamports other ≤ bank'.lamports other := by
  unfold submit_intent at h
  obtain ⟨state, hstate, h⟩ := bind_eq_ok.mp h
  obtain ⟨created, hcreated, h⟩ := bind_eq_ok.mp h
  obtain ⟨_, _, h⟩ := bind_eq_ok.mp h
  obtain ⟨paid, hpaid, h⟩ := bind_eq_ok.mp h
  obtain ⟨_, hnonce, h⟩ := bind_eq_ok.mp h
  cases h
  obtain ⟨hfresh, hdata, htotal, hrent, hothers⟩ := init_ok hcreated
  obtain ⟨hsystem, hmoves, hcredited⟩ := transfer_ok hpaid
  -- the owner is a system account still, so it is not the account just created
  have howner : owner ≠ cluster.address (.intent owner state.intent_nonce) := by
    intro heq
    rw [hdata, ← heq, Function.update_self] at hsystem
    cases hsystem
  refine ⟨state, program_state_ok.mp hstate, hfresh, require_eq_ok.mp hnonce,
    hmoves.total.trans htotal, ?_, ?_, ?_⟩
  · unfold Bank.setData
    rw [hmoves.data, hdata]
  · show _ ≤ paid.lamports _
    rw [hcredited howner]
    exact Nat.add_le_add_right hrent _
  · intro other hother
    show _ ≤ paid.lamports other
    apply (hothers other hother).trans (hmoves.others other _)
    intro heq
    rw [hdata, Function.update_of_ne howner] at hsystem
    exact hother (heq ▸ hsystem)

/-- An account that is not there yet is not the program's state. -/
theorem ne_program_state {state : ProgramState}
    (hstate : bank.data (cluster.address .program_state) = .programState state)
    (hfresh : bank.data key = .system) : key ≠ cluster.address .program_state := by
  intro heq
  rw [heq, hstate] at hfresh
  cases hfresh

theorem submit_intent_effect {owner destination : Pubkey} {amount source_chain_id : UInt64}
    {expiry : Int} {slippage_bps : UInt16}
    (h : submit_intent cluster clock owner amount destination expiry slippage_bps source_chain_id
      bank = .ok bank') : Effect cluster bank bank' ∧ bank'.total = bank.total := by
  obtain ⟨state, hstate, hfresh, -, htotal, hdata, hescrowed, hothers⟩ := submit_intent_ok h
  have hne := ne_program_state hstate hfresh
  obtain ⟨i, hcreated, hpending, hamount⟩ : ∃ i : Intent,
      bank'.data (cluster.address (.intent owner state.intent_nonce)) = .intent i ∧
        i.status = .Pending ∧ i.amount = amount := by
    rw [hdata, Function.update_of_ne hne, Function.update_self]
    exact ⟨_, rfl, rfl, rfl⟩
  refine ⟨.creates _ i hpending hfresh hcreated (hamount ▸ hescrowed) ?_ hothers, htotal⟩
  intro other j hother
  rw [hdata]
  by_cases hps : other = cluster.address .program_state
  · rw [hps, Function.update_self, hstate]
    exact iff_of_false (fun h => by cases h) (fun h => by cases h)
  · rw [Function.update_of_ne hps, Function.update_of_ne hother]

/-- What a settlement that goes through read, required and paid. -/
structure Settles (cluster : Cluster) (clock : Int)
    (key circuitBreaker orchestrator destination owner : Pubkey) (zk_proof_hash : Fin (2 ^ 256))
    (s : UInt64) (bank bank' : Bank) (i : Intent) : Prop where
  program : ∃ state, bank.program_state cluster = .ok state ∧ state.paused = false ∧
    orchestrator = state.orchestrator
  found : bank.intent cluster key = .ok i
  breaker : ∃ cb, bank.circuit_breaker cluster circuitBreaker = .ok cb ∧
    cb.channel_id = i.source_chain_id ∧ cb.halted = false
  pending : i.status = .Pending
  unexpired : clock < i.expiry
  toDestination : i.destination = destination
  toOwner : owner = i.owner
  deducted : slippage_deduction i.amount i.slippage_bps ≤ i.amount.toNat
  floor : i.amount.toNat - slippage_deduction i.amount i.slippage_bps ≤ s.toNat
  ceiling : s ≤ i.amount
  paid : ∃ debited credited,
    (bank.setData key (.intent { i with
      status := .Settled, settled_at := clock, zk_proof_hash, settled_amount := s })).debit key
        s.toNat (.maat .InsufficientFunds) = .ok debited ∧
    debited.credit destination s.toNat (.maat .Overflow) = .ok credited ∧
    ((∃ refunded,
        credited.debit key (i.amount.toNat - s.toNat) (.maat .InsufficientFunds) = .ok refunded ∧
        refunded.credit owner (i.amount.toNat - s.toNat) (.maat .Overflow) = .ok bank') ∨
      i.amount.toNat - s.toNat = 0 ∧ credited = bank')

section settles

variable {circuitBreaker orchestrator destination owner : Pubkey} {zk_proof_hash : Fin (2 ^ 256)}
variable {s : UInt64} {i : Intent}

theorem receive_settlement_eq_ok
    (h : receive_settlement cluster clock key circuitBreaker orchestrator destination owner
      zk_proof_hash s bank = .ok bank') :
    ∃ i, Settles cluster clock key circuitBreaker orchestrator destination owner zk_proof_hash s
      bank bank' i := by
  unfold receive_settlement at h
  obtain ⟨state, hstate, h⟩ := bind_eq_ok.mp h
  obtain ⟨i, hintent, h⟩ := bind_eq_ok.mp h
  obtain ⟨cb, hcb, h⟩ := bind_eq_ok.mp h
  obtain ⟨hunpaused, h⟩ := require_bind_eq_ok.mp h
  obtain ⟨horchestrator, h⟩ := require_bind_eq_ok.mp h
  obtain ⟨hpending, h⟩ := require_bind_eq_ok.mp h
  obtain ⟨hunexpired, h⟩ := require_bind_eq_ok.mp h
  obtain ⟨hchannel, h⟩ := require_bind_eq_ok.mp h
  obtain ⟨hhalted, h⟩ := require_bind_eq_ok.mp h
  obtain ⟨hdestination, h⟩ := require_bind_eq_ok.mp h
  obtain ⟨howner, h⟩ := require_bind_eq_ok.mp h
  obtain ⟨hdeducted, h⟩ := require_bind_eq_ok.mp h
  obtain ⟨hfloor, h⟩ := require_bind_eq_ok.mp h
  obtain ⟨hceiling, h⟩ := require_bind_eq_ok.mp h
  obtain ⟨debited, hdebit, h⟩ := bind_eq_ok.mp h
  obtain ⟨credited, hcredit, h⟩ := bind_eq_ok.mp h
  refine ⟨i, ⟨state, hstate, hunpaused, horchestrator⟩, hintent, ⟨cb, hcb, hchannel, hhalted⟩,
    hpending, hunexpired, hdestination, howner, hdeducted, hfloor, hceiling,
    debited, credited, hdebit, hcredit, ?_⟩
  dsimp only at h
  split at h
  · exact .inl (bind_eq_ok.mp h)
  · next hnone => exact .inr ⟨Nat.eq_zero_of_not_pos hnone, Except.ok.inj h⟩

/-- The deduction cut to 64 bits is at most the deduction. -/
theorem Settles.within (h : Settles cluster clock key circuitBreaker orchestrator destination owner
    zk_proof_hash s bank bank' i) : WithinSlippage i s := by
  refine ⟨?_, h.ceiling⟩
  have hfloor := h.floor
  unfold slippage_deduction at hfloor
  have hcut := Nat.mod_le (i.amount.toNat * i.slippage_bps.toNat / 10000) (2 ^ 64)
  omega

theorem receive_settlement_closes
    (h : receive_settlement cluster clock key circuitBreaker orchestrator destination owner
      zk_proof_hash s bank = .ok bank') :
    ∃ i i', Closes bank bank' key i i' ∧ bank'.total = bank.total := by
  obtain ⟨i, hsettles⟩ := receive_settlement_eq_ok h
  obtain ⟨debited, credited, hdebit, hcredit, hrest⟩ := hsettles.paid
  have hle : s.toNat ≤ i.amount.toNat := UInt64.le_iff_toNat_le.mp hsettles.ceiling
  obtain ⟨hpay, -⟩ := pay_ok hdebit hcredit
  have hall : ∃ amount ≤ i.amount.toNat, Moves (bank.setData key (.intent { i with
      status := .Settled, settled_at := clock, zk_proof_hash, settled_amount := s }))
      bank' key amount := by
    rcases hrest with ⟨refunded, hdebit', hcredit'⟩ | ⟨-, rfl⟩
    · obtain ⟨hrefund, -⟩ := pay_ok hdebit' hcredit'
      refine ⟨i.amount.toNat, le_rfl, hrefund.data.trans hpay.data,
        hrefund.total.trans hpay.total, ?_, ?_⟩
      · intro other hother
        exact (hpay.others other hother).trans (hrefund.others other hother)
      · have hfirst := hpay.debited
        have hsecond := hrefund.debited
        omega
    · exact ⟨s.toNat, hle, hpay⟩
  obtain ⟨amount, hamount, hmoves⟩ := hall
  refine ⟨i, _, ⟨hsettles.pending, ?_,
    .settles clock zk_proof_hash s hsettles.pending hsettles.within,
    (intent_ok.mp hsettles.found).1, hmoves.data, ?_, hmoves.others⟩, hmoves.total⟩
  · intro hopen
    cases hopen
  · have hdebited := hmoves.debited
    change bank.lamports key ≤ _ at hdebited
    omega

end settles

theorem cancel_intent_eq_ok {owner : Pubkey}
    (h : cancel_intent cluster clock key owner bank = .ok bank') :
    ∃ state i debited, bank.program_state cluster = .ok state ∧
      bank.intent cluster key = .ok i ∧ owner = i.owner ∧ i.status = .Pending ∧
      (clock > i.expiry ∨ state.paused = true) ∧
      (bank.setData key (.intent { i with status := .Expired })).debit key i.amount.toNat
        (.maat .InsufficientFunds) = .ok debited ∧
      debited.credit owner i.amount.toNat (.maat .Overflow) = .ok bank' := by
  unfold cancel_intent at h
  obtain ⟨state, hstate, h⟩ := bind_eq_ok.mp h
  obtain ⟨i, hintent, h⟩ := bind_eq_ok.mp h
  obtain ⟨howner, h⟩ := require_bind_eq_ok.mp h
  obtain ⟨hpending, h⟩ := require_bind_eq_ok.mp h
  obtain ⟨hopen, h⟩ := require_bind_eq_ok.mp h
  obtain ⟨debited, hdebit, hcredit⟩ := bind_eq_ok.mp h
  exact ⟨state, i, debited, hstate, hintent, howner, hpending, hopen, hdebit, hcredit⟩

theorem cancel_intent_closes {owner : Pubkey}
    (h : cancel_intent cluster clock key owner bank = .ok bank') :
    ∃ i i', Closes bank bank' key i i' ∧ bank'.total = bank.total := by
  obtain ⟨-, i, debited, -, hintent, -, hpending, -, hdebit, hcredit⟩ := cancel_intent_eq_ok h
  obtain ⟨hmoves, -⟩ := pay_ok hdebit hcredit
  refine ⟨i, _, ⟨hpending, ?_, .expires hpending, (intent_ok.mp hintent).1, hmoves.data,
    hmoves.debited, hmoves.others⟩, hmoves.total⟩
  intro hopen
  cases hopen

/-- Writing an account that holds no intent, and that gets none, leaves the intents alone. -/
theorem update_intents {data : AccountData} (hold : ∀ i, bank.data key ≠ .intent i)
    (hnew : ∀ i, data ≠ .intent i) (other : Pubkey) (j : Intent) :
    Function.update bank.data key data other = .intent j ↔ bank.data other = .intent j := by
  by_cases hk : other = key
  · rw [hk, Function.update_self]
    exact iff_of_false (hnew j) (hold j)
  · rw [Function.update_of_ne hk]

theorem init_effect {space : Nat} {data : AccountData}
    (h : bank.init cluster payer key space data = .ok bank') (hnew : ∀ i, data ≠ .intent i) :
    Effect cluster bank bank' ∧ bank'.total = bank.total := by
  obtain ⟨hfresh, hdata, htotal, -, hothers⟩ := init_ok h
  refine ⟨.keeps ?_ hothers, htotal⟩
  rw [hdata]
  apply update_intents _ hnew
  intro i hi
  rw [hi] at hfresh
  cases hfresh

theorem setPaused_effect {paused : Bool} {admin : Pubkey}
    (h : setPaused cluster paused admin bank = .ok bank') :
    Effect cluster bank bank' ∧ bank'.total = bank.total := by
  unfold setPaused at h
  obtain ⟨state, hstate, h⟩ := bind_eq_ok.mp h
  obtain ⟨_, _, h⟩ := bind_eq_ok.mp h
  cases h
  refine ⟨.keeps ?_ (fun _ _ => le_rfl), rfl⟩
  apply update_intents
  · intro i hi
    rw [program_state_ok.mp hstate] at hi
    cases hi
  · intro i hi
    cases hi

/-- Every instruction that succeeds has one of the three effects and keeps the total. -/
theorem execute_effect {instruction : Instruction}
    (h : execute cluster bank clock instruction = .ok bank') :
    Effect cluster bank bank' ∧ bank'.total = bank.total := by
  cases instruction with
  | initialize_program deployer admin orchestrator =>
    exact init_effect h fun i hi => by cases hi
  | submit_intent owner amount destination expiry slippage_bps source_chain_id =>
    exact submit_intent_effect h
  | receive_settlement intent circuitBreaker orchestrator destination owner hash amount =>
    obtain ⟨i, i', hcloses, htotal⟩ := receive_settlement_closes h
    exact ⟨.closes intent i i' hcloses, htotal⟩
  | cancel_intent intent owner =>
    obtain ⟨i, i', hcloses, htotal⟩ := cancel_intent_closes h
    exact ⟨.closes intent i i' hcloses, htotal⟩
  | set_circuit_breaker admin channel_id halted =>
    unfold execute set_circuit_breaker at h
    obtain ⟨state, _, h⟩ := bind_eq_ok.mp h
    obtain ⟨written, hwritten, h⟩ := bind_eq_ok.mp h
    obtain ⟨_, _, h⟩ := bind_eq_ok.mp h
    cases h
    split at hwritten
    · exact init_effect hwritten fun i hi => by cases hi
    · next cb hcb =>
      cases hwritten
      refine ⟨.keeps ?_ (fun _ _ => le_rfl), rfl⟩
      apply update_intents
      · intro i hi
        rw [hcb] at hi
        cases hi
      · intro i hi
        cases hi
    · cases hwritten
  | pause admin => exact setPaused_effect h
  | unpause admin => exact setPaused_effect h
  | transfer source target amount =>
    obtain ⟨hsystem, hmoves, -⟩ := transfer_ok h
    refine ⟨.keeps ?_ ?_, hmoves.total⟩
    · intro other j
      rw [hmoves.data]
    · intro other hother
      exact hmoves.others other fun heq => hother (heq ▸ hsystem)

/-! ## The invariant -/

/-- A pending intent holds its escrow over its reserve, any other its reserve, and an intent that
is not pending has settled within its slippage or expired. -/
structure Escrowed (cluster : Cluster) (bank : Bank) : Prop where
  backed : ∀ key, reserve cluster (bank.data key) ≤ bank.lamports key
  outcome : ∀ key i, bank.data key = .intent i → i.status = .Pending ∨
    i.status = .Settled ∧ WithinSlippage i i.settled_amount ∨ i.status = .Expired

theorem Escrowed.of_fresh (fresh : bank.Fresh) : Escrowed cluster bank where
  backed key := by
    obtain h | h := fresh key <;> rw [h] <;> exact Nat.zero_le _
  outcome key i hi := by
    obtain h | h := fresh key <;> rw [h] at hi <;> cases hi

theorem reserve_eq_zero {data : AccountData} (h : ∀ i, data ≠ .intent i) :
    reserve cluster data = 0 := by
  cases data with
  | intent i => exact absurd rfl (h i)
  | _ => rfl

theorem reserve_pending {i : Intent} (h : i.status = .Pending) :
    reserve cluster (.intent i) = cluster.intentRent + i.amount.toNat := if_pos h

theorem reserve_closed {i : Intent} (h : i.status ≠ .Pending) :
    reserve cluster (.intent i) = cluster.intentRent := if_neg h

/-- An account whose intents are the same and which was not debited is backed as before. -/
theorem backed_of_kept (inv : Escrowed cluster bank)
    (kept : ∀ j, bank'.data key = .intent j ↔ bank.data key = .intent j)
    (others : bank.data key ≠ .system → bank.lamports key ≤ bank'.lamports key) :
    reserve cluster (bank'.data key) ≤ bank'.lamports key := by
  cases hdata : bank'.data key with
  | intent j =>
    have hbefore := (kept j).mp hdata
    have hback := inv.backed key
    rw [hbefore] at hback others
    exact hback.trans (others fun h => by cases h)
  | _ =>
    rw [reserve_eq_zero fun i h => by cases h]
    exact Nat.zero_le _

theorem Escrowed.effect (inv : Escrowed cluster bank) (h : Effect cluster bank bank') :
    Escrowed cluster bank' := by
  cases h with
  | creates key i pending fresh created escrowed kept others =>
    constructor
    · intro other
      by_cases hk : other = key
      · rw [hk, created]
        rw [reserve_pending pending]
        exact escrowed
      · exact backed_of_kept inv (fun j => kept other j hk) (others other)
    · intro other j hj
      by_cases hk : other = key
      · rw [hk, created] at hj
        cases hj
        exact Or.inl pending
      · exact inv.outcome other j ((kept other j hk).mp hj)
  | closes key i i' h =>
    obtain ⟨pending, closed, evolves, found, left, paid, others⟩ := h
    constructor
    · intro other
      rw [left]
      by_cases hk : other = key
      · rw [hk, Function.update_self]
        have hback := inv.backed key
        rw [found, reserve_pending pending] at hback
        rw [reserve_closed closed]
        omega
      · rw [Function.update_of_ne hk]
        exact (inv.backed other).trans (others other hk)
    · intro other j hj
      rw [left] at hj
      by_cases hk : other = key
      · rw [hk, Function.update_self] at hj
        cases hj
        cases evolves with
        | stays => exact absurd pending closed
        | settles settled_at hash amount _ within => exact Or.inr (Or.inl ⟨rfl, within⟩)
        | expires => exact Or.inr (Or.inr rfl)
      · rw [Function.update_of_ne hk] at hj
        exact inv.outcome other j hj
  | keeps kept others =>
    constructor
    · intro other
      exact backed_of_kept inv (kept other) (others other)
    · intro other j hj
      exact inv.outcome other j ((kept other j).mp hj)

/-- The intents that exist stay and evolve. -/
def Later (bank bank' : Bank) : Prop :=
  ∀ key i, bank.data key = .intent i → ∃ i', bank'.data key = .intent i' ∧ Evolves i i'

theorem Later.trans (h : Later bank mid) (h' : Later mid bank') : Later bank bank' := by
  intro key i hi
  obtain ⟨j, hj, hij⟩ := h key i hi
  obtain ⟨k, hk, hjk⟩ := h' key j hj
  exact ⟨k, hk, hij.trans hjk⟩

theorem Effect.later (h : Effect cluster bank bank') : Later bank bank' := by
  intro key i hi
  cases h with
  | creates fresh j pending hfresh created escrowed kept others =>
    have hne : key ≠ fresh := by
      intro heq
      rw [heq, hfresh] at hi
      cases hi
    exact ⟨i, (kept key i hne).mpr hi, .stays⟩
  | closes closing j j' h =>
    rw [h.left]
    by_cases hk : key = closing
    · subst hk
      rw [h.found] at hi
      cases hi
      exact ⟨j', Function.update_self .., h.evolves⟩
    · exact ⟨i, by rw [Function.update_of_ne hk, hi], .stays⟩
  | keeps kept others => exact ⟨i, (kept key i).mpr hi, .stays⟩

theorem step_eq_some {event : Int × Instruction} :
    step cluster bank event = some bank' ↔ execute cluster bank event.1 event.2 = .ok bank' :=
  toOption_eq_some

theorem run_later {events : List (Int × Instruction)}
    (h : Run.run (step cluster) bank events = some bank') : Later bank bank' := by
  apply Run.run_relates (I := fun _ => True) (R := Later) (fun _ _ i hi => ⟨i, hi, .stays⟩)
    (fun _ _ _ => Later.trans) _ h trivial
  intro before event after _ hstep
  exact ⟨trivial, (execute_effect (step_eq_some.mp hstep)).1.later⟩

theorem run_escrowed {start : Bank} {events : List (Int × Instruction)} (fresh : start.Fresh)
    (h : Run.run (step cluster) start events = some bank) : Escrowed cluster bank := by
  apply Run.run_invariant (fun _ => True) _ (fun _ _ => trivial) h (Escrowed.of_fresh fresh)
  intro before event after _ inv hstep
  exact inv.effect (execute_effect (step_eq_some.mp hstep)).1

/-! ## No shortfall -/

theorem debit_error (h : bank.debit key amount e = .error e') :
    bank.lamports key < amount ∧ e = e' := by
  unfold Bank.debit at h
  split at h
  · cases h
  · next hlt =>
    cases h
    exact ⟨not_le.mp hlt, rfl⟩

theorem credit_error (h : bank.credit key amount e = .error e') : e = e' := by
  unfold Bank.credit at h
  split at h
  · cases h
  · cases h
    rfl

theorem transfer_error (h : bank.transfer source target amount = .error e) : e = .system := by
  unfold Bank.transfer at h
  obtain h | ⟨_, _, h⟩ := bind_eq_error.mp h
  · exact (require_eq_error.mp h).2.symm
  · obtain h | ⟨_, _, h⟩ := bind_eq_error.mp h
    · exact (debit_error h).2.symm
    · exact (credit_error h).symm

theorem init_error {space : Nat} {data : AccountData}
    (h : bank.init cluster payer key space data = .error e) : e = .system ∨ e = .constraint := by
  unfold Bank.init at h
  obtain h | ⟨_, _, h⟩ := bind_eq_error.mp h
  · exact Or.inl (require_eq_error.mp h).2.symm
  · obtain h | ⟨_, _, h⟩ := bind_eq_error.mp h
    · split at h
      · exact Or.inl (transfer_error h)
      · obtain h | ⟨_, _, h⟩ := bind_eq_error.mp h
        · exact Or.inr (require_eq_error.mp h).2.symm
        · exact Or.inl (transfer_error h)
    · cases h

theorem program_state_error (h : bank.program_state cluster = .error e) : e = .constraint := by
  unfold Bank.program_state at h
  split at h
  · cases h
  · cases h
    rfl

theorem intent_error (h : bank.intent cluster key = .error e) : e = .constraint := by
  unfold Bank.intent at h
  split at h
  · split at h
    · cases h
    · cases h
      rfl
  · cases h
    rfl

theorem circuit_breaker_error (h : bank.circuit_breaker cluster key = .error e) :
    e = .constraint := by
  unfold Bank.circuit_breaker at h
  split at h
  · split at h
    · cases h
    · cases h
      rfl
  · cases h
    rfl

/-- A pending intent pays its amount. -/
theorem Escrowed.amount_le (inv : Escrowed cluster bank) {i : Intent}
    (found : bank.data key = .intent i) (pending : i.status = .Pending) :
    i.amount.toNat ≤ bank.lamports key := by
  have hback := inv.backed key
  rw [found, reserve_pending pending] at hback
  omega

theorem receive_settlement_funded (inv : Escrowed cluster bank)
    {circuitBreaker orchestrator destination owner : Pubkey} {zk_proof_hash : Fin (2 ^ 256)}
    {settlement_amount : UInt64} :
    receive_settlement cluster clock key circuitBreaker orchestrator destination owner
      zk_proof_hash settlement_amount bank ≠ .error (.maat .InsufficientFunds) := by
  intro h
  unfold receive_settlement at h
  obtain h | ⟨state, _, h⟩ := bind_eq_error.mp h
  · cases program_state_error h
  obtain h | ⟨i, hintent, h⟩ := bind_eq_error.mp h
  · cases intent_error h
  obtain h | ⟨cb, _, h⟩ := bind_eq_error.mp h
  · cases circuit_breaker_error h
  obtain ⟨-, h⟩ := of_require_bind_error h (by decide)
  obtain ⟨-, h⟩ := of_require_bind_error h (by decide)
  obtain ⟨hpending, h⟩ := of_require_bind_error h (by decide)
  obtain ⟨-, h⟩ := of_require_bind_error h (by decide)
  obtain ⟨-, h⟩ := of_require_bind_error h (by decide)
  obtain ⟨-, h⟩ := of_require_bind_error h (by decide)
  obtain ⟨-, h⟩ := of_require_bind_error h (by decide)
  obtain ⟨-, h⟩ := of_require_bind_error h (by decide)
  obtain ⟨-, h⟩ := of_require_bind_error h (by decide)
  obtain ⟨-, h⟩ := of_require_bind_error h (by decide)
  obtain ⟨hceiling, h⟩ := of_require_bind_error h (by decide)
  have hfunds := inv.amount_le (intent_ok.mp hintent).1 hpending
  have hle := UInt64.le_iff_toNat_le.mp hceiling
  -- the account has the amount, so it has the settlement, and the refund after the settlement
  obtain h | ⟨debited, hdebit, h⟩ := bind_eq_error.mp h
  · have hshort := (debit_error h).1
    change bank.lamports key < _ at hshort
    omega
  obtain h | ⟨credited, hcredit, h⟩ := bind_eq_error.mp h
  · cases credit_error h
  have hpaid := (pay_ok hdebit hcredit).1.debited
  change bank.lamports key ≤ _ at hpaid
  dsimp only at h
  split at h
  · obtain h | ⟨_, _, h⟩ := bind_eq_error.mp h
    · have hshort := (debit_error h).1
      omega
    · cases credit_error h
  · cases h

theorem cancel_intent_funded (inv : Escrowed cluster bank) {owner : Pubkey} :
    cancel_intent cluster clock key owner bank ≠ .error (.maat .InsufficientFunds) := by
  intro h
  unfold cancel_intent at h
  obtain h | ⟨state, _, h⟩ := bind_eq_error.mp h
  · cases program_state_error h
  obtain h | ⟨i, hintent, h⟩ := bind_eq_error.mp h
  · cases intent_error h
  obtain ⟨-, h⟩ := of_require_bind_error h (by decide)
  obtain ⟨hpending, h⟩ := of_require_bind_error h (by decide)
  obtain ⟨-, h⟩ := of_require_bind_error h (by decide)
  have hfunds := inv.amount_le (intent_ok.mp hintent).1 hpending
  obtain h | ⟨_, _, h⟩ := bind_eq_error.mp h
  · have hshort := (debit_error h).1
    change bank.lamports key < _ at hshort
    omega
  · cases credit_error h

theorem setPaused_funded {paused : Bool} {admin : Pubkey} :
    setPaused cluster paused admin bank ≠ .error (.maat .InsufficientFunds) := by
  intro h
  unfold setPaused at h
  obtain h | ⟨state, _, h⟩ := bind_eq_error.mp h
  · cases program_state_error h
  obtain ⟨-, h⟩ := of_require_bind_error h (by decide)
  cases h

/-- No instruction fails for want of funds in an intent. -/
theorem execute_funded (inv : Escrowed cluster bank) (instruction : Instruction) :
    execute cluster bank clock instruction ≠ .error (.maat .InsufficientFunds) := by
  intro h
  cases instruction with
  | initialize_program deployer admin orchestrator =>
    obtain h | h := init_error h <;> cases h
  | submit_intent owner amount destination expiry slippage_bps source_chain_id =>
    unfold execute submit_intent at h
    obtain h | ⟨state, _, h⟩ := bind_eq_error.mp h
    · cases program_state_error h
    obtain h | ⟨_, _, h⟩ := bind_eq_error.mp h
    · obtain h | h := init_error h <;> cases h
    obtain ⟨-, h⟩ := of_require_bind_error h (by decide)
    obtain h | ⟨_, _, h⟩ := bind_eq_error.mp h
    · cases transfer_error h
    obtain ⟨-, h⟩ := of_require_bind_error h (by decide)
    cases h
  | receive_settlement intent circuitBreaker orchestrator destination owner hash amount =>
    exact receive_settlement_funded inv h
  | cancel_intent intent owner => exact cancel_intent_funded inv h
  | set_circuit_breaker admin channel_id halted =>
    unfold execute set_circuit_breaker at h
    obtain h | ⟨state, _, h⟩ := bind_eq_error.mp h
    · cases program_state_error h
    obtain h | ⟨_, _, h⟩ := bind_eq_error.mp h
    · split at h
      · obtain h | h := init_error h <;> cases h
      · cases h
      · cases h
    obtain ⟨-, h⟩ := of_require_bind_error h (by decide)
    cases h
  | pause admin => exact setPaused_funded h
  | unpause admin => exact setPaused_funded h
  | transfer source target amount => cases transfer_error h

/-! ## The escrow of the program -/

/-- The event submits an intent, whose account is `key`. -/
def SubmitsAt (cluster : Cluster) (bank : Bank) (event : Int × Instruction) (key : Pubkey) : Prop :=
  ∃ owner amount destination expiry slippage_bps source_chain_id state,
    event.2 = .submit_intent owner amount destination expiry slippage_bps source_chain_id ∧
      bank.data (cluster.address .program_state) = .programState state ∧
      key = cluster.address (.intent owner state.intent_nonce)

/-- A submission creates its account. -/
theorem submitsAt_creates {event : Int × Instruction} (h : SubmitsAt cluster bank event key)
    (hstep : step cluster bank event = some bank') :
    bank.data key = .system ∧ ∃ i, bank'.data key = .intent i := by
  obtain ⟨owner, amount, destination, expiry, bps, chain, state, hevent, hstate, rfl⟩ := h
  have hok := step_eq_some.mp hstep
  rw [hevent] at hok
  obtain ⟨state', hstate', hfresh, -, -, hdata, -⟩ := submit_intent_ok hok
  rw [hstate] at hstate'
  cases hstate'
  refine ⟨hfresh, ?_⟩
  have hne := ne_program_state hstate hfresh
  rw [hdata, Function.update_of_ne hne, Function.update_self]
  exact ⟨_, rfl⟩

/-- In every state that a run of the program reaches: pending intents hold their escrow over the
rent-exempt reserve and others the reserve; from then on an intent only ever evolves, out of
pending once; two submissions have different accounts; every instruction keeps the total; and none
fails for want of funds. -/
theorem escrow_invariant (cluster : Cluster) (start bank : Bank)
    (events : List (Int × Instruction)) (fresh : start.Fresh)
    (reached : Run.run (step cluster) start events = some bank) :
    (∀ key i, bank.data key = .intent i →
      (i.status = .Pending → cluster.intentRent + i.amount.toNat ≤ bank.lamports key) ∧
        cluster.intentRent ≤ bank.lamports key ∧
        (i.status = .Pending ∨ i.status = .Settled ∧ WithinSlippage i i.settled_amount ∨
          i.status = .Expired)) ∧
      (∀ more later, Run.run (step cluster) bank more = some later →
        ∀ key i, bank.data key = .intent i →
          ∃ i', later.data key = .intent i' ∧ Evolves i i') ∧
      (∀ first after more later second last key key',
        SubmitsAt cluster bank first key → step cluster bank first = some after →
          Run.run (step cluster) after more = some later →
            SubmitsAt cluster later second key' → step cluster later second = some last →
              key ≠ key') ∧
      (∀ event after, step cluster bank event = some after → after.total = bank.total) ∧
      ∀ clock instruction,
        execute cluster bank clock instruction ≠ .error (.maat .InsufficientFunds) := by
  have inv := run_escrowed fresh reached
  refine ⟨?_, ?_, ?_, ?_, fun _ => execute_funded inv⟩
  · intro key i hi
    have hback := inv.backed key
    rw [hi] at hback
    refine ⟨?_, ?_, inv.outcome key i hi⟩
    · intro pending
      rw [reserve_pending pending] at hback
      exact hback
    · by_cases pending : i.status = .Pending
      · rw [reserve_pending pending] at hback
        omega
      · rw [reserve_closed pending] at hback
        exact hback
  · intro more later h
    exact run_later h
  · intro first after more later second last key key' hfirst hstep hmore hsecond hlast heq
    obtain ⟨-, i, hi⟩ := submitsAt_creates hfirst hstep
    obtain ⟨i', hi', -⟩ := run_later hmore key i hi
    have hfresh := (submitsAt_creates hsecond hlast).1
    rw [← heq, hi'] at hfresh
    cases hfresh
  · intro event after hstep
    exact (execute_effect (step_eq_some.mp hstep)).2

/-! ### One settlement -/

/-- Addresses that differ for the accounts below, and the rent of the cluster. -/
def sampleCluster : Cluster where
  address
    | .program_state => 1
    | .cb channel_id => Fin.ofNat _ (100 + channel_id.toNat)
    | .intent owner nonce => Fin.ofNat _ (2 ^ 128 * (owner.val + 1) + nonce.toNat)
  minimum_balance size := (128 + size) * 6960

/-- Two system accounts with ten SOL each. -/
def sampleStart : Bank where
  lamports key := if key = 5 ∨ key = 6 then 10000000000 else 0
  data _ := .system

/-- Account 5 escrows 1000 lamports for itself and settles 996 of them; 6 escrows too. -/
def sampleEvents : List (Int × Instruction) :=
  [(10, .initialize_program 5 5 5), (11, .set_circuit_breaker 5 7 false),
    (12, .submit_intent 5 1000 5 100 50 7), (13, .submit_intent 6 1000 6 100 50 7),
    (14, .receive_settlement (sampleCluster.address (.intent 5 0)) (sampleCluster.address (.cb 7))
      5 5 5 0 996)]

theorem sampleStart_fresh : sampleStart.Fresh := fun _ => Or.inl rfl

theorem escrow_invariant_sample :
    ∃ bank, Run.run (step sampleCluster) sampleStart sampleEvents = some bank ∧
      ∀ clock instruction,
        execute sampleCluster bank clock instruction ≠ .error (.maat .InsufficientFunds) := by
  have hsome : (Run.run (step sampleCluster) sampleStart sampleEvents).isSome = true := by
    decide
  obtain ⟨bank, hrun⟩ := Option.isSome_iff_exists.mp hsome
  exact ⟨bank, hrun, (escrow_invariant sampleCluster sampleStart bank sampleEvents
    sampleStart_fresh hrun).2.2.2.2⟩

end Maat.Solana
