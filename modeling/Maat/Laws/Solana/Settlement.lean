import Maat.Laws.Solana.Escrow

/-!
# What a settlement accepts and pays

The slippage floor is computed in `u128` and cut to `u64`, and nothing bounds `slippage_bps` when
an intent is submitted. So the floor is the intended one exactly where the deduction is at most
the amount (`settlement_bounds_iff`). The payouts are sequential reads and writes of accounts that
may coincide: each account ends with what its roles add up to, and the intent's account is rid of
the escrow exactly where nothing was paid back into it (`payout_iff`).
-/

namespace Maat.Solana

open Checks

variable {cluster : Cluster} {bank bank' mid : Bank} {key source target : Pubkey}
variable {amount : Nat} {e e' : ProgramError} {clock : Int}

/-! ## One payment -/

/-- Each account ends with what its roles add up to. -/
theorem lamports_pay (hdebit : bank.debit source amount e = .ok mid)
    (hcredit : mid.credit target amount e' = .ok bank') (k : Pubkey) :
    bank'.lamports k + (if k = source then amount else 0) =
      bank.lamports k + (if k = target then amount else 0) := by
  obtain ⟨hle, -, hmid⟩ := debit_ok hdebit
  obtain ⟨-, hafter⟩ := credit_ok hcredit
  have hdebited : mid.lamports k + (if k = source then amount else 0) = bank.lamports k := by
    rw [hmid]
    by_cases hs : k = source
    · rw [hs, Function.update_self, if_pos rfl]
      omega
    · rw [Function.update_of_ne hs, if_neg hs, Nat.add_zero]
  have hcredited : bank'.lamports k = mid.lamports k + (if k = target then amount else 0) := by
    rw [hafter]
    by_cases ht : k = target
    · rw [ht, Function.update_self, if_pos rfl]
    · rw [Function.update_of_ne ht, if_neg ht, Nat.add_zero]
  omega

/-- Two accounts hold no more than all do. -/
theorem add_le_total (bank : Bank) (h : source ≠ target) :
    bank.lamports source + bank.lamports target ≤ bank.total := by
  have hpair := Finset.sum_le_univ_sum_of_nonneg (s := {source, target}) (f := bank.lamports)
    fun _ => Nat.zero_le _
  rwa [Finset.sum_pair h] at hpair

/-- A payment out of an account that has the amount goes through, as long as all lamports together
are a `u64`. -/
theorem pay_goes_through (supply : bank.total < 2 ^ 64) (hamount : amount ≤ bank.lamports source)
    (target : Pubkey) (e e' : ProgramError) :
    ∃ bank', ((bank.debit source amount e).bind fun bank => bank.credit target amount e') =
      .ok bank' := by
  have hdebit : bank.debit source amount e = .ok { bank with
      lamports := Function.update bank.lamports source (bank.lamports source - amount) } :=
    if_pos hamount
  rw [hdebit]
  refine ⟨_, if_pos ?_⟩
  by_cases hkey : target = source
  · subst hkey
    have hall := Mapping.le_sum bank.lamports target
    change _ ≤ bank.total at hall
    simp only [Function.update_self]
    omega
  · have hall := add_le_total bank hkey
    simp only [Function.update_of_ne hkey]
    omega

/-! ## What a settlement accepts -/

/-- The deduction before it is cut to 64 bits. -/
def deduction (amount : UInt64) (slippage_bps : UInt16) : Nat :=
  amount.toNat * slippage_bps.toNat / 10000

/-- The accounts and the moment of a settlement are right: the intent is there and pending, it has
not expired, its channel is not halted and the program is not paused. -/
structure Settleable (cluster : Cluster) (clock : Int) (bank : Bank) (key circuitBreaker : Pubkey)
    (state : ProgramState) (i : Intent) : Prop where
  program : bank.program_state cluster = .ok state
  unpaused : state.paused = false
  found : bank.intent cluster key = .ok i
  pending : i.status = .Pending
  unexpired : clock < i.expiry
  breaker : ∃ cb, bank.circuit_breaker cluster circuitBreaker = .ok cb ∧
    cb.channel_id = i.source_chain_id ∧ cb.halted = false

section Settleable

variable {circuitBreaker : Pubkey} {state : ProgramState} {i : Intent}
variable {zk_proof_hash : Fin (2 ^ 256)} {s : UInt64}

/-- With the right accounts, a settlement is the checks of its amount and the payments. -/
theorem Settleable.receive_settlement (h : Settleable cluster clock bank key circuitBreaker state i)
    (zk_proof_hash : Fin (2 ^ 256)) (s : UInt64) :
    receive_settlement cluster clock key circuitBreaker state.orchestrator i.destination i.owner
        zk_proof_hash s bank =
      (require (slippage_deduction i.amount i.slippage_bps ≤ i.amount.toNat)
        (.maat .Overflow)).bind fun _ =>
      (require (i.amount.toNat - slippage_deduction i.amount i.slippage_bps ≤ s.toNat)
        (.maat .SlippageExceeded)).bind fun _ =>
      (require (s ≤ i.amount) (.maat .SettlementExceedsEscrow)).bind fun _ =>
      ((bank.setData key (.intent { i with
        status := .Settled, settled_at := clock, zk_proof_hash, settled_amount := s })).debit key
          s.toNat (.maat .InsufficientFunds)).bind fun bank =>
      (bank.credit i.destination s.toNat (.maat .Overflow)).bind fun bank =>
      if 0 < i.amount.toNat - s.toNat then
        (bank.debit key (i.amount.toNat - s.toNat) (.maat .InsufficientFunds)).bind fun bank =>
        bank.credit i.owner (i.amount.toNat - s.toNat) (.maat .Overflow)
      else .ok bank := by
  obtain ⟨cb, hcb, hchannel, hhalted⟩ := h.breaker
  unfold Solana.receive_settlement
  rw [h.program, h.found, hcb]
  simp only [Except.bind, require, h.unpaused, h.pending, h.unexpired, hchannel, hhalted, if_true]

/-- The payments of a settlement within the escrow go through. -/
theorem Settleable.pays (h : Settleable cluster clock bank key circuitBreaker state i)
    (inv : Escrowed cluster bank) (supply : bank.total < 2 ^ 64) (hle : s ≤ i.amount)
    (data : AccountData) :
    ∃ bank', (((bank.setData key data).debit key s.toNat
        (.maat .InsufficientFunds)).bind fun bank =>
      (bank.credit i.destination s.toNat (.maat .Overflow)).bind fun bank =>
      if 0 < i.amount.toNat - s.toNat then
        (bank.debit key (i.amount.toNat - s.toNat) (.maat .InsufficientFunds)).bind fun bank =>
        bank.credit i.owner (i.amount.toNat - s.toNat) (.maat .Overflow)
      else .ok bank) = .ok bank' := by
  have hs : s.toNat ≤ i.amount.toNat := UInt64.le_iff_toNat_le.mp hle
  have hescrow : i.amount.toNat ≤ bank.lamports key :=
    inv.amount_le (intent_ok.mp h.found).1 h.pending
  have hsupply : (bank.setData key data).total < 2 ^ 64 := supply
  obtain ⟨paid, hpaid⟩ := pay_goes_through hsupply (hs.trans hescrow)
    i.destination (.maat .InsufficientFunds) (.maat .Overflow)
  obtain ⟨mid, hdebit, hcredit⟩ := bind_eq_ok.mp hpaid
  have hmoves := (pay_ok hdebit hcredit).1
  rw [hdebit]
  show ∃ bank', ((mid.credit i.destination s.toNat (.maat .Overflow)).bind fun bank => _) = _
  rw [hcredit]
  show ∃ bank', (if 0 < i.amount.toNat - s.toNat then _ else Except.ok paid) = .ok bank'
  split
  · have hdebited := hmoves.debited
    change bank.lamports key ≤ _ at hdebited
    apply pay_goes_through
    · rw [hmoves.total]
      exact supply
    · omega
  · exact ⟨paid, rfl⟩

/-- Which amounts are accepted, by the deduction as it is cut. -/
theorem Settleable.accepts_iff (h : Settleable cluster clock bank key circuitBreaker state i)
    (inv : Escrowed cluster bank) (supply : bank.total < 2 ^ 64) :
    (∃ bank', Solana.receive_settlement cluster clock key circuitBreaker state.orchestrator
        i.destination i.owner zk_proof_hash s bank = .ok bank') ↔
      slippage_deduction i.amount i.slippage_bps ≤ i.amount.toNat ∧
        i.amount.toNat - slippage_deduction i.amount i.slippage_bps ≤ s.toNat ∧ s ≤ i.amount := by
  rw [h.receive_settlement]
  constructor
  · rintro ⟨bank', hok⟩
    obtain ⟨_, hdeduction, hok⟩ := bind_eq_ok.mp hok
    obtain ⟨_, hfloor, hok⟩ := bind_eq_ok.mp hok
    obtain ⟨_, hceiling, -⟩ := bind_eq_ok.mp hok
    exact ⟨require_eq_ok.mp hdeduction, require_eq_ok.mp hfloor, require_eq_ok.mp hceiling⟩
  · rintro ⟨hdeduction, hfloor, hceiling⟩
    simp only [require, if_pos hdeduction, if_pos hfloor, if_pos hceiling]
    exact h.pays inv supply hceiling _

/-- An overflow is raised exactly where the deduction as it is cut exceeds the amount. -/
theorem Settleable.overflows_iff (h : Settleable cluster clock bank key circuitBreaker state i)
    (inv : Escrowed cluster bank) (supply : bank.total < 2 ^ 64) :
    Solana.receive_settlement cluster clock key circuitBreaker state.orchestrator
        i.destination i.owner zk_proof_hash s bank = .error (.maat .Overflow) ↔
      ¬ slippage_deduction i.amount i.slippage_bps ≤ i.amount.toNat := by
  rw [h.receive_settlement]
  constructor
  · intro herror hdeduction
    obtain herror | ⟨_, _, herror⟩ := bind_eq_error.mp herror
    · exact (require_eq_error.mp herror).1 hdeduction
    obtain herror | ⟨_, _, herror⟩ := bind_eq_error.mp herror
    · cases (require_eq_error.mp herror).2
    obtain herror | ⟨_, hceiling, herror⟩ := bind_eq_error.mp herror
    · cases (require_eq_error.mp herror).2
    obtain ⟨bank', hok⟩ := h.pays inv supply (require_eq_ok.mp hceiling) _
    cases herror.symm.trans hok
  · intro hdeduction
    unfold require
    rw [if_neg hdeduction]
    rfl

end Settleable

/-- All lamports there are stay. -/
theorem run_total {events : List (Int × Instruction)}
    (h : Run.run (step cluster) bank events = some bank') : bank'.total = bank.total := by
  apply Run.run_relates (I := fun _ => True) (R := fun before after : Bank =>
    after.total = before.total) (fun _ => rfl) (fun _ _ _ h h' => h'.trans h) _ h trivial
  intro before event after _ hstep
  exact ⟨trivial, (execute_effect (step_eq_some.mp hstep)).2⟩

/-- An intent that was submitted is, while it is pending, as it was submitted. -/
theorem pending_of_submitted {owner destination : Pubkey} {amount source_chain_id : UInt64}
    {expiry submittedAt : Int} {slippage_bps : UInt16} {submitted : Bank} {state : ProgramState}
    {more : List (Int × Instruction)} {i : Intent}
    (hstate : bank.data (cluster.address .program_state) = .programState state)
    (hstep : step cluster bank (submittedAt, .submit_intent owner amount destination expiry
      slippage_bps source_chain_id) = some submitted)
    (hmore : Run.run (step cluster) submitted more = some bank')
    (found : bank'.data (cluster.address (.intent owner state.intent_nonce)) = .intent i)
    (pending : i.status = .Pending) :
    i.owner = owner ∧ i.amount = amount ∧ i.destination = destination ∧
      i.slippage_bps = slippage_bps := by
  obtain ⟨state', hstate', hfresh, -, -, hdata, -⟩ := submit_intent_ok (step_eq_some.mp hstep)
  rw [hstate] at hstate'
  cases hstate'
  have hne := ne_program_state hstate hfresh
  have hcreated : submitted.data (cluster.address (.intent owner state.intent_nonce)) = .intent
      { owner, amount, destination, expiry, slippage_bps, source_chain_id, status := .Pending,
        zk_proof_hash := 0, created_at := submittedAt, settled_at := 0, settled_amount := 0,
        nonce := state.intent_nonce } := by
    rw [hdata, Function.update_of_ne hne, Function.update_self]
  obtain ⟨i', hi', hevolves⟩ := run_later hmore _ _ hcreated
  rw [found] at hi'
  cases hi'
  cases hevolves with
  | stays => exact ⟨rfl, rfl, rfl, rfl⟩
  | settles _ _ _ _ _ => cases pending
  | expires _ => cases pending

/-- A submitted intent settles for exactly the amounts between its slippage floor and its escrow,
without an overflow and with nothing lost in the cut to 64 bits, if and only if its deduction is
at most its amount. -/
theorem settlement_bounds_iff (cluster : Cluster) (start bank submitted later : Bank)
    (events more : List (Int × Instruction)) (fresh : start.Fresh) (supply : start.total < 2 ^ 64)
    (reached : Run.run (step cluster) start events = some bank)
    (owner destination : Pubkey) (amount source_chain_id : UInt64) (expiry submittedAt : Int)
    (slippage_bps : UInt16) (before : ProgramState)
    (hbefore : bank.data (cluster.address .program_state) = .programState before)
    (hsubmit : step cluster bank (submittedAt, .submit_intent owner amount destination expiry
      slippage_bps source_chain_id) = some submitted)
    (hmore : Run.run (step cluster) submitted more = some later)
    (clock : Int) (circuitBreaker : Pubkey) (state : ProgramState) (i : Intent)
    (h : Settleable cluster clock later (cluster.address (.intent owner before.intent_nonce))
      circuitBreaker state i) :
    let settle := fun zk_proof_hash s => receive_settlement cluster clock
      (cluster.address (.intent owner before.intent_nonce)) circuitBreaker state.orchestrator
      destination owner zk_proof_hash s later
    ((∀ zk_proof_hash s, (∃ after, settle zk_proof_hash s = .ok after) ↔
          (amount.toNat : Int) - deduction amount slippage_bps ≤ s.toNat ∧ s ≤ amount) ∧
        (∀ zk_proof_hash s, settle zk_proof_hash s ≠ .error (.maat .Overflow)) ∧
        slippage_deduction amount slippage_bps = deduction amount slippage_bps ∧
        ∀ zk_proof_hash, ∃ after, settle zk_proof_hash amount = .ok after) ↔
      deduction amount slippage_bps ≤ amount.toNat := by
  intro settle
  have hrun : Run.run (step cluster) start (events ++ (submittedAt, .submit_intent owner amount
      destination expiry slippage_bps source_chain_id) :: more) = some later :=
    Run.run_append.mpr ⟨bank, reached, Run.run_cons_eq_some.mpr ⟨submitted, hsubmit, hmore⟩⟩
  have inv := run_escrowed fresh hrun
  have htotal : later.total < 2 ^ 64 := by
    rw [run_total hrun]
    exact supply
  obtain ⟨rfl, rfl, rfl, rfl⟩ := pending_of_submitted hbefore hsubmit hmore
    (intent_ok.mp h.found).1 h.pending
  have haccepts : ∀ zk_proof_hash s, (∃ after, settle zk_proof_hash s = .ok after) ↔ _ :=
    fun zk_proof_hash s => h.accepts_iff inv htotal
  have hoverflows : ∀ zk_proof_hash s, settle zk_proof_hash s = .error (.maat .Overflow) ↔ _ :=
    fun zk_proof_hash s => h.overflows_iff inv htotal
  constructor
  · rintro ⟨-, hnone, hcut, -⟩
    rw [← hcut]
    by_contra hlarge
    exact hnone 0 0 ((hoverflows 0 0).mpr hlarge)
  · intro hsmall
    have hcut : slippage_deduction i.amount i.slippage_bps = deduction i.amount i.slippage_bps :=
      Nat.mod_eq_of_lt (hsmall.trans_lt i.amount.toNat_lt)
    have hfloor : ∀ s : UInt64, (slippage_deduction i.amount i.slippage_bps ≤ i.amount.toNat ∧
        i.amount.toNat - slippage_deduction i.amount i.slippage_bps ≤ s.toNat ∧ s ≤ i.amount) ↔
        (i.amount.toNat : Int) - deduction i.amount i.slippage_bps ≤ s.toNat ∧ s ≤ i.amount := by
      intro s
      rw [hcut, UInt64.le_iff_toNat_le]
      omega
    refine ⟨fun zk_proof_hash s => (haccepts zk_proof_hash s).trans (hfloor s), ?_, hcut, ?_⟩
    · intro zk_proof_hash s hoverflow
      rw [hoverflows, hcut] at hoverflow
      exact hoverflow hsmall
    · intro zk_proof_hash
      rw [haccepts, hfloor]
      exact ⟨by omega, UInt64.le_refl _⟩

/-- Account 5 runs the program, with channel 7 open. -/
def sampleOpened : List (Int × Instruction) :=
  [(10, .initialize_program 5 5 5), (11, .set_circuit_breaker 5 7 false)]

/-- Account 6 escrows 1000 lamports for account 8. -/
def sampleSubmit (slippage_bps : UInt16) : Int × Instruction :=
  (12, .submit_intent 6 1000 8 100 slippage_bps 7)

def sampleKey : Pubkey := sampleCluster.address (.intent 6 0)

def sampleState : ProgramState := ⟨5, 5, false, 1⟩

def sampleIntent (slippage_bps : UInt16) : Intent :=
  { owner := 6, amount := 1000, destination := 8, expiry := 100, slippage_bps,
    source_chain_id := 7, status := .Pending, zk_proof_hash := 0, created_at := 12,
    settled_at := 0, settled_amount := 0, nonce := 0 }

theorem sampleStart_supply : sampleStart.total < 2 ^ 64 := by
  have hsum : sampleStart.total = ∑ key ∈ ({5, 6} : Finset Pubkey), 10000000000 := by
    unfold Bank.total sampleStart
    rw [← Finset.sum_filter]
    apply Finset.sum_congr _ fun _ _ => rfl
    ext key
    simp
  rw [hsum]
  decide

/-- Where a submission leads, by what its accounts hold. -/
theorem sampleSubmit_settleable {slippage_bps : UInt16} {bank later : Bank}
    (hbank : (Run.run (step sampleCluster) sampleStart sampleOpened).map
      (fun bank => (step sampleCluster bank (sampleSubmit slippage_bps)).map fun later =>
        (later.program_state sampleCluster, later.intent sampleCluster sampleKey,
          later.circuit_breaker sampleCluster (sampleCluster.address (.cb 7)))) =
      some (some (.ok sampleState, .ok (sampleIntent slippage_bps), .ok ⟨7, false, 5⟩)))
    (hrun : Run.run (step sampleCluster) sampleStart sampleOpened = some bank)
    (hstep : step sampleCluster bank (sampleSubmit slippage_bps) = some later) :
    Settleable sampleCluster 14 later sampleKey (sampleCluster.address (.cb 7)) sampleState
      (sampleIntent slippage_bps) := by
  rw [hrun, Option.map_some, hstep, Option.map_some, Option.some.injEq, Option.some.injEq] at hbank
  obtain ⟨hprogram, hfound, hbreaker⟩ := Prod.mk.inj hbank |>.imp_right Prod.mk.inj
  have hclock : (14 : Int) < 100 := by decide
  exact ⟨hprogram, rfl, hfound, rfl, hclock, _, hbreaker, rfl, rfl⟩

theorem settlement_bounds_sample :
    ∃ later after, receive_settlement sampleCluster 14 sampleKey (sampleCluster.address (.cb 7)) 5
      8 6 0 1000 later = .ok after := by
  have hsome : ((Run.run (step sampleCluster) sampleStart sampleOpened).bind fun bank =>
      step sampleCluster bank (sampleSubmit 50)).isSome = true := by decide
  obtain ⟨later, hlater⟩ := Option.isSome_iff_exists.mp hsome
  obtain ⟨bank, hrun, hstep⟩ := Option.bind_eq_some_iff.mp hlater
  have hstate : bank.data (sampleCluster.address .program_state) =
      .programState ⟨5, 5, false, 0⟩ := by
    have hread : (Run.run (step sampleCluster) sampleStart sampleOpened).map (fun bank =>
        bank.data (sampleCluster.address .program_state)) =
        some (.programState ⟨5, 5, false, 0⟩) := by decide
    rw [hrun] at hread
    exact Option.some.inj hread
  have hbounds := (settlement_bounds_iff sampleCluster sampleStart bank later later sampleOpened []
    sampleStart_fresh sampleStart_supply hrun 6 8 1000 7 100 12 50 _ hstate hstep rfl 14
    (sampleCluster.address (.cb 7)) sampleState (sampleIntent 50)
    (sampleSubmit_settleable (by decide) hrun hstep)).mpr (by decide)
  exact ⟨later, hbounds.2.2.2 0⟩

/-- A slippage of 200 percent is accepted, and then no amount can be settled. -/
theorem full_amount_overflows :
    ∃ bank later, Run.run (step sampleCluster) sampleStart sampleOpened = some bank ∧
      step sampleCluster bank (sampleSubmit 20000) = some later ∧
      Settleable sampleCluster 14 later sampleKey (sampleCluster.address (.cb 7)) sampleState
        (sampleIntent 20000) ∧
      receive_settlement sampleCluster 14 sampleKey (sampleCluster.address (.cb 7)) 5 8 6 0 1000
        later = .error (.maat .Overflow) := by
  have hsome : ((Run.run (step sampleCluster) sampleStart sampleOpened).bind fun bank =>
      step sampleCluster bank (sampleSubmit 20000)).isSome = true := by decide
  obtain ⟨later, hlater⟩ := Option.isSome_iff_exists.mp hsome
  obtain ⟨bank, hrun, hstep⟩ := Option.bind_eq_some_iff.mp hlater
  have hsettleable := sampleSubmit_settleable (by decide) hrun hstep
  refine ⟨bank, later, hrun, hstep, hsettleable, ?_⟩
  have hsettle := hsettleable.receive_settlement 0 1000
  exact hsettle

/-! ## What a settlement and a cancellation pay -/

/-- The intent is closed, each account ends with what its roles add up to, and the escrow has left
the intent's account. `payees` are credited with their parts of the amount. -/
structure PaidOut (bank bank' : Bank) (key : Pubkey) (i i' : Intent)
    (payees : List (Pubkey × Nat)) : Prop where
  data : bank'.data = Function.update bank.data key (.intent i')
  closed : i'.status ≠ .Pending
  roles : ∀ k, bank'.lamports k + (if k = key then i.amount.toNat else 0) =
    bank.lamports k + ((payees.filter fun p => decide (p.1 = k)).map Prod.snd).sum
  emptied : bank'.lamports key + i.amount.toNat = bank.lamports key

/-- What the roles add up to leaves no escrow if and only if nothing is paid back into it. -/
theorem paidOut_iff {i i' : Intent} {payees : List (Pubkey × Nat)}
    (hdata : bank'.data = Function.update bank.data key (.intent i')) (hclosed : i'.status ≠ .Pending)
    (hroles : ∀ k, bank'.lamports k + (if k = key then i.amount.toNat else 0) =
      bank.lamports k + ((payees.filter fun p => decide (p.1 = k)).map Prod.snd).sum) :
    PaidOut bank bank' key i i' payees ↔ ∀ p ∈ payees, p.1 = key → p.2 = 0 := by
  have hkey := hroles key
  rw [if_pos rfl] at hkey
  have hnone : ((payees.filter fun p => decide (p.1 = key)).map Prod.snd).sum = 0 ↔
      ∀ p ∈ payees, p.1 = key → p.2 = 0 := by
    rw [List.sum_eq_zero_iff]
    simp only [List.mem_map, List.mem_filter, decide_eq_true_eq]
    constructor
    · intro h p hp hpk
      exact h p.2 ⟨p, ⟨hp, hpk⟩, rfl⟩
    · rintro h _ ⟨p, ⟨hp, hpk⟩, rfl⟩
      exact h p hp hpk
  rw [← hnone]
  constructor
  · intro h
    have hemptied := h.emptied
    omega
  · intro h
    exact ⟨hdata, hclosed, hroles, by omega⟩

theorem receive_settlement_roles {circuitBreaker orchestrator destination owner : Pubkey}
    {zk_proof_hash : Fin (2 ^ 256)} {s : UInt64}
    (h : receive_settlement cluster clock key circuitBreaker orchestrator destination owner
      zk_proof_hash s bank = .ok bank') :
    ∃ i, bank.data key = .intent i ∧ s ≤ i.amount ∧
      bank'.data = Function.update bank.data key (.intent { i with
        status := .Settled, settled_at := clock, zk_proof_hash, settled_amount := s }) ∧
      ∀ k, bank'.lamports k + (if k = key then i.amount.toNat else 0) =
        bank.lamports k + (if k = destination then s.toNat else 0) +
          (if k = owner then i.amount.toNat - s.toNat else 0) := by
  obtain ⟨i, hsettles⟩ := receive_settlement_eq_ok h
  obtain ⟨debited, credited, hdebit, hcredit, hrest⟩ := hsettles.paid
  have hle : s.toNat ≤ i.amount.toNat := UInt64.le_iff_toNat_le.mp hsettles.ceiling
  have hpaid := lamports_pay hdebit hcredit
  have hpayData := (pay_ok hdebit hcredit).1.data
  refine ⟨i, (intent_ok.mp hsettles.found).1, hsettles.ceiling, ?_⟩
  rcases hrest with ⟨refunded, hdebit', hcredit'⟩ | ⟨hnone, rfl⟩
  · have hrefunded := lamports_pay hdebit' hcredit'
    refine ⟨(pay_ok hdebit' hcredit').1.data.trans hpayData, ?_⟩
    intro k
    have hfirst := hpaid k
    have hsecond := hrefunded k
    change _ = bank.lamports k + _ at hfirst
    by_cases hk : k = key
    · rw [if_pos hk] at hfirst hsecond ⊢
      omega
    · rw [if_neg hk] at hfirst hsecond ⊢
      omega
  · refine ⟨hpayData, ?_⟩
    intro k
    have hfirst := hpaid k
    change _ = bank.lamports k + _ at hfirst
    have hall : i.amount.toNat = s.toNat := by omega
    rw [hall, Nat.sub_self, ite_self, Nat.add_zero]
    exact hfirst

theorem cancel_intent_roles {owner : Pubkey}
    (h : cancel_intent cluster clock key owner bank = .ok bank') :
    ∃ i, bank.data key = .intent i ∧
      bank'.data = Function.update bank.data key (.intent { i with status := .Expired }) ∧
      ∀ k, bank'.lamports k + (if k = key then i.amount.toNat else 0) =
        bank.lamports k + (if k = owner then i.amount.toNat else 0) := by
  obtain ⟨-, i, debited, -, hintent, -, -, -, hdebit, hcredit⟩ := cancel_intent_eq_ok h
  have hpaid := lamports_pay hdebit hcredit
  exact ⟨i, (intent_ok.mp hintent).1, (pay_ok hdebit hcredit).1.data, hpaid⟩

/-- A successful settlement or cancellation pays every role what it is due and leaves no escrow
behind, if and only if what it pays back into the intent's own account is nothing. -/
theorem payout_iff (cluster : Cluster) (bank bank' : Bank) (clock : Int) (key : Pubkey) :
    (∀ circuitBreaker orchestrator destination owner zk_proof_hash s,
      receive_settlement cluster clock key circuitBreaker orchestrator destination owner
          zk_proof_hash s bank = .ok bank' →
        ∃ i, bank.data key = .intent i ∧
          (PaidOut bank bank' key i { i with
              status := .Settled, settled_at := clock, zk_proof_hash, settled_amount := s }
              [(destination, s.toNat), (owner, i.amount.toNat - s.toNat)] ↔
            (destination = key → s.toNat = 0) ∧
              (owner = key → i.amount.toNat - s.toNat = 0))) ∧
      ∀ owner, cancel_intent cluster clock key owner bank = .ok bank' →
        ∃ i, bank.data key = .intent i ∧
          (PaidOut bank bank' key i { i with status := .Expired } [(owner, i.amount.toNat)] ↔
            (owner = key → i.amount.toNat = 0)) := by
  have hone : ∀ (k a : Pubkey) (m : Nat) (rest : List (Pubkey × Nat)),
      ((((a, m) :: rest).filter fun p => decide (p.1 = k)).map Prod.snd).sum =
        (if k = a then m else 0) + ((rest.filter fun p => decide (p.1 = k)).map Prod.snd).sum := by
    intro k a m rest
    by_cases hk : a = k
    · rw [List.filter_cons_of_pos (by simpa using hk), if_pos hk.symm, List.map_cons, List.sum_cons]
    · rw [List.filter_cons_of_neg (by simpa using hk), if_neg (Ne.symm hk), Nat.zero_add]
  constructor
  · intro circuitBreaker orchestrator destination owner zk_proof_hash s h
    obtain ⟨i, hfound, -, hdata, hroles⟩ := receive_settlement_roles h
    refine ⟨i, hfound, ?_⟩
    rw [paidOut_iff hdata nofun]
    · simp
    · intro k
      rw [hone, hone, hroles, List.filter_nil, List.map_nil, List.sum_nil, Nat.add_zero,
        Nat.add_assoc]
  · intro owner h
    obtain ⟨i, hfound, hdata, hroles⟩ := cancel_intent_roles h
    refine ⟨i, hfound, ?_⟩
    rw [paidOut_iff hdata nofun]
    · simp
    · intro k
      rw [hone, hroles, List.filter_nil, List.map_nil, List.sum_nil, Nat.add_zero]

/-- Account 6 escrows 1000 lamports, of which 996 are settled to `destination`. -/
def samplePayout (destination : Pubkey) : List (Int × Instruction) :=
  sampleOpened ++ [(12, .submit_intent 6 1000 destination 100 50 7)]

theorem payout_sample :
    ∃ bank bank', Run.run (step sampleCluster) sampleStart (samplePayout 8) = some bank ∧
      receive_settlement sampleCluster 14 sampleKey (sampleCluster.address (.cb 7)) 5 8 6 0 996
        bank = .ok bank' ∧
      ∃ i i', PaidOut bank bank' sampleKey i i' [(8, 996), (6, i.amount.toNat - 996)] := by
  have hsome : ((Run.run (step sampleCluster) sampleStart (samplePayout 8)).bind fun bank =>
      (receive_settlement sampleCluster 14 sampleKey (sampleCluster.address (.cb 7)) 5 8 6 0 996
        bank).toOption).isSome = true := by decide
  obtain ⟨bank', hafter⟩ := Option.isSome_iff_exists.mp hsome
  obtain ⟨bank, hrun, hsettle⟩ := Option.bind_eq_some_iff.mp hafter
  have hsettle := toOption_eq_some.mp hsettle
  obtain ⟨i, -, hpaid⟩ := (payout_iff sampleCluster bank bank' 14 sampleKey).1
    (sampleCluster.address (.cb 7)) 5 8 6 0 996 hsettle
  refine ⟨bank, bank', hrun, hsettle, i, _, hpaid.mpr ⟨?_, ?_⟩⟩
  · intro hkey
    exact absurd hkey (by decide)
  · intro hkey
    exact absurd hkey (by decide)

/-- An intent whose destination is its own account: the settlement leaves what it paid there, in an
intent that is settled. -/
theorem escrow_left_in_settled_intent :
    ∃ bank bank' i', Run.run (step sampleCluster) sampleStart (samplePayout sampleKey) = some bank ∧
      receive_settlement sampleCluster 14 sampleKey (sampleCluster.address (.cb 7)) 5 sampleKey 6 0
        996 bank = .ok bank' ∧
      bank'.data sampleKey = .intent i' ∧ i'.status = .Settled ∧ i'.amount = 1000 ∧
      bank.lamports sampleKey = sampleCluster.intentRent + 1000 ∧
      bank'.lamports sampleKey = sampleCluster.intentRent + 996 := by
  have hread : (Run.run (step sampleCluster) sampleStart (samplePayout sampleKey)).bind
      (fun bank => (receive_settlement sampleCluster 14 sampleKey (sampleCluster.address (.cb 7)) 5
        sampleKey 6 0 996 bank).toOption.map fun bank' =>
          (bank.lamports sampleKey, bank'.lamports sampleKey, bank'.data sampleKey)) =
      some (sampleCluster.intentRent + 1000, sampleCluster.intentRent + 996, .intent
        { owner := 6, amount := 1000, destination := sampleKey, expiry := 100, slippage_bps := 50,
          source_chain_id := 7, status := .Settled, zk_proof_hash := 0, created_at := 12,
          settled_at := 14, settled_amount := 996, nonce := 0 }) := by decide
  obtain ⟨bank, hrun, hread⟩ := Option.bind_eq_some_iff.mp hread
  obtain ⟨bank', hsettle, hread⟩ := Option.map_eq_some_iff.mp hread
  obtain ⟨hbefore, hread⟩ := Prod.mk.inj hread
  obtain ⟨hafter, hdata⟩ := Prod.mk.inj hread
  exact ⟨bank, bank', _, hrun, toOption_eq_some.mp hsettle, hdata, rfl, rfl, hbefore, hafter⟩

end Maat.Solana
