import Maat.Laws.Solana.Escrow
import Maat.Solana.SettleIntent

/-!
# Which account the settlement names

The nonce of the program counts the submissions of everyone. The second read of the script sees
all of them, so it names the script's own account only while nobody else submitted.
-/

namespace Maat.Solana

open Checks

variable {cluster : Cluster} {bank bank' : Bank} {state : ProgramState} {key : Pubkey}

/-- A submission, by whomever. -/
def Instruction.isSubmit : Instruction → Bool
  | .submit_intent .. => true
  | _ => false

/-! ## The nonce -/

/-- Writing an account that holds something else leaves the program's state. -/
theorem update_state {data held : AccountData} (hheld : bank.data key = held)
    (hstate : bank.data (cluster.address .program_state) = .programState state)
    (hne : held ≠ .programState state) :
    Function.update bank.data key data (cluster.address .program_state) = .programState state := by
  rw [Function.update_of_ne _ _ _, hstate]
  intro heq
  rw [heq, hheld] at hstate
  exact hne hstate

theorem setPaused_nonce {paused : Bool} {admin : Pubkey}
    (h : setPaused cluster paused admin bank = .ok bank')
    (hstate : bank.data (cluster.address .program_state) = .programState state) :
    ∃ state', bank'.data (cluster.address .program_state) = .programState state' ∧
      state'.intent_nonce.toNat = state.intent_nonce.toNat + 0 := by
  unfold setPaused at h
  obtain ⟨state', hstate', h⟩ := bind_eq_ok.mp h
  obtain ⟨_, _, h⟩ := bind_eq_ok.mp h
  cases h
  have hsame := program_state_ok.mp hstate'
  rw [hstate] at hsame
  cases hsame
  exact ⟨_, Function.update_self .., rfl⟩

/-- A submission adds one to the nonce, and nothing else changes it. -/
theorem step_nonce {event : Int × Instruction} (h : step cluster bank event = some bank')
    (hstate : bank.data (cluster.address .program_state) = .programState state) :
    ∃ state', bank'.data (cluster.address .program_state) = .programState state' ∧
      state'.intent_nonce.toNat = state.intent_nonce.toNat + event.2.isSubmit.toNat := by
  have hok := step_eq_some.mp h
  obtain ⟨clock, instruction⟩ := event
  cases instruction with
  | initialize_program deployer admin orchestrator =>
    have hfresh := (init_ok hok).1
    rw [hstate] at hfresh
    cases hfresh
  | submit_intent owner amount destination expiry slippage_bps source_chain_id =>
    obtain ⟨state', hstate', -, hroom, -, hdata, -⟩ := submit_intent_ok hok
    rw [hstate] at hstate'
    cases hstate'
    rw [hdata, Function.update_self]
    refine ⟨_, rfl, ?_⟩
    show (state.intent_nonce + 1).toNat = _
    rw [UInt64.toNat_add, Nat.mod_eq_of_lt]
    · rfl
    · exact hroom
  | receive_settlement intent circuitBreaker orchestrator destination owner hash amount =>
    obtain ⟨i, i', hcloses, -⟩ := receive_settlement_closes hok
    refine ⟨state, ?_, rfl⟩
    rw [hcloses.left]
    exact update_state hcloses.found hstate (fun h => by cases h)
  | cancel_intent intent owner =>
    obtain ⟨i, i', hcloses, -⟩ := cancel_intent_closes hok
    refine ⟨state, ?_, rfl⟩
    rw [hcloses.left]
    exact update_state hcloses.found hstate (fun h => by cases h)
  | set_circuit_breaker admin channel_id halted =>
    unfold execute set_circuit_breaker at hok
    obtain ⟨_, _, hok⟩ := bind_eq_ok.mp hok
    obtain ⟨written, hwritten, hok⟩ := bind_eq_ok.mp hok
    obtain ⟨_, _, hok⟩ := bind_eq_ok.mp hok
    cases hok
    refine ⟨state, ?_, rfl⟩
    split at hwritten
    · next hsystem =>
      rw [(init_ok hwritten).2.1]
      exact update_state hsystem hstate (fun h => by cases h)
    · next cb hcb =>
      cases hwritten
      exact update_state hcb hstate (fun h => by cases h)
    · cases hwritten
  | pause admin => exact setPaused_nonce hok hstate
  | unpause admin => exact setPaused_nonce hok hstate
  | transfer source target amount =>
    refine ⟨state, ?_, rfl⟩
    rw [(transfer_ok hok).2.1.data, hstate]

theorem run_nonce {events : List (Int × Instruction)}
    (h : Run.run (step cluster) bank events = some bank')
    (hstate : bank.data (cluster.address .program_state) = .programState state) :
    ∃ state', bank'.data (cluster.address .program_state) = .programState state' ∧
      state'.intent_nonce.toNat =
        state.intent_nonce.toNat + events.countP fun event => event.2.isSubmit := by
  induction events generalizing bank state with
  | nil =>
    cases h
    exact ⟨state, hstate, rfl⟩
  | cons event events ih =>
    obtain ⟨mid, hstep, hrun⟩ := Run.run_cons_eq_some.mp h
    obtain ⟨state', hstate', hnonce⟩ := step_nonce hstep hstate
    obtain ⟨state'', hstate'', hnonce'⟩ := ih hrun hstate'
    refine ⟨state'', hstate'', ?_⟩
    rw [hnonce', hnonce, List.countP_cons]
    cases event.2.isSubmit
    · simp
    · simp
      omega

/-! ## The script -/

theorem Evolves.same {i i' : Intent} (h : Evolves i i') :
    i'.owner = i.owner ∧ i'.amount = i.amount ∧ i'.destination = i.destination := by
  cases h <;> exact ⟨rfl, rfl, rfl⟩

/-- What the script's own submission leaves: its intent in the account it named, which is the one
of the nonce then, and the next nonce. -/
theorem submitIntentTx_ok {hotWallet destination : Pubkey} {amount : UInt64} {clock expiry : Int}
    (h : submitIntentTx cluster clock key hotWallet amount destination expiry bank = .ok bank') :
    ∃ state state' : ProgramState, key = cluster.address (.intent hotWallet state.intent_nonce) ∧
      bank'.data (cluster.address .program_state) = .programState state' ∧
      state'.intent_nonce.toNat = state.intent_nonce.toNat + 1 ∧
      ∃ i, bank'.data key = .intent i ∧ i.owner = hotWallet ∧ i.amount = amount ∧
        i.destination = destination := by
  unfold submitIntentTx at h
  obtain ⟨state, hstate, h⟩ := bind_eq_ok.mp h
  obtain ⟨_, hkey, h⟩ := bind_eq_ok.mp h
  have hstate := program_state_ok.mp hstate
  have hkey := require_eq_ok.mp hkey
  have hstep : step cluster bank (clock, .submit_intent hotWallet amount destination expiry 50
      421614) = some bank' := step_eq_some.mpr h
  obtain ⟨state', hstate', hnonce⟩ := step_nonce hstep hstate
  refine ⟨state, state', hkey, hstate', hnonce, ?_⟩
  obtain ⟨found, hfound, hfresh, -, -, hdata, -⟩ := submit_intent_ok h
  rw [hstate] at hfound
  cases hfound
  have hne : key ≠ cluster.address .program_state := by
    intro heq
    rw [← hkey, heq, hstate] at hfresh
    cases hfresh
  rw [hdata, Function.update_of_ne hne, ← hkey, Function.update_self]
  exact ⟨_, rfl, rfl, rfl, rfl⟩

/-- The settlement names the account of the script's own submission exactly when no submission
succeeded between that and the second read of the nonce. -/
theorem settled_account_iff (cluster : Cluster) (hotWallet destination : Pubkey) (amount : UInt64)
    (nowSec clock : Int) (before between : List (Int × Instruction)) (bank : Bank)
    (settlement : Settlement)
    (distinct : Function.Injective fun nonce => cluster.address (.intent hotWallet nonce))
    (h : runSettlement cluster hotWallet destination amount nowSec clock before between bank =
      some settlement) :
    (∃ i, settlement.bank.data settlement.intentPda = .intent i ∧ i.owner = hotWallet ∧
        i.amount = amount ∧ i.destination = destination) ∧
      (settlement.settledIntentPda = settlement.intentPda ↔
        ∀ event ∈ between, event.2.isSubmit = false) := by
  unfold runSettlement at h
  obtain ⟨first, hfirst, h⟩ := Option.bind_eq_some_iff.mp h
  obtain ⟨found, hbefore, h⟩ := Option.bind_eq_some_iff.mp h
  obtain ⟨submitted, hsubmitted, h⟩ := Option.bind_eq_some_iff.mp h
  obtain ⟨later, hbetween, h⟩ := Option.bind_eq_some_iff.mp h
  obtain ⟨after, hafter, h⟩ := Option.bind_eq_some_iff.mp h
  obtain ⟨_, hpositive, h⟩ := Option.bind_eq_some_iff.mp h
  cases h
  obtain ⟨atSubmit, afterSubmit, hkey, hstate, hnonce, i, hcreated, howner, hamount, hdest⟩ :=
    submitIntentTx_ok (toOption_eq_some.mp hsubmitted)
  obtain ⟨atEnd, hend, hcount⟩ := run_nonce hbetween hstate
  have hafter := program_state_ok.mp (toOption_eq_some.mp hafter)
  rw [hend] at hafter
  cases hafter
  constructor
  · obtain ⟨i', hi', hevolves⟩ := run_later hbetween _ i hcreated
    obtain ⟨howner', hamount', hdest'⟩ := hevolves.same
    exact ⟨i', hi', howner'.trans howner, hamount'.trans hamount, hdest'.trans hdest⟩
  · have hfirst : first.intent_nonce = atSubmit.intent_nonce := distinct hkey
    have hused : (after.intent_nonce - 1).toNat = first.intent_nonce.toNat +
        between.countP fun event => event.2.isSubmit := by
      rw [UInt64.toNat_sub_of_le _ _ (UInt64.le_iff_toNat_le.mpr _)]
      · rw [hcount, hnonce, hfirst]
        show _ - 1 = _
        omega
      · show 1 ≤ _
        omega
    rw [distinct.eq_iff (a := after.intent_nonce - 1) (b := first.intent_nonce),
      ← UInt64.toNat_inj, hused, Nat.add_eq_left, List.countP_eq_zero]
    simp only [Bool.not_eq_true]

/-! ### Account 5 as the hot wallet -/

/-- The program is set up, with nonce 0. -/
def sampleSetup : List (Int × Instruction) :=
  [(10, .initialize_program 5 5 5), (11, .set_circuit_breaker 5 421614 false)]

/-- The script run on the set-up chain, with these events between its submission and its second
read. -/
def sampleScript (between : List (Int × Instruction)) : Option Settlement :=
  (Run.run (step sampleCluster) sampleStart sampleSetup).bind
    (runSettlement sampleCluster 5 6 1000 12 12 [] between)

theorem sampleCluster_distinct :
    Function.Injective fun nonce => sampleCluster.address (.intent 5 nonce) := by
  intro m n h
  have hval := congrArg Fin.val h
  change (2 ^ 128 * (5 + 1) + m.toNat) % 2 ^ 256 = (2 ^ 128 * (5 + 1) + n.toNat) % 2 ^ 256 at hval
  have hm := m.toNat_lt
  have hn := n.toNat_lt
  apply UInt64.toNat_inj.mp
  omega

/-- With a pause between and no submission, the script settles its own account. -/
theorem settled_account_sample :
    ∃ settlement, sampleScript [(13, .pause 5), (13, .unpause 5)] = some settlement ∧
      settlement.settledIntentPda = settlement.intentPda := by
  have hsome : (sampleScript [(13, .pause 5), (13, .unpause 5)]).isSome = true := by
    decide
  obtain ⟨settlement, h⟩ := Option.isSome_iff_exists.mp hsome
  obtain ⟨bank, _, hrun⟩ := Option.bind_eq_some_iff.mp h
  refine ⟨settlement, h, ?_⟩
  exact (settled_account_iff sampleCluster 5 6 1000 12 12 [] [(13, .pause 5), (13, .unpause 5)] bank
    settlement sampleCluster_distinct hrun).2.mpr (by decide)

/-- Account 6 submits an intent of its own between: the script's submission succeeded, and its
settlement names an account that does not exist. -/
theorem submission_misleads_settlement :
    (sampleScript [(13, .submit_intent 6 1 6 100 0 7)]).any (fun settlement =>
      settlement.settledIntentPda != settlement.intentPda &&
        settlement.bank.data settlement.settledIntentPda == .system &&
        settlement.bank.data settlement.intentPda != .system) = true := by
  decide

end Maat.Solana
