import Maat.Orchestrator.Delivery
import Maat.Laws.IntentManager.Disposition
import Maat.Laws.Solana.SettleIntent

/-!
# What a settled intent was worth on Solana

The sequence confirms only after a payout (`confirmed_paid`), and a payout is of the amount in
lamports, rounded down (`SolanaPayout.pays_iff`). An amount below one lamport passes every check
on the way and is confirmed for nothing.
-/

namespace Maat.Orchestrator

open Checks Solana Suspension Settlement

/-! ## The payout -/

/-- The settled intent says that the destination got `n` lamports, and it did. -/
structure Delivery.Credits (d : Delivery) (destination : Pubkey) (n : Nat) : Prop where
  settled : ∃ i, d.landed.data d.intent = .intent i ∧ i.status = .Settled ∧
    i.destination = destination ∧ i.settled_amount.toNat = n
  credited : d.reached.lamports destination + n ≤ d.landed.lamports destination

/-- At least one lamport, and less than one missing. -/
def Delivery.Pays (d : Delivery) (destination : Pubkey) (amountWei : Nat) : Prop :=
  ∃ n, d.Credits destination n ∧ 1 ≤ n ∧ amountWei < (n + 1) * WEI_PER_LAMPORT

theorem toU64?_eq_some {n : Nat} {a : UInt64} (h : toU64? n = some a) : a.toNat = n := by
  unfold toU64? at h
  split at h
  · next hlt =>
    cases h
    exact UInt64.toNat_ofNat_of_lt' hlt
  · cases h

/-- What pays does not end up with more, even where it pays itself. -/
theorem pay_le {bank mid bank' : Bank} {source target : Pubkey} {amount : Nat}
    {e e' : ProgramError} (hdebit : bank.debit source amount e = .ok mid)
    (hcredit : mid.credit target amount e' = .ok bank') :
    bank'.lamports source ≤ bank.lamports source := by
  obtain ⟨hle, -, hmid⟩ := debit_ok hdebit
  obtain ⟨-, hafter⟩ := credit_ok hcredit
  rw [hafter]
  by_cases hsame : source = target
  · rw [← hsame, Function.update_self, hmid, Function.update_self, Nat.sub_add_cancel hle]
  · rw [Function.update_of_ne hsame, hmid, Function.update_self]
    exact Nat.sub_le _ _

/-- What a settlement that succeeds says and moves: the intent account pays, whatever account is the
destination. -/
theorem receive_settlement_moves {cluster : Cluster} {clock : Int}
    {key circuitBreaker orchestrator destination owner : Pubkey} {zk_proof_hash : Fin (2 ^ 256)}
    {settlement_amount : UInt64} {bank bank' : Bank}
    (h : receive_settlement cluster clock key circuitBreaker orchestrator destination owner
      zk_proof_hash settlement_amount bank = .ok bank') :
    (∃ i, bank'.data key = .intent i ∧ i.status = .Settled ∧ i.destination = destination ∧
      i.settled_amount.toNat = settlement_amount.toNat) ∧
    bank'.lamports key ≤ bank.lamports key ∧
    (key ≠ destination →
      bank.lamports destination + settlement_amount.toNat ≤ bank'.lamports destination) := by
  obtain ⟨i, hsettles⟩ := receive_settlement_eq_ok h
  obtain ⟨debited, credited, hdebit, hcredit, hrest⟩ := hsettles.paid
  obtain ⟨hpay, hgain⟩ := pay_ok hdebit hcredit
  -- what may follow is the refund of the rest to the owner
  have hrefund : bank'.data = credited.data ∧
      bank'.lamports key ≤ credited.lamports key ∧
      (key ≠ destination → credited.lamports destination ≤ bank'.lamports destination) := by
    rcases hrest with ⟨refunded, hdebit', hcredit'⟩ | ⟨-, rfl⟩
    · obtain ⟨hmoves, -⟩ := pay_ok hdebit' hcredit'
      exact ⟨hmoves.data, pay_le hdebit' hcredit', fun hne => hmoves.others destination hne.symm⟩
    · exact ⟨rfl, le_rfl, fun _ => le_rfl⟩
  have hpaid := pay_le hdebit hcredit
  refine ⟨?_, hrefund.2.1.trans hpaid, fun hne => (hgain hne).symm.le.trans (hrefund.2.2 hne)⟩
  rw [hrefund.1, hpay.data]
  exact ⟨_, Function.update_self .., rfl, hsettles.toDestination, rfl⟩

/-- A payout is worth something just when the amount is a lamport or more, and it is not paid to the
account that pays it. -/
theorem SolanaPayout.pays_iff {cluster : Cluster} {hotWallet destination : Pubkey} {amountWei : Nat}
    (p : SolanaPayout cluster hotWallet destination amountWei) :
    p.delivery.Pays destination amountWei ↔
      WEI_PER_LAMPORT ≤ amountWei ∧ p.delivery.intent ≠ destination := by
  have hran := p.ran
  unfold settleScript at hran
  obtain ⟨amount, hamount, hran⟩ := Option.bind_eq_some_iff.mp hran
  obtain ⟨settlement, _, hran⟩ := Option.bind_eq_some_iff.mp hran
  obtain ⟨reached, _, hran⟩ := Option.bind_eq_some_iff.mp hran
  obtain ⟨landed, hlanded, hran⟩ := Option.bind_eq_some_iff.mp hran
  rw [← Option.some.inj hran]
  obtain ⟨hsettled, hpays, hgains⟩ := receive_settlement_moves (toOption_eq_some.mp hlanded)
  rw [toU64?_eq_some hamount] at hsettled hgains
  constructor
  · rintro ⟨n, ⟨⟨i, hi, -, -, hn⟩, hcredited⟩, hpos, -⟩
    obtain ⟨j, hj, -, -, hamountWei⟩ := hsettled
    rw [hi] at hj
    cases hj
    refine ⟨(Nat.one_le_div_iff (by decide)).mp (?_ : 1 ≤ weiToLamports amountWei), ?_⟩
    · rwa [← hamountWei, hn]
    · intro hself
      dsimp only at hself hcredited
      rw [← hself] at hcredited
      omega
  · rintro ⟨hlamport, hne⟩
    refine ⟨weiToLamports amountWei, ⟨hsettled, hgains hne⟩,
      (Nat.one_le_div_iff (by decide)).mpr hlamport, ?_⟩
    have hdiv := Nat.div_add_mod amountWei WEI_PER_LAMPORT
    have hmod := Nat.mod_lt amountWei (by decide : 0 < WEI_PER_LAMPORT)
    rw [weiToLamports, Nat.add_mul, Nat.mul_comm]
    omega

/-! ## The sequence -/

/-- The confirmation is under way, or has been asked for. -/
def Confirms (t : Turn Card SequencePoint Call Js.Str) : Prop :=
  (∃ zkProofHash point, t.next = .await (.pay (.confirm zkProofHash point))) ∨
    ∃ zkProofHash, .confirmSettlement zkProofHash ∈ t.calls

/-- Only a payout that is reported leads to the confirmation. -/
theorem pay_confirms {config : Config} {job : Job} {card : Card} {point : PayPoint}
    {reply : Reply} {t : Turn Card PayPoint Call Js.Str}
    (h : payResume config job card point reply = some t) (hconfirms : Confirms (t.within .pay)) :
    (∃ zkProofHash at_, point = .confirm zkProofHash at_) ∨ reply.answer = .payout true := by
  obtain ⟨now, answer⟩ := reply
  unfold payResume at h
  split at h
  · split at h
    · cases h
      simp [Confirms, within_next] at hconfirms
    · split at h
      · cases h
        simp [Confirms, within_next] at hconfirms
      · split at h
        · cases h
          simp [Confirms, within_next] at hconfirms
        · cases h
          simp [Confirms, within_next] at hconfirms
  · cases h
    simp [Confirms, within_next] at hconfirms
  · next hanswer => exact .inr hanswer
  · split at h
    · cases h
      simp [Confirms, within_next] at hconfirms
    · cases h
      simp [Confirms, within_next] at hconfirms
  · cases h
    simp [Confirms, within_next] at hconfirms
  · exact .inl ⟨_, _, rfl⟩
  · cases h
    simp [Confirms, within_next] at hconfirms
  · cases h
    simp [Confirms, within_next] at hconfirms
  · cases h

theorem sequence_confirms {config : Config} {job : Job} {card : Card} {point : SequencePoint}
    {reply : Reply} {t : Turn Card SequencePoint Call Js.Str}
    (h : sequenceResume config job card point reply = some t) (hconfirms : Confirms t) :
    (∃ zkProofHash at_, point = .pay (.confirm zkProofHash at_)) ∨
      reply.answer = .payout true := by
  obtain ⟨now, answer⟩ := reply
  unfold sequenceResume at h
  split at h
  · split at h
    · cases h
      simp [Confirms] at hconfirms
    · cases h
      simp [Confirms] at hconfirms
  · cases h
    simp [Confirms] at hconfirms
  · cases h
    simp [Confirms, resumeArbitrumSettlementFromCollateralPosted, Turn.within] at hconfirms
  · cases h
    simp [Confirms] at hconfirms
  · obtain ⟨t₁, hpay, rfl⟩ := Option.map_eq_some_iff.mp h
    exact (pay_confirms hpay hconfirms).imp_left fun ⟨zkProofHash, at_, hpoint⟩ =>
      ⟨zkProofHash, at_, by rw [hpoint]⟩
  · cases h
    simp [Confirms] at hconfirms
  · cases h
    simp [Confirms] at hconfirms
  · cases h

/-- A run that comes to the confirmation was told of a payout. -/
theorem confirmed_paid {config : Config} {job : Job} {card : Card} {replies : List Reply}
    {t : Turn Card SequencePoint Call Js.Str}
    (hdrive : drive (sequenceResume config job) (runArbitrumSettlementSequence card) replies =
      some t) (hconfirms : Confirms t) : ∃ reply ∈ replies, reply.answer = .payout true := by
  refine drive_invariant (I := fun t seen => Confirms t →
    ∃ reply ∈ seen, reply.answer = .payout true) ?_ [] hdrive ?_ hconfirms
  · intro t seen reply t' hseen hfeed hconfirms
    obtain ⟨point, t₁, hnext, hresume, rfl⟩ := feed_eq_some.mp hfeed
    have hearlier (h : Confirms t) : ∃ r ∈ seen ++ [reply], r.answer = .payout true := by
      obtain ⟨r, hr, hpaid⟩ := hseen h
      exact ⟨r, List.mem_append_left _ hr, hpaid⟩
    have hnow (h : Confirms t₁) : ∃ r ∈ seen ++ [reply], r.answer = .payout true := by
      rcases sequence_confirms hresume h with ⟨zkProofHash, at_, rfl⟩ | hpaid
      · exact hearlier (.inl ⟨zkProofHash, at_, hnext⟩)
      · exact ⟨reply, by simp, hpaid⟩
    rcases hconfirms with hawaits | ⟨zkProofHash, hcall⟩
    · exact hnow (.inl hawaits)
    · rcases List.mem_append.mp hcall with hcall | hcall
      · exact hearlier (.inr ⟨zkProofHash, hcall⟩)
      · exact hnow (.inr ⟨zkProofHash, hcall⟩)
  · unfold runArbitrumSettlementSequence
    split <;> simp [Confirms]

/-- A settlement sequence that comes to `confirmSettlement` was told of a payout, which was worth
something just when the amount is a lamport or more, and the destination is not the account that
paid. -/
theorem settled_for_something_iff (config : Config) (job : Job) (card : Card) (cluster : Cluster)
    (hotWallet destination : Pubkey)
    (replies : List (PaidReply cluster hotWallet destination job.json.amount))
    (t : Turn Card SequencePoint Call Js.Str)
    (hdrive : drive (sequenceResume config job) (runArbitrumSettlementSequence card)
      (replies.map PaidReply.reply) = some t) (zkProofHash : Js.Str)
    (hconfirms : .confirmSettlement zkProofHash ∈ t.calls) :
    (∃ r ∈ replies, r.reply.answer = .payout true) ∧
    ∀ r ∈ replies, ∀ hpaid : r.reply.answer = .payout true,
      (r.payout hpaid).delivery.Pays destination job.json.amount ↔
        WEI_PER_LAMPORT ≤ job.json.amount ∧ (r.payout hpaid).delivery.intent ≠ destination := by
  obtain ⟨reply, hmem, hpaid⟩ := confirmed_paid hdrive (.inr ⟨zkProofHash, hconfirms⟩)
  obtain ⟨r, hr, rfl⟩ := List.mem_map.mp hmem
  exact ⟨⟨r, hr, hpaid⟩, fun r _ hpaid => (r.payout hpaid).pays_iff⟩

/-! ### Account 5 as the hot wallet and 6 as the destination -/

def sampleTerms : Config :=
  ⟨⟨10000000000, 10, 600⟩, .ofInt 3, .ofInt 2000, .ofInt 30000, [], .ofInt 72000⟩

/-- An intent of this amount, with the proof's file there. -/
def sampleJob (amount : Nat) : Job := ⟨['A'], none, ⟨['i'], amount, ZERO_ADDRESS, 9000⟩,
  some ['z']⟩

/-- The collateral is posted and read back, the payout is made, and the intent is still open. -/
def sampleReplies (amount : Nat) : List Reply :=
  [⟨1000000, .balance 1000000000000⟩, ⟨1001000, .outcome true (some ['h'])⟩,
    ⟨1002000, .record ⟨[], amount, [], INTENT_STATUS_PENDING, ['a'], 1⟩⟩, ⟨1003000, .payout true⟩,
    ⟨1004000, .record ⟨[], amount, [], INTENT_STATUS_PENDING, ['a'], 1⟩⟩]

def sampleSettled (amount : Nat) : Option (Turn Card SequencePoint Call Js.Str) :=
  drive (sequenceResume sampleTerms (sampleJob amount))
    (runArbitrumSettlementSequence ⟨none, none, {}⟩) (sampleReplies amount)

/-- The script on the chain with the program set up. -/
def samplePaid (amount : Nat) : Option Delivery :=
  (Run.run (Solana.step sampleCluster) sampleStart sampleSetup).bind fun bank =>
    settleScript sampleCluster 5 6 amount 0 ⟨bank, 12, 12, [], [], [], 14⟩

theorem samplePaid_payout {amount : Nat} {d : Delivery} (h : samplePaid amount = some d) :
    ∃ p : SolanaPayout sampleCluster 5 6 amount, p.delivery = d := by
  obtain ⟨bank, -, hran⟩ := Option.bind_eq_some_iff.mp h
  exact ⟨⟨0, _, d, hran⟩, rfl⟩

/-- The replies with one payout behind them. -/
def sampleBacked {amount : Nat} (p : SolanaPayout sampleCluster 5 6 amount) :
    List (PaidReply sampleCluster 5 6 amount) :=
  (sampleReplies amount).map fun reply => ⟨reply, fun _ => p⟩

theorem sampleBacked_reply {amount : Nat} (p : SolanaPayout sampleCluster 5 6 amount) :
    (sampleBacked p).map PaidReply.reply = sampleReplies amount := by
  simp [sampleBacked, Function.comp_def]

theorem settled_for_something_sample :
    ∃ p : SolanaPayout sampleCluster 5 6 2500000000, p.delivery.Pays 6 2500000000 := by
  obtain ⟨d, hd⟩ := Option.isSome_iff_exists.mp (by decide :
    (samplePaid 2500000000).isSome = true)
  have hintent : (samplePaid 2500000000).map Delivery.intent =
      some (sampleCluster.address (.intent 5 0)) := by decide
  obtain ⟨p, rfl⟩ := samplePaid_payout hd
  rw [hd, Option.map_some, Option.some.injEq] at hintent
  have hcalls : (sampleSettled 2500000000).map Turn.calls = some [.getSolverBalanceWei,
      .postCollateral 3750000000, .readIntent, .runSolanaPayout ['z'], .readIntent,
      .confirmSettlement ['z']] := by decide
  obtain ⟨t, ht, hcalls⟩ := Option.map_eq_some_iff.mp hcalls
  have hdrive : drive (sequenceResume sampleTerms (sampleJob 2500000000))
      (runArbitrumSettlementSequence ⟨none, none, {}⟩) ((sampleBacked p).map PaidReply.reply) =
      some t := by
    rw [sampleBacked_reply]
    exact ht
  have hmem : (⟨⟨1003000, .payout true⟩, fun _ => p⟩ : PaidReply sampleCluster 5 6 2500000000) ∈
      sampleBacked p := by simp [sampleBacked, sampleReplies]
  have hiff := (settled_for_something_iff sampleTerms (sampleJob 2500000000) ⟨none, none, {}⟩
    sampleCluster 5 6 (sampleBacked p) t hdrive ['z'] (by simp [hcalls])).2 _ hmem rfl
  refine ⟨p, hiff.mpr ⟨by decide, ?_⟩⟩
  show p.delivery.intent ≠ 6
  rw [hintent]
  decide

/-- One wei, or any other amount below a lamport: the contract takes it, the sequence comes to the
confirmation, and the destination gets nothing. -/
theorem one_wei_settled_for_nothing :
    (Run.run (IntentManager.step IntentManager.sampleEnv)
        (IntentManager.deployed IntentManager.sampleStorage 1000)
        [.call ⟨6, 1⟩ (.submitIntent 0 1 0 1399811149 2000 50)]).map
      (fun m => ((m.committed.intents IntentManager.sampleId).status,
        (m.committed.intents IntentManager.sampleId).amount)) = some (.Pending, 1) ∧
    ∃ replies : List (PaidReply sampleCluster 5 6 1), ∃ t,
      drive (sequenceResume sampleTerms (sampleJob 1))
        (runArbitrumSettlementSequence ⟨none, none, {}⟩) (replies.map PaidReply.reply) = some t ∧
      .confirmSettlement ['z'] ∈ t.calls ∧
      ∀ r ∈ replies, ∀ hpaid, ¬(r.payout hpaid).delivery.Pays 6 1 := by
  refine ⟨by decide, ?_⟩
  obtain ⟨d, hd⟩ := Option.isSome_iff_exists.mp (by decide : (samplePaid 1).isSome = true)
  obtain ⟨p, -⟩ := samplePaid_payout hd
  have hcalls : (sampleSettled 1).map Turn.calls = some [.getSolverBalanceWei,
      .postCollateral 1, .readIntent, .runSolanaPayout ['z'], .readIntent,
      .confirmSettlement ['z']] := by decide
  obtain ⟨t, ht, hcalls⟩ := Option.map_eq_some_iff.mp hcalls
  refine ⟨sampleBacked p, t, by rw [sampleBacked_reply]; exact ht, by rw [hcalls]; simp, ?_⟩
  intro r _ hpaid hpays
  exact absurd ((r.payout hpaid).pays_iff.mp hpays).1 (by decide)

end Maat.Orchestrator
