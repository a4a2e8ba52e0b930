import Maat.Laws.IntentManager.Authority
import Maat.Laws.Orchestrator.ProverPipeline
import Maat.Laws.Prove.Sound
import Maat.Orchestrator.ProverHost

/-!
# What is settled was submitted

A settlement that a job hands on is that of an intent on the contract's record, with its terms:
from the JSON to the proof behind it, from the proof to the guest, from the guest to the block, and
from the block to the contract.
-/

namespace Maat.Orchestrator.Pipeline

open Js Suspension
open Prove (Sdk Disk)
open Guest (IntentCreated ProofInput)
open Bytes (Fixed fixed)

variable {S : Sdk} {L : Prove.Libraries} {dataOffset : List UInt8 → Nat → Option Nat}
  {toBase58 : List UInt8 → Option Str} {sha256 : List UInt8 → Fixed 32}

/-! ## A job -/

section job

variable {sees : Str → SettledLedger Str → Int → Prop}

/-- The JSON is that of a proof that has verified. -/
def Claimed (S : Sdk) (json : ProofOutputJson) : Prop :=
  ∃ vkey txHash proof, S.verify vkey proof = true ∧
    json = .ofProver (.fromOutput (S.publicValues proof) txHash "prove".toList vkey)

/-- The JSON has passed the gate with what was seen: a block's hash, the ledger and the clock. -/
structure Passed (S : Sdk) (sees : Str → SettledLedger Str → Int → Prop) (contract : Str)
    (json : ProofOutputJson) : Prop where
  claimed : Claimed S json
  gate : ∃ hash ledger nowMs, sees hash ledger nowMs ∧
    evaluateSettleGate ledger nowMs json contract hash = some [] ∧
    ledger.lookup (toLowerCase json.intent_id) = none

/-- What a job waits with, and what it has handed on. -/
structure JobVouched (toBase58 : List UInt8 → Option Str) (sha256 : List UInt8 → Fixed 32)
    (S : Sdk) (sees : Str → SettledLedger Str → Int → Prop) (job : Job) (t : JobTurn) : Prop where
  fetching : ∀ json, t.next = .await (.fetching json) → Claimed S json
  dispatched : ∀ id json dest, .dispatchArbitrumSettlement id json dest ∈ t.calls →
    id = json.intent_id ∧ Passed S sees job.contract json ∧
      (bigInt json.destination_chain_id).bind (fun chainId =>
        DestinationWallet.decodeDestinationWallet sha256 toBase58 json.destination_wallet
          chainId.toNat) = some dest

/-- What is answered is true. -/
def Reply.Truthful (sees : Str → SettledLedger Str → Int → Prop) : Reply S → Prop
  | .exited code _ disk => code = 0 → disk.Vouched
  | .block (.ok hash) ledger nowMs => sees hash ledger nowMs
  | _ => True

theorem JobVouched.of_ended {job : Job} {t : JobTurn}
    (hnext : ∀ json, t.next ≠ .await (.fetching json))
    (hcalls : ∀ id json dest, .dispatchArbitrumSettlement id json dest ∉ t.calls) :
    JobVouched toBase58 sha256 S sees job t :=
  ⟨fun json h => absurd h (hnext json), fun id json dest h => absurd h (hcalls id json dest)⟩

/-- No turn but the one after the block hands anything on. -/
theorem afterProof_vouched {disk : Disk S} (h : disk.Vouched) (job : Job) :
    JobVouched toBase58 sha256 S sees job (afterProof job disk) := by
  unfold afterProof
  split
  · exact .of_ended (by simp [giveUp, stop]) (by simp [giveUp, stop])
  · next json hread =>
    have hclaimed : Claimed S json := by
      obtain ⟨vkey, txHash, proof, hverify, -, rfl⟩ := readProofJson_vouched h hread
      exact ⟨vkey, txHash, proof, hverify, rfl⟩
    split
    · refine ⟨fun json' hnext => ?_, fun _ _ _ hcall => absurd hcall (by simp [ask])⟩
      cases hnext
      exact hclaimed
    · exact .of_ended (by simp [refuse, stop]) (by simp [refuse, stop])

theorem afterBlock_vouched {job : Job} {json : ProofOutputJson} {hash : Str}
    {ledger : SettledLedger Str} {nowMs : Int} (hclaimed : Claimed S json)
    (hhash : sees hash ledger nowMs) :
    JobVouched toBase58 sha256 S sees job
      (afterBlock toBase58 sha256 job json hash ledger nowMs) := by
  refine ⟨fun json' hnext => absurd hnext (afterBlock_ne_fetching _ _ _ _ _), ?_⟩
  intro id json' dest hcall
  unfold afterBlock at hcall
  split at hcall
  · exact absurd hcall List.not_mem_nil
  · exact absurd hcall (by simp [refuse, stop])
  next hgate =>
    dsimp only at hcall
    split at hcall
    · exact absurd hcall (by simp [refuse, stop])
    next hledger =>
      split at hcall
      · exact absurd hcall List.not_mem_nil
      next dest' hdest =>
        simp only [ask, List.mem_singleton, Call.dispatchArbitrumSettlement.injEq] at hcall
        obtain ⟨rfl, rfl, rfl⟩ := hcall
        refine ⟨rfl, ⟨hclaimed, hash, ledger, nowMs, hhash, hgate, ?_⟩, hdest⟩
        cases hentry : ledger.lookup (toLowerCase json'.intent_id) with
        | none => rfl
        | some entry =>
          obtain ⟨status, sig⟩ := entry
          cases status <;> simp [SettledLedger.isAlreadySettled, hentry] at hledger

theorem resume_job_vouched {job : Job} {point : Point} {reply : Reply S} {t : JobTurn}
    (hpoint : ∀ json, point = .fetching json → Claimed S json) (hreply : reply.Truthful sees)
    (h : resume toBase58 sha256 job () point reply = some t) :
    JobVouched toBase58 sha256 S sees job t := by
  unfold resume at h
  split at h
  case h_1 attempt code stderrTail disk _ =>
    obtain rfl := Option.some.inj h
    split
    · next hcode => exact afterProof_vouched (hreply hcode) job
    split
    · exact .of_ended (by simp [stop]) (by simp [stop])
    split
    · exact .of_ended (by simp [giveUp, stop]) (by simp [giveUp, stop])
    · unfold afterFailure
      split
      · exact .of_ended (by simp [giveUp, stop]) (by simp [giveUp, stop])
      · exact .of_ended (by simp [ask]) (by simp [ask])
  case h_2 =>
    obtain rfl := Option.some.inj h
    exact .of_ended (by simp [ask]) (by simp [ask])
  case h_3 =>
    obtain rfl := Option.some.inj h
    exact .of_ended (by simp [refuse, stop]) (by simp [refuse, stop])
  case h_4 =>
    obtain rfl := Option.some.inj h
    exact afterBlock_vouched (hpoint _ rfl) hreply
  case h_5 =>
    obtain rfl := Option.some.inj h
    exact .of_ended (by simp [stop]) (by simp [stop])
  case h_6 =>
    obtain rfl := Option.some.inj h
    exact .of_ended (by simp) (by simp)
  case h_7 => cases h

theorem feed_vouched {job : Job} {t t' : JobTurn} {reply : Reply S}
    (h : JobVouched toBase58 sha256 S sees job t) (hreply : reply.Truthful sees)
    (hfeed : feed (resume toBase58 sha256 job) t reply = some t') :
    JobVouched toBase58 sha256 S sees job t' := by
  obtain ⟨point, t₁, hnext, hresume, rfl⟩ := feed_eq_some.mp hfeed
  have hpoint : ∀ json, point = .fetching json → Claimed S json := by
    rintro json rfl
    exact h.fetching json hnext
  have h₁ := resume_job_vouched hpoint hreply hresume
  refine ⟨h₁.fetching, fun id json dest hcall => ?_⟩
  rcases List.mem_append.mp hcall with hold | hnew
  · exact h.dispatched id json dest hold
  · exact h₁.dispatched id json dest hnew

end job

/-! ## The host -/

section host

variable {sees : Nat → Str → SettledLedger Str → Int → Prop}

structure HostVouched (toBase58 : List UInt8 → Option Str)
    (sha256 : List UInt8 → Fixed 32) (sees : Nat → Str → SettledLedger Str → Int → Prop)
    (host : Host S) : Prop where
  disk : host.disk.Vouched
  prover : ∀ process, host.prover = some process →
    Prove.PointVouched process.vkey process.args host.disk process.point
  jobs : ∀ k job t, host.jobs k = some (job, t) → JobVouched toBase58 sha256 S (sees k) job t

/-- What is seen with a block's hash. -/
def Event.Truthful (sees : Nat → Str → SettledLedger Str → Int → Prop) : Event S → Prop
  | .answer k (.block (.ok hash) ledger nowMs) => sees k hash ledger nowMs
  | _ => True

theorem HostVouched.put {host : Host S} (h : HostVouched toBase58 sha256 sees host) (k : Nat)
    {job : Job} {t : JobTurn} (ht : JobVouched toBase58 sha256 S (sees k) job t) :
    HostVouched toBase58 sha256 sees
      { host with jobs := Function.update host.jobs k (some (job, t)) } := by
  refine ⟨h.disk, h.prover, fun j job' u hu => ?_⟩
  by_cases hj : j = k
  · subst hj
    simp only [Function.update_self, Option.some.injEq, Prod.mk.injEq] at hu
    obtain ⟨rfl, rfl⟩ := hu
    exact ht
  · simp only [Function.update_of_ne hj] at hu
    exact h.jobs j job' u hu

theorem HostVouched.feed {host host' : Host S} {k : Nat} {reply : Reply S}
    (h : HostVouched toBase58 sha256 sees host) (hreply : reply.Truthful (sees k))
    (hfeed : host.feed toBase58 sha256 k reply = some host') :
    HostVouched toBase58 sha256 sees host' := by
  unfold Host.feed at hfeed
  split at hfeed
  · cases hfeed
  next job t hjob =>
    obtain ⟨t', ht', rfl⟩ := Option.map_eq_some_iff.mp hfeed
    exact h.put k (feed_vouched (h.jobs k job t hjob) hreply ht')

/-- A prover that goes takes nothing with it but the lock. -/
theorem release_vouched {host : Host S} (hdisk : host.disk.Vouched)
    (hjobs : ∀ k job t, host.jobs k = some (job, t) →
      JobVouched toBase58 sha256 S (sees k) job t) (k code : Nat) (stderrTail : Str) :
    HostVouched toBase58 sha256 sees (host.release toBase58 sha256 k code stderrTail) := by
  have hfree : HostVouched toBase58 sha256 sees { host with prover := none } :=
    ⟨hdisk, fun _ hprocess => (by cases hprocess), hjobs⟩
  have hreply : Reply.Truthful (sees k) (.exited code stderrTail host.disk) := fun _ => hdisk
  unfold Host.release
  dsimp only
  cases hfeed : Host.feed toBase58 sha256 { host with prover := none } k
      (.exited code stderrTail host.disk) with
  | none => exact hfree
  | some host' => exact hfree.feed hreply hfeed

theorem step_host_vouched {host host' : Host S} {e : Event S}
    (h : HostVouched toBase58 sha256 sees host) (he : e.Truthful sees)
    (hstep : host.step L dataOffset toBase58 sha256 e = some host') :
    HostVouched toBase58 sha256 sees host' := by
  cases e with
  | start k job =>
    simp only [Host.step] at hstep
    split at hstep
    case isFalse => cases hstep
    obtain rfl := Option.some.inj hstep
    exact h.put k (.of_ended (by simp [Pipeline.start, ask]) (by simp [Pipeline.start, ask]))
  | spawn k config =>
    simp only [Host.step] at hstep
    split at hstep
    case h_2 => cases hstep
    next job _ _ _ hfree hjob =>
      split at hstep
      · next point args hbegin _ =>
        obtain rfl := Option.some.inj hstep
        refine ⟨h.disk, fun process hprocess => ?_, h.jobs⟩
        obtain rfl := Option.some.inj hprocess
        simp only [Prove.begin_] at hbegin
        split at hbegin <;> cases hbegin
        trivial
      · obtain rfl := Option.some.inj hstep
        exact release_vouched h.disk h.jobs k _ _
      · cases hstep
  | prover reply stderrTail =>
    simp only [Host.step] at hstep
    split at hstep
    · cases hstep
    next process hprocess =>
      obtain ⟨⟨disk, next⟩, hresume, rfl⟩ := Option.map_eq_some_iff.mp hstep
      obtain ⟨hdisk, hnext⟩ := Prove.resume_vouched h.disk (h.prover process hprocess) hresume
      cases next with
      | await point =>
        refine ⟨hdisk, fun process' hprocess' => ?_, h.jobs⟩
        obtain rfl := Option.some.inj hprocess'
        exact hnext
      | exit code =>
        have hjobs : ∀ k job t, ({ host with disk } : Host S).jobs k = some (job, t) →
            JobVouched toBase58 sha256 S (sees k) job t := h.jobs
        exact release_vouched hdisk hjobs _ _ _
  | kill code stderrTail =>
    simp only [Host.step] at hstep
    split at hstep
    · cases hstep
    split at hstep
    · cases hstep
    obtain rfl := Option.some.inj hstep
    exact release_vouched h.disk h.jobs _ _ _
  | torn path file =>
    simp only [Host.step] at hstep
    split at hstep
    case isFalse => cases hstep
    next hfree =>
      obtain rfl := Option.some.inj hstep
      refine ⟨h.disk.write_tmp path file, fun process hprocess => ?_, h.jobs⟩
      have hprocess : host.prover = some process := hprocess
      rw [hprocess] at hfree
      cases hfree
  | answer k reply =>
    simp only [Host.step] at hstep
    split at hstep
    case isFalse => cases hstep
    next hout =>
      refine h.feed ?_ hstep
      cases reply with
      | exited code stderrTail disk =>
        intro hcode
        subst hcode
        cases hout
      | block hash ledger nowMs =>
        cases hash with
        | error e => trivial
        | ok hash => exact he
      | _ => trivial
  | crash k =>
    obtain rfl := Option.some.inj hstep
    refine ⟨h.disk, h.prover, fun j job' u hu => ?_⟩
    by_cases hj : j = k
    · subst hj
      simp only [Function.update_self, reduceCtorEq] at hu
    · simp only [Function.update_of_ne hj] at hu
      exact h.jobs j job' u hu

theorem vouched_of_run (sees : Nat → Str → SettledLedger Str → Int → Prop) {host : Host S}
    {events : List (Event S)}
    (hevents : ∀ e ∈ events, e.Truthful sees)
    (hrun : Run.run (Host.step L dataOffset toBase58 sha256) (Host.initial S) events = some host) :
    HostVouched toBase58 sha256 sees host := by
  refine Run.run_invariant (fun e => e.Truthful sees)
    (fun s e s' he hs hstep => step_host_vouched hs he hstep) hevents hrun ?_
  refine ⟨fun _ _ hfile => ?_, fun _ hprocess => ?_, fun _ _ _ hjob => ?_⟩
  · cases hfile
  · cases hprocess
  · cases hjob

theorem feed_exited {job : Job} {t : JobTurn} {attempt : Nat} {stderrTail : Str} {disk : Disk S}
    (h : t.next = .await (.proving attempt)) :
    Suspension.feed (resume toBase58 sha256 job) t (.exited 0 stderrTail disk) =
      some (t.andThen (afterProof job disk)) := by
  simp only [Suspension.feed, h, resume, if_true, Option.map_some]

theorem feed_block {job : Job} {t : JobTurn} {json : ProofOutputJson} {hash : Str}
    {ledger : SettledLedger Str} {nowMs : Int} (h : t.next = .await (.fetching json)) :
    Suspension.feed (resume toBase58 sha256 job) t
        (.block (.ok hash) ledger nowMs : Reply S) =
      some (t.andThen (afterBlock toBase58 sha256 job json hash ledger nowMs)) := by
  simp only [Suspension.feed, h, resume, Option.map_some]

theorem Host.feed_of_job {host : Host S} {k : Nat} {job : Job} {t t' : JobTurn} {reply : Reply S}
    (hjob : host.jobs k = some (job, t))
    (hfeed : Suspension.feed (resume toBase58 sha256 job) t reply = some t') :
    host.feed toBase58 sha256 k reply =
      some { host with jobs := Function.update host.jobs k (some (job, t')) } := by
  simp only [Host.feed, hjob, hfeed, Option.map_some]

/-- The job of a prover that exits goes on with the directory that it leaves. -/
theorem Host.release_of_job {host : Host S} {k code : Nat} {stderrTail : Str} {job : Job}
    {t t' : JobTurn} (hjob : host.jobs k = some (job, t))
    (hfeed : Suspension.feed (resume toBase58 sha256 job) t (.exited code stderrTail host.disk) =
      some t') :
    host.release toBase58 sha256 k code stderrTail =
      ⟨host.disk, none, Function.update host.jobs k (some (job, t'))⟩ := by
  have htold : Host.feed toBase58 sha256 { host with prover := none } k
      (.exited code stderrTail host.disk) =
        some ⟨host.disk, none, Function.update host.jobs k (some (job, t'))⟩ :=
    Host.feed_of_job hjob hfeed
  rw [Host.release, htold, Option.getD_some]

/-- Whatever was cut off, a proof's JSON is there exactly where a job can read it, and what it reads
is the JSON of a proof for that intent which has verified. -/
theorem readable_of_run {host : Host S} {events : List (Event S)}
    (hrun : Run.run (Host.step L dataOffset toBase58 sha256) (Host.initial S) events = some host)
    (idHex : Str) :
    ((host.disk (Prove.jsonPath "prove".toList idHex)).isSome ↔
        ∃ json, readProofJson host.disk idHex = some json) ∧
      ∀ json, readProofJson host.disk idHex = some json → ∃ vkey txHash proof,
        S.verify vkey proof = true ∧ Prove.intentIdHex (S.publicValues proof) = idHex ∧
        json = .ofProver (.fromOutput (S.publicValues proof) txHash "prove".toList vkey) := by
  have hvouched : host.disk.Vouched := by
    refine (vouched_of_run (fun _ _ _ _ => True) ?_ hrun).disk
    intro e _
    unfold Event.Truthful
    split <;> trivial
  refine ⟨⟨fun hthere => ?_, ?_⟩, fun json hread => readProofJson_vouched hvouched hread⟩
  · obtain ⟨file, hfile⟩ := Option.isSome_iff_exists.mp hthere
    obtain ⟨⟨-, proof, hproof, -⟩, text, rfl, vkey, args, proof', -, -, rfl⟩ :=
      hvouched idHex file hfile
    exact ⟨_, readProofJson_written hfile hproof⟩
  · rintro ⟨json, hread⟩
    unfold readProofJson at hread
    split at hread
    · next hfile _ => exact Option.isSome_iff_exists.mpr ⟨_, hfile⟩
    · cases hread

end host

/-! ## The gate -/

theorem gate_open {ledger : SettledLedger Str} {nowMs : Int} {json : ProofOutputJson}
    {contract hash : Str} (h : evaluateSettleGate ledger nowMs json contract hash = some []) :
    toLowerCase json.contract = toLowerCase contract ∧
      toLowerCase json.block_hash = toLowerCase hash ∧
      toLowerCase json.vkey = toLowerCase EXPECTED_VKEY ∧
      bigInt json.destination_chain_id = some SOLANA_CHAIN_ID ∧
      Number.ge (.ofInt (nowMs / 1000)) json.expiry = false := by
  unfold evaluateSettleGate at h
  obtain ⟨chainId, hchain, h⟩ := Option.bind_eq_some_iff.mp h
  have h := Option.some.inj h
  simp only [List.append_eq_nil_iff, ite_eq_right_iff, List.cons_ne_nil, imp_false,
    ne_eq, not_not, Bool.not_eq_true] at h
  obtain ⟨⟨⟨⟨⟨hcontract, hhash⟩, hvkey⟩, -⟩, hsolana⟩, hexpiry⟩ := h
  exact ⟨hcontract, hhash, hvkey, hsolana ▸ hchain, hexpiry⟩

theorem bigInt_ofDigits {n m : Nat} (hm : m < 2 ^ 53)
    (h : bigInt (.ofDigits (Nat.toDigits 10 n)) = some (m : Int)) : n = m := by
  rw [Number.ofDigits, Nat.ofDigitChars_ten_toDigits] at h
  split at h
  case isFalse => cases h
  next hfinite =>
    simp only [bigInt] at h
    split at h
    case isFalse => cases h
    next hden =>
      have hnum := Option.some.inj h
      refine eq_of_double_natCast hm ?_
      rw [← Rat.num_div_den (double (n : Nat)), hden, hnum]
      simp

/-- The clock is before the expiry. -/
theorem lt_of_expiry {now : Int} {n : Nat} (hnow : now < 2 ^ 53)
    (h : Number.ge (.ofInt now) (.ofDigits (Nat.toDigits 10 n)) = false) : now < n := by
  rcases Nat.lt_or_ge n (2 ^ 53) with hn | hn
  case inr => omega
  rw [Number.ofDigits, Nat.ofDigitChars_ten_toDigits, double_natCast hn.le] at h
  have hfinite : ((n : Nat) : ℚ) < 2 ^ 1024 := by
    calc ((n : Nat) : ℚ) < ((2 ^ 53 : Nat) : ℚ) := by exact_mod_cast hn
      _ ≤ 2 ^ 1024 := by
        rw [Nat.cast_pow, Nat.cast_ofNat]
        exact pow_le_pow_right₀ (by norm_num) (by norm_num)
  rw [if_pos hfinite] at h
  by_contra hge
  have hle : ((n : Nat) : ℚ) ≤ (now : ℚ) := by exact_mod_cast not_lt.mp hge
  rw [Number.ofInt, Number.ge_finite.mpr hle] at h
  cases h

/-! ## The block and the contract -/

theorem toLowerCase_hex0x (bs : List UInt8) : toLowerCase (Prove.hex0x bs) = Prove.hex0x bs := by
  rw [Prove.hex0x, toLowerCase, List.map_cons, List.map_cons, (Hex.spells_toHex bs).lower]
  rfl

theorem hex0x_inj {bs bs' : List UInt8} (h : Prove.hex0x bs = Prove.hex0x bs') : bs = bs' :=
  Prove.toHex_inj (List.cons.inj (List.cons.inj h).2).2

theorem bigInt_fixed {w n : Nat} (hw : 0 < w) (hn : n < 256 ^ w) :
    Hex.bigInt (Hex.toHex (fixed w n).val) = some n := by
  have hne : (fixed w n).val ≠ [] := by
    intro hnil
    have hlength := (fixed w n).property
    rw [hnil] at hlength
    exact hw.ne hlength
  rw [Hex.bigInt_toHex hne, ← Rlp.beNat_eq_value]
  exact congrArg some ((Bytes.beNat_beBytes w n).trans (Nat.mod_eq_of_lt hn))

theorem decode_hex0x (bs : List UInt8) :
    DestinationWallet.decodeDestinationWallet sha256 toBase58 (Prove.hex0x bs)
      SOLANA_CHAIN_ID.toNat = toBase58 bs := by
  have hdrop : (Prove.hex0x bs).drop 2 = Hex.toHex bs := rfl
  rw [DestinationWallet.decodeDestinationWallet, if_pos (by decide), hdrop, Hex.fromHex_toHex]

/-- The event that a line of the contract's log is. -/
def eventOfLog : IntentManager.Log → Option IntentCreated
  | .IntentCreated intentId sender amount tokenAddress destinationWallet destinationChainId expiry
      slippageBps =>
    some ⟨fixed 32 intentId, fixed 20 sender, fixed 32 amount, fixed 20 tokenAddress,
      fixed 32 destinationWallet, destinationChainId, expiry, slippageBps⟩
  | _ => none

section record

variable {R : Rlp.Crate} {keccak256 : List UInt8 → Fixed 32} {E : IntentManager.Env}
  {w : IntentManager.World} {chain : Set (Prove.Block × Rlp.Trie)} {witness : S.Proof → ProofInput}

/-- The creations that the block has from the contract are among those that the contract
announced. -/
def Carries (keccak256 : List UInt8 → Fixed 32) (contract : Fixed 20)
    (block : Prove.Block) (w : IntentManager.World) : Prop :=
  ∀ r ∈ block.receipts, ∀ log ∈ r.logs, log.address = contract →
    log.topics[0]? = some (keccak256 Guest.intentCreatedSignature) →
      ∃ l ∈ w.creations, ∃ event, eventOfLog l = some event ∧ log = event.emit keccak256 contract

/-- What is relied on: the blocks commit to the receipts and tell of the contract, a proof under the
key that is pinned is of a run of the guest, and keccak256 has no collision among what the runs and
the blocks hash. -/
structure Trusted (R : Rlp.Crate) (keccak256 : List UInt8 → Fixed 32)
    (E : IntentManager.Env) (w : IntentManager.World) (chain : Set (Prove.Block × Rlp.Trie))
    (witness : S.Proof → ProofInput) : Prop where
  crate : R.Correct
  commits : ∀ b ∈ chain, b.1.CommitsTo keccak256 b.2
  carries : ∀ b ∈ chain, Carries keccak256 (fixed 20 E.self) b.1 w
  sound : ∀ vkey proof, toLowerCase vkey = toLowerCase EXPECTED_VKEY → S.verify vkey proof = true →
    Guest.main R keccak256 (witness proof) = some (S.publicValues proof)
  collisionFree : ∀ vkey proof, S.verify vkey proof = true → ∀ b ∈ chain,
    (Prove.hashedStrings keccak256 (witness proof) b.1 b.2).InjOn keccak256

/-- The JSON tells of an intent on record. -/
structure Describes (json : ProofOutputJson) (intentId : IntentManager.Bytes32)
    (intent : IntentManager.Intent) : Prop where
  intentId : json.intent_id = Prove.hex0x (fixed 32 intentId).val
  sender : json.sender = Prove.hex0x (fixed 20 intent.owner).val
  amount : json.amount = Prove.hex0x (fixed 32 intent.amount).val
  fits : intent.amount < 256 ^ 32
  tokenAddress : json.token_address = Prove.hex0x (fixed 20 intent.tokenAddress).val
  destinationWallet :
    json.destination_wallet = Prove.hex0x (fixed 32 intent.destinationWallet).val
  destinationChainId :
    json.destination_chain_id = .ofDigits (Nat.toDigits 10 intent.destinationChainId.toNat)
  expiry : json.expiry = .ofDigits (Nat.toDigits 10 intent.expiry.toNat)

/-- The guest's output under the hash of a block of the chain is a creation of the contract. -/
theorem creation_of_accepted (htrusted : Trusted R keccak256 E w chain witness)
    {vkey : Str} {proof : S.Proof} (hvkey : toLowerCase vkey = toLowerCase EXPECTED_VKEY)
    (hverify : S.verify vkey proof = true) {b : Prove.Block × Rlp.Trie} (hb : b ∈ chain)
    (hhash : (S.publicValues proof).blockHash = keccak256 b.1.header.toItem.encode)
    (hcontract : (S.publicValues proof).contract = fixed 20 E.self) :
    ∃ l ∈ w.creations, eventOfLog l = some (Prove.eventOf (S.publicValues proof)) := by
  have hcarries := htrusted.carries b hb
  have hemits : b.1.EmitsFrom keccak256 (S.publicValues proof).contract := by
    intro r hr log hlog haddress htopic
    rw [hcontract] at haddress ⊢
    obtain ⟨l, -, event, -, hevent⟩ := hcarries r hr log hlog haddress htopic
    exact ⟨event, hevent⟩
  obtain ⟨⟨r, hr, -, hlog⟩, -⟩ := Prove.emitted_of_accepted htrusted.crate (htrusted.commits b hb)
    (htrusted.collisionFree vkey proof hverify b hb) (htrusted.sound vkey proof hvkey hverify) hhash
    hemits
  obtain ⟨l, hl, event, hevent, hemit⟩ := hcarries r hr _ hlog hcontract rfl
  refine ⟨l, hl, hevent.trans (congrArg some ?_)⟩
  rw [hcontract] at hemit
  have hread : Guest.decodeIntentCreated R keccak256 (fixed 20 E.self)
      ((Prove.eventOf (S.publicValues proof)).emit keccak256 (fixed 20 E.self)).toItem.encode =
        some (Prove.eventOf (S.publicValues proof)) := Guest.decode_emit htrusted.crate _ _
  rw [hemit, Guest.decode_emit htrusted.crate] at hread
  exact Option.some.inj hread

theorem Describes.of_event {out : Guest.ProofOutput} {intentId : IntentManager.Bytes32}
    {intent : IntentManager.Intent} (hfits : intent.amount ≤ IntentManager.maxUint256)
    (h : eventOfLog (.IntentCreated intentId intent.owner intent.amount intent.tokenAddress
      intent.destinationWallet intent.destinationChainId intent.expiry intent.slippageBps) =
        some (Prove.eventOf out)) (txHash mode vkey : Str) :
    Describes (.ofProver (.fromOutput out txHash mode vkey)) intentId intent := by
  simp only [eventOfLog, Prove.eventOf, Option.some.injEq, IntentCreated.mk.injEq] at h
  obtain ⟨hid, hsender, hamount, htoken, hwallet, hchain, hexpiry, -⟩ := h
  have hlt : intent.amount < 256 ^ 32 := by
    rw [IntentManager.maxUint256] at hfits
    omega
  refine ⟨?_, ?_, ?_, hlt, ?_, ?_, ?_, ?_⟩ <;>
    simp only [ProofOutputJson.ofProver, Prove.ProofOutputJson.fromOutput]
  · rw [hid]
  · rw [hsender]
  · rw [hamount]
  · rw [htoken]
  · rw [hwallet]
  · rw [hchain]
  · rw [hexpiry]

/-- What the contract announced is on its record, and the JSON of it tells of the record. -/
theorem describes_of_creation {m : IntentManager.Machine} (hreach : IntentManager.Reachable E m)
    {l : IntentManager.Log} (hl : l ∈ m.committed.creations) {out : Guest.ProofOutput}
    (hevent : eventOfLog l = some (Prove.eventOf out)) (txHash mode vkey : Str) :
    ∃ intentId, (m.committed.intents intentId).owner ≠ 0 ∧
      Describes (.ofProver (.fromOutput out txHash mode vkey)) intentId
        (m.committed.intents intentId) := by
  have hrecord := IntentManager.onRecord_of_reachable hreach l hl
  cases l with
  | IntentCreated intentId sender amount tokenAddress wallet chainId expiry slippageBps =>
    obtain ⟨hsender, hfits, createdAt, hevolves⟩ := hrecord
    refine ⟨intentId, ?_⟩
    generalize m.committed.intents intentId = intent at hevolves ⊢
    have howner : intent.owner = sender := hevolves.owner
    have hamount : intent.amount = amount := hevolves.amount
    have htoken : intent.tokenAddress = tokenAddress := hevolves.tokenAddress
    have hwallet : intent.destinationWallet = wallet := hevolves.destinationWallet
    have hchain : intent.destinationChainId = chainId := hevolves.destinationChainId
    have hexpiry : intent.expiry = expiry := hevolves.expiry
    have hslippage : intent.slippageBps = slippageBps := hevolves.slippageBps
    subst howner hamount htoken hwallet hchain hexpiry hslippage
    exact ⟨hsender, .of_event hfits hevent txHash mode vkey⟩
  | _ => cases hevent

/-- A JSON that has passed the gate tells of an intent on the contract's record. -/
theorem record_of_passed {m : IntentManager.Machine} (hreach : IntentManager.Reachable E m)
    (htrusted : Trusted R keccak256 E m.committed chain witness)
    {sees : Str → SettledLedger Str → Int → Prop}
    (hblocks : ∀ hash ledger nowMs, sees hash ledger nowMs →
      ∃ b ∈ chain, toLowerCase hash = Prove.hex0x (keccak256 b.1.header.toItem.encode).val)
    {contract : Str} (hcontract : toLowerCase contract = Prove.hex0x (fixed 20 E.self).val)
    {json : ProofOutputJson} (hpassed : Passed S sees contract json) :
    ∃ intentId, (m.committed.intents intentId).owner ≠ 0 ∧
      Describes json intentId (m.committed.intents intentId) ∧
      bigInt json.destination_chain_id = some SOLANA_CHAIN_ID ∧
      (m.committed.intents intentId).destinationChainId = 1399811149 ∧
      ∃ hash ledger nowMs, sees hash ledger nowMs ∧
        ledger.lookup (toLowerCase json.intent_id) = none ∧
        (nowMs / 1000 < 2 ^ 53 →
          nowMs / 1000 < (m.committed.intents intentId).expiry.toNat) := by
  obtain ⟨⟨vkey, txHash, proof, hverify, rfl⟩, hash, ledger, nowMs, hseen, hgate, hledger⟩ :=
    hpassed
  obtain ⟨hsame, hblock, hvkey, hsolana, hexpiry⟩ := gate_open hgate
  obtain ⟨b, hb, hhash⟩ := hblocks hash ledger nowMs hseen
  have hblockHash : (S.publicValues proof).blockHash = keccak256 b.1.header.toItem.encode := by
    rw [hhash] at hblock
    exact Subtype.ext (hex0x_inj ((toLowerCase_hex0x _).symm.trans hblock))
  have hself : (S.publicValues proof).contract = fixed 20 E.self := by
    rw [hcontract] at hsame
    exact Subtype.ext (hex0x_inj ((toLowerCase_hex0x _).symm.trans hsame))
  obtain ⟨l, hl, hevent⟩ := creation_of_accepted htrusted hvkey hverify hb hblockHash hself
  obtain ⟨intentId, howner, hdescribes⟩ :=
    describes_of_creation hreach hl hevent txHash "prove".toList vkey
  have hchain : (m.committed.intents intentId).destinationChainId.toNat = 1399811149 := by
    rw [hdescribes.destinationChainId] at hsolana
    exact bigInt_ofDigits (by decide) hsolana
  refine ⟨intentId, howner, hdescribes, hsolana, UInt64.toNat_inj.mp hchain, hash, ledger, nowMs,
    hseen, hledger, fun hnow => ?_⟩
  rw [hdescribes.expiry] at hexpiry
  exact lt_of_expiry hnow hexpiry

/-- What a job hands on has passed the gate with what the job has seen. -/
theorem passed_of_dispatched {events : List (Event S)} {host : Host S}
    (hrun : Run.run (Host.step L dataOffset toBase58 sha256) (Host.initial S) events = some host)
    {k : Nat} {job : Job} {t : JobTurn} (hjob : host.jobs k = some (job, t))
    {id dest : Str} {json : ProofOutputJson}
    (hcall : .dispatchArbitrumSettlement id json dest ∈ t.calls) :
    id = json.intent_id ∧
      Passed S (fun hash ledger nowMs => .answer k (.block (.ok hash) ledger nowMs) ∈ events)
        job.contract json ∧
      (bigInt json.destination_chain_id).bind (fun chainId =>
        DestinationWallet.decodeDestinationWallet sha256 toBase58 json.destination_wallet
          chainId.toNat) = some dest := by
  have hvouched := vouched_of_run (fun k hash ledger nowMs =>
    .answer k (.block (.ok hash) ledger nowMs) ∈ events) ?_ hrun
  · exact (hvouched.jobs k job t hjob).dispatched id json dest hcall
  · intro e he
    unfold Event.Truthful
    split
    · exact he
    · trivial

theorem Describes.dest {json : ProofOutputJson} {intentId : IntentManager.Bytes32}
    {intent : IntentManager.Intent} (h : Describes json intentId intent)
    (hsolana : bigInt json.destination_chain_id = some SOLANA_CHAIN_ID) {dest : Str}
    (hdest : (bigInt json.destination_chain_id).bind (fun chainId =>
      DestinationWallet.decodeDestinationWallet sha256 toBase58 json.destination_wallet
        chainId.toNat) = some dest) :
    toBase58 (fixed 32 intent.destinationWallet).val = some dest := by
  rw [hsolana, Option.bind_some, h.destinationWallet] at hdest
  rwa [decode_hex0x] at hdest

/-- What a job hands on is an intent on the contract's record, under its terms and for the wallet
that its owner named. The job has seen the hash of a block of the chain, a ledger without the intent,
and a time before its expiry. -/
theorem dispatched_on_record {m : IntentManager.Machine} (hreach : IntentManager.Reachable E m)
    (htrusted : Trusted R keccak256 E m.committed chain witness) {events : List (Event S)}
    (hblocks : ∀ k hash ledger nowMs, .answer k (.block (.ok hash) ledger nowMs) ∈ events →
      ∃ b ∈ chain, toLowerCase hash = Prove.hex0x (keccak256 b.1.header.toItem.encode).val)
    {host : Host S}
    (hrun : Run.run (Host.step L dataOffset toBase58 sha256) (Host.initial S) events = some host)
    {k : Nat} {job : Job} {t : JobTurn} (hjob : host.jobs k = some (job, t))
    (hcontract : toLowerCase job.contract = Prove.hex0x (fixed 20 E.self).val)
    {id dest : Str} {json : ProofOutputJson}
    (hcall : .dispatchArbitrumSettlement id json dest ∈ t.calls) :
    ∃ intentId, (m.committed.intents intentId).owner ≠ 0 ∧ id = json.intent_id ∧
      Describes json intentId (m.committed.intents intentId) ∧
      (m.committed.intents intentId).destinationChainId = 1399811149 ∧
      toBase58 (fixed 32 (m.committed.intents intentId).destinationWallet).val = some dest ∧
      ∃ (hash : Str) (ledger : SettledLedger Str) (nowMs : Int),
        .answer k (.block (.ok hash) ledger nowMs) ∈ events ∧
        ledger.lookup (toLowerCase id) = none ∧
        (nowMs / 1000 < 2 ^ 53 →
          nowMs / 1000 < (m.committed.intents intentId).expiry.toNat) := by
  obtain ⟨rfl, hpassed, hdest⟩ := passed_of_dispatched hrun hjob hcall
  obtain ⟨intentId, howner, hdescribes, hsolana, hchain, hseen⟩ :=
    record_of_passed hreach htrusted (hblocks k) hcontract hpassed
  exact ⟨intentId, howner, rfl, hdescribes, hchain, hdescribes.dest hsolana hdest, hseen⟩

end record

/-! ## A sample -/

/-- The contract of the sample block, whose first intent has id 7. -/
def recordedEnv : IntentManager.Env where
  keccak256 _ := 7
  self := 0x1111111111111111111111111111111111111111
  tracked _ := true

/-- Account 0x22 escrows one ether for a wallet on Solana. -/
def recordedRun : List IntentManager.Event :=
  [.tick 1800000000,
    .call ⟨0x22, 10 ^ 18⟩ (.submitIntent 0 (10 ^ 18) 0x33 1399811149 1800003600 50)]

/-- One proof, of the sample block's event. -/
def recordedSdk : Sdk where
  Proof := Unit
  publicValues _ := {
    blockHash := Prove.sampleKeccak256 (Prove.sampleHeader 123456).toItem.encode
    blockNumber := 123456
    blockTimestamp := 1800000000
    contract := Guest.sampleContract
    intentId := Prove.sampleEvent.intentId
    sender := Prove.sampleEvent.sender
    amount := Prove.sampleEvent.amount
    tokenAddress := Prove.sampleEvent.tokenAddress
    destinationWallet := Prove.sampleEvent.destinationWallet
    destinationChainId := Prove.sampleEvent.destinationChainId
    expiry := Prove.sampleEvent.expiry
    slippageBps := Prove.sampleEvent.slippageBps }
  verify vkey _ := vkey = EXPECTED_VKEY

def recordedJob : Job where
  txHash := "0xaa".toList
  intentId := "0x0000000000000000000000000000000000000000000000000000000000000007".toList
  contract := Prove.sampleTarget

def recordedHash : Str :=
  Prove.hex0x (Prove.sampleKeccak256 (Prove.sampleHeader 123456).toItem.encode).val

/-- A job from its start to the settlement. -/
def recordedEvents : List (Event recordedSdk) :=
  [.start 0 recordedJob,
    .spawn 0 ⟨[some "rpc".toList], some Prove.sampleTarget, EXPECTED_VKEY⟩,
    .prover (.checked (.ok (Prove.sampleInput 123456))) [], .prover (.isSetUp true) [],
    .prover (.proved (some ())) [], .prover (.written true) [], .prover (.written true) [],
    .prover (.written true) [], .prover (.written true) [],
    .answer 0 (.block (.ok recordedHash) ∅ 1800000100000)]

def recordedJson : ProofOutputJson :=
  .ofProver (.fromOutput (recordedSdk.publicValues ()) recordedJob.txHash "prove".toList
    EXPECTED_VKEY)

theorem recordedEvents_blocks (k : Nat) (hash : Str) (ledger : SettledLedger Str) (nowMs : Int)
    (h : .answer k (.block (.ok hash) ledger nowMs) ∈ recordedEvents) :
    ∃ b ∈ ({(Prove.sampleBlock 123456, Prove.sampleTrie)} : Set (Prove.Block × Rlp.Trie)),
      toLowerCase hash = Prove.hex0x (Prove.sampleKeccak256 b.1.header.toItem.encode).val := by
  simp only [recordedEvents, List.mem_cons, reduceCtorEq, List.not_mem_nil, or_false, false_or,
    Event.answer.injEq, Reply.block.injEq, Except.ok.injEq] at h
  refine ⟨_, rfl, ?_⟩
  rw [h.2.1]
  exact toLowerCase_hex0x _

theorem recorded_injOn :
    (Prove.hashedStrings Prove.sampleKeccak256 (Prove.sampleInput 123456)
      (Prove.sampleBlock 123456) Prove.sampleTrie).InjOn Prove.sampleKeccak256 := by
  refine Prove.sampleKeccak256_injOn.mono fun bs hbs => ?_
  rcases hbs with hbs | hbs | hbs | hbs
  · exact List.mem_cons.mpr (.inl hbs)
  · have hbs : bs ∈ [Prove.sampleBranch, Prove.sampleLeaf] := hbs
    exact .tail _ (List.mem_append_left [Guest.sampleFailedLeaf, [0x80]] hbs)
  · exact List.mem_cons.mpr (.inl hbs)
  · exact Prove.sampleStrings_hashed.1 bs hbs

theorem recorded_trusted {w : IntentManager.World}
    (hw : w.creations = [.IntentCreated 7 0x22 (10 ^ 18) 0 0x33 1399811149 1800003600 50]) :
    Trusted Rlp.reference Prove.sampleKeccak256 recordedEnv w
      {(Prove.sampleBlock 123456, Prove.sampleTrie)}
      fun _ : recordedSdk.Proof => Prove.sampleInput 123456 where
  crate := Rlp.reference_correct
  commits := by
    rintro b rfl
    exact Prove.sampleBlock_commitsTo (Prove.sampleHeader_fits _ (.head _))
  carries := by
    rintro b rfl r hr log hlog haddress -
    refine ⟨_, hw ▸ List.mem_singleton_self _, Prove.sampleEvent, by decide, ?_⟩
    rcases List.mem_cons.mp hr with rfl | hr
    · cases hlog
    obtain rfl := List.mem_singleton.mp hr
    rcases List.mem_cons.mp hlog with rfl | hlog
    · exact absurd haddress (by decide)
    · obtain rfl := List.mem_singleton.mp hlog
      exact congrArg (fun topics => Guest.Log.mk Guest.sampleContract topics
        Prove.sampleEvent.abiData) (by decide)
  sound := by
    intro vkey proof _ _
    exact Prove.sampleInput_committed _ (.head _)
  collisionFree := by
    rintro vkey proof - b rfl
    exact recorded_injOn

theorem recorded_machine :
    ∃ m, Run.run (IntentManager.step recordedEnv)
        (IntentManager.deployed IntentManager.sampleStorage 1000) recordedRun = some m ∧
      m.committed.creations =
        [.IntentCreated 7 0x22 (10 ^ 18) 0 0x33 1399811149 1800003600 50] := by
  have hcreations : (Run.run (IntentManager.step recordedEnv)
      (IntentManager.deployed IntentManager.sampleStorage 1000) recordedRun).map
        (fun m => m.committed.creations) =
      some [.IntentCreated 7 0x22 (10 ^ 18) 0 0x33 1399811149 1800003600 50] := by decide
  exact Option.map_eq_some_iff.mp hcreations

/-- The directory that the prover leaves. -/
def recordedDisk : Disk recordedSdk :=
  let idHex := Prove.intentIdHex (recordedSdk.publicValues ())
  let proved := ((Host.initial recordedSdk).disk.write (Prove.tmp (Prove.binPath idHex))
    (.proof ())).rename (Prove.tmp (Prove.binPath idHex)) (Prove.binPath idHex)
  (proved.write (Prove.tmp (Prove.jsonPath "prove".toList idHex))
    (.text (Prove.jsonText EXPECTED_VKEY ⟨"prove".toList, recordedJob.txHash, none⟩
      (recordedSdk.publicValues ()) "prove".toList))).rename
    (Prove.tmp (Prove.jsonPath "prove".toList idHex)) (Prove.jsonPath "prove".toList idHex)

theorem recorded_idHex : Prove.intentIdHex (recordedSdk.publicValues ()) = recordedJob.idHex := by
  decide +kernel

theorem recordedDisk_json : recordedDisk (Prove.jsonPath "prove".toList recordedJob.idHex) =
    some (.text (Prove.jsonText EXPECTED_VKEY ⟨"prove".toList, recordedJob.txHash, none⟩
      (recordedSdk.publicValues ()) "prove".toList)) := by
  rw [← recorded_idHex, recordedDisk, Prove.Disk.rename_target _ (Prove.jsonPath_ne_tmp _ _ _)]
  exact Function.update_self ..

theorem recordedDisk_proof :
    recordedDisk (Prove.binPath recordedJob.idHex) = some (.proof ()) := by
  rw [← recorded_idHex, recordedDisk,
    Prove.Disk.rename_of_ne _ (Prove.binPath_ne_tmp _ _) (Prove.jsonPath_ne_binPath _ _ _).symm,
    Prove.Disk.write_of_ne _ _ (Prove.binPath_ne_tmp _ _),
    Prove.Disk.rename_target _ (Prove.binPath_ne_tmp _ _)]
  exact Function.update_self ..

theorem recorded_afterProof : afterProof recordedJob recordedDisk =
    ask [.setVerified recordedJson.vkey, .getBlock 123456] (.fetching recordedJson) :=
  afterProof_of_read (readProofJson_written recordedDisk_json recordedDisk_proof)
    (by decide +kernel)

theorem recorded_afterBlock {toBase58 : List UInt8 → Option Str} {dest : Str}
    (hdest : toBase58 (fixed 32 0x33).val = some dest) :
    afterBlock toBase58 (fun _ => fixed 32 0) recordedJob recordedJson recordedHash ∅
      1800000100000 =
        ask [.dispatchArbitrumSettlement recordedJson.intent_id recordedJson dest] .settling :=
  afterBlock_of_open (by decide +kernel) rfl (by decide +kernel) ((decode_hex0x _).trans hdest)

/-- The host when the prover exits, before its job is told. -/
def recordedExit : Host recordedSdk where
  disk := recordedDisk
  prover := none
  jobs := Function.update (fun _ => none) 0 (some (recordedJob, Pipeline.start recordedJob))

theorem recorded_exits (toBase58 : List UInt8 → Option Str) :
    Run.run (Host.step Prove.sampleLibraries (fun _ _ => none) toBase58 (fun _ => fixed 32 0))
      (Host.initial recordedSdk) (recordedEvents.take 9) =
      some (recordedExit.release toBase58 (fun _ => fixed 32 0) 0 0 []) := rfl

/-- The job hands its intent on, for the wallet that base58 makes of the recorded one. -/
theorem recorded_host (toBase58 : List UInt8 → Option Str) {dest : Str}
    (hdest : toBase58 (fixed 32 0x33).val = some dest) :
    ∃ (host : Host recordedSdk) (t : JobTurn),
      Run.run (Host.step Prove.sampleLibraries (fun _ _ => none) toBase58 (fun _ => fixed 32 0))
        (Host.initial recordedSdk) recordedEvents = some host ∧
      host.disk = recordedDisk ∧ host.jobs 0 = some (recordedJob, t) ∧
      .dispatchArbitrumSettlement recordedJob.intentId recordedJson dest ∈ t.calls := by
  let fetching := (Pipeline.start recordedJob).andThen (afterProof recordedJob recordedDisk)
  let settling := fetching.andThen (afterBlock toBase58 (fun _ => fixed 32 0) recordedJob
    recordedJson recordedHash ∅ 1800000100000)
  have hjob (jobs : Nat → Option (Job × JobTurn)) (t : JobTurn) :
      Function.update jobs 0 (some (recordedJob, t)) 0 = some (recordedJob, t) :=
    Function.update_self ..
  let jobs := Function.update recordedExit.jobs 0 (some (recordedJob, fetching))
  have hexited : recordedExit.release toBase58 (fun _ => fixed 32 0) 0 0 [] =
      ⟨recordedDisk, none, jobs⟩ :=
    Host.release_of_job (hjob (fun _ => none) _) (feed_exited rfl)
  have hnext : fetching.next = .await (.fetching recordedJson) := by
    rw [Suspension.andThen_next, recorded_afterProof, ask]
  have hanswered : Host.feed toBase58 (fun _ => fixed 32 0) ⟨recordedDisk, none, jobs⟩ 0
      (.block (.ok recordedHash) ∅ 1800000100000 : Reply recordedSdk) =
        some ⟨recordedDisk, none, Function.update jobs 0 (some (recordedJob, settling))⟩ :=
    Host.feed_of_job (hjob recordedExit.jobs _) (feed_block hnext)
  have hid : recordedJson.intent_id = recordedJob.intentId := by decide +kernel
  have hcall : .dispatchArbitrumSettlement recordedJob.intentId recordedJson dest ∈
      settling.calls := by
    rw [Suspension.andThen_calls, recorded_afterBlock hdest, hid]
    exact List.mem_append_right _ (.head _)
  refine ⟨⟨recordedDisk, none, Function.update jobs 0 (some (recordedJob, settling))⟩, settling, ?_,
    rfl, hjob jobs _, hcall⟩
  rw [← List.take_append_drop 9 recordedEvents]
  refine Run.run_append.mpr ⟨_, recorded_exits toBase58, ?_⟩
  rw [hexited]
  exact Run.run_cons_eq_some.mpr ⟨_, hanswered, rfl⟩

/-- The sample's job hands the intent on that is on the contract's record. -/
theorem dispatched_on_record_sample :
    ∃ (m : IntentManager.Machine) (host : Host recordedSdk) (t : JobTurn),
      Run.run (IntentManager.step recordedEnv)
        (IntentManager.deployed IntentManager.sampleStorage 1000) recordedRun = some m ∧
      host.jobs 0 = some (recordedJob, t) ∧
      .dispatchArbitrumSettlement recordedJob.intentId recordedJson "dest".toList ∈ t.calls ∧
      ∃ intentId, (m.committed.intents intentId).owner ≠ 0 ∧
        Describes recordedJson intentId (m.committed.intents intentId) := by
  obtain ⟨m, hm, hw⟩ := recorded_machine
  obtain ⟨host, t, hhost, -, hjob, hcall⟩ := recorded_host (fun _ => some "dest".toList) rfl
  obtain ⟨intentId, howner, -, hdescribes, -⟩ := dispatched_on_record
    ⟨2, 3, 4, 1000, IntentManager.sampleStorage, recordedRun, rfl, hm⟩ (recorded_trusted hw)
    recordedEvents_blocks hhost hjob (by decide) hcall
  exact ⟨m, host, t, hm, hjob, hcall, intentId, howner, hdescribes⟩

/-- The sample's JSON can be read. -/
theorem readable_of_run_sample :
    ∃ host, Run.run (Host.step Prove.sampleLibraries (fun _ _ => none)
        (fun _ => some "dest".toList) (fun _ => fixed 32 0)) (Host.initial recordedSdk)
        recordedEvents = some host ∧
      ∃ json, readProofJson host.disk recordedJob.idHex = some json := by
  obtain ⟨host, _, hhost, hdisk, -⟩ := recorded_host (fun _ => some "dest".toList) rfl
  have hfile : (host.disk (Prove.jsonPath "prove".toList recordedJob.idHex)).isSome := by
    rw [hdisk, recordedDisk_json, Option.isSome_some]
  exact ⟨host, hhost, (readable_of_run hhost recordedJob.idHex).1.mp hfile⟩

end Maat.Orchestrator.Pipeline
