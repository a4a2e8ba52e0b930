import Maat.Laws.Prove.Driver
import Maat.Orchestrator.ProverPipeline

/-!
# A proof's JSON and a job

What the prover writes is what the job reads, numbers as doubles. A job runs the prover at most three
times and ends in one verdict.
-/

namespace Maat.Orchestrator.Pipeline

open Js Json Suspension
open Prove (Sdk Disk)

/-! ## Reading what was written -/

/-- How JavaScript sees a prover's JSON. -/
def ProofOutputJson.ofProver (json : Prove.ProofOutputJson) : ProofOutputJson where
  tx_hash := json.txHash
  mode := json.mode
  vkey := json.vkey
  block_hash := json.blockHash
  block_number := .ofDigits (Nat.toDigits 10 json.blockNumber.toNat)
  block_timestamp := .ofDigits (Nat.toDigits 10 json.blockTimestamp.toNat)
  contract := json.contract
  intent_id := json.intentId
  sender := json.sender
  amount := json.amount
  token_address := json.tokenAddress
  destination_wallet := json.destinationWallet
  destination_chain_id := .ofDigits (Nat.toDigits 10 json.destinationChainId.toNat)
  expiry := .ofDigits (Nat.toDigits 10 json.expiry.toNat)
  slippage_bps := .ofDigits (Nat.toDigits 10 json.slippageBps.toNat)

theorem wellFormed_toValue (json : Prove.ProofOutputJson) : json.toValue.WellFormed := by
  refine .object ?_ ?_
  · simp only [List.map_cons, List.map_nil]
    decide
  · intro m hm
    simp only [List.mem_cons, List.not_mem_nil, or_false] at hm
    rcases hm with rfl | rfl | rfl | rfl | rfl | rfl | rfl | rfl | rfl | rfl | rfl | rfl | rfl |
      rfl | rfl
    all_goals first
      | exact .string _
      | exact .number (isNumber_toDigits _)

theorem all_isDigit_toDigits (n : Nat) : (Nat.toDigits 10 n).all isDigit = true := by
  apply List.all_eq_true.mpr
  intro c hc
  have h := Nat.isDigit_of_mem_toDigits (by decide) (by decide) hc
  simp only [Char.isDigit, Bool.and_eq_true, decide_eq_true_eq] at h
  simp only [isDigit, Bool.and_eq_true, decide_eq_true_eq]
  exact h

theorem ofValue_toValue (json : Prove.ProofOutputJson) :
    ProofOutputJson.ofValue json.toValue = some (.ofProver json) := by
  have htext : ∀ (name : String) (text : Str),
      json.toValue.member name.toList = some (.string text) →
        textField json.toValue name = some text := by
    intro name text h
    rw [textField, h]
    rfl
  have hnumber : ∀ (name : String) (n : Nat),
      json.toValue.member name.toList = some (.number (Nat.toDigits 10 n)) →
        numberField json.toValue name = some (.ofDigits (Nat.toDigits 10 n)) := by
    intro name n h
    rw [numberField, h]
    simp only [all_isDigit_toDigits, if_true]
  simp only [ProofOutputJson.ofValue,
    htext "tx_hash" json.txHash rfl, htext "mode" json.mode rfl, htext "vkey" json.vkey rfl,
    htext "block_hash" json.blockHash rfl, hnumber "block_number" json.blockNumber.toNat rfl,
    hnumber "block_timestamp" json.blockTimestamp.toNat rfl, htext "contract" json.contract rfl,
    htext "intent_id" json.intentId rfl, htext "sender" json.sender rfl,
    htext "amount" json.amount rfl, htext "token_address" json.tokenAddress rfl,
    htext "destination_wallet" json.destinationWallet rfl,
    hnumber "destination_chain_id" json.destinationChainId.toNat rfl,
    hnumber "expiry" json.expiry.toNat rfl, hnumber "slippage_bps" json.slippageBps.toNat rfl,
    Option.bind_eq_bind, Option.bind_some, pure]
  rfl

/-- What was written is read. -/
theorem parse_written (json : Prove.ProofOutputJson) :
    (parse (stringify json.toValue)).bind ProofOutputJson.ofValue = some (.ofProver json) := by
  rw [parse_stringify (wellFormed_toValue json), Option.bind_some, ofValue_toValue]

/-- A proof's JSON with the proof next to it is read. -/
theorem readProofJson_written {S : Sdk} {disk : Disk S} {idHex vkey : Str} {args : Prove.Args}
    {output : Guest.ProofOutput} {file : Prove.File S}
    (hjson : disk (Prove.jsonPath "prove".toList idHex) =
      some (.text (Prove.jsonText vkey args output "prove".toList)))
    (hproof : disk (Prove.binPath idHex) = some file) :
    readProofJson disk idHex =
      some (.ofProver (.fromOutput output args.txHash "prove".toList vkey)) := by
  simp only [readProofJson, hjson, hproof, Prove.jsonText, parse_written]
  exact if_pos rfl

/-- With the JSON read, the block it names is asked for. -/
theorem afterProof_of_read {S : Sdk} {job : Job} {disk : Disk S} {json : ProofOutputJson}
    {blockNumber : Int} (hread : readProofJson disk job.idHex = some json)
    (hnumber : bigInt json.block_number = some blockNumber) :
    afterProof job disk = ask [.setVerified json.vkey, .getBlock blockNumber] (.fetching json) := by
  simp only [afterProof, hread, hnumber]

/-- With the gate open and no entry in the ledger, the intent is handed on. -/
theorem afterBlock_of_open {toBase58 : List UInt8 → Option Str} {sha256 : List UInt8 → Bytes.Fixed 32}
    {job : Job} {json : ProofOutputJson} {hash dest : Str} {ledger : SettledLedger Str}
    {nowMs chainId : Int}
    (hgate : evaluateSettleGate ledger nowMs json job.contract hash = some [])
    (hfresh : ledger.lookup (toLowerCase json.intent_id) = none)
    (hchain : bigInt json.destination_chain_id = some chainId)
    (hdest : DestinationWallet.decodeDestinationWallet sha256 toBase58 json.destination_wallet
      chainId.toNat = some dest) :
    afterBlock toBase58 sha256 job json hash ledger nowMs =
      ask [.dispatchArbitrumSettlement json.intent_id json dest] .settling := by
  simp only [afterBlock, hgate, hfresh, hchain, hdest, SettledLedger.isAlreadySettled,
    Option.bind_some, Option.any_none, Bool.or_self, Bool.false_eq_true, if_false]

/-- A job reads the JSON of a proof for its intent that has verified, or nothing. -/
theorem readProofJson_vouched {S : Sdk} {disk : Disk S} (h : disk.Vouched) {idHex : Str}
    {json : ProofOutputJson} (hread : readProofJson disk idHex = some json) :
    ∃ vkey txHash proof, S.verify vkey proof = true ∧
      Prove.intentIdHex (S.publicValues proof) = idHex ∧
      json = .ofProver (.fromOutput (S.publicValues proof) txHash "prove".toList vkey) := by
  unfold readProofJson at hread
  split at hread
  case h_2 => cases hread
  next text _ hjson _ =>
    obtain ⟨-, text', htext, vkey, args, proof, hverify, hid, rfl⟩ := h idHex _ hjson
    cases htext
    rw [Prove.jsonText, parse_written] at hread
    split at hread
    · next hsome =>
      cases hsome
      split at hread
      · exact ⟨vkey, args.txHash, proof, hverify, hid, (Option.some.inj hread).symm⟩
      · cases hread
    · cases hread

/-! ## A job -/

def Call.runs : Call → Bool
  | .runProver _ => true
  | _ => false

/-- What becomes of the intent. -/
def Call.decides : Call → Bool
  | .setRejected _ | .setAlert _ | .recordAlertReason _ | .dispatchArbitrumSettlement _ _ _ => true
  | _ => false

def Call.pause : Call → Option Nat
  | .sleep ms => some ms
  | _ => none

/-- How often the prover was run and something was decided, and the pauses in between. -/
structure Spent (calls : List Call) (runs verdicts : Nat) (pauses : List Nat) : Prop where
  runs : calls.countP Call.runs = runs
  verdicts : calls.countP Call.decides = verdicts
  pauses : calls.filterMap Call.pause = pauses

theorem Spent.append {calls calls' : List Call} {n n' v v' : Nat} {ps ps' : List Nat}
    (h : Spent calls n v ps) (h' : Spent calls' n' v' ps') :
    Spent (calls ++ calls') (n + n') (v + v') (ps ++ ps') where
  runs := by rw [List.countP_append, h.runs, h'.runs]
  verdicts := by rw [List.countP_append, h.verdicts, h'.verdicts]
  pauses := by rw [List.filterMap_append, h.pauses, h'.pauses]

/-- A part of a job that runs no prover: it waits for the block undecided, or for the settlement
decided, or ends. -/
inductive Closes (t : JobTurn) : Prop where
  | fetching (json : ProofOutputJson) (hnext : t.next = .await (.fetching json))
      (hspent : Spent t.calls 0 0 [])
  | settling (hnext : t.next = .await .settling) (hspent : Spent t.calls 0 1 [])
  | returned (hnext : t.next = .returned) (hspent : Spent t.calls 0 1 [])
  | threw (e : Str) (hnext : t.next = .threw e) (hspent : Spent t.calls 0 0 [])

section job

variable {S : Sdk} {toBase58 : List UInt8 → Option Str} {sha256 : List UInt8 → Bytes.Fixed 32}
  {job : Job}

theorem closes_giveUp (reason : Str) : Closes (giveUp job reason) :=
  .returned rfl ⟨rfl, rfl, rfl⟩

theorem closes_refuse (reason : Str) : Closes (refuse job reason) :=
  .returned rfl ⟨rfl, rfl, rfl⟩

theorem closes_afterProof (disk : Disk S) : Closes (afterProof job disk) := by
  unfold afterProof
  split
  · exact closes_giveUp _
  · split
    · exact .fetching _ rfl ⟨rfl, rfl, rfl⟩
    · exact .returned rfl ⟨rfl, rfl, rfl⟩

theorem closes_afterBlock (json : ProofOutputJson) (hash : Str) (ledger : SettledLedger Str)
    (nowMs : Int) : Closes (afterBlock toBase58 sha256 job json hash ledger nowMs) := by
  unfold afterBlock
  split
  · exact .threw _ rfl ⟨rfl, rfl, rfl⟩
  · exact closes_refuse _
  · dsimp only
    split
    · exact closes_refuse _
    · split
      · exact .threw _ rfl ⟨rfl, rfl, rfl⟩
      · exact .settling rfl ⟨rfl, rfl, rfl⟩

theorem afterBlock_ne_fetching (json : ProofOutputJson) (hash : Str) (ledger : SettledLedger Str)
    (nowMs : Int) (json' : ProofOutputJson) :
    (afterBlock toBase58 sha256 job json hash ledger nowMs).next ≠ .await (.fetching json') := by
  unfold afterBlock
  split
  · rintro ⟨⟩
  · rintro ⟨⟩
  · dsimp only
    split
    · rintro ⟨⟩
    · split <;> rintro ⟨⟩

/-- The exit of a prover. -/
def Reply.exits : Reply S → Bool
  | .exited _ _ _ => true
  | _ => false

/-- The exit after which the prover is not run again. -/
def Reply.settles : Reply S → Bool
  | .exited code _ _ => code == 0 || code == 2 || code == 4
  | _ => false

/-- How far a job is after `seen`. -/
def Reached (t : JobTurn) (seen : List (Reply S)) : Prop :=
  match t.next with
  | .await (.proving n) => 1 ≤ n ∧ n ≤ 3 ∧ seen.length + 2 = 2 * n ∧
    Spent t.calls n 0 (RETRY_BACKOFF_MS.take (n - 1)) ∧ ∀ r ∈ seen, r.settles = false
  | .await (.backingOff n) => 1 ≤ n ∧ n ≤ 2 ∧ seen.length + 1 = 2 * n ∧
    Spent t.calls n 0 (RETRY_BACKOFF_MS.take n) ∧ ∀ r ∈ seen, r.settles = false
  | .await (.fetching _) => seen.length ≤ 5 ∧
    ∃ n < 3, Spent t.calls (n + 1) 0 (RETRY_BACKOFF_MS.take n)
  | .await .settling => seen.length ≤ 6 ∧
    ∃ n < 3, Spent t.calls (n + 1) 1 (RETRY_BACKOFF_MS.take n)
  | .returned => seen.length ≤ 7 ∧ ∃ n < 3, Spent t.calls (n + 1) 1 (RETRY_BACKOFF_MS.take n)
  | .threw _ => seen.length ≤ 7 ∧
    ∃ n < 3, ∃ v ≤ 1, Spent t.calls (n + 1) v (RETRY_BACKOFF_MS.take n)

/-- Nothing is run again once the prover has settled it. -/
def SettledOnce (seen : List (Reply S)) : Prop :=
  ∀ pre r post, seen = pre ++ r :: post → r.settles = true → ∀ x ∈ post, x.exits = false

/-- A part that closes, after a job that is at its last run. -/
theorem Closes.reached {t t' : JobTurn} {seen : List (Reply S)} {n : Nat} (h : Closes t')
    (hn : n < 3) (hspent : Spent t.calls (n + 1) 0 (RETRY_BACKOFF_MS.take n))
    (hlength : seen.length ≤ 6)
    (hfetch : ∀ json, t'.next = .await (.fetching json) → seen.length ≤ 5) :
    Reached (t.andThen t') seen := by
  have hcalls : ∀ v, Spent t'.calls 0 v [] →
      Spent (t.andThen t').calls (n + 1) v (RETRY_BACKOFF_MS.take n) := by
    intro v hv
    have := hspent.append hv
    rwa [Nat.add_zero, Nat.zero_add, List.append_nil] at this
  cases h with
  | fetching json hnext hv =>
    simp only [Reached, andThen_next, hnext]
    exact ⟨hfetch json hnext, n, hn, hcalls 0 hv⟩
  | settling hnext hv =>
    simp only [Reached, andThen_next, hnext]
    exact ⟨hlength, n, hn, hcalls 1 hv⟩
  | returned hnext hv =>
    simp only [Reached, andThen_next, hnext]
    exact ⟨by omega, n, hn, hcalls 1 hv⟩
  | threw e hnext hv =>
    simp only [Reached, andThen_next, hnext]
    exact ⟨by omega, n, hn, 0, Nat.zero_le 1, hcalls 0 hv⟩

/-- The prover's exit on attempt `n`. -/
theorem reached_exit {t : JobTurn} {seen : List (Reply S)} {n code : Nat} {stderrTail : Str}
    {disk : Disk S} (hlow : 1 ≤ n) (hhigh : n ≤ 3) (hlength : seen.length + 2 = 2 * n)
    (hspent : Spent t.calls n 0 (RETRY_BACKOFF_MS.take (n - 1)))
    (hseen : ∀ r ∈ seen, r.settles = false) {t' : JobTurn}
    (hresume : resume toBase58 sha256 job () (.proving n) (.exited code stderrTail disk) = some t') :
    Reached (t.andThen t') (seen ++ [.exited code stderrTail disk]) := by
  obtain ⟨m, rfl⟩ : ∃ m, n = m + 1 := ⟨n - 1, by omega⟩
  have hcloses : ∀ t', Closes t' →
      Reached (t.andThen t') (seen ++ [.exited code stderrTail disk]) := by
    intro t' h
    have hle : (seen ++ [Reply.exited code stderrTail disk]).length ≤ 5 := by
      rw [List.length_append, List.length_singleton]
      omega
    exact h.reached (Nat.lt_of_succ_le hhigh) hspent (by omega) fun _ _ => hle
  simp only [resume, Option.some.injEq] at hresume
  subst hresume
  split
  · exact hcloses _ (closes_afterProof disk)
  split
  · exact hcloses _ (.returned rfl ⟨rfl, rfl, rfl⟩)
  split
  · exact hcloses _ (closes_giveUp _)
  next h0 h2 h4 =>
    unfold afterFailure
    split
    · exact hcloses _ (closes_giveUp _)
    next hlast =>
      have hlt : m < 2 := by
        rw [MAX_PROVER_RETRIES] at hlast
        omega
      have hpause : Spent [Call.setRetrying (m + 1 + 1) MAX_PROVER_RETRIES,
          .sleep (RETRY_BACKOFF_MS[m + 1 - 1]?.getD 45000)] 0 0
          [RETRY_BACKOFF_MS[m + 1 - 1]?.getD 45000] := ⟨rfl, rfl, rfl⟩
      have hpauses : RETRY_BACKOFF_MS.take (m + 1) =
          RETRY_BACKOFF_MS.take (m + 1 - 1) ++ [RETRY_BACKOFF_MS[m + 1 - 1]?.getD 45000] := by
        have hall : ∀ k < 2, RETRY_BACKOFF_MS.take (k + 1) =
            RETRY_BACKOFF_MS.take (k + 1 - 1) ++ [RETRY_BACKOFF_MS[k + 1 - 1]?.getD 45000] := by
          decide
        exact hall m hlt
      refine ⟨by omega, by omega, ?_, ?_, ?_⟩
      · rw [List.length_append, List.length_singleton]
        omega
      · rw [hpauses]
        exact hspent.append hpause
      · intro r hr
        rcases List.mem_append.mp hr with hr | hr
        · exact hseen r hr
        · rw [List.mem_singleton.mp hr]
          simp [Reply.settles, h0, h2, h4]

theorem reached_feed {t t' : JobTurn} {seen : List (Reply S)} {reply : Reply S}
    (h : Reached t seen) (hfeed : feed (resume toBase58 sha256 job) t reply = some t') :
    Reached t' (seen ++ [reply]) := by
  obtain ⟨point, t₁, hnext, hresume, rfl⟩ := feed_eq_some.mp hfeed
  rw [Reached, hnext] at h
  cases point with
  | proving n =>
    obtain ⟨hlow, hhigh, hlength, hspent, hseen⟩ := h
    cases reply with
    | exited code stderrTail disk => exact reached_exit hlow hhigh hlength hspent hseen hresume
    | _ => cases hresume
  | backingOff n =>
    obtain ⟨hlow, hhigh, hlength, hspent, hseen⟩ := h
    cases reply with
    | slept =>
      cases hresume
      refine ⟨by omega, by omega, ?_, ?_, ?_⟩
      · rw [List.length_append, List.length_singleton]
        omega
      · have hrun : Spent [Call.runProver job.txHash] 1 0 [] := ⟨rfl, rfl, rfl⟩
        have := hspent.append hrun
        rwa [Nat.add_zero, List.append_nil] at this
      · intro r hr
        rcases List.mem_append.mp hr with hr | hr
        · exact hseen r hr
        · rw [List.mem_singleton.mp hr]
          rfl
    | _ => cases hresume
  | fetching json =>
    obtain ⟨hlength, n, hn, hspent⟩ := h
    have hlength' : (seen ++ [reply]).length ≤ 6 := by
      rw [List.length_append, List.length_singleton]
      omega
    cases reply with
    | block hash ledger nowMs =>
      cases hash with
      | error e =>
        cases hresume
        exact (closes_refuse _).reached hn hspent hlength' nofun
      | ok hash =>
        cases hresume
        refine (closes_afterBlock json hash ledger nowMs).reached hn hspent hlength' ?_
        intro json' hnext'
        exact absurd hnext' (afterBlock_ne_fetching _ _ _ _ _)
    | _ => cases hresume
  | settling =>
    obtain ⟨hlength, n, hn, hspent⟩ := h
    have hlength' : (seen ++ [reply]).length ≤ 7 := by
      rw [List.length_append, List.length_singleton]
      omega
    cases reply with
    | settled result =>
      cases result with
      | error e =>
        cases hresume
        refine ⟨hlength', n, hn, 1, Nat.le_refl 1, ?_⟩
        rwa [andThen_calls, List.append_nil]
      | ok =>
        cases hresume
        refine ⟨hlength', n, hn, ?_⟩
        rw [andThen_calls]
        exact (List.append_nil t.calls).symm ▸ hspent
    | _ => cases hresume

theorem settledOnce_feed {t t' : JobTurn} {seen : List (Reply S)} {reply : Reply S}
    (h : Reached t seen) (honce : SettledOnce seen)
    (hfeed : feed (resume toBase58 sha256 job) t reply = some t') :
    SettledOnce (seen ++ [reply]) := by
  intro pre r post hsplit hsettles x hx
  rcases List.eq_nil_or_concat post with rfl | ⟨post', last, rfl⟩
  · exact absurd hx List.not_mem_nil
  rw [List.concat_eq_append] at hsplit hx
  obtain ⟨rfl, hlast⟩ := List.append_inj' (hsplit.trans (by simp :
    pre ++ r :: (post' ++ [last]) = (pre ++ r :: post') ++ [last])) rfl
  obtain rfl := (List.cons.inj hlast).1
  rcases List.mem_append.mp hx with hx | hx
  · exact honce pre r post' rfl hsettles x hx
  obtain rfl := List.mem_singleton.mp hx
  -- a job that still waits for the prover has seen nothing settled
  obtain ⟨point, t₁, hnext, hresume, rfl⟩ := feed_eq_some.mp hfeed
  cases x with
  | exited code stderrTail disk =>
    cases point with
    | proving n =>
      rw [Reached, hnext] at h
      have hfalse := h.2.2.2.2 r (List.mem_append_right _ List.mem_cons_self)
      exact absurd (hfalse.symm.trans hsettles) (by decide)
    | _ => cases hresume
  | _ => rfl

theorem Reached.bounds {t : JobTurn} {seen : List (Reply S)} (h : Reached t seen) :
    seen.length ≤ 7 ∧ ∃ n v k, n ≤ 3 ∧ v ≤ 1 ∧ k < 3 ∧
      Spent t.calls n v (RETRY_BACKOFF_MS.take k) ∧ (t.next = .returned → v = 1) := by
  rw [Reached] at h
  split at h
  case h_1 n hnext =>
    obtain ⟨hlow, hhigh, hlength, hspent, -⟩ := h
    refine ⟨by omega, n, 0, n - 1, hhigh, Nat.zero_le 1, by omega, hspent, fun hreturned => ?_⟩
    rw [hnext] at hreturned
    cases hreturned
  case h_2 n hnext =>
    obtain ⟨hlow, hhigh, hlength, hspent, -⟩ := h
    refine ⟨by omega, n, 0, n, by omega, Nat.zero_le 1, by omega, hspent, fun hreturned => ?_⟩
    rw [hnext] at hreturned
    cases hreturned
  case h_3 json hnext =>
    obtain ⟨hlength, n, hn, hspent⟩ := h
    refine ⟨by omega, n + 1, 0, n, hn, Nat.zero_le 1, hn, hspent, fun hreturned => ?_⟩
    rw [hnext] at hreturned
    cases hreturned
  case h_4 hnext =>
    obtain ⟨hlength, n, hn, hspent⟩ := h
    exact ⟨by omega, n + 1, 1, n, hn, Nat.le_refl 1, hn, hspent, fun _ => rfl⟩
  case h_5 hnext =>
    obtain ⟨hlength, n, hn, hspent⟩ := h
    exact ⟨hlength, n + 1, 1, n, hn, Nat.le_refl 1, hn, hspent, fun _ => rfl⟩
  case h_6 e hnext =>
    obtain ⟨hlength, n, hn, v, hv, hspent⟩ := h
    refine ⟨hlength, n + 1, v, n, hn, hv, hn, hspent, fun hreturned => ?_⟩
    rw [hnext] at hreturned
    cases hreturned

/-- Whatever it is answered, a job takes seven answers at most, runs the prover three times at most
with the pauses between them, and not again after an exit with 0, 2 or 4. It decides about the intent
at most once, and exactly once if it returns. -/
theorem job_bounded {replies : List (Reply S)} {t : JobTurn}
    (h : drive (resume toBase58 sha256 job) (start job) replies = some t) :
    replies.length ≤ 7 ∧ t.calls.countP Call.runs ≤ 3 ∧
      t.calls.filterMap Call.pause <+: [5000, 15000] ∧ SettledOnce replies ∧
      t.calls.countP Call.decides ≤ 1 ∧
      (t.next = .returned → t.calls.countP Call.decides = 1) := by
  have hstart : Reached (S := S) (start job) [] :=
    ⟨Nat.le_refl 1, by decide, rfl, ⟨rfl, rfl, rfl⟩, fun _ hr => absurd hr List.not_mem_nil⟩
  have honce : SettledOnce (S := S) [] := by
    intro pre r post hsplit
    exact absurd hsplit.symm (by simp)
  obtain ⟨hreached, hsettled⟩ := drive_invariant
    (I := fun t seen => Reached t seen ∧ SettledOnce seen)
    (fun t seen reply t' hI hfeed =>
      ⟨reached_feed hI.1 hfeed, settledOnce_feed hI.1 hI.2 hfeed⟩) [] h ⟨hstart, honce⟩
  rw [List.nil_append] at hreached hsettled
  obtain ⟨hlength, n, v, k, hn, hv, hk, hspent, hreturned⟩ := hreached.bounds
  have hpauses : ∀ k < 3, RETRY_BACKOFF_MS.take k <+: [5000, 15000] := by decide
  rw [hspent.runs, hspent.verdicts, hspent.pauses]
  exact ⟨hlength, hn, hpauses k hk, hsettled, hv, hreturned⟩

end job

/-- An SDK without proofs. -/
def noProofs : Sdk := ⟨Empty, Empty.elim, fun _ => Empty.elim⟩

/-- The prover runs out of memory once and then finds the intent bad. -/
def sampleReplies : List (Reply noProofs) :=
  [.exited 137 [] fun _ => none, .slept, .exited 2 [] fun _ => none]

theorem job_bounded_sample :
    ∃ t, drive (resume (fun _ => none) (fun _ => Bytes.fixed 32 0) ⟨[], [], []⟩)
        (start ⟨[], [], []⟩) sampleReplies = some t ∧
      t.calls.countP Call.runs = 2 ∧ t.calls.countP Call.decides = 1 := by
  obtain ⟨t, ht⟩ : ∃ t, drive (resume (fun _ => none) (fun _ => Bytes.fixed 32 0) ⟨[], [], []⟩)
      (start ⟨[], [], []⟩) sampleReplies = some t := ⟨_, rfl⟩
  have hend : t.next = .returned ∧ t.calls.countP Call.runs = 2 := by
    cases ht
    exact ⟨rfl, rfl⟩
  exact ⟨t, ht, hend.2, (job_bounded ht).2.2.2.2.2 hend.1⟩

end Maat.Orchestrator.Pipeline
