import Maat.Orchestrator.SettleScript

/-!
# The settlement script as a process

Up to its exit the script makes at most three calls, in this order: it submits its intent, prints
the signature of the settlement, and sends it once it was told to (`sends_after_go`). It exits with
code 0 for a Solana destination only after the network has shown that signature as confirmed
(`exit_zero_confirmed`), and once the signature is printed it ends in time, however the network and
its parent behave (`ends_in_time`).
-/

namespace Maat.Orchestrator.SettleScript

open Js Suspension

section

variable {keys : Keys} {lag : Nat} {settlement : Settlement}

/-! ## Waits -/

/-- A wait with a timeout throws, or goes on with an answer that came in time. -/
theorem withTimeout_eq_some {now : Nat} {label : String} {reply : Reply}
    {next : Nat → Answer → Option Step} {t : Step}
    (h : withTimeout lag now label reply next = some t) :
    reply.waited ≤ RPC_TIMEOUT_MS + lag ∧
      ((∃ message, t = ⟨now + reply.waited, [], .threw message⟩) ∨
        next (now + reply.waited) reply.answer = some t) := by
  unfold withTimeout at h
  split at h
  · cases h
  · next hwaited =>
    refine ⟨Nat.not_lt.mp hwaited, ?_⟩
    split at h
    · split at h
      · cases h
        exact .inl ⟨_, rfl⟩
      · cases h
    · cases h
      exact .inl ⟨_, rfl⟩
    · exact .inr h

theorem bare_eq_some {now : Nat} {reply : Reply} {next : Nat → Answer → Option Step} {t : Step}
    (h : bare now reply next = some t) :
    (∃ message, t = ⟨now + reply.waited, [], .threw message⟩) ∨
      next (now + reply.waited) reply.answer = some t := by
  unfold bare at h
  split at h
  · cases h
    exact .inl ⟨_, rfl⟩
  · cases h
  · exact .inr h

/-! ## Every step -/

/-- The statuses that end `pollForConfirmation` well. -/
def SignatureStatus.Confirms (value : SignatureStatus) : Prop :=
  value.err = false ∧ (value.confirmationStatus = some .confirmed ∨
    value.confirmationStatus = some .finalized)

/-- What a reply leads to. -/
inductive Moves (keys : Keys) (lag : Nat) (settlement : Settlement) (now : Nat) :
    Point → Reply → Step → Prop where
  | threw {point : Point} {reply : Reply} {message : Str} :
    Moves keys lag settlement now point reply ⟨now + reply.waited, [], .threw message⟩
  | programState {reply : Reply} {nonce : Nat} : Moves keys lag settlement now .programState reply
      (await (now + reply.waited) [] (.balanceBefore nonce))
  | balanceBefore {reply : Reply} {nonce : Nat} :
    Moves keys lag settlement now (.balanceBefore nonce) reply
      (await (now + reply.waited) [.submitIntent settlement nonce] (.submitIntent nonce))
  | submitted {reply : Reply} {nonce : Nat} :
    Moves keys lag settlement now (.submitIntent nonce) reply
      (await (now + reply.waited) [] .programStateAfter)
  | stateAfter {reply : Reply} {nonce : Nat} :
    Moves keys lag settlement now .programStateAfter reply
      (await (now + reply.waited) [] (.transaction nonce))
  | built {reply : Reply} {nonce : Nat} :
    Moves keys lag settlement now (.transaction nonce) reply
      (await (now + reply.waited) [] (.latestBlockhash nonce))
  | signed {reply : Reply} {nonce lastValidBlockHeight : Nat} {blockhash : Str} :
    Moves keys lag settlement now (.latestBlockhash nonce) reply
      (await (now + reply.waited)
        [.settlingSig (keys.signature ⟨settlement, nonce, blockhash⟩)]
        (.waitForGo ⟨⟨settlement, nonce, blockhash⟩, lastValidBlockHeight, now + reply.waited⟩))
  | go {reply : Reply} {signed : Signed} {bytes : List UInt8} : reply.answer = .chunk bytes →
    includesGo bytes = true →
      Moves keys lag settlement now (.waitForGo signed) reply
        (await (now + reply.waited) [.sendRawTransaction signed.tx] (.sendRawTransaction signed))
  | chunk {reply : Reply} {signed : Signed} {bytes : List UInt8} : reply.answer = .chunk bytes →
    Moves keys lag settlement now (.waitForGo signed) reply
      (await (now + reply.waited) [] (.waitForGo signed))
  | sent {reply : Reply} {signed : Signed} :
    Moves keys lag settlement now (.sendRawTransaction signed) reply
      (await (now + reply.waited) []
        (.signatureStatus signed (now + reply.waited + pollTimeoutMs)))
  | confirmed {reply : Reply} {signed : Signed} {deadline : Nat} {value : SignatureStatus} :
    reply.answer = .signatureStatus (some value) → value.Confirms →
      Moves keys lag settlement now (.signatureStatus signed deadline) reply
        (await (now + reply.waited) [] (.balanceAfter signed))
  | unconfirmed {reply : Reply} {signed : Signed} {deadline : Nat} :
    Moves keys lag settlement now (.signatureStatus signed deadline) reply
      (await (now + reply.waited) [] (.blockHeight signed deadline))
  | below {reply : Reply} {signed : Signed} {deadline : Nat} : now + reply.waited < deadline →
    Moves keys lag settlement now (.blockHeight signed deadline) reply
      (await (now + reply.waited) [] (.pollInterval signed deadline))
  | again {reply : Reply} {signed : Signed} {deadline : Nat} :
    pollIntervalMs ≤ reply.waited → reply.waited ≤ pollIntervalMs + lag →
      Moves keys lag settlement now (.pollInterval signed deadline) reply
        (await (now + reply.waited) [] (.signatureStatus signed deadline))
  | ended {reply : Reply} {signed : Signed} :
    Moves keys lag settlement now (.balanceAfter signed) reply
      ⟨now + reply.waited, [], .returned⟩

/-- How long a wait may be. -/
def waitAtMost (lag now : Nat) : Point → Option Nat
  | .balanceBefore _ | .latestBlockhash _ | .sendRawTransaction _ | .signatureStatus _ _
  | .blockHeight _ _ | .balanceAfter _ => some (RPC_TIMEOUT_MS + lag)
  | .waitForGo signed => some (signed.printedAt + goTimeoutMs + lag - now)
  | .pollInterval _ _ => some (pollIntervalMs + lag)
  | _ => none

theorem moves_of_resume {now : Nat} {point : Point} {reply : Reply} {t : Step}
    (h : resume keys lag settlement now point reply = some t) :
    Moves keys lag settlement now point reply t ∧
      ∀ most, waitAtMost lag now point = some most → reply.waited ≤ most := by
  have hfree : waitAtMost lag now point = none →
      ∀ most, waitAtMost lag now point = some most → reply.waited ≤ most := by
    intro hnone most hmost
    rw [hnone] at hmost
    cases hmost
  have htimed : waitAtMost lag now point = some (RPC_TIMEOUT_MS + lag) →
      reply.waited ≤ RPC_TIMEOUT_MS + lag →
      ∀ most, waitAtMost lag now point = some most → reply.waited ≤ most := by
    intro hsome hwaited most hmost
    cases hsome.symm.trans hmost
    exact hwaited
  cases point with
  | programState =>
    refine ⟨?_, hfree rfl⟩
    simp only [resume] at h
    obtain ⟨message, rfl⟩ | hnext := bare_eq_some h
    · exact .threw
    · split at hnext
      · split at hnext <;> cases hnext
        · exact .programState
        · exact .threw
      · cases hnext
  | balanceBefore nonce =>
    simp only [resume] at h
    obtain ⟨hwaited, ⟨message, rfl⟩ | hnext⟩ := withTimeout_eq_some h
    · exact ⟨.threw, htimed rfl hwaited⟩
    · refine ⟨?_, htimed rfl hwaited⟩
      split at hnext <;> cases hnext
      exact .balanceBefore
  | submitIntent nonce =>
    refine ⟨?_, hfree rfl⟩
    simp only [resume] at h
    obtain ⟨message, rfl⟩ | hnext := bare_eq_some h
    · exact .threw
    · split at hnext <;> cases hnext
      exact .submitted
  | programStateAfter =>
    refine ⟨?_, hfree rfl⟩
    simp only [resume] at h
    obtain ⟨message, rfl⟩ | hnext := bare_eq_some h
    · exact .threw
    · split at hnext
      · split at hnext <;> cases hnext
        · exact .stateAfter
        · exact .threw
      · cases hnext
  | transaction nonce =>
    refine ⟨?_, hfree rfl⟩
    simp only [resume] at h
    obtain ⟨message, rfl⟩ | hnext := bare_eq_some h
    · exact .threw
    · split at hnext <;> cases hnext
      exact .built
  | latestBlockhash nonce =>
    simp only [resume] at h
    obtain ⟨hwaited, ⟨message, rfl⟩ | hnext⟩ := withTimeout_eq_some h
    · exact ⟨.threw, htimed rfl hwaited⟩
    · refine ⟨?_, htimed rfl hwaited⟩
      split at hnext <;> cases hnext
      exact .signed
  | waitForGo signed =>
    simp only [resume] at h
    split at h
    · cases h
    · next hwaited =>
      have hmost (most : Nat) (hmost : waitAtMost lag now (.waitForGo signed) = some most) :
          reply.waited ≤ most := by
        cases hmost
        omega
      split at h
      · next bytes hanswer =>
        split at h <;> cases h
        · next hgo => exact ⟨.go hanswer hgo, hmost⟩
        · exact ⟨.chunk hanswer, hmost⟩
      · split at h <;> cases h
        exact ⟨.threw, hmost⟩
      · cases h
  | sendRawTransaction signed =>
    simp only [resume] at h
    obtain ⟨hwaited, ⟨message, rfl⟩ | hnext⟩ := withTimeout_eq_some h
    · exact ⟨.threw, htimed rfl hwaited⟩
    · refine ⟨?_, htimed rfl hwaited⟩
      split at hnext <;> cases hnext
      exact .sent
  | signatureStatus signed deadline =>
    simp only [resume] at h
    obtain ⟨hwaited, ⟨message, rfl⟩ | hnext⟩ := withTimeout_eq_some h
    · exact ⟨.threw, htimed rfl hwaited⟩
    · refine ⟨?_, htimed rfl hwaited⟩
      split at hnext
      · next value hanswer =>
        split at hnext
        · cases hnext
          exact .threw
        · next herr =>
          split at hnext <;> cases hnext
          · next hconfirmed =>
            cases value with
            | none => cases hconfirmed
            | some value =>
              refine .confirmed hanswer ⟨Bool.eq_false_iff.mpr herr, ?_⟩
              simpa using hconfirmed
          · exact .unconfirmed
      · cases hnext
  | blockHeight signed deadline =>
    simp only [resume] at h
    obtain ⟨hwaited, ⟨message, rfl⟩ | hnext⟩ := withTimeout_eq_some h
    · exact ⟨.threw, htimed rfl hwaited⟩
    · refine ⟨?_, htimed rfl hwaited⟩
      split at hnext
      · split at hnext
        · cases hnext
          exact .threw
        · split at hnext <;> cases hnext
          · exact .threw
          · next hbelow => exact .below (Nat.not_le.mp hbelow)
      · cases hnext
  | pollInterval signed deadline =>
    simp only [resume] at h
    split at h <;> cases h
    next helapsed =>
    refine ⟨.again helapsed.2.1 helapsed.2.2, fun most hmost => ?_⟩
    cases hmost
    exact helapsed.2.2
  | balanceAfter signed =>
    simp only [resume] at h
    obtain ⟨hwaited, ⟨message, rfl⟩ | hnext⟩ := withTimeout_eq_some h
    · exact ⟨.threw, htimed rfl hwaited⟩
    · refine ⟨?_, htimed rfl hwaited⟩
      split at hnext <;> cases hnext
      exact .ended

/-! ## What has been done -/

/-- A chunk with the parent's `GO` has come. -/
def Told (seen : List Reply) : Prop :=
  ∃ reply ∈ seen, ∃ bytes, reply.answer = .chunk bytes ∧ includesGo bytes = true

structure Sent (keys : Keys) (settlement : Settlement) (seen : List Reply) (calls : List Call)
    (tx : SettleTx) : Prop where
  settles : tx.settlement = settlement
  calls : ∃ nonce, calls = [.submitIntent settlement nonce, .settlingSig (keys.signature tx),
    .sendRawTransaction tx]
  told : Told seen

/-- The calls made when the script comes to wait at a point. -/
def DoneAt (keys : Keys) (settlement : Settlement) (seen : List Reply) (calls : List Call) :
    Point → Prop
  | .programState | .balanceBefore _ => calls = []
  | .submitIntent _ | .programStateAfter | .transaction _ | .latestBlockhash _ =>
    ∃ nonce, calls = [.submitIntent settlement nonce]
  | .waitForGo signed => signed.tx.settlement = settlement ∧
    ∃ nonce, calls = [.submitIntent settlement nonce, .settlingSig (keys.signature signed.tx)]
  | .sendRawTransaction signed | .signatureStatus signed _ | .blockHeight signed _
  | .pollInterval signed _ | .balanceAfter signed => Sent keys settlement seen calls signed.tx

theorem Told.snoc {seen : List Reply} (h : Told seen) (reply : Reply) : Told (seen ++ [reply]) := by
  obtain ⟨r, hr, hgo⟩ := h
  exact ⟨r, List.mem_append_left _ hr, hgo⟩

theorem Sent.snoc {seen : List Reply} {calls : List Call} {tx : SettleTx}
    (h : Sent keys settlement seen calls tx) (reply : Reply) :
    Sent keys settlement (seen ++ [reply]) calls tx :=
  ⟨h.settles, h.calls, h.told.snoc reply⟩

theorem DoneAt.snoc {seen : List Reply} {calls : List Call} {point : Point}
    (h : DoneAt keys settlement seen calls point) (reply : Reply) :
    DoneAt keys settlement (seen ++ [reply]) calls point := by
  cases point with
  | sendRawTransaction | signatureStatus | blockHeight | pollInterval | balanceAfter =>
    exact Sent.snoc h reply
  | _ => exact h

/-- The network has shown the signature of a transaction as confirmed. -/
def ShowsConfirmed (tx : SettleTx) (_now : Nat) (point : Point) (reply : Reply) : Prop :=
  ∃ signed deadline value, point = .signatureStatus signed deadline ∧ signed.tx = tx ∧
    reply.answer = .signatureStatus (some value) ∧ value.Confirms

/-- What holds of the calls after any replies. -/
def Done (keys : Keys) (lag : Nat) (settlement : Settlement) (start t : Step)
    (seen : List Reply) : Prop :=
  match t.next with
  | .await point => DoneAt keys settlement seen t.calls point ∧
    ∀ signed, point = .balanceAfter signed →
      Came (resume keys lag settlement) start seen (ShowsConfirmed signed.tx)
  | .returned => ∃ tx, Sent keys settlement seen t.calls tx ∧
    Came (resume keys lag settlement) start seen (ShowsConfirmed tx)
  | .threw _ => ∃ point, DoneAt keys settlement seen t.calls point

theorem came_snoc {start t : Step} {seen : List Reply} {reply : Reply}
    {P : Nat → Point → Reply → Prop}
    (hrun : Run.run (feed (resume keys lag settlement)) start seen = some t) :
    Came (resume keys lag settlement) start (seen ++ [reply]) P ↔
      Came (resume keys lag settlement) start seen P ∨
        ∃ point, t.next = .await point ∧ P t.state point reply :=
  Run.happened_snoc hrun

theorem done_feed {start t t' : Step} {seen : List Reply} {reply : Reply}
    (hrun : Run.run (feed (resume keys lag settlement)) start seen = some t)
    (h : Done keys lag settlement start t seen)
    (hfeed : feed (resume keys lag settlement) t reply = some t') :
    Done keys lag settlement start t' (seen ++ [reply]) := by
  obtain ⟨point, t₁, hnext, hresume, rfl⟩ := feed_eq_some.mp hfeed
  obtain ⟨hmoves, -⟩ := moves_of_resume hresume
  unfold Done at h
  rw [hnext] at h
  obtain ⟨hdone, hshown⟩ := h
  have hlater : DoneAt keys settlement (seen ++ [reply]) t.calls point := hdone.snoc reply
  have hquiet : DoneAt keys settlement (seen ++ [reply]) (t.calls ++ []) point := by
    rwa [List.append_nil]
  unfold Done
  cases hmoves with
  | threw => exact ⟨point, hquiet⟩
  | programState | submitted | stateAfter | built | chunk _ | sent | unconfirmed | below _
  | again _ _ =>
    exact ⟨hquiet, fun _ heq => by cases heq⟩
  | @balanceBefore _ nonce =>
    refine ⟨⟨nonce, ?_⟩, fun _ heq => by cases heq⟩
    rw [andThen_calls, show t.calls = [] from hlater]
    rfl
  | signed =>
    obtain ⟨nonce, hcalls⟩ := hlater
    refine ⟨⟨rfl, nonce, ?_⟩, fun _ heq => by cases heq⟩
    rw [andThen_calls, hcalls]
    rfl
  | go hchunk hgo =>
    obtain ⟨hsettlement, nonce, hcalls⟩ := hlater
    refine ⟨⟨hsettlement, ⟨nonce, ?_⟩, ?_⟩, fun _ heq => by cases heq⟩
    · rw [andThen_calls, hcalls]
      rfl
    · exact ⟨reply, List.mem_append_right _ (.head _), _, hchunk, hgo⟩
  | @confirmed _ signed deadline value hanswer hconfirms =>
    refine ⟨hquiet, fun other heq => ?_⟩
    cases heq
    exact (came_snoc hrun).mpr (.inr ⟨_, hnext, signed, deadline, value, rfl, rfl, hanswer,
      hconfirms⟩)
  | @ended _ signed =>
    exact ⟨signed.tx, hquiet,
      (came_snoc hrun).mpr (.inl (hshown signed rfl))⟩

end

/-! ## A run -/

/-- What an environment asks for. -/
structure Asks (keys : Keys) (env : Environment) (settlement : Settlement) : Prop where
  chain : orElse env.DESTINATION_CHAIN_ID SOLANA_CHAIN_ID = SOLANA_CHAIN_ID
  destination : keys.publicKey (orElse env.DESTINATION_WALLET treasuryWallet) =
    some settlement.destination
  amount : env.PROOF_AMOUNT_WEI.bind weiToLamports = some settlement.amount
  proofHash : normalizeProofHashHex env.PROOF_HASH_HEX = some settlement.proofHash
  hotWallet : env.hotWallet = some settlement.hotWallet

/-- What the script starts with. -/
inductive Starts (keys : Keys) (env : Environment) : Step × Option Settlement → Prop where
  | elsewhere : orElse env.DESTINATION_CHAIN_ID SOLANA_CHAIN_ID ≠ SOLANA_CHAIN_ID →
    Starts keys env (⟨0, [], .returned⟩, none)
  | refused (message : Str) : Starts keys env (⟨0, [], .threw message⟩, none)
  | asked {settlement : Settlement} : Asks keys env settlement →
    Starts keys env (await 0 [] .programState, some settlement)

theorem starts (keys : Keys) (env : Environment) : Starts keys env (runSettlement keys env) := by
  unfold runSettlement
  split
  · next hchain => exact .elsewhere hchain
  next hchain =>
  split
  · exact .refused _
  next destination hdestination =>
  split
  · exact .refused _
  next hgiven =>
  split
  · exact .refused _
  next amount hamount =>
  split
  · exact .refused _
  next proofHash hproofHash =>
  split
  · next hotWallet hhotWallet _ =>
    refine .asked ⟨not_ne_iff.mp hchain, hdestination, ?_, hproofHash, hhotWallet⟩
    cases htext : env.PROOF_AMOUNT_WEI with
    | none =>
      rw [htext] at hgiven
      exact absurd rfl hgiven
    | some text =>
      rw [htext] at hamount hgiven
      cases text with
      | nil => exact absurd rfl hgiven
      | cons c text => exact hamount
  · exact .refused _

/-- What is left of a run: nothing was begun, or all of it is done so far. -/
theorem run_cases {keys : Keys} {lag : Nat} {env : Environment} {replies : List Reply} {t : Step}
    (h : run keys lag env replies = some t) :
    (t.calls = [] ∧ (t.next = .returned →
        orElse env.DESTINATION_CHAIN_ID SOLANA_CHAIN_ID ≠ SOLANA_CHAIN_ID) ∧
      ∀ point, t.next ≠ .await point) ∨
    ∃ settlement, Asks keys env settlement ∧
      runSettlement keys env = (await 0 [] .programState, some settlement) ∧
      Run.run (feed (resume keys lag settlement)) (await 0 [] .programState) replies = some t := by
  have hstarts := starts keys env
  unfold run at h
  generalize runSettlement keys env = started at h hstarts
  cases hstarts with
  | elsewhere hchain =>
    dsimp only at h
    split at h <;> cases h
    exact .inl ⟨rfl, fun _ => hchain, by simp⟩
  | refused message =>
    dsimp only at h
    split at h <;> cases h
    exact .inl ⟨rfl, by simp, by simp⟩
  | asked hasks => exact .inr ⟨_, hasks, rfl, (drive_eq_run _ _).symm.trans h⟩

theorem done_of_run {keys : Keys} {lag : Nat} {settlement : Settlement} {replies : List Reply}
    {t : Step} (h : Run.run (feed (resume keys lag settlement)) (await 0 [] .programState) replies =
      some t) : Done keys lag settlement (await 0 [] .programState) t replies := by
  refine Run.run_history (I := fun t seen => Done keys lag settlement _ t seen) ?_ h ?_
  · exact fun seen t reply t' hrun hdone hfeed => done_feed hrun hdone hfeed
  · exact ⟨rfl, fun _ heq => by cases heq⟩

/-- What a run has done so far is for a settlement that its environment asks for. -/
theorem begun_of_run {keys : Keys} {lag : Nat} {env : Environment} {replies : List Reply}
    {t : Step} (h : run keys lag env replies = some t) (hbegun : t.calls ≠ []) :
    ∃ settlement point, Asks keys env settlement ∧
      DoneAt keys settlement replies t.calls point := by
  obtain ⟨hnone, -⟩ | ⟨settlement, hasks, -, hrun⟩ := run_cases h
  · exact absurd hnone hbegun
  have hdone := done_of_run hrun
  unfold Done at hdone
  split at hdone
  · exact ⟨settlement, _, hasks, hdone.1⟩
  · obtain ⟨tx, hsent, -⟩ := hdone
    exact ⟨settlement, .balanceAfter ⟨tx, 0, 0⟩, hasks, hsent⟩
  · obtain ⟨point, hpoint⟩ := hdone
    exact ⟨settlement, point, hasks, hpoint⟩

theorem DoneAt.among {keys : Keys} {settlement : Settlement} {seen : List Reply}
    {calls : List Call} {point : Point} (h : DoneAt keys settlement seen calls point) :
    ∃ nonce tx, tx.settlement = settlement ∧
      calls <+: [.submitIntent settlement nonce, .settlingSig (keys.signature tx),
        .sendRawTransaction tx] ∧ ((∃ tx, .sendRawTransaction tx ∈ calls) → Told seen) := by
  cases point with
  | programState | balanceBefore =>
    obtain rfl : calls = [] := h
    exact ⟨0, ⟨settlement, 0, []⟩, rfl, List.nil_prefix, by simp⟩
  | submitIntent | programStateAfter | transaction | latestBlockhash =>
    obtain ⟨nonce, rfl⟩ := h
    exact ⟨nonce, ⟨settlement, 0, []⟩, rfl, List.prefix_append _ _, by simp⟩
  | waitForGo signed =>
    obtain ⟨hsettles, nonce, rfl⟩ := h
    exact ⟨nonce, signed.tx, hsettles, List.prefix_append _ _, by simp⟩
  | sendRawTransaction signed | signatureStatus signed | blockHeight signed | pollInterval signed
  | balanceAfter signed =>
    obtain ⟨hsettles, ⟨nonce, rfl⟩, htold⟩ := h
    exact ⟨nonce, signed.tx, hsettles, List.prefix_rfl, fun _ => htold⟩

def sampleKeys : Keys where
  publicKey _ := some 0x33
  signature _ := "5ig".toList

/-- One ether for a wallet on Solana. -/
def sampleEnv : Environment where
  DESTINATION_CHAIN_ID := some SOLANA_CHAIN_ID
  DESTINATION_WALLET := some "dest".toList
  PROOF_AMOUNT_WEI := some "0x0de0b6b3a7640000".toList
  PROOF_HASH_HEX := some ("0x".toList ++ List.replicate 64 'a')
  hotWallet := some 0x44
  idl := true

def sampleTx : SettleTx where
  settlement := ⟨0x33, 1000000000, List.replicate 64 'a', 0x44⟩
  usedNonce := 4
  blockhash := "hash".toList

/-- What comes until the signature is printed. -/
def sampleBefore : List Reply :=
  [⟨100, .intentNonce 4⟩, ⟨100, .balance 5⟩, ⟨900, .submitted "tx".toList⟩, ⟨100, .intentNonce 5⟩,
    ⟨10, .transaction⟩, ⟨100, .latestBlockhash "hash".toList 1000⟩]

/-- `GO` in a chunk of its own, and a confirmation in the second round. -/
def sampleAfter : List Reply :=
  [⟨50, .chunk (ascii "GO\n")⟩, ⟨200, .sent⟩, ⟨100, .signatureStatus none⟩, ⟨100, .blockHeight 900⟩,
    ⟨2004, .elapsed⟩, ⟨100, .signatureStatus (some ⟨false, some .confirmed⟩)⟩, ⟨100, .balance 6⟩]

def sampleCalls : List Call :=
  [.submitIntent sampleTx.settlement 4, .settlingSig "5ig".toList, .sendRawTransaction sampleTx]

theorem sample_run : run sampleKeys 5 sampleEnv (sampleBefore ++ sampleAfter) =
    some ⟨3964, sampleCalls, .returned⟩ := by
  decide

/-- The script submits one intent, prints the signature of the transaction that settles it, and
sends that transaction, in this order and each at most once. It sends it only when it was told to,
and begins at all only for a settlement that its environment asks for. -/
theorem sends_after_go {keys : Keys} {lag : Nat} {env : Environment} {replies : List Reply}
    {t : Step} (h : run keys lag env replies = some t) :
    ∃ nonce tx, t.calls <+: [.submitIntent tx.settlement nonce, .settlingSig (keys.signature tx),
        .sendRawTransaction tx] ∧
      (t.calls ≠ [] → Asks keys env tx.settlement) ∧
      ((∃ tx, .sendRawTransaction tx ∈ t.calls) → Told replies) := by
  by_cases hbegun : t.calls = []
  · rw [hbegun]
    exact ⟨0, ⟨⟨0, 0, [], 0⟩, 0, []⟩, List.nil_prefix, by simp, by simp⟩
  obtain ⟨settlement, point, hasks, hpoint⟩ := begun_of_run h hbegun
  obtain ⟨nonce, tx, rfl, hcalls, htold⟩ := hpoint.among
  exact ⟨nonce, tx, hcalls, fun _ => hasks, htold⟩

theorem sends_after_go_sample :
    ∃ nonce tx, sampleCalls <+: [.submitIntent tx.settlement nonce,
        .settlingSig (sampleKeys.signature tx), .sendRawTransaction tx] ∧
      Asks sampleKeys sampleEnv tx.settlement ∧ Told (sampleBefore ++ sampleAfter) := by
  obtain ⟨nonce, tx, hcalls, hasks, htold⟩ := sends_after_go sample_run
  exact ⟨nonce, tx, hcalls, hasks (by simp [sampleCalls]), htold ⟨sampleTx, by simp [sampleCalls]⟩⟩

/-- Where it exits with code 0 its environment named another chain and it did nothing, or it has
sent the settlement that was asked for and the network has shown that transaction as confirmed. -/
theorem exit_zero_confirmed {keys : Keys} {lag : Nat} {env : Environment} {replies : List Reply}
    {t : Step} (h : run keys lag env replies = some t) (hexit : exitCode t.next = some 0) :
    (orElse env.DESTINATION_CHAIN_ID SOLANA_CHAIN_ID ≠ SOLANA_CHAIN_ID ∧ t.calls = []) ∨
    ∃ settlement nonce tx, Asks keys env settlement ∧ tx.settlement = settlement ∧
      t.calls = [.submitIntent settlement nonce, .settlingSig (keys.signature tx),
        .sendRawTransaction tx] ∧
      Told replies ∧
      Came (resume keys lag settlement) (runSettlement keys env).1 replies (ShowsConfirmed tx) := by
  have hreturned : t.next = .returned := by
    unfold exitCode at hexit
    split at hexit
    · cases hexit
    · assumption
    · cases hexit
  obtain ⟨hnone, hchain, -⟩ | ⟨settlement, hasks, hstart, hrun⟩ := run_cases h
  · exact .inl ⟨hchain hreturned, hnone⟩
  have hdone := done_of_run hrun
  unfold Done at hdone
  rw [hreturned] at hdone
  obtain ⟨tx, ⟨hsettles, ⟨nonce, hcalls⟩, htold⟩, hshown⟩ := hdone
  exact .inr ⟨settlement, nonce, tx, hasks, hsettles, hcalls, htold, hstart ▸ hshown⟩

theorem exit_zero_confirmed_sample :
    ∃ settlement nonce tx, Asks sampleKeys sampleEnv settlement ∧ tx.settlement = settlement ∧
      sampleCalls = [.submitIntent settlement nonce, .settlingSig (sampleKeys.signature tx),
        .sendRawTransaction tx] ∧
      Told (sampleBefore ++ sampleAfter) ∧
      Came (resume sampleKeys 5 settlement) (runSettlement sampleKeys sampleEnv).1
        (sampleBefore ++ sampleAfter) (ShowsConfirmed tx) := by
  obtain ⟨hchain, -⟩ | hpaid := exit_zero_confirmed sample_run rfl
  · exact absurd rfl hchain
  · exact hpaid

/-! ## Time -/

/-- Where the script can be after `n` waits that no chunk ended, from the printing of a signature
on. Each round of `pollForConfirmation` has three waits, and takes two seconds at least. -/
def PacedAt (lag : Nat) (signed : Signed) (now n : Nat) : Point → Prop
  | .waitForGo signed' => signed' = signed ∧ n = 0 ∧ now ≤ signed.printedAt + goTimeoutMs + lag
  | .sendRawTransaction _ => n = 0 ∧ now ≤ signed.printedAt + goTimeoutMs + lag
  | .signatureStatus _ deadline => deadline ≤ signed.printedAt + 135000 + 2 * lag ∧
    now < deadline + 2000 + lag ∧ n ≤ 136 ∧
      ∃ k, n = 1 + 3 * k ∧ deadline + 2000 * k ≤ now + 90000
  | .blockHeight _ deadline => deadline ≤ signed.printedAt + 135000 + 2 * lag ∧
    now < deadline + 17000 + 2 * lag ∧ n ≤ 137 ∧
      ∃ k, n = 2 + 3 * k ∧ deadline + 2000 * k ≤ now + 90000
  | .pollInterval _ deadline => deadline ≤ signed.printedAt + 135000 + 2 * lag ∧
    now < deadline ∧ ∃ k, n = 3 + 3 * k ∧ deadline + 2000 * k ≤ now + 90000
  | .balanceAfter _ => n ≤ 137 ∧ now < signed.printedAt + 152000 + 4 * lag
  | _ => False

def Paced (lag : Nat) (signed : Signed) (t : Step) (n : Nat) : Prop :=
  match t.next with
  | .await point => PacedAt lag signed t.state n point
  | _ => n ≤ 138 ∧ t.state ≤ signed.printedAt + 167000 + 5 * lag

def Reply.isChunk (reply : Reply) : Bool :=
  match reply.answer with
  | .chunk _ => true
  | _ => false

theorem waitsForGo_of_chunk {keys : Keys} {lag now : Nat} {settlement : Settlement} {point : Point}
    {reply : Reply} {t : Step} (h : resume keys lag settlement now point reply = some t)
    (hchunk : reply.isChunk = true) : ∃ signed, point = .waitForGo signed := by
  obtain ⟨waited, answer⟩ := reply
  cases answer with
  | chunk bytes =>
    cases point with
    | waitForGo signed => exact ⟨signed, rfl⟩
    | _ => simp [resume, bare, withTimeout] at h
  | _ => cases hchunk

/-- Every wait of these rounds has a bound, and after the last round the deadline is past. -/
theorem paced_feed {keys : Keys} {lag : Nat} {settlement : Settlement} {signed : Signed}
    {t t' : Step} {n : Nat} {reply : Reply} (h : Paced lag signed t n)
    (hfeed : feed (resume keys lag settlement) t reply = some t') :
    Paced lag signed t' (n + if reply.isChunk then 0 else 1) := by
  obtain ⟨point, t₁, hnext, hresume, rfl⟩ := feed_eq_some.mp hfeed
  obtain ⟨hmoves, hwaited⟩ := moves_of_resume hresume
  have hchunk := waitsForGo_of_chunk hresume
  unfold Paced at h
  rw [hnext] at h
  dsimp only at h
  unfold Paced
  rw [andThen_next, andThen_state]
  generalize t.state = now at h hmoves hwaited
  have hcounts (hgo : ∀ signed, point ≠ .waitForGo signed) :
      (if reply.isChunk then 0 else 1) = 1 := by
    refine if_neg fun htrue => ?_
    obtain ⟨signed, hpoint⟩ := hchunk htrue
    exact hgo signed hpoint
  have hfree (bytes : List UInt8) (hanswer : reply.answer = .chunk bytes) :
      (if reply.isChunk then 0 else 1) = 0 :=
    if_pos (by rw [Reply.isChunk, hanswer])
  cases hmoves with
  | programState | balanceBefore | submitted | stateAfter | built | signed => cases h
  | threw =>
    have hone : (if reply.isChunk then 0 else 1) ≤ 1 := by split <;> decide
    cases point with
    | waitForGo signed' =>
      obtain ⟨rfl, rfl, hnow⟩ := h
      have hmost := hwaited _ rfl
      dsimp only [goTimeoutMs] at hmost hnow ⊢
      omega
    | sendRawTransaction =>
      obtain ⟨rfl, hnow⟩ := h
      have hmost := hwaited _ rfl
      dsimp only [RPC_TIMEOUT_MS, goTimeoutMs] at hmost hnow ⊢
      omega
    | signatureStatus | blockHeight =>
      obtain ⟨hdeadline, hnow, hn, -⟩ := h
      have hmost := hwaited _ rfl
      dsimp only [RPC_TIMEOUT_MS] at hmost ⊢
      omega
    | pollInterval =>
      obtain ⟨hdeadline, hnow, k, rfl, hrounds⟩ := h
      have hmost := hwaited _ rfl
      dsimp only [pollIntervalMs] at hmost ⊢
      omega
    | balanceAfter =>
      obtain ⟨hn, hnow⟩ := h
      have hmost := hwaited _ rfl
      dsimp only [RPC_TIMEOUT_MS] at hmost ⊢
      omega
    | _ => cases h
  | go hanswer _ =>
    obtain ⟨rfl, rfl, hnow⟩ := h
    have hmost := hwaited _ rfl
    rw [hfree _ hanswer]
    dsimp only [await, PacedAt]
    omega
  | chunk hanswer =>
    obtain ⟨rfl, rfl, hnow⟩ := h
    have hmost := hwaited _ rfl
    rw [hfree _ hanswer]
    dsimp only [await, PacedAt]
    exact ⟨rfl, rfl, by omega⟩
  | sent =>
    obtain ⟨rfl, hnow⟩ := h
    have hmost := hwaited _ rfl
    rw [hcounts (by simp)]
    dsimp only [await, PacedAt, RPC_TIMEOUT_MS, goTimeoutMs, pollTimeoutMs] at hmost hnow ⊢
    exact ⟨by omega, by omega, by omega, 0, rfl, by omega⟩
  | confirmed _ _ =>
    obtain ⟨hdeadline, hnow, hn, -⟩ := h
    have hmost := hwaited _ rfl
    rw [hcounts (by simp)]
    dsimp only [await, PacedAt, RPC_TIMEOUT_MS] at hmost ⊢
    omega
  | unconfirmed =>
    obtain ⟨hdeadline, hnow, hn, k, rfl, hrounds⟩ := h
    have hmost := hwaited _ rfl
    rw [hcounts (by simp)]
    dsimp only [await, PacedAt, RPC_TIMEOUT_MS] at hmost ⊢
    exact ⟨hdeadline, by omega, by omega, k, by omega, by omega⟩
  | below hbelow =>
    obtain ⟨hdeadline, -, -, k, rfl, hrounds⟩ := h
    rw [hcounts (by simp)]
    dsimp only [await, PacedAt]
    exact ⟨hdeadline, hbelow, k, by omega, by omega⟩
  | again hleast hmost =>
    obtain ⟨hdeadline, hnow, k, rfl, hrounds⟩ := h
    rw [hcounts (by simp)]
    obtain ⟨next, hk⟩ : ∃ next, next = k + 1 := ⟨_, rfl⟩
    dsimp only [await, PacedAt, pollIntervalMs] at hleast hmost ⊢
    exact ⟨hdeadline, by omega, by omega, next, by omega, by omega⟩
  | ended =>
    obtain ⟨hn, hnow⟩ := h
    have hmost := hwaited _ rfl
    rw [hcounts (by simp)]
    dsimp only [RPC_TIMEOUT_MS] at hmost ⊢
    omega

theorem Paced.bounds {lag n : Nat} {signed : Signed} {t : Step} (h : Paced lag signed t n) :
    n ≤ 138 ∧ t.state ≤ signed.printedAt + 167000 + 5 * lag := by
  unfold Paced at h
  split at h
  · next point _ =>
    cases point with
    | waitForGo =>
      obtain ⟨-, rfl, hnow⟩ := h
      rw [goTimeoutMs] at hnow
      omega
    | sendRawTransaction =>
      obtain ⟨rfl, hnow⟩ := h
      rw [goTimeoutMs] at hnow
      omega
    | signatureStatus | blockHeight =>
      obtain ⟨hdeadline, hnow, hn, -⟩ := h
      omega
    | pollInterval =>
      obtain ⟨hdeadline, hnow, k, rfl, hrounds⟩ := h
      omega
    | balanceAfter =>
      obtain ⟨hn, hnow⟩ := h
      omega
    | _ => cases h
  · exact h

/-- Wherever the script waits in these rounds, a timer runs. -/
theorem feed_elapsed {keys : Keys} {lag n : Nat} {settlement : Settlement} {signed : Signed}
    {t : Step} (h : Paced lag signed t n) {point : Point} (hnext : t.next = .await point) :
    ∃ waited t', feed (resume keys lag settlement) t ⟨waited, .elapsed⟩ = some t' := by
  unfold Paced at h
  rw [hnext] at h
  suffices h : ∃ waited t₁,
      resume keys lag settlement t.state point ⟨waited, .elapsed⟩ = some t₁ by
    obtain ⟨waited, t₁, hresume⟩ := h
    exact ⟨waited, _, feed_eq_some.mpr ⟨point, t₁, hnext, hresume, rfl⟩⟩
  cases point with
  | waitForGo signed' =>
    obtain ⟨rfl, -, hnow⟩ := h
    have hlate : ¬signed'.printedAt + goTimeoutMs + lag <
        t.state + (signed'.printedAt + goTimeoutMs - t.state) := by omega
    have htime : signed'.printedAt + goTimeoutMs ≤
        t.state + (signed'.printedAt + goTimeoutMs - t.state) := by omega
    exact ⟨signed'.printedAt + goTimeoutMs - t.state, _,
      (if_neg hlate).trans (if_pos htime)⟩
  | sendRawTransaction | signatureStatus | blockHeight | balanceAfter =>
    exact ⟨RPC_TIMEOUT_MS, _, (if_neg (by simp)).trans (if_pos le_rfl)⟩
  | pollInterval =>
    exact ⟨pollIntervalMs, _, if_pos ⟨rfl, le_rfl, Nat.le_add_right _ _⟩⟩
  | _ => cases h

/-- The wait for `GO` is never longer than its timer. -/
theorem waitForGo_in_time {keys : Keys} {lag : Nat} {settlement : Settlement}
    {replies : List Reply} {t : Step} {signed : Signed}
    (hrun : Run.run (feed (resume keys lag settlement)) (await 0 [] .programState) replies = some t)
    (hnext : t.next = .await (.waitForGo signed)) :
    t.state ≤ signed.printedAt + goTimeoutMs + lag := by
  refine Run.run_invariant (I := fun t : Step => ∀ signed, t.next = .await (.waitForGo signed) →
    t.state ≤ signed.printedAt + goTimeoutMs + lag) (fun _ => True) ?_ (fun _ _ => trivial) hrun
    (fun _ heq => by cases heq) signed hnext
  intro t reply t' _ htime hfeed signed hnext'
  obtain ⟨point, t₁, hnext, hresume, rfl⟩ := feed_eq_some.mp hfeed
  obtain ⟨hmoves, hwaited⟩ := moves_of_resume hresume
  cases hmoves with
  | signed =>
    cases hnext'
    dsimp only [await, andThen_state]
    omega
  | chunk _ =>
    cases hnext'
    have hbefore := htime signed hnext
    have hmost := hwaited _ rfl
    dsimp only [await, andThen_state]
    omega
  | _ => cases hnext'

/-- Once a signature is printed the script ends within 167 seconds, if its timers are on time, and
after at most 138 waits that the parent does not end: wherever it waits a timer runs. -/
theorem ends_in_time {keys : Keys} {lag : Nat} {env : Environment} {before after : List Reply}
    {t₁ t : Step} {signed : Signed} (hprinted : run keys lag env before = some t₁)
    (hwaits : t₁.next = .await (.waitForGo signed))
    (h : run keys lag env (before ++ after) = some t) :
    t.state ≤ signed.printedAt + 167000 + 5 * lag ∧
      after.countP (fun reply => !reply.isChunk) ≤ 138 ∧
      ∀ point, t.next = .await point → ∃ waited t',
        run keys lag env (before ++ after ++ [⟨waited, .elapsed⟩]) = some t' := by
  obtain ⟨-, -, hended⟩ | ⟨settlement, -, hstart, hrun₁⟩ := run_cases hprinted
  · exact absurd hwaits (hended _)
  have hall (replies : List Reply) : run keys lag env replies =
      Run.run (feed (resume keys lag settlement)) (await 0 [] .programState) replies := by
    unfold run
    rw [hstart]
    exact drive_eq_run _ _
  rw [hall] at h
  obtain ⟨t₂, hrun₂, hafter⟩ := Run.run_append.mp h
  cases hrun₁.symm.trans hrun₂
  have hpaced : Paced lag signed t (after.countP fun reply => !reply.isChunk) := by
    refine Run.run_history (I := fun t seen =>
      Paced lag signed t (seen.countP fun reply => !reply.isChunk)) ?_ hafter ?_
    · intro seen t reply t' _ hpaced hfeed
      rw [List.countP_append, List.countP_singleton]
      have := paced_feed hpaced hfeed
      cases hchunk : reply.isChunk <;> rw [hchunk] at this <;> exact this
    · unfold Paced
      rw [hwaits]
      exact ⟨rfl, rfl, waitForGo_in_time hrun₁ hwaits⟩
  obtain ⟨hcount, htime⟩ := hpaced.bounds
  refine ⟨htime, hcount, fun point hnext => ?_⟩
  obtain ⟨waited, t', hfeed⟩ := feed_elapsed hpaced hnext
  refine ⟨waited, t', ?_⟩
  rw [hall]
  exact Run.run_append.mpr ⟨t, h, Run.run_cons_eq_some.mpr ⟨t', hfeed, rfl⟩⟩

theorem ends_in_time_sample :
    3964 ≤ 1310 + 167000 + 5 * 5 ∧ sampleAfter.countP (fun reply => !reply.isChunk) ≤ 138 := by
  have hprinted : run sampleKeys 5 sampleEnv sampleBefore =
      some ⟨1310, sampleCalls.take 2, .await (.waitForGo ⟨sampleTx, 1000, 1310⟩)⟩ := by
    decide
  obtain ⟨htime, hcount, -⟩ := ends_in_time hprinted rfl sample_run
  exact ⟨htime, hcount⟩

end Maat.Orchestrator.SettleScript
