import Maat.Laws.Orchestrator.Proven
import Maat.Laws.Orchestrator.SettleScript

/-!
# What is paid is on record

The settlement script that is run for a proof's JSON pays what the contract's record says: to the
wallet on record, as many lamports as the recorded wei make, under the hash of the proof's file
(`pays_as_recorded`). The amount goes from the contract to the script as a text in hex.
-/

namespace Maat.Orchestrator.SettleScript

open Js Pipeline
open Bytes (Fixed fixed)
open Prove (hex0x)

/-! ## Texts in hex -/

theorem mem_toHex {bs : List UInt8} {c : Char} (h : c ∈ Hex.toHex bs) :
    ∃ d < 16, c = Hex.digit d := by
  rw [Hex.toHex_eq, List.mem_map] at h
  obtain ⟨d, hd, rfl⟩ := h
  obtain ⟨b, -, hb⟩ := List.mem_flatMap.mp hd
  have := b.toNat_lt
  simp only [List.mem_cons, List.not_mem_nil, or_false] at hb
  exact ⟨d, by omega, rfl⟩

theorem length_toHex (bs : List UInt8) : (Hex.toHex bs).length = 2 * bs.length := by
  induction bs with
  | nil => rfl
  | cons b bs ih =>
    rw [Hex.toHex, List.length_cons, List.length_cons, ih, List.length_cons, Nat.mul_succ]

theorem trim_eq {text : Str} (h : ∀ c ∈ text, isSpace c.toNat = false) : trim text = text := by
  have hkeep (text : Str) (h : ∀ c ∈ text, isSpace c.toNat = false) :
      text.dropWhile (fun c => isSpace c.toNat) = text := by
    cases text with
    | nil => rfl
    | cons c text => exact List.dropWhile_cons_of_neg (by simp [h c (.head _)])
  rw [trim, hkeep text h, hkeep, List.reverse_reverse]
  exact fun c hc => h c (List.mem_reverse.mp hc)

theorem digitsIn_hex (text : Str) : digitsIn 16 text = (Hex.bigInt text).map Int.ofNat := by
  have hdigit (c : Char) : (Hex.value? c).filter (· < 16) = Hex.value? c := by
    cases hc : Hex.value? c with
    | none => rfl
    | some d => simp [Option.filter, (Hex.of_value? hc).2.2]
  unfold digitsIn Hex.bigInt
  split
  · rfl
  · simp only [hdigit, Option.map_map]
    rfl

theorem bigIntOf_hex0x (bs : List UInt8) :
    bigIntOf (hex0x bs) = (Hex.bigInt (Hex.toHex bs)).map Int.ofNat := by
  have hspace (c : Char) (hc : c ∈ hex0x bs) : isSpace c.toNat = false := by
    rw [hex0x, List.mem_cons, List.mem_cons] at hc
    rcases hc with rfl | rfl | hc
    · decide
    · decide
    · obtain ⟨d, hd, rfl⟩ := mem_toHex hc
      exact (by decide : ∀ d < 16, isSpace (Hex.digit d).toNat = false) d hd
  rw [bigIntOf, trim_eq hspace]
  exact digitsIn_hex _

/-- The script divides the amount that the contract has on record. -/
theorem weiToLamports_hex0x {n : Nat} (hn : n < 256 ^ 32) :
    weiToLamports (hex0x (fixed 32 n).val) = some ((n / 1000000000 : Nat) : Int) := by
  have hdiv : (n : Int).tdiv 1000000000 = ((n / 1000000000 : Nat) : Int) := by
    rw [Int.ofNat_tdiv]
    rfl
  rw [weiToLamports, bigIntOf_hex0x, bigInt_fixed (by decide) hn, Option.map_some, Option.map_some]
  exact congrArg some hdiv

theorem normalizeProofHashHex_hex0x (hash : Fixed 32) :
    normalizeProofHashHex (some (hex0x hash.val)) = some (Hex.toHex hash.val) := by
  have hspells := Hex.spells_toHex hash.val
  have hlength : (Hex.toHex hash.val).length = 64 := by
    rw [length_toHex, hash.property]
  have hdigits : (Hex.toHex hash.val).all (fun c => (Hex.value? c.toLower).isSome) = true := by
    rw [List.all_eq_true]
    intro c hc
    obtain ⟨d, hd, rfl⟩ := mem_toHex hc
    exact (by decide : ∀ d < 16, (Hex.value? (Hex.digit d).toLower).isSome = true) d hd
  exact (if_pos ⟨hlength, hdigits⟩).trans (congrArg some hspells.lower)

/-! ## From the record to the payment -/

/-- What a script has sent is what its environment asks for. -/
theorem asks_of_sent {keys : Keys} {lag : Nat} {env : Environment} {replies : List Reply} {t : Step}
    (h : run keys lag env replies = some t) {tx : SettleTx}
    (hsent : .sendRawTransaction tx ∈ t.calls) : Asks keys env tx.settlement := by
  obtain ⟨settlement, point, hasks, hpoint⟩ := begun_of_run h (List.ne_nil_of_mem hsent)
  obtain ⟨nonce, tx', rfl, hcalls, -⟩ := hpoint.among
  have hmem := hcalls.subset hsent
  simp only [List.mem_cons, reduceCtorEq, List.not_mem_nil, or_false, false_or,
    Call.sendRawTransaction.injEq] at hmem
  exact hmem ▸ hasks

/-- The text of a Solana key is one, and is read as that key. -/
def Reads (toBase58 : List UInt8 → Option Str) (keys : Keys) : Prop :=
  ∀ (wallet : Solana.Pubkey) (text : Str), toBase58 (fixed 32 wallet).val = some text →
    text ≠ [] ∧ keys.publicKey text = some wallet

section

variable {S : Prove.Sdk} {L : Prove.Libraries} {dataOffset : List UInt8 → Nat → Option Nat}
  {toBase58 : List UInt8 → Option Str} {sha256 : List UInt8 → Fixed 32} {R : Rlp.Crate}
  {keccak256 : List UInt8 → Fixed 32} {E : IntentManager.Env}
  {chain : Set (Prove.Block × Rlp.Trie)} {witness : S.Proof → Guest.ProofInput}

/-- What the settlement script sends for a JSON that a job hands on pays an intent on the contract's
record: its wallet, its amount in lamports, under the hash that it was given. -/
theorem pays_as_recorded {m : IntentManager.Machine} (hreach : IntentManager.Reachable E m)
    (htrusted : Trusted R keccak256 E m.committed chain witness) {events : List (Pipeline.Event S)}
    (hblocks : ∀ k hash ledger nowMs, .answer k (.block (.ok hash) ledger nowMs) ∈ events →
      ∃ b ∈ chain, toLowerCase hash = hex0x (keccak256 b.1.header.toItem.encode).val)
    {host : Pipeline.Host S}
    (hrun : Run.run (Pipeline.Host.step L dataOffset toBase58 sha256) (Pipeline.Host.initial S)
      events = some host)
    {k : Nat} {job : Pipeline.Job} {t : JobTurn} (hjob : host.jobs k = some (job, t))
    (hcontract : toLowerCase job.contract = hex0x (fixed 20 E.self).val)
    {id dest : Str} {json : Pipeline.ProofOutputJson}
    (hcall : .dispatchArbitrumSettlement id json dest ∈ t.calls)
    {keys : Keys} (hkeys : Reads toBase58 keys) {lag : Nat} {zkProofHash : Fixed 32}
    {hotWallet : Option Solana.Pubkey} {idl : Bool} {replies : List Reply} {script : Step}
    (hscript : run keys lag (settleEnv json dest (hex0x zkProofHash.val) hotWallet idl) replies =
      some script)
    {tx : SettleTx} (hsent : .sendRawTransaction tx ∈ script.calls) :
    ∃ intentId, (m.committed.intents intentId).owner ≠ 0 ∧ id = hex0x (fixed 32 intentId).val ∧
      (m.committed.intents intentId).destinationChainId = 1399811149 ∧
      tx.settlement.destination = (m.committed.intents intentId).destinationWallet ∧
      tx.settlement.amount = ((m.committed.intents intentId).amount / 1000000000 : Nat) ∧
      tx.settlement.proofHash = Hex.toHex zkProofHash.val := by
  obtain ⟨rfl, hpassed, hdest⟩ := passed_of_dispatched hrun hjob hcall
  obtain ⟨intentId, howner, hdescribes, hsolana, hchain, -⟩ :=
    record_of_passed hreach htrusted (hblocks k) hcontract hpassed
  have hasks := asks_of_sent hscript hsent
  obtain ⟨hnonempty, hkey⟩ := hkeys _ _ (hdescribes.dest hsolana hdest)
  have hwallet : orElse (some dest) treasuryWallet = dest := by
    cases dest with
    | nil => exact absurd rfl hnonempty
    | cons c dest => rfl
  have hdestination := hasks.destination
  have hamount := hasks.amount
  have hproofHash := hasks.proofHash
  simp only [settleEnv] at hdestination hamount hproofHash
  rw [hwallet, hkey] at hdestination
  rw [hdescribes.amount, Option.bind_some, weiToLamports_hex0x hdescribes.fits] at hamount
  rw [normalizeProofHashHex_hex0x] at hproofHash
  exact ⟨intentId, howner, hdescribes.intentId, hchain, (Option.some.inj hdestination).symm,
    (Option.some.inj hamount).symm, (Option.some.inj hproofHash).symm⟩

end

/-- The base58 text of the wallet on record. -/
def recordedWallet : Str := List.replicate 31 '1' ++ ['t']

def recordedBase58 (bytes : List UInt8) : Option Str :=
  if bytes = (fixed 32 0x33).val then some recordedWallet else none

def recordedKeys : Keys where
  publicKey text := if text = recordedWallet then some 0x33 else none
  signature _ := "5ig".toList

theorem recorded_reads : Reads recordedBase58 recordedKeys := by
  intro wallet text htext
  unfold recordedBase58 at htext
  split at htext
  · next hbytes =>
    have hnat : Bytes.beNat (fixed 32 wallet).val = Bytes.beNat (fixed 32 0x33).val :=
      congrArg Bytes.beNat hbytes
    rw [fixed, fixed, Bytes.beNat_beBytes, Bytes.beNat_beBytes] at hnat
    have hvalue : wallet.val = 51 := by
      have := wallet.isLt
      omega
    obtain rfl : wallet = 0x33 := Fin.ext hvalue
    cases htext
    exact ⟨by decide, by simp [recordedKeys]⟩
  · cases htext

/-- The sample's payment is of the intent on record. -/
theorem pays_as_recorded_sample :
    ∃ (m : IntentManager.Machine) (script : Step) (tx : SettleTx)
        (intentId : IntentManager.Bytes32),
      Run.run (IntentManager.step recordedEnv)
        (IntentManager.deployed IntentManager.sampleStorage 1000) recordedRun = some m ∧
      run recordedKeys 5 (settleEnv recordedJson recordedWallet (hex0x (fixed 32 5).val) (some 0x44)
        true) (sampleBefore ++ sampleAfter) = some script ∧
      .sendRawTransaction tx ∈ script.calls ∧
      (m.committed.intents intentId).owner ≠ 0 ∧
      tx.settlement.destination = (m.committed.intents intentId).destinationWallet ∧
      tx.settlement.amount = ((m.committed.intents intentId).amount / 1000000000 : Nat) := by
  obtain ⟨m, hm, hw⟩ := recorded_machine
  obtain ⟨host, t, hhost, -, hjob, hcall⟩ := Pipeline.recorded_host recordedBase58 (if_pos rfl)
  have hscript : (run recordedKeys 5 (settleEnv recordedJson recordedWallet
      (hex0x (fixed 32 5).val) (some 0x44) true) (sampleBefore ++ sampleAfter)).map
        (fun t => t.calls.getLast?) = some (some (.sendRawTransaction
          ⟨⟨0x33, 1000000000, Hex.toHex (fixed 32 5).val, 0x44⟩, 4, "hash".toList⟩)) := by
    decide +kernel
  obtain ⟨script, hscript, hsent⟩ := Option.map_eq_some_iff.mp hscript
  obtain ⟨intentId, howner, -, -, hdestination, hamount, -⟩ := pays_as_recorded
    ⟨2, 3, 4, 1000, IntentManager.sampleStorage, recordedRun, rfl, hm⟩ (recorded_trusted hw)
    recordedEvents_blocks hhost hjob (by decide) hcall
    recorded_reads hscript (List.mem_of_getLast? hsent)
  exact ⟨m, script, _, intentId, hm, hscript, List.mem_of_getLast? hsent, howner, hdestination,
    hamount⟩

end Maat.Orchestrator.SettleScript
