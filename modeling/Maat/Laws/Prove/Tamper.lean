import Maat.Laws.Prove.Agreement
import Maat.Prove.Driver

/-!
# The negative tests

The guest rejects every corruption of what the check made of true answers, so no test run that
executes ends with exit code 3 (`no_test_fails`). A node that was changed is none that the walk would
read, a changed root is the root of no node that was sent, and a changed contract did not emit the
log. The one corruption that changes nothing is `different-contract` where that contract is the
target.
-/

namespace Maat.Prove

open Rlp Bytes Js Json Checks
open Guest (Log Receipt ProofInput ProofOutput NodeRef Visit Visited trieKey walk)

variable {R : Crate} {keccak256 : List UInt8 → Fixed 32}

/-! ## What the walk reads -/

/-- A walk that finds something read the nodes on the way, from the root on. -/
theorem walk_reads (hR : R.Correct) {S : Set (List UInt8)} (hcoll : S.InjOn keccak256) {t : Trie}
    (hwf : t.WellFormed keccak256) (hS : ∀ bs ∈ t.encodings keccak256, bs ∈ S)
    {key : List Nibble} {nodes : List (List UInt8)} {v : List UInt8} (hnodes : ∀ n ∈ nodes, n ∈ S)
    (h : walk R keccak256 (.hash (t.root keccak256)) key nodes = some v) :
    (t.trail key).map (Trie.encode keccak256) <+: nodes := by
  have hroot : ∀ {t : Trie} {key nodes}, t.encode keccak256 ∈ S → (∀ n ∈ nodes, n ∈ S) →
      walk R keccak256 (.hash (t.root keccak256)) key nodes = some v →
      ∃ rest visit, nodes = t.encode keccak256 :: rest ∧
        Visited R (t.encode keccak256) key visit ∧
        ∀ expected remaining, visit = .next expected remaining →
          walk R keccak256 expected remaining rest = some v := by
    intro t key nodes ht hnodes h
    obtain ⟨node, rest, visit, rfl, hvisit, hrest⟩ := Guest.walk_eq_some h
    obtain ⟨hmatches, hvisited⟩ := Guest.visit_eq_some hvisit
    obtain rfl : node = t.encode keccak256 := hcoll (hnodes _ (.head _)) ht hmatches
    refine ⟨rest, visit, rfl, hvisited, ?_⟩
    rintro expected remaining rfl
    exact hrest
  induction t generalizing key nodes with
  | empty =>
    obtain ⟨rest, visit, rfl, -⟩ := hroot (hS _ (Trie.encode_mem_encodings _)) hnodes h
    exact List.prefix_append [_] rest
  | leaf path value =>
    obtain ⟨rest, visit, rfl, -⟩ := hroot (hS _ (Trie.encode_mem_encodings _)) hnodes h
    exact List.prefix_append [_] rest
  | ext path child ih =>
    obtain ⟨rest, visit, rfl, hvisited, h⟩ :=
      hroot (hS _ (Trie.encode_mem_encodings _)) hnodes h
    obtain ⟨remaining, expected, rfl, hexpected, rfl⟩ := Visited.of_ext hR hwf.fits hvisited
    obtain ⟨-, -, hchild, hfits⟩ := hwf
    obtain rfl := Guest.childRef_ref hR hchild (hfits.mem (.tail _ (.head _))) hexpected
    rw [Trie.trail, if_pos (List.prefix_append _ _), List.drop_left, List.map_cons]
    exact List.cons_prefix_cons.mpr ⟨rfl, ih hchild (fun bs hbs => hS bs (.tail _ hbs))
      (fun n hn => hnodes n (.tail _ hn)) (h _ _ rfl)⟩
  | branch children value ih =>
    obtain ⟨rest, visit, rfl, hvisited, h⟩ :=
      hroot (hS _ (Trie.encode_mem_encodings _)) hnodes h
    rcases Visited.of_branch hR hwf.fits hvisited with
      ⟨rfl, rfl⟩ | ⟨idx, remaining, expected, rfl, hexpected, rfl⟩
    · exact List.prefix_append [_] rest
    · obtain ⟨-, hchildren, -, hfits⟩ := hwf
      have hmem := List.mem_of_getElem? (Guest.getElem?_children
        (fun i => Trie.ref keccak256 ((children i).toItem keccak256)) (.bytes (value.getD [])) idx)
      obtain rfl := Guest.childRef_ref hR (hchildren idx) (hfits.mem hmem) hexpected
      rw [Trie.trail, List.map_cons]
      exact List.cons_prefix_cons.mpr ⟨rfl, ih idx (hchildren idx)
        (fun bs hbs => hS bs (Trie.encodings_child idx hbs)) (fun n hn => hnodes n (.tail _ hn))
        (h _ _ rfl)⟩

/-! ## Changed bytes -/

theorem modify_ne {bs : List UInt8} {i : Nat} (hi : i < bs.length) :
    bs.modify i (· ^^^ 0xff) ≠ bs := by
  intro h
  have hbyte := congrArg (·[i]?) h
  simp only [List.getElem?_modify_eq, List.getElem?_eq_getElem hi, Option.map_eq_map,
    Option.map_some, Option.some.injEq] at hbyte
  have hzero : bs[i] ^^^ 0xff = bs[i] ^^^ 0 := hbyte.trans (UInt8.xor_zero).symm
  exact absurd ((UInt8.xor_right_inj _).mp hzero) (by decide)

theorem flipByte_eq_some {bs bs' : List UInt8} {i : Nat} (h : flipByte bs i = some bs') :
    i < bs.length ∧ bs' = bs.modify i (· ^^^ 0xff) := by
  unfold flipByte at h
  split at h
  · next hi => exact ⟨hi, (Option.some.inj h).symm⟩
  · cases h

/-- The last node is another one now. -/
theorem flipLast_eq_ok {nodes nodes' : List (List UInt8)} {at_ : Nat → Option Nat}
    (h : flipLast nodes at_ = .ok nodes') :
    ∃ before last last', nodes = before ++ [last] ∧ nodes' = before ++ [last'] ∧ last' ≠ last := by
  unfold flipLast at h
  split at h
  · cases h
  next last hlast =>
    split at h
    · cases h
    next last' hflip =>
      obtain ⟨i, -, hflip⟩ := Option.bind_eq_some_iff.mp hflip
      obtain ⟨hi, rfl⟩ := flipByte_eq_some hflip
      have hne : nodes ≠ [] := by
        rintro rfl
        cases hlast
      refine ⟨nodes.dropLast, last, _, ?_, (Except.ok.inj h).symm, modify_ne hi⟩
      rw [List.getLast?_eq_getLast_of_ne_nil hne] at hlast
      exact (Option.some.inj hlast ▸ List.dropLast_append_getLast hne).symm

/-! ## A changed header -/

/-- The library finds the data of a member where the member's prefix ends. -/
def FindsData (dataOffset : List UInt8 → Nat → Option Nat) : Prop :=
  ∀ before bs after, (Item.list (before ++ .bytes bs :: after)).Fits → 1 < bs.length →
    dataOffset (Item.list (before ++ .bytes bs :: after)).encode before.length =
      some (beforeData before bs after).length

/-- The header with another receipts root. -/
def Header.withRoot (h : Header) (receiptsRoot : Fixed 32) : Header := { h with receiptsRoot }

/-- The corruption of the header is another receipts root. -/
theorem flip_header {dataOffset : List UInt8 → Nat → Option Nat} (hoffset : FindsData dataOffset)
    {h : Header} (hfits : h.toItem.Fits) {offset : Nat} {bytes : List UInt8}
    (hfound : dataOffset h.toItem.encode 5 = some offset)
    (hflip : flipByte h.toItem.encode offset = some bytes) :
    ∃ root, root ≠ h.receiptsRoot ∧ (h.withRoot root).toItem.Fits ∧
      bytes = (h.withRoot root).toItem.encode := by
  have hlong : 1 < h.receiptsRoot.val.length := by
    rw [h.receiptsRoot.property]
    decide
  have hitem : h.toItem = .list ([.bytes h.parentHash.val, .bytes h.sha3Uncles.val,
      .bytes h.miner.val, .bytes h.stateRoot.val, .bytes h.transactionsRoot.val] ++
      .bytes h.receiptsRoot.val :: [.bytes h.logsBloom.val, .bytes (scalar h.difficulty),
      .bytes (scalar h.number), .bytes (scalar h.gasLimit), .bytes (scalar h.gasUsed),
      .bytes (scalar h.timestamp), .bytes h.extraData, .bytes h.mixHash.val, .bytes h.nonce.val,
      .bytes (scalar h.baseFeePerGas)]) := rfl
  obtain ⟨-, rfl⟩ := flipByte_eq_some hflip
  have hlength : (h.receiptsRoot.val.modify 0 (· ^^^ 0xff)).length = 32 := by
    rw [List.length_modify, h.receiptsRoot.property]
  have hbytes : h.toItem.encode.modify offset (· ^^^ 0xff) =
      (h.withRoot ⟨_, hlength⟩).toItem.encode := by
    rw [hitem] at hfits hfound ⊢
    obtain rfl := Option.some.inj ((hoffset _ _ _ hfits hlong).symm.trans hfound)
    exact modify_encode hlong _
  refine ⟨⟨_, hlength⟩, fun hsame => ?_, ?_, hbytes⟩
  · exact modify_ne (Nat.zero_lt_of_lt hlong) (congrArg Subtype.val hsame)
  · rw [Item.Fits, ← hbytes, List.length_modify]
    exact hfits

/-! ## The input -/

/-- What the check makes of a block: its header, the nodes on the way to a receipt, and a log of the
receipt from the contract. -/
structure Made (keccak256 : List UInt8 → Fixed 32) (block : Block) (trie : Trie)
    (input : ProofInput) : Prop where
  header : input.headerRlp = block.header.toItem.encode
  nodes : input.receiptProofNodes = trie.inclusionProof keccak256 (trieKey input.txIndex)
  log : ∃ r log, block.receipts[input.txIndex.toNat]? = some r ∧ r.status = 1 ∧
    r.logs[input.logIndex.toNat]? = some log ∧ log.address = input.expectedContract

section input

variable {L : Libraries} {env : Env} {block : Block} {trie : Trie} {input input' : ProofInput}

theorem made_of_check (hL : L.Correct keccak256)
    (htopic0 : IsData (.string INTENT_CREATED_TOPIC0)
      (keccak256 Guest.intentCreatedSignature).val)
    (hblock : block.CommitsTo keccak256 trie) {txHash targetContract : Str} {txIndex : Nat}
    (henv : env.Truthful txHash block txIndex)
    (hinput : nativePrecheck L env txHash targetContract = .ok input) :
    Made keccak256 block trie input := by
  obtain ⟨tx, number, index, header, headerRlp, time, blockTimestamp, receipts, rs, t, receipt,
    status, logs, log, k, t', root, htx, hnull, hnumber, hindex, htxIndex, hheader, hrlp, rfl,
    htime, hstamp, hreceipts, hrs, hloop, hreceipt, hstatus, hone, hlogs, hlog, hcheck, hroot,
    hproof, hcontract, hlogIndex⟩ := nativePrecheck_eq_ok hinput
  obtain ⟨htxIndexTrue, htxTrue⟩ := (henv.transaction tx htx).resolve_left
    (by rintro rfl; cases hnull)
  obtain ⟨hblockTrue, hallTrue⟩ := htxTrue number (eq_string_of_asStr hnumber)
  obtain ⟨hheaderTrue, honeTrue⟩ := hblockTrue header hheader
  obtain ⟨rs', rfl, htells⟩ := getBlockReceipts_true honeTrue hallTrue hreceipts
  obtain rfl : rs' = rs := Option.some.inj hrs
  refine ⟨?_, getProof_block hL hblock htells hloop hroot hproof, ?_⟩
  · exact Except.ok.inj (hrlp.symm.trans (headerRlpBytes_header hL hheaderTrue hblock.header))
  obtain ⟨i, r, hr, hreceiptTrue⟩ := htells.1 receipt (List.mem_of_find?_eq_some hreceipt)
  obtain rfl := toNat_of_hasIndex hreceiptTrue.transactionIndex (List.find?_some hreceipt)
  have hfits := Guest.Receipt.fits (hblock.length_receipt hr)
  have hsucceeded : r.status = 1 :=
    UInt64.toNat_inj.mp (toNat_of_read hreceiptTrue.status hstatus hone).symm
  obtain ⟨logs', hlogsArray, hall⟩ := hreceiptTrue.logs
  rw [hlogsArray] at hlogs
  obtain rfl : logs' = logs := Option.some.inj hlogs
  obtain ⟨hat, hmatches, -⟩ := findLog_eq_ok hlog
  obtain ⟨l, hl, hlogTrue⟩ := counterpart hall hat
  obtain ⟨hlower, -⟩ := (isIntentCreated_iff hL htopic0 hlogTrue).mp hmatches
  have hread := h2b20_eq_ok hcontract
  have htarget := data_of_lowercase hL hlower hread
  have hsame : l.address = input.expectedContract :=
    Subtype.ext (Except.ok.inj ((h2b_data hL htarget).symm.trans hread))
  have hk : input.logIndex.toNat = k := by
    have hlt := (List.getElem?_eq_some_iff.mp hl).1
    have hlength := length_logs hfits
    rw [hlogIndex, UInt64.toNat_ofNat', Nat.mod_eq_of_lt (by omega)]
  exact ⟨r, l, hr, hsucceeded, hk ▸ hl, hsame⟩

theorem contract_of_check {txHash targetContract : Str}
    (hinput : nativePrecheck L env txHash targetContract = .ok input) :
    h2b20 L targetContract = .ok input.expectedContract := by
  obtain ⟨tx, number, index, header, headerRlp, time, blockTimestamp, receipts, rs, t, receipt,
    status, logs, log, k, t', root, -, -, -, -, -, -, -, -, -, -, -, -, -, -, -, -, -, -, -, -, -,
    hcontract, -⟩ := nativePrecheck_eq_ok hinput
  exact hcontract

/-- The nodes are those on the way to the receipt. -/
theorem Made.trail (h : Made keccak256 block trie input) (hblock : block.CommitsTo keccak256 trie) :
    input.receiptProofNodes = (trie.trail (trieKey input.txIndex)).map (Trie.encode keccak256) := by
  obtain ⟨r, -, hr, -⟩ := h.log
  rw [h.nodes, hblock.wellFormed.inclusionProof_eq (hblock.get hr)]

/-- A changed node is not read. -/
theorem Made.other_nodes (h : Made keccak256 block trie input) (hR : R.Correct)
    (hblock : block.CommitsTo keccak256 trie) {at_ : Nat → Option Nat} {nodes : List (List UInt8)}
    (hflip : flipLast input.receiptProofNodes at_ = .ok nodes)
    (hcoll : { bs | bs ∈ nodes ∨ bs ∈ trie.encodings keccak256 }.InjOn keccak256) :
    Guest.main R keccak256 { input with receiptProofNodes := nodes } = none := by
  by_contra hne
  obtain ⟨out, hmain⟩ := Option.ne_none_iff_exists'.mp hne
  obtain ⟨header, receiptBytes, -, -, -, hheader, hwalk, -⟩ := Guest.main_eq_some hmain
  rw [h.header, decodeHeader_header hR hblock.header] at hheader
  obtain rfl := Option.some.inj hheader
  rw [Guest.verifyTrieProof, hR.encodeU64, hblock.root] at hwalk
  have hreads := walk_reads hR hcoll hblock.wellFormed (fun bs hbs => .inr hbs)
    (fun n hn => .inl hn) hwalk
  obtain ⟨before, last, last', hnodes, rfl, hlast⟩ := flipLast_eq_ok hflip
  have htrail : (trie.trail (trieKey input.txIndex)).map (Trie.encode keccak256) =
      before ++ [last] := (h.trail hblock).symm.trans hnodes
  rw [show Guest.nibblesOf (Item.bytes (minBytes input.txIndex.toNat)).encode =
    trieKey input.txIndex from rfl, htrail] at hreads
  have hwhole := List.append_cancel_left (hreads.eq_of_length (by simp))
  exact hlast (List.cons.inj hwhole).1.symm

/-- No node that was sent has another root. -/
theorem Made.other_root (h : Made keccak256 block trie input) (hR : R.Correct)
    (hblock : block.CommitsTo keccak256 trie) {root : Fixed 32}
    (hroot : root ≠ block.header.receiptsRoot)
    (hfits : (block.header.withRoot root).toItem.Fits) :
    Guest.main R keccak256
      { input with headerRlp := (block.header.withRoot root).toItem.encode } = none := by
  by_contra hne
  obtain ⟨out, hmain⟩ := Option.ne_none_iff_exists'.mp hne
  obtain ⟨header, receiptBytes, -, -, -, hheader, hwalk, -⟩ := Guest.main_eq_some hmain
  rw [decodeHeader_header hR hfits] at hheader
  obtain rfl := Option.some.inj hheader
  obtain ⟨node, rest, visit, hnodes, hvisit, -⟩ := Guest.walk_eq_some hwalk
  obtain ⟨hmatches, -⟩ := Guest.visit_eq_some hvisit
  have hnode : input.receiptProofNodes = node :: rest := hnodes
  rw [h.nodes, Trie.inclusionProof] at hnode
  obtain rfl := (List.cons.inj hnode).1
  exact hroot (hmatches.symm.trans hblock.root.symm)

/-- The log is from its contract and no other. -/
theorem Made.other_contract (h : Made keccak256 block trie input) (hR : R.Correct)
    (hblock : block.CommitsTo keccak256 trie) {contract : Fixed 20}
    (hcontract : contract ≠ input.expectedContract) :
    Guest.main R keccak256 { input with expectedContract := contract } = none := by
  by_contra hne
  obtain ⟨out, hmain⟩ := Option.ne_none_iff_exists'.mp hne
  obtain ⟨header, receiptBytes, logs, logBytes, event, hheader, hwalk, hlogs, hlog, hevent, -⟩ :=
    Guest.main_eq_some hmain
  rw [h.header, decodeHeader_header hR hblock.header] at hheader
  obtain rfl := Option.some.inj hheader
  obtain ⟨r, log, hr, hstatus, hat, haddress⟩ := h.log
  have hget := hblock.get hr
  rw [Guest.verifyTrieProof, hR.encodeU64, hblock.root, h.trail hblock] at hwalk
  have htrail : walk R keccak256 (.hash (trie.root keccak256)) (trieKey input.txIndex)
      ((trie.trail (trieKey input.txIndex)).map (Trie.encode keccak256)) = some r.encode :=
    Guest.walk_trail hR hblock.standard hget
      fun node hnode => hblock.wellFormed.length_trail hget (List.mem_of_mem_tail hnode)
  obtain rfl := Option.some.inj (htrail.symm.trans hwalk)
  have hlength := hblock.length_receipt hr
  obtain ⟨-, rfl⟩ := (Guest.decodeReceiptLogs_encode hR hlength).mp hlogs
  rw [List.getElem?_map] at hlog
  obtain ⟨log', hat', rfl⟩ := Option.map_eq_some_iff.mp hlog
  obtain rfl := Option.some.inj (hat.symm.trans hat')
  have hlist : (Item.list (r.logs.map Log.toItem)).Fits :=
    (Guest.Receipt.fits hlength).mem (.tail _ (.tail _ (.tail _ (.head _))))
  have hfits : log.toItem.Fits :=
    hlist.mem (List.mem_map.mpr ⟨log, List.mem_of_getElem? hat, rfl⟩)
  obtain ⟨topics, data, d⟩ := Guest.decodeIntentCreated_eq_some hevent
  obtain ⟨hfrom, -⟩ := d.of_log hR hfits
  exact hcontract (hfrom.symm.trans haddress)

/-- The guest rejects every corruption. -/
theorem Made.tampered (h : Made keccak256 block trie input) (hR : R.Correct)
    (hblock : block.CommitsTo keccak256 trie) {dataOffset : List UInt8 → Nat → Option Nat}
    (hoffset : FindsData dataOffset) {kind : Str}
    (hother : kind = "different-contract".toList →
      h2b20 L OTHER_REAL_CONTRACT ≠ .ok input.expectedContract)
    (htamper : applyTamper L dataOffset input kind = .ok input')
    (hcoll : { bs | bs ∈ input'.receiptProofNodes ∨ bs ∈ trie.encodings keccak256 }.InjOn
      keccak256) : Guest.main R keccak256 input' = none := by
  unfold applyTamper at htamper
  split at htamper
  · obtain ⟨nodes, hflip, rfl⟩ := map_eq_ok.mp htamper
    exact h.other_nodes hR hblock hflip hcoll
  split at htamper
  · obtain rfl := Except.ok.inj htamper
    refine h.other_contract hR hblock fun hsame => ?_
    refine modify_ne ?_ (congrArg Subtype.val hsame)
    rw [input.expectedContract.property]
    decide
  split at htamper
  · next hkind =>
    split at htamper
    · cases htamper
    next contract hread =>
      obtain rfl := Except.ok.inj htamper
      refine h.other_contract hR hblock ?_
      rintro rfl
      exact hother hkind hread
  split at htamper
  · split at htamper
    · cases htamper
    next offset hfound =>
      split at htamper
      · cases htamper
      next bytes hflip =>
        obtain rfl := Except.ok.inj htamper
        rw [h.header] at hfound hflip
        obtain ⟨root, hroot, hfits, rfl⟩ := flip_header hoffset hblock.header hfound hflip
        exact h.other_root hR hblock hroot hfits
  split at htamper
  · obtain ⟨nodes, hflip, rfl⟩ := map_eq_ok.mp htamper
    exact h.other_nodes hR hblock hflip hcoll
  · cases htamper

end input

/-! ## A test run -/

section run

variable {S : Sdk} {L : Libraries} {env : Env} {block : Block} {trie : Trie}
  {dataOffset : List UInt8 → Nat → Option Nat} {vkey target : Str} {args : Args}

/-- What the command is answered is what the check and the guest give. -/
def Answered (R : Crate) (keccak256 : List UInt8 → Fixed 32) (L : Libraries) (env : Env)
    (txHash target : Str) : Disk S × Next S → Reply S → Prop
  | (_, .await .checking), .checked result => result = nativePrecheck L env txHash target
  | (_, .await (.executing input)), .executed output => output = Guest.main R keccak256 input
  | _, _ => True

/-- Where a test run that executes can be: with an input that the guest rejects, and with nothing
written. -/
structure Testing (R : Crate) (keccak256 : List UInt8 → Fixed 32) (start : Disk S)
    (state : Disk S × Next S) : Prop where
  disk : state.1 = start
  exit : ∀ code, state.2 = .exit code → code ≠ 3
  await : ∀ point, state.2 = .await point → point = .checking ∨
    ∃ input, (point = .settingUp input ∨ point = .executing input) ∧
      Guest.main R keccak256 input = none

theorem Testing.exited {start : Disk S} {code : Nat} (hcode : code ≠ 3) :
    Testing R keccak256 start (start, .exit code) where
  disk := rfl
  exit code' h := by
    obtain rfl := Next.exit.inj h
    exact hcode
  await := by rintro point ⟨⟩

/-- It goes on with an input that the guest rejects. -/
theorem Testing.awaits {start : Disk S} {point : Point S} {input : ProofInput}
    (hpoint : point = .settingUp input ∨ point = .executing input)
    (hmain : Guest.main R keccak256 input = none) :
    Testing R keccak256 start (start, .await point) where
  disk := rfl
  exit := by rintro code ⟨⟩
  await point' h := by
    obtain rfl := Next.await.inj h
    exact .inr ⟨input, hpoint, hmain⟩

theorem flipLast_eq_error {nodes : List (List UInt8)} {at_ : Nat → Option Nat} {code : Nat}
    (h : flipLast nodes at_ = .error code) : code ≠ 3 := by
  unfold flipLast at h
  split at h
  · cases h
    decide
  split at h
  · cases h
    decide
  · cases h

/-- A corruption that cannot be made has an exit code of its own. -/
theorem applyTamper_eq_error {input : ProofInput} {kind : Str} {code : Nat}
    (h : applyTamper L dataOffset input kind = .error code) : code ≠ 3 := by
  have hmap : ∀ {at_ : Nat → Option Nat} {f : List (List UInt8) → ProofInput},
      (flipLast input.receiptProofNodes at_).map f = .error code → code ≠ 3 := by
    intro at_ f h
    cases hflip : flipLast input.receiptProofNodes at_ with
    | error code' =>
      rw [hflip] at h
      obtain rfl := Except.error.inj h
      exact flipLast_eq_error hflip
    | ok nodes =>
      rw [hflip] at h
      cases h
  unfold applyTamper at h
  split at h
  · exact hmap h
  split at h
  · cases h
  split at h
  · split at h <;> cases h
    decide
  split at h
  · split at h
    · cases h
      decide
    · split at h <;> cases h
      decide
  split at h
  · exact hmap h
  · cases h
    decide

theorem step_testing {start : Disk S} {kind : Str} (htamper : args.tamper = some kind)
    (hmode : args.mode = "execute".toList)
    (hrejects : ∀ input input', nativePrecheck L env args.txHash target = .ok input →
      applyTamper L dataOffset input kind = .ok input' → Guest.main R keccak256 input' = none)
    {state state' : Disk S × Next S} {reply : Reply S}
    (hreply : Answered R keccak256 L env args.txHash target state reply)
    (h : Testing R keccak256 start state)
    (hstep : step L dataOffset vkey args state reply = some state') :
    Testing R keccak256 start state' := by
  obtain ⟨disk, next⟩ := state
  obtain rfl : disk = start := h.disk
  cases next with
  | exit code => cases hstep
  | await point =>
    simp only [step] at hstep
    rcases h.await point rfl with rfl | ⟨input, rfl | rfl, hmain⟩
    · -- the check's input is corrupted
      cases reply with
      | checked result =>
        cases result with
        | error e =>
          obtain rfl := Option.some.inj hstep
          exact .exited (by cases e <;> simp [CheckError.exitCode])
        | ok input =>
          simp only [resume, htamper] at hstep
          split at hstep
          · next code herror =>
            obtain rfl := Option.some.inj hstep
            exact .exited (applyTamper_eq_error herror)
          · next input' htampered =>
            obtain rfl := Option.some.inj hstep
            exact .awaits (.inl rfl) (hrejects input input' hreply.symm htampered)
      | _ => cases hstep
    · cases reply with
      | isSetUp ok =>
        cases ok with
        | false =>
          obtain rfl := Option.some.inj hstep
          exact .exited (by decide)
        | true =>
          simp only [resume, if_pos hmode, Option.some.injEq] at hstep
          obtain rfl := hstep
          exact .awaits (.inr rfl) hmain
      | _ => cases hstep
    · cases reply with
      | executed output =>
        -- the guest has rejected the input
        obtain rfl : output = none := hreply.trans hmain
        obtain rfl := Option.some.inj hstep
        exact .exited (by simp [htamper])
      | _ => cases hstep

/-- A test run that executes, and whose check tells the truth, does not find that the guest accepts,
and writes nothing. -/
theorem no_test_fails (hR : R.Correct) (hL : L.Correct keccak256)
    (htopic0 : IsData (.string INTENT_CREATED_TOPIC0)
      (keccak256 Guest.intentCreatedSignature).val)
    (hblock : block.CommitsTo keccak256 trie) {txIndex : Nat}
    (henv : env.Truthful args.txHash block txIndex) (hoffset : FindsData dataOffset)
    (hmode : args.mode = "execute".toList) {kind : Str} (htamper : args.tamper = some kind)
    (hother : kind = "different-contract".toList → h2b20 L OTHER_REAL_CONTRACT ≠ h2b20 L target)
    (hcoll : ∀ input input', nativePrecheck L env args.txHash target = .ok input →
      applyTamper L dataOffset input kind = .ok input' →
      { bs | bs ∈ input'.receiptProofNodes ∨ bs ∈ trie.encodings keccak256 }.InjOn keccak256)
    {disk disk' : Disk S} {next : Next S} {replies : List (Reply S)}
    (hreplies : Run.Always (step L dataOffset vkey args) (disk, .await .checking) replies
      (Answered R keccak256 L env args.txHash target))
    (hrun : Run.run (step L dataOffset vkey args) (disk, .await .checking) replies =
      some (disk', next)) :
    (∀ code, next = .exit code → code ≠ 3) ∧ disk' = disk := by
  have hrejects : ∀ input input', nativePrecheck L env args.txHash target = .ok input →
      applyTamper L dataOffset input kind = .ok input' →
      Guest.main R keccak256 input' = none := by
    intro input input' hinput htampered
    have hmade := made_of_check hL htopic0 hblock henv hinput
    refine hmade.tampered hR hblock hoffset ?_ htampered (hcoll input input' hinput htampered)
    rw [← contract_of_check hinput]
    exact hother
  have hstart : Testing R keccak256 disk (disk, .await (.checking : Point S)) :=
    ⟨rfl, by rintro code ⟨⟩, by
      rintro point ⟨⟩
      exact .inl rfl⟩
  have hend := Run.run_always (fun _ _ _ hreply h hstep =>
    step_testing htamper hmode hrejects hreply h hstep) hreplies hrun hstart
  exact ⟨hend.exit, hend.disk⟩

end run

/-! ## A sample -/

/-- Where `reference` finds the data of a member. -/
def sampleDataOffset (bs : List UInt8) (i : Nat) : Option Nat := do
  let members ← items bs
  let member ← members[i]?
  let data ← payload member
  return bs.length - (members.drop i).flatten.length + (member.length - data.length)

theorem flatten_encode (xs : List Item) : (xs.map Item.encode).flatten = encodeAll xs := by
  induction xs with
  | nil => rfl
  | cons x xs ih => rw [List.map_cons, List.flatten_cons, ih, encodeAll]

theorem sampleDataOffset_findsData : FindsData sampleDataOffset := by
  intro before bs after hfits hbs
  have hmember : (Item.bytes bs).Fits := hfits.mem (List.mem_append_right _ (.head _))
  have hencode : (Item.list (before ++ .bytes bs :: after)).encode =
      beforeData before bs after ++ (bs ++ encodeAll after) := encode_member hbs
  have hlength := congrArg List.length hencode
  have hself : (Item.bytes bs).encode = lengthPrefix 0x80 bs.length ++ bs := by
    rw [Item.encode, isSelfEncoded_of_length hbs]
    rfl
  have hdrop : ((before ++ .bytes bs :: after).map Item.encode).drop before.length =
      (.bytes bs :: after).map Item.encode := by
    rw [List.map_append]
    exact List.drop_left' (List.length_map ..)
  have hget : ((before ++ .bytes bs :: after).map Item.encode)[before.length]? =
      some (Item.bytes bs).encode := by
    rw [← List.head?_drop, hdrop]
    rfl
  simp only [sampleDataOffset, items_list _ hfits, hget, payload_bytes bs hmember, hdrop,
    flatten_encode, Option.bind_eq_bind, Option.bind_some, Option.pure_def, Option.some.injEq]
  rw [encodeAll, hself]
  simp only [List.length_append, beforeData] at hlength ⊢
  omega

/-- An SDK without proofs. -/
def sampleSdk : Sdk := ⟨Empty, Empty.elim, fun _ => Empty.elim⟩

/-- The root in the sample's header is changed. -/
def sampleTest : Args := ⟨"execute".toList, "0xaa".toList, some "header".toList⟩

def sampleAnswers : List (Reply sampleSdk) :=
  [.checked (.ok (sampleInput 123456)), .isSetUp true, .executed none]

/-- The guest reads the same nodes under another root. -/
theorem sampleTampered :
    ∃ input', applyTamper sampleLibraries sampleDataOffset (sampleInput 123456) "header".toList =
        .ok input' ∧ Guest.main reference sampleKeccak256 input' = none ∧
      input'.receiptProofNodes = [sampleBranch, sampleLeaf] := by
  have h : (applyTamper sampleLibraries sampleDataOffset (sampleInput 123456)
      "header".toList).toOption.map (fun input' =>
        (Guest.main reference sampleKeccak256 input', input'.receiptProofNodes)) =
      some (none, [sampleBranch, sampleLeaf]) := by decide +kernel
  obtain ⟨input', hinput', h⟩ := Option.map_eq_some_iff.mp h
  obtain ⟨hmain, hnodes⟩ := Prod.mk.inj h
  exact ⟨input', toOption_eq_some.mp hinput', hmain, hnodes⟩

theorem sampleTest_injOn {nodes : List (List UInt8)} (hnodes : nodes = [sampleBranch, sampleLeaf]) :
    { bs | bs ∈ nodes ∨ bs ∈ sampleTrie.encodings sampleKeccak256 }.InjOn sampleKeccak256 := by
  refine sampleKeccak256_injOn.mono fun bs hbs => ?_
  rcases hbs with hbs | hbs
  · rw [hnodes] at hbs
    exact .tail _ (List.mem_append_left [Guest.sampleFailedLeaf, [0x80]] hbs)
  · exact sampleStrings_hashed.1 bs hbs

/-- The test passes. -/
theorem no_test_fails_sample :
    ∃ disk, Run.run (step sampleLibraries sampleDataOffset [] sampleTest)
        (fun _ => none, .await .checking) sampleAnswers = some (disk, .exit 0) ∧
      disk = fun _ => none := by
  obtain ⟨input', htampered, hmain, hnodes⟩ := sampleTampered
  let start : Disk sampleSdk × Next sampleSdk := (fun _ => none, .await .checking)
  have hfirst : step sampleLibraries sampleDataOffset [] sampleTest start
      (.checked (.ok (sampleInput 123456))) = some (fun _ => none, .await (.settingUp input')) := by
    simp only [start, step, resume, sampleTest, htampered]
  have hsecond : step sampleLibraries sampleDataOffset [] sampleTest
      ((fun _ => none : Disk sampleSdk), .await (.settingUp input')) (.isSetUp true) =
      some (fun _ => none, .await (.executing input')) := rfl
  have hthird : step sampleLibraries sampleDataOffset [] sampleTest
      ((fun _ => none : Disk sampleSdk), .await (.executing input')) (.executed none) =
      some (fun _ => none, .exit 0) := rfl
  have hrun : Run.run (step sampleLibraries sampleDataOffset [] sampleTest) start sampleAnswers =
      some (fun _ => none, .exit 0) := by
    simp only [sampleAnswers, Run.run, hfirst, hsecond, hthird, Option.bind_some]
  have hanswers : Run.Always (step sampleLibraries sampleDataOffset [] sampleTest) start
      sampleAnswers (Answered reference sampleKeccak256 sampleLibraries
        ((sampleBlock 123456).node 1 1800000001) sampleTest.txHash sampleTarget) := by
    rw [sampleAnswers, Run.always_cons hfirst, Run.always_cons hsecond, Run.always_cons hthird]
    exact ⟨(sampleCheck _ (.head _)).symm, trivial, hmain.symm, Run.always_nil⟩
  refine ⟨_, hrun, (no_test_fails reference_correct sampleLibraries_correct isData_topic0
    (sampleBlock_commitsTo (sampleHeader_fits _ (.head _))) (sampleNode_truthful 123456)
    sampleDataOffset_findsData rfl rfl (by decide) ?_ hanswers hrun).2⟩
  intro input input'' hinput htampered'
  obtain rfl := Except.ok.inj ((sampleCheck _ (.head _)).symm.trans hinput)
  obtain rfl := Except.ok.inj (htampered.symm.trans htampered')
  exact sampleTest_injOn hnodes

end Maat.Prove
