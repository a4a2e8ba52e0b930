import Maat.Lib.Mapping
import Maat.Laws.Orchestrator.SolverRouting
import Maat.Orchestrator.Dispatch

/-!
# A solver's capital

What is assigned to a solver and can still land is covered by its balance. A selection counts a
balance that was true when it was read; what has left the wallet since then is still counted as
reserved, as long as no hold that began after the read has run out, and no reservation is given
up for a transaction that was included after the read, or that can still land.
-/

namespace Maat.Orchestrator

open Js

namespace ReservationBook

variable {book : ReservationBook} {solver id : Str}

theorem hasIntent_iff : book.hasIntent id = true ↔ ∃ a r, book.find a (intentKey id) = some r := by
  unfold hasIntent find
  rw [List.any_eq_true]
  constructor
  · rintro ⟨e, hmem, hid⟩
    obtain ⟨r, hr⟩ := Option.isSome_iff_exists.mp
      (AList.lookup_isSome.mpr (of_decide_eq_true hid))
    refine ⟨e.1, r, ?_⟩
    rw [AList.mem_lookup_iff.mpr hmem, Option.bind_some, hr]
  · rintro ⟨a, r, hfind⟩
    obtain ⟨reservations, hget, hr⟩ := Option.bind_eq_some_iff.mp hfind
    refine ⟨⟨a, reservations⟩, AList.mem_lookup_iff.mp hget, decide_eq_true ?_⟩
    rw [← AList.lookup_isSome, hr]
    rfl

end ReservationBook

/-- What an entry takes depends on the solver's key. -/
theorem entryWei_congr {gate : GateConfig} {solver other : Str} (h : addrKey solver = addrKey other)
    (entry : ArbitrumLedgerEntry) : entryWei gate solver entry = entryWei gate other entry := by
  unfold entryWei
  rw [h]

namespace Dispatch

variable {C : Config} {s s' : State}

/-- After one entry was written, a map has that entry or what it had before. -/
theorem lookup_insert_cases {calls : AList fun _ : Nat => Call} {k l : Nat} {c d : Call}
    (h : (calls.insert k c).lookup l = some d) :
    (l = k ∧ d = c) ∨ (l ≠ k ∧ calls.lookup l = some d) := by
  by_cases hlk : l = k
  · subst hlk
    rw [AList.lookup_insert] at h
    cases h
    exact Or.inl ⟨rfl, rfl⟩
  · rw [AList.lookup_insert_ne hlk] at h
    exact Or.inr ⟨hlk, h⟩

/-! ## What is owed and what is counted -/

/-- The solver of a call that has one. -/
def Call.solver : Call → Option Str
  | .selecting _ _ _ => none
  | .assigned _ solver | .signing _ solver | .outcome _ solver _ => some solver

def Call.signed : Call → Bool
  | .outcome _ _ _ => true
  | _ => false

/-- The intent is assigned to the solver, and its `postCollateral` can still land. -/
def State.Assigned (s : State) (solver : Str) (id : Id) : Prop :=
  (∃ k c sv, s.calls.lookup k = some c ∧ c.id = id ∧ c.solver = some sv ∧
    addrKey sv = addrKey solver ∧ c.signed = false) ∨
  ∃ hash tx, s.txs hash = some tx ∧ tx.id = id ∧ addrKey tx.solver = addrKey solver ∧
    tx.status = .pending

/-- A call that is selecting assigns nothing. -/
theorem assigned_of_selecting {k : Nat} {id j : Id} {done : List Read} {left : List Str}
    {queue : List Nat} {sv : Str}
    (h : State.Assigned { s with
      calls := s.calls.insert k (.selecting id done left), queue := queue } sv j) :
    s.Assigned sv j := by
  rcases h with ⟨l, d, sv', hl, hid, hsv, hrest⟩ | htx
  · rcases lookup_insert_cases hl with ⟨-, rfl⟩ | ⟨-, hl⟩
    · cases hsv
    · exact Or.inl ⟨l, d, sv', hl, hid, hsv, hrest⟩
  · exact Or.inr htx

/-- The ledger has the intent's transaction, and counts at least what it spends. -/
def Posting (C : Config) (s : State) (id : Id) (solver hash : Str) : Prop :=
  ∃ entry, s.ledger.lookup id.1 = some entry ∧ entry.stage = .posting_collateral ∧
    entry.collateralTxHash = some hash ∧ C.wei id ≤ entryWei C.gate solver entry

/-- The intent is counted for the solver, in the book at least until `reservationHoldMs` after
`atMs`, or in the ledger. -/
def Covered (C : Config) (s : State) (solver : Str) (atMs : Nat) (id : Id) : Prop :=
  (∃ r, s.book.find (addrKey solver) id.1 = some r ∧ r.wei = C.wei id ∧
    ∀ u, r.releaseAtMs = some u → atMs + C.reservationHoldMs ≤ u) ∨
  (s.book.hasIntent id.1 = false ∧ ∃ entry, s.ledger.lookup id.1 = some entry ∧
    entry.stage = .posting_collateral ∧ C.wei id ≤ entryWei C.gate solver entry)

/-- A hold that began after the read runs on. -/
def holdsRun (C : Config) (s : State) (solver : Str) (atMs : Nat) : Bool :=
  (s.book.forSolver solver).entries.all fun e =>
    e.2.releaseAtMs.all fun u => decide (u < atMs + C.reservationHoldMs) || decide (s.nowMs < u)

/-- What is covered is counted when a selection decides. -/
theorem covered_le_counted {solver : Str} {atMs : Nat} (hholds : holdsRun C s solver atMs = true)
    {X : Finset Id} (hX : ∀ i ∈ X, Covered C s solver atMs i) :
    ∑ i ∈ X, C.wei i ≤ s.book.liveWei solver s.nowMs +
      ledgerReservedWei C.gate (inFlight s.ledger s.book) solver := by
  classical
  have hval : Function.Injective fun i : Id => i.1 := Subtype.val_injective
  rw [← Finset.sum_filter_add_sum_filter_not X fun i => s.book.hasIntent i.1 = false]
  rw [Nat.add_comm]
  apply Nat.add_le_add
  · -- in the book, and live
    have hnodup : (ReservationBook.live s.nowMs (s.book.forSolver solver)).entries.Nodup := by
      apply List.Nodup.of_map Sigma.fst
      exact (ReservationBook.live s.nowMs (s.book.forSolver solver)).nodupKeys
    refine Mapping.sum_le_sum_map hnodup _ (k := Sigma.fst) hval ?_
    intro i hi
    obtain ⟨hi, hin⟩ := Finset.mem_filter.mp hi
    rcases hX i hi with ⟨r, hfind, hwei, hrun⟩ | ⟨hout, -⟩
    · refine ⟨⟨i.1, r⟩, ?_, rfl, hwei.ge⟩
      rw [← ReservationBook.find_forSolver] at hfind
      have hmem := AList.mem_lookup_iff.mp hfind
      refine List.mem_filter.mpr ⟨hmem, ?_⟩
      have hhold := List.all_eq_true.mp hholds _ hmem
      unfold ReservationBook.lapsed
      cases hu : r.releaseAtMs with
      | none => rfl
      | some u =>
        have hlate := hrun u hu
        rw [hu, Option.all_some, Bool.or_eq_true, decide_eq_true_eq, decide_eq_true_eq] at hhold
        dsimp only
        rw [Bool.not_eq_true', decide_eq_false_iff_not]
        omega
    · exact absurd hout hin
  · -- in the ledger alone
    refine Mapping.sum_le_sum_map (l := inFlight s.ledger s.book) ?_ _ (k := Prod.fst) hval ?_
    · exact (List.Nodup.of_map _ (ArbitrumLedger.nodup_entriesAt _ _)).filter _
    intro i hi
    obtain ⟨hi, hout⟩ := Finset.mem_filter.mp hi
    rcases hX i hi with ⟨r, hfind, -⟩ | ⟨-, entry, hentry, hstage, hwei⟩
    · have hin : s.book.hasIntent i.1 = true := by
        rw [ReservationBook.hasIntent_iff, i.2]
        exact ⟨_, r, hfind⟩
      rw [hout] at hin
      cases hin
    · refine ⟨(i.1, entry), List.mem_filter.mpr ⟨?_, ?_⟩, rfl, hwei⟩
      · exact ArbitrumLedger.mem_entriesAt.mpr ⟨hentry, List.mem_singleton.mpr hstage⟩
      · rw [hout]
        rfl

/-! ## What a step can do -/

/-- `step`, one constructor for each kind of change. -/
inductive Steps (C : Config) (s : State) : Event → State → Prop where
  | time {ms : Nat} (hms : s.nowMs ≤ ms) : Steps C s (.time ms) { s with nowMs := ms }
  | deposit {solver : Str} {wei : Nat} : Steps C s (.deposit solver wei) { s with
      balance := Function.update s.balance (addrKey solver) (s.balance (addrKey solver) + wei) }
  | refused {k : Nat} {id : Id} : Steps C s (.dispatch k id) s
  | queued {k : Nat} {id : Id} (hfree : s.calls.lookup k = none)
      (hnew : ∀ l c, s.calls.lookup l = some c → c.id ≠ id)
      (hstart : startable s.ledger id = true) : Steps C s (.dispatch k id) { s with
        calls := s.calls.insert k (.selecting id [] C.candidates), queue := s.queue ++ [k] }
  | reads {k : Nat} {ok : Bool} {id : Id} {done : List Read} {left : List Str} {solver : Str}
      {balance : Option Nat}
      (hk : s.calls.lookup k = some (.selecting id done (solver :: left)))
      (hhead : s.queue.head? = some k)
      (hbalance : ∀ wei, balance = some wei → wei = s.balance (addrKey solver)) :
      Steps C s (.read k ok) { s with
        calls := s.calls.insert k (.selecting id (done ++ [⟨solver, balance, s.nowMs⟩]) left) }
  | unselected {k : Nat} {nowSec : Int} {deps : SelectionDeps} {id : Id} {reads : List Read}
      {book : ReservationBook} {patch : ArbitrumLedgerEntry → ArbitrumLedgerEntry}
      (hk : s.calls.lookup k = some (.selecting id reads []))
      (hhead : s.queue.head? = some k)
      (hpurged : Purged (s.selectionDeps C reads deps) C.candidates s.book book) :
      Steps C s (.decide k nowSec deps) { s with
        book, queue := s.queue.tail
        ledger := s.ledger.setArbitrumStage id.1 .collateral_failed patch
        calls := s.calls.erase k }
  | selected {k : Nat} {nowSec : Int} {deps : SelectionDeps} {id : Id} {reads : List Read}
      {solver : Str} {book : ReservationBook}
      (hk : s.calls.lookup k = some (.selecting id reads []))
      (hhead : s.queue.head? = some k)
      (hpurged : Purged (s.selectionDeps C reads deps) C.candidates s.book book)
      (hsatisfies : Satisfies ⟨id.1, C.json id⟩ nowSec (s.selectionDeps C reads deps) s.book
        solver) (hstart : startable s.ledger id = true) :
      Steps C s (.decide k nowSec deps) { s with
        book := book.reserve solver id.1 (C.wei id), queue := s.queue.tail
        calls := s.calls.insert k (.assigned id solver) }
  | abandoned {k : Nat} {nowSec : Int} {deps : SelectionDeps} {id : Id} {reads : List Read}
      {s' : State} (hk : s.calls.lookup k = some (.selecting id reads []))
      (hstart : startable s.ledger id = false) : Steps C s (.decide k nowSec deps) s'
  | passes {k : Nat} {nowSec : Int} {balanceWei : Nat} {id : Id} {solver : Str}
      (hk : s.calls.lookup k = some (.assigned id solver)) :
      Steps C s (.gate k nowSec balanceWei) { s with
        calls := s.calls.insert k (.signing id solver) }
  | signs {k : Nat} {hash : Str} {id : Id} {solver : Str} {expiry : Int}
      (hk : s.calls.lookup k = some (.signing id solver)) (hfresh : s.txs hash = none) :
      Steps C s (.sign k hash) { s with
        ledger := s.ledger.setArbitrumStage id.1 .posting_collateral fun e => { e with
          collateralTxHash := some hash, expiry := some expiry, solver := some solver
          collateralWei := some (requiredCollateral (C.json id).amount) }
        txs := Function.update s.txs hash (some ⟨id, solver, .pending⟩)
        calls := s.calls.insert k (.outcome id solver hash) }
  | posted {k : Nat} {id : Id} {solver hash : Str} {atMs : Nat}
      {patch : ArbitrumLedgerEntry → ArbitrumLedgerEntry}
      (hk : s.calls.lookup k = some (.outcome id solver hash))
      (hstatus : (s.txs hash).map PostTx.status = some (.included true atMs)) :
      Steps C s (.receipt k) { s with
        book := s.book.holdFor solver id.1 s.nowMs C.reservationHoldMs
        ledger := s.ledger.setArbitrumStage id.1 .collateral_posted patch
        calls := s.calls.erase k }
  | unsent {e : Event} {k : Nat} {c : Call} {solver : Str} {ledger : ArbitrumLedger Str}
      (hk : s.calls.lookup k = some c) (hsolver : c.solver = some solver)
      (hsigned : c.signed = false) (hledger : ledger = s.ledger ∨ ∃ patch,
        ledger = s.ledger.setArbitrumStage c.id.1 .collateral_failed patch) :
      Steps C s e { s with
        book := s.book.release solver c.id.1, ledger, calls := s.calls.erase k }
  | failed {e : Event} {k : Nat} {id : Id} {solver hash : Str}
      {patch : ArbitrumLedgerEntry → ArbitrumLedgerEntry}
      (hk : s.calls.lookup k = some (.outcome id solver hash))
      (he : e = .fails k ∨ e = .receipt k ∧
        ∃ atMs, (s.txs hash).map PostTx.status = some (.included false atMs)) :
      Steps C s e { s with
        book := s.book.release solver id.1
        ledger := s.ledger.setArbitrumStage id.1 .collateral_failed patch
        calls := s.calls.erase k }
  | threw {k : Nat} {id : Id} {solver hash : Str}
      (hk : s.calls.lookup k = some (.outcome id solver hash)) :
      Steps C s (.throws k) { s with
        book := s.book.release solver id.1, calls := s.calls.erase k }
  | included {hash : Str} {spentWei : Nat} {ok : Bool} {id : Id} {solver : Str}
      (htx : s.txs hash = some ⟨id, solver, .pending⟩) (hspent : spentWei ≤ C.wei id)
      (hle : spentWei ≤ s.balance (addrKey solver)) :
      Steps C s (.included hash spentWei ok) { s with
        txs := Function.update s.txs hash (some ⟨id, solver, .included ok s.nowMs⟩)
        balance := Function.update s.balance (addrKey solver)
          (s.balance (addrKey solver) - spentWei) }
  | dropped {hash : Str} {id : Id} {solver : Str}
      (htx : s.txs hash = some ⟨id, solver, .pending⟩) :
      Steps C s (.dropped hash) { s with
        txs := Function.update s.txs hash (some ⟨id, solver, .dropped⟩) }

theorem step_cases {e : Event} (h : step C s e = some s') : Steps C s e s' := by
  simp only [step, State.collateralFailed, State.finish, State.release, State.setStage] at h
  split at h
  -- `time`
  · split at h
    · next hms =>
      cases h
      exact .time hms
    · cases h
  -- `deposit`
  · cases h
    exact .deposit
  -- `dispatch`
  · split at h
    · next hnew =>
      split at h
      · next hstart =>
        cases h
        refine .queued hnew.1 ?_ hstart
        intro l c hl
        exact hnew.2 ⟨l, c⟩ (AList.mem_lookup_iff.mp hl)
      · cases h
        exact .refused
    · cases h
  -- `read`
  · split at h
    · next hk =>
      split at h
      · next hhead =>
        cases h
        refine .reads hk hhead ?_
        intro wei hwei
        split at hwei
        · cases hwei
          rfl
        · cases hwei
      · cases h
    · cases h
  -- `decide`
  · split at h
    · next id reads hk =>
      split at h
      · next hhead =>
        obtain ⟨found, hpurged, hbook⟩ := selectSolver_book ⟨id.1, C.json id⟩ _
          (s.selectionDeps C reads _) s.book C.candidates
        split at h
        · next hnone =>
          rw [hnone] at hbook
          cases h
          dsimp only at hbook
          rw [hbook]
          exact .unselected hk hhead hpurged
        · next solver hsome =>
          rw [hsome] at hbook
          dsimp only at hbook
          split at h
          · next hstart =>
            cases h
            rw [hbook]
            exact .selected hk hhead hpurged (selectSolver_first C.distinct hsome).2.1 hstart
          · next hstart =>
            exact .abandoned hk (Bool.not_eq_true _ ▸ hstart)
      · cases h
    · cases h
  -- `gate`
  · split at h
    · next hk =>
      split at h
      · cases h
        exact .passes hk
      · cases h
        exact .unsent hk rfl rfl (Or.inr ⟨_, rfl⟩)
    · cases h
  -- `sign`
  · split at h
    · next hk =>
      split at h
      · next hfresh =>
        cases h
        exact .signs hk hfresh
      · cases h
    · cases h
  -- `receipt`
  · split at h
    · next hk =>
      split at h
      · next hstatus =>
        cases h
        exact .posted hk hstatus
      · next hstatus =>
        cases h
        exact .failed hk (Or.inr ⟨rfl, _, hstatus⟩)
      · cases h
    · cases h
  -- `fails`
  · split at h
    · next hk =>
      cases h
      exact .unsent hk rfl rfl (Or.inr ⟨_, rfl⟩)
    · next hk =>
      cases h
      exact .failed hk (Or.inl rfl)
    · cases h
  -- `throws`
  · split at h
    · next hk =>
      cases h
      exact .unsent hk rfl rfl (Or.inl rfl)
    · next hk =>
      cases h
      exact .unsent hk rfl rfl (Or.inl rfl)
    · next hk =>
      cases h
      exact .threw hk
    · cases h
  -- `included` and `dropped`
  · split at h
    · next htx =>
      split at h
      · next hspent =>
        cases h
        exact .included htx hspent.1 hspent.2
      · cases h
    · cases h
  · split at h
    · next htx =>
      cases h
      exact .dropped htx
    · cases h

/-! ## The calls, the book and the ledger -/

/-- Who is reading, and where each intent that is under way is counted. -/
structure Consistent (C : Config) (s : State) : Prop where
  turn : ∀ k id reads left, s.calls.lookup k = some (.selecting id reads left) → reads ≠ [] →
    s.queue.head? = some k
  ids : ∀ k l c d, s.calls.lookup k = some c → s.calls.lookup l = some d → c.id = d.id → k = l
  unposted : ∀ k c, s.calls.lookup k = some c → c.signed = false →
    startable s.ledger c.id = true
  reserved : ∀ k c solver, s.calls.lookup k = some c → c.solver = some solver →
    s.book.find (addrKey solver) c.id.1 = some ⟨C.wei c.id, none⟩
  sent : ∀ k id solver hash, s.calls.lookup k = some (.outcome id solver hash) →
    Posting C s id solver hash ∧ ∃ status, s.txs hash = some ⟨id, solver, status⟩
  known : ∀ a i r, s.book.find a i = some r →
    (∃ k c solver, s.calls.lookup k = some c ∧ c.id.1 = i ∧ c.solver = some solver ∧
      addrKey solver = a) ∨
    ∃ entry, s.ledger.lookup i = some entry ∧ entry.stage = .collateral_posted
  pending : ∀ hash tx, s.txs hash = some tx → tx.status = .pending →
    Posting C s tx.id tx.solver hash ∧
      ∀ k c, s.calls.lookup k = some c → c.id = tx.id → c = .outcome tx.id tx.solver hash

/-- Call `k` goes from `c` to `after`, or ends; of the other intents' entries only holds that have
run out may go. -/
structure Moves (s s' : State) (k : Nat) (c : Call) (after : Option Call) : Prop where
  before : s.calls.lookup k = some c
  becomes : s'.calls.lookup k = after
  others : ∀ l, l ≠ k → s'.calls.lookup l = s.calls.lookup l
  sameId : ∀ d, after = some d → d.id = c.id
  turn : ∀ l, l ≠ k → s.queue.head? = some l → s'.queue.head? = some l
  ledger : ∀ i, i ≠ c.id.1 → s'.ledger.lookup i = s.ledger.lookup i
  book : ∀ a i, i ≠ c.id.1 → s'.book.find a i = s.book.find a i ∨
    s'.book.find a i = none ∧ ∃ r u, s.book.find a i = some r ∧ r.releaseAtMs = some u
  txs : ∀ hash tx, s'.txs hash = some tx → s.txs hash = some tx ∨ tx.id = c.id
  sent : ∀ hash tx, s.txs hash = some tx → s'.txs hash = some tx

/-- What is to be shown of the intent of the call that moves. -/
structure Own (C : Config) (s : State) (k : Nat) (id : Id) (after : Option Call) : Prop where
  turn : ∀ id reads left, after = some (.selecting id reads left) → reads ≠ [] →
    s.queue.head? = some k
  unposted : ∀ d, after = some d → d.signed = false → startable s.ledger id = true
  reserved : ∀ d solver, after = some d → d.solver = some solver →
    s.book.find (addrKey solver) id.1 = some ⟨C.wei id, none⟩
  sent : ∀ solver hash, after = some (.outcome id solver hash) →
    Posting C s id solver hash ∧ ∃ status, s.txs hash = some ⟨id, solver, status⟩
  known : ∀ a r, s.book.find a id.1 = some r →
    (∃ d solver, after = some d ∧ d.solver = some solver ∧ addrKey solver = a) ∨
    ∃ entry, s.ledger.lookup id.1 = some entry ∧ entry.stage = .collateral_posted
  pending : ∀ hash tx, s.txs hash = some tx → tx.status = .pending → tx.id = id →
    Posting C s tx.id tx.solver hash ∧ ∀ d, after = some d → d = .outcome tx.id tx.solver hash

section Moves

variable {k : Nat} {c : Call} {after : Option Call}

theorem Posting.of_lookup {id : Id} {solver hash : Str}
    (h : s'.ledger.lookup id.1 = s.ledger.lookup id.1) (hp : Posting C s id solver hash) :
    Posting C s' id solver hash := by
  unfold Posting at hp ⊢
  rw [h]
  exact hp

/-- Another call's intent is another intent. -/
theorem Consistent.other_id (h : Consistent C s) (hm : Moves s s' k c after) {l : Nat} {d : Call}
    (hl : l ≠ k) (hd : s.calls.lookup l = some d) : d.id.1 ≠ c.id.1 := by
  intro heq
  exact hl (h.ids l k d c hd hm.before (Subtype.ext heq))

theorem Consistent.move (h : Consistent C s) (hm : Moves s s' k c after)
    (ho : Own C s' k c.id after) : Consistent C s' := by
  have hcalls : ∀ {l d}, s'.calls.lookup l = some d →
      (l = k ∧ after = some d ∧ d.id = c.id) ∨
        (l ≠ k ∧ s.calls.lookup l = some d ∧ d.id.1 ≠ c.id.1) := by
    intro l d hd
    by_cases hl : l = k
    · subst hl
      rw [hm.becomes] at hd
      exact Or.inl ⟨rfl, hd, hm.sameId d hd⟩
    · rw [hm.others l hl] at hd
      exact Or.inr ⟨hl, hd, h.other_id hm hl hd⟩
  refine ⟨?_, ?_, ?_, ?_, ?_, ?_, ?_⟩
  · intro l id reads left hl hreads
    rcases hcalls hl with ⟨rfl, hafter, -⟩ | ⟨hne, hl, -⟩
    · exact ho.turn id reads left hafter hreads
    · exact hm.turn l hne (h.turn l id reads left hl hreads)
  · intro l m d d' hl hm' hid
    rcases hcalls hl with ⟨rfl, -, hdid⟩ | ⟨hne, hl, hdid⟩
    · rcases hcalls hm' with ⟨rfl, -⟩ | ⟨-, -, hdid'⟩
      · rfl
      · exact absurd (congrArg Subtype.val (hid.symm.trans hdid)) hdid'
    · rcases hcalls hm' with ⟨rfl, -, hdid'⟩ | ⟨-, hm', -⟩
      · exact absurd (congrArg Subtype.val (hid.trans hdid')) hdid
      · exact h.ids l m d d' hl hm' hid
  · intro l d hl hsigned
    rcases hcalls hl with ⟨rfl, hafter, hdid⟩ | ⟨hne, hl, hdid⟩
    · rw [hdid]
      exact ho.unposted d hafter hsigned
    · unfold startable
      rw [hm.ledger _ hdid]
      exact h.unposted l d hl hsigned
  · intro l d solver hl hsolver
    rcases hcalls hl with ⟨rfl, hafter, hdid⟩ | ⟨hne, hl, hdid⟩
    · rw [hdid]
      exact ho.reserved d solver hafter hsolver
    · have hreserved := h.reserved l d solver hl hsolver
      rcases hm.book (addrKey solver) d.id.1 hdid with hsame | ⟨-, r, u, hr, hu⟩
      · rw [hsame]
        exact hreserved
      · -- a reservation that is unresolved does not run out
        rw [hreserved] at hr
        cases hr
        cases hu
  · intro l id solver hash hl
    rcases hcalls hl with ⟨rfl, hafter, hdid⟩ | ⟨hne, hl, hdid⟩
    · obtain rfl : id = c.id := hdid
      exact ho.sent solver hash hafter
    · obtain ⟨hposting, status, htx⟩ := h.sent l id solver hash hl
      exact ⟨hposting.of_lookup (hm.ledger id.1 hdid), status, hm.sent hash _ htx⟩
  · intro a i r hr
    by_cases hi : i = c.id.1
    · subst hi
      rcases ho.known a r hr with ⟨d, solver, hafter, hsolver, hkey⟩ | hposted
      · refine Or.inl ⟨k, d, solver, ?_, ?_, hsolver, hkey⟩
        · rw [hm.becomes]
          exact hafter
        · rw [hm.sameId d hafter]
      · exact Or.inr hposted
    · rcases hm.book a i hi with hsame | ⟨hnone, -⟩
      · rw [hsame] at hr
        rcases h.known a i r hr with ⟨l, d, solver, hl, hdid, hsolver⟩ | hposted
        · refine Or.inl ⟨l, d, solver, ?_, hdid, hsolver⟩
          rw [hm.others l]
          · exact hl
          · rintro rfl
            rw [hm.before] at hl
            cases hl
            exact hi hdid.symm
        · rw [← hm.ledger i hi] at hposted
          exact Or.inr hposted
      · rw [hnone] at hr
        cases hr
  · intro hash tx htx hpending
    by_cases hid : tx.id = c.id
    · obtain ⟨hposting, hafter⟩ := ho.pending hash tx htx hpending hid
      refine ⟨hposting, ?_⟩
      intro l d hl hdid
      rcases hcalls hl with ⟨rfl, hd, -⟩ | ⟨-, -, hne⟩
      · exact hafter d hd
      · exact absurd (congrArg Subtype.val (hdid.trans hid)) hne
    · have hne : tx.id.1 ≠ c.id.1 := fun heq => hid (Subtype.ext heq)
      obtain ⟨hposting, hcall⟩ := h.pending hash tx ((hm.txs hash tx htx).resolve_right hid) hpending
      refine ⟨hposting.of_lookup (hm.ledger _ hne), ?_⟩
      intro l d hl hdid
      rcases hcalls hl with ⟨rfl, -, hd⟩ | ⟨-, hl, -⟩
      · exact absurd (hdid.symm.trans hd) hid
      · exact hcall l d hl hdid

end Moves

/-! ## What has left a wallet since its balance was read -/

/-- The intent's transaction was included after the read, and is still counted. -/
structure Landed (C : Config) (s : State) (r : Read) (id : Id) : Prop where
  not_assigned : ¬s.Assigned r.solver id
  covered : Covered C s r.solver r.atMs id
  included : ∀ k solver hash, s.calls.lookup k = some (.outcome id solver hash) →
    ∃ ok atMs, s.txs hash = some ⟨id, solver, .included ok atMs⟩ ∧ r.atMs ≤ atMs

/-- The balance that was read is at most what there is and what has left. -/
def Stale (C : Config) (s : State) (r : Read) : Prop :=
  r.atMs ≤ s.nowMs ∧ ∀ wei, r.balance = some wei → ∃ X : Finset Id,
    (∀ i ∈ X, Landed C s r i) ∧ wei ≤ s.balance (addrKey r.solver) + ∑ i ∈ X, C.wei i

def Solvent (C : Config) (s : State) : Prop :=
  ∀ solver (A : Finset Id), (∀ i ∈ A, s.Assigned solver i) →
    ∑ i ∈ A, C.wei i ≤ s.balance (addrKey solver)

structure Sound (C : Config) (s : State) : Prop where
  consistent : Consistent C s
  stale : ∀ k id reads left, s.calls.lookup k = some (.selecting id reads left) →
    ∀ r ∈ reads, Stale C s r
  solvent : Solvent C s

/-- The reads of the selection whose turn it is. -/
def State.reads (s : State) : List Read :=
  match s.queue.head?.bind s.calls.lookup with
  | some (.selecting _ reads _) => reads
  | _ => []

/-- The reservation for a transaction in this state can be given up: the transaction cannot land
any more, and no balance that is still to be used was read before it was included. -/
def State.mayRelease (s : State) (solver : Str) : PostStatus → Bool
  | .pending => false
  | .dropped => true
  | .included _ atMs => s.reads.all fun r =>
    r.balance.isNone || addrKey r.solver != addrKey solver || decide (atMs < r.atMs)

/-- A reservation counts until the balances that are read show the transaction: no hold that began
after a balance was read has run out when the selection decides, and a call that ends without a
success gives up its reservation only when that may be done. -/
def countsUntilSeen (C : Config) (s : State) : Event → Bool
  | .decide _ _ _ => s.reads.all fun r => r.balance.isNone || holdsRun C s r.solver r.atMs
  | .fails k =>
    match s.calls.lookup k with
    | some (.outcome _ solver hash) => (s.txs hash).all fun tx => s.mayRelease solver tx.status
    | _ => true
  | .receipt k =>
    match s.calls.lookup k with
    | some (.outcome _ solver hash) => (s.txs hash).all fun tx =>
      match tx.status with
      | .included true _ => true
      | status => s.mayRelease solver status
    | _ => true
  | _ => true

section Counting

variable {k : Nat} {c : Call} {after : Option Call} {solver : Str} {id : Id} {atMs : Nat}

theorem find_eq_none_of_not_hasIntent {book : ReservationBook}
    (h : book.hasIntent id.1 = false) (a : Str) : book.find a id.1 = none := by
  cases hfind : book.find a id.1 with
  | none => rfl
  | some r =>
    have hin : book.hasIntent id.1 = true := by
      rw [ReservationBook.hasIntent_iff, id.2]
      exact ⟨a, r, hfind⟩
    rw [h] at hin
    cases hin

theorem not_hasIntent_of_find {book : ReservationBook} (h : ∀ a, book.find a id.1 = none) :
    book.hasIntent id.1 = false := by
  rw [Bool.eq_false_iff]
  intro hin
  rw [ReservationBook.hasIntent_iff, id.2] at hin
  obtain ⟨a, r, hfind⟩ := hin
  rw [h a] at hfind
  cases hfind

/-- A call's intent has no entry that says its collateral was posted. -/
theorem Consistent.not_posted (h : Consistent C s) (hk : s.calls.lookup k = some c) :
    ¬∃ entry, s.ledger.lookup c.id.1 = some entry ∧ entry.stage = .collateral_posted := by
  rintro ⟨entry, hentry, hstage⟩
  cases hsigned : c.signed with
  | false =>
    have hstart := h.unposted k c hk hsigned
    rw [startable, hentry, Option.all_some, hstage] at hstart
    cases hstart
  | true =>
    cases c with
    | outcome id solver hash =>
      obtain ⟨⟨entry', hentry', hstage', -⟩, -⟩ := h.sent k id solver hash hk
      have hentry : s.ledger.lookup id.1 = some entry := hentry
      rw [hentry'] at hentry
      cases hentry
      rw [hstage'] at hstage
      cases hstage
    | _ => cases hsigned

/-- The book has a call's intent under the call's solver alone. -/
theorem Consistent.found_solver (h : Consistent C s) (hk : s.calls.lookup k = some c) {a : Str}
    {r : Reservation} (hr : s.book.find a c.id.1 = some r) :
    ∃ solver, c.solver = some solver ∧ addrKey solver = a := by
  rcases h.known a c.id.1 r hr with ⟨l, d, solver, hl, hid, hsolver, hkey⟩ | hposted
  · obtain rfl := h.ids l k d c hl hk (Subtype.ext hid)
    rw [hk] at hl
    cases hl
    exact ⟨solver, hsolver, hkey⟩
  · exact absurd hposted (h.not_posted hk)

/-- Where a call has a solver, its intent is counted for that solver alone. -/
theorem Consistent.covered_solver (h : Consistent C s) (hk : s.calls.lookup k = some c)
    {sv : Str} (hsolver : c.solver = some sv) (hcovered : Covered C s solver atMs c.id) :
    addrKey sv = addrKey solver := by
  rcases hcovered with ⟨r, hr, -⟩ | ⟨hout, -⟩
  · obtain ⟨sv', hsolver', hkey⟩ := h.found_solver hk hr
    rw [hsolver] at hsolver'
    cases hsolver'
    exact hkey
  · have hreserved := h.reserved k c sv hk hsolver
    rw [find_eq_none_of_not_hasIntent hout] at hreserved
    cases hreserved

/-- What can still land is counted. -/
theorem Consistent.covered_of_assigned (h : Consistent C s) (ha : s.Assigned solver id) :
    Covered C s solver atMs id := by
  have of_call : ∀ k c sv, s.calls.lookup k = some c → c.id = id → c.solver = some sv →
      addrKey sv = addrKey solver → Covered C s solver atMs id := by
    rintro k c sv hk rfl hsolver hkey
    refine Or.inl ⟨_, hkey ▸ h.reserved k c sv hk hsolver, rfl, ?_⟩
    intro u hu
    cases hu
  rcases ha with ⟨k, c, sv, hk, hid, hsolver, hkey, -⟩ | ⟨hash, tx, htx, rfl, hkey, hpending⟩
  · exact of_call k c sv hk hid hsolver hkey
  · obtain ⟨⟨entry, hentry, hstage, -, hwei⟩, hcall⟩ := h.pending hash tx htx hpending
    by_cases hexists : ∃ k c, s.calls.lookup k = some c ∧ c.id = tx.id
    · obtain ⟨k, c, hk, hid⟩ := hexists
      have hc := hcall k c hk hid
      exact of_call k c tx.solver hk hid (by rw [hc]; rfl) hkey
    · refine Or.inr ⟨not_hasIntent_of_find ?_, entry, hentry, hstage, ?_⟩
      · intro a
        cases hfind : s.book.find a tx.id.1 with
        | none => rfl
        | some r =>
          rcases h.known a _ r hfind with ⟨k, c, sv, hk, hid, -⟩ | ⟨entry', hentry', hstage'⟩
          · exact absurd ⟨k, c, hk, Subtype.ext hid⟩ hexists
          · rw [hentry] at hentry'
            cases hentry'
            rw [hstage] at hstage'
            cases hstage'
      · rw [← entryWei_congr hkey]
        exact hwei

/-- An intent whose transaction is not signed yet has not landed. -/
theorem Consistent.not_landed (h : Consistent C s) (hk : s.calls.lookup k = some c) {sv : Str}
    (hsolver : c.solver = some sv) (hsigned : c.signed = false) (r : Read) :
    ¬Landed C s r c.id := by
  intro hlanded
  have hkey := h.covered_solver hk hsolver hlanded.covered
  exact hlanded.not_assigned (Or.inl ⟨k, c, sv, hk, rfl, hsolver, hkey, hsigned⟩)

/-! ## Another intent -/

/-- The other intents are assigned as they were. -/
theorem Moves.assigned (hm : Moves s s' k c after) (hid : id ≠ c.id)
    (ha : s'.Assigned solver id) : s.Assigned solver id := by
  rcases ha with ⟨l, d, sv, hl, rfl, hsolver⟩ | ⟨hash, tx, htx, rfl, hkey⟩
  · by_cases hlk : l = k
    · subst hlk
      rw [hm.becomes] at hl
      exact absurd (hm.sameId d hl) hid
    · rw [hm.others l hlk] at hl
      exact Or.inl ⟨l, d, sv, hl, rfl, hsolver⟩
  · exact Or.inr ⟨hash, tx, (hm.txs hash tx htx).resolve_right hid, rfl, hkey⟩

/-- Nothing of the book goes but what is the call's own. -/
def KeepsBook (s s' : State) (c : Call) : Prop :=
  ∀ a i, i ≠ c.id.1 → s'.book.find a i = s.book.find a i

theorem Moves.landed (hm : Moves s s' k c after) (hbook : KeepsBook s s' c) {r : Read}
    (hid : id ≠ c.id) (h : Landed C s r id) : Landed C s' r id := by
  have hne : id.1 ≠ c.id.1 := fun heq => hid (Subtype.ext heq)
  refine ⟨fun ha => h.not_assigned (hm.assigned hid ha), ?_, ?_⟩
  · rcases h.covered with ⟨res, hres, hrest⟩ | ⟨hout, hentry⟩
    · exact Or.inl ⟨res, (hbook _ _ hne).trans hres, hrest⟩
    · refine Or.inr ⟨not_hasIntent_of_find ?_, ?_⟩
      · intro a
        rw [hbook a _ hne]
        exact find_eq_none_of_not_hasIntent hout a
      · rw [hm.ledger _ hne]
        exact hentry
  · intro l sv hash hl
    by_cases hlk : l = k
    · subst hlk
      rw [hm.becomes] at hl
      exact absurd (hm.sameId _ hl) hid
    · rw [hm.others l hlk] at hl
      obtain ⟨ok, at', htx, hle⟩ := h.included l sv hash hl
      exact ⟨ok, at', hm.sent hash _ htx, hle⟩

/-- A read is as good as it was when another call moves. -/
theorem Stale.move (hm : Moves s s' k c after) (hbook : KeepsBook s s' c) {r : Read}
    (hnow : s'.nowMs = s.nowMs) (hbalance : s'.balance = s.balance)
    (hown : r.balance ≠ none → Landed C s r c.id → Landed C s' r c.id) (h : Stale C s r) :
    Stale C s' r := by
  obtain ⟨hat, hread⟩ := h
  refine ⟨hat.trans hnow.ge, ?_⟩
  intro wei hwei
  obtain ⟨X, hX, hle⟩ := hread wei hwei
  refine ⟨X, ?_, ?_⟩
  · intro i hi
    by_cases hid : i = c.id
    · rw [hid]
      refine hown ?_ (hid ▸ hX i hi)
      rw [hwei]
      exact nofun
    · exact hm.landed hbook hid (hX i hi)
  · rw [hbalance]
    exact hle

theorem Solvent.move (hm : Moves s s' k c after) (hbalance : s'.balance = s.balance)
    (hown : ∀ solver, s'.Assigned solver c.id → s.Assigned solver c.id) (h : Solvent C s) :
    Solvent C s' := by
  intro solver A hA
  rw [hbalance]
  refine h solver A ?_
  intro i hi
  by_cases hid : i = c.id
  · rw [hid]
    exact hown solver (hid ▸ hA i hi)
  · exact hm.assigned hid (hA i hi)

/-- A call that is not selecting any more moves. -/
theorem Sound.move (h : Sound C s) (hm : Moves s s' k c after) (ho : Own C s' k c.id after)
    (hbook : KeepsBook s s' c) (hnow : s'.nowMs = s.nowMs) (hbalance : s'.balance = s.balance)
    (hafter : ∀ id reads left, after ≠ some (.selecting id reads left))
    (hassigned : ∀ solver, s'.Assigned solver c.id → s.Assigned solver c.id)
    (hlanded : ∀ r ∈ s.reads, r.balance ≠ none → Landed C s r c.id → Landed C s' r c.id) :
    Sound C s' := by
  refine ⟨h.consistent.move hm ho, ?_, h.solvent.move hm hbalance hassigned⟩
  intro l id reads left hl r hr
  by_cases hlk : l = k
  · subst hlk
    rw [hm.becomes] at hl
    exact absurd hl (hafter id reads left)
  · rw [hm.others l hlk] at hl
    refine (h.stale l id reads left hl r hr).move hm hbook hnow hbalance (hlanded r ?_)
    have hhead := h.consistent.turn l id reads left hl (List.ne_nil_of_mem hr)
    unfold State.reads
    rw [hhead, Option.bind_some, hl]
    exact hr

theorem mem_reads {r : Read} (hr : r ∈ s.reads) : ∃ k id reads left,
    s.queue.head? = some k ∧ s.calls.lookup k = some (.selecting id reads left) ∧ r ∈ reads := by
  unfold State.reads at hr
  split at hr
  · next id reads left hcall =>
    obtain ⟨k, hhead, hk⟩ := Option.bind_eq_some_iff.mp hcall
    exact ⟨k, id, reads, left, hhead, hk, hr⟩
  · cases hr

end Counting

/-! ## A call moves -/

section Calls

variable {k : Nat} {c : Call} {solver hash : Str} {id : Id}

/-- A transaction that can still land is that of the call. -/
theorem Consistent.hash_of_pending (h : Consistent C s) (hk : s.calls.lookup k = some c)
    {tx : PostTx} (htx : s.txs hash = some tx) (hpending : tx.status = .pending)
    (hid : tx.id = c.id) : c = .outcome tx.id tx.solver hash :=
  (h.pending hash tx htx hpending).2 k c hk hid.symm

/-- The call ends with an empty book for its intent. -/
theorem Consistent.find_released (h : Consistent C s) (hk : s.calls.lookup k = some c)
    (hsolver : c.solver = some solver) (a : Str) :
    (s.book.release solver c.id.1).find a c.id.1 = none := by
  rw [ReservationBook.find_release]
  split
  · rfl
  · next hne =>
    cases hfind : s.book.find a c.id.1 with
    | none => rfl
    | some r =>
      obtain ⟨sv, hsv, hkey⟩ := h.found_solver hk hfind
      rw [hsolver] at hsv
      cases hsv
      exact absurd ⟨hkey.symm, c.id.2.symm⟩ hne

theorem keepsBook_release (s' : State) (hbook : s'.book = s.book.release solver c.id.1) :
    KeepsBook s s' c := by
  intro a i hi
  rw [hbook, ReservationBook.find_release, if_neg]
  rintro ⟨-, rfl⟩
  exact hi c.id.2

/-- Call `k` ends: the ledger may say something else of its intent, and the book. -/
theorem moves_erase (hk : s.calls.lookup k = some c) {book : ReservationBook}
    {ledger : ArbitrumLedger Str} (hledger : ∀ i, i ≠ c.id.1 → ledger.lookup i = s.ledger.lookup i)
    (hbook : KeepsBook s { s with book } c) :
    Moves s { s with book, ledger, calls := s.calls.erase k } k c none where
  before := hk
  becomes := AList.lookup_erase k s.calls
  others _ hl := AList.lookup_erase_ne hl
  sameId := nofun
  turn _ _ h := h
  ledger := hledger
  book a i hi := Or.inl (hbook a i hi)
  txs _ _ h := Or.inl h
  sent _ _ h := h

/-- Nothing of the intent is left to be shown but what the book and the transactions say. -/
theorem Own.ended (hknown : ∀ a r, s'.book.find a id.1 = some r →
      ∃ entry, s'.ledger.lookup id.1 = some entry ∧ entry.stage = .collateral_posted)
    (hpending : ∀ hash tx, s'.txs hash = some tx → tx.status = .pending → tx.id = id →
      Posting C s' tx.id tx.solver hash) : Own C s' k id none where
  turn := nofun
  unposted := nofun
  reserved := nofun
  sent := nofun
  known a r hr := Or.inr (hknown a r hr)
  pending hash tx htx hp hid := ⟨hpending hash tx htx hp hid, nofun⟩

/-- After a call's end its intent is assigned only by a transaction. -/
theorem assigned_of_erase {book : ReservationBook} {ledger : ArbitrumLedger Str}
    (ha : State.Assigned { s with book, ledger, calls := s.calls.erase k } solver c.id) :
    s.Assigned solver c.id := by
  rcases ha with ⟨l, d, sv, hl, hid, hrest⟩ | htx
  · by_cases hlk : l = k
    · subst hlk
      rw [show _ = _ from AList.lookup_erase l s.calls] at hl
      cases hl
    · rw [show _ = _ from AList.lookup_erase_ne hlk] at hl
      exact Or.inl ⟨l, d, sv, hl, hid, hrest⟩
  · exact Or.inr htx

/-- No call of the intent is left. -/
theorem no_call_of_erase (h : Consistent C s) (hk : s.calls.lookup k = some c) {l : Nat}
    {d : Call} (hl : (s.calls.erase k).lookup l = some d) : d.id ≠ c.id := by
  intro hid
  by_cases hlk : l = k
  · subst hlk
    rw [AList.lookup_erase] at hl
    cases hl
  · rw [AList.lookup_erase_ne hlk] at hl
    exact hlk (h.ids l k d c hl hk hid)

theorem lookup_set_ne {i : Str} (hi : i ≠ id.1) (stage : ArbitrumStage)
    (patch : ArbitrumLedgerEntry → ArbitrumLedgerEntry) :
    (s.ledger.setArbitrumStage id.1 stage patch).lookup i = s.ledger.lookup i :=
  ArbitrumLedger.lookup_setArbitrumStage_of_ne hi stage patch

theorem Sound.unsent (h : Sound C s) (hk : s.calls.lookup k = some c)
    (hsolver : c.solver = some solver) (hsigned : c.signed = false)
    {ledger : ArbitrumLedger Str} (hledger : ledger = s.ledger ∨
      ∃ patch, ledger = s.ledger.setArbitrumStage c.id.1 .collateral_failed patch) :
    Sound C { s with
      book := s.book.release solver c.id.1, ledger, calls := s.calls.erase k } := by
  have hc := h.consistent
  have hbook := keepsBook_release (s := s) (c := c)
    { s with book := s.book.release solver c.id.1 } rfl
  have hothers : ∀ i, i ≠ c.id.1 → ledger.lookup i = s.ledger.lookup i := by
    intro i hi
    rcases hledger with rfl | ⟨patch, rfl⟩
    · rfl
    · exact lookup_set_ne hi _ patch
  apply h.move (moves_erase hk hothers hbook)
  · apply Own.ended
    · intro a r hr
      exact absurd (hr.symm.trans (hc.find_released hk hsolver a)) nofun
    · intro hash tx htx hpending hid
      rw [hc.hash_of_pending hk htx hpending hid] at hsigned
      cases hsigned
  · exact hbook
  · rfl
  · rfl
  · exact nofun
  · exact fun _ => assigned_of_erase
  · exact fun r _ _ hlanded => absurd hlanded (hc.not_landed hk hsolver hsigned r)

theorem Sound.failed (h : Sound C s) (hk : s.calls.lookup k = some (.outcome id solver hash))
    {patch : ArbitrumLedgerEntry → ArbitrumLedgerEntry}
    (hmay : ∀ tx, s.txs hash = some tx → s.mayRelease solver tx.status = true) :
    Sound C { s with
      book := s.book.release solver id.1
      ledger := s.ledger.setArbitrumStage id.1 .collateral_failed patch
      calls := s.calls.erase k } := by
  have hc := h.consistent
  have hbook := keepsBook_release (s := s) (c := .outcome id solver hash)
    { s with book := s.book.release solver id.1 } rfl
  apply h.move (moves_erase hk (fun i hi => lookup_set_ne hi _ patch) hbook)
  · apply Own.ended
    · intro a r hr
      exact absurd (hr.symm.trans (hc.find_released hk rfl a)) nofun
    · -- the transaction is the call's, and that cannot land
      intro hash' tx htx hpending hid
      have hsame := hc.hash_of_pending hk htx hpending hid
      cases hsame
      have hnot := hmay tx htx
      rw [hpending] at hnot
      cases hnot
  · exact hbook
  · rfl
  · rfl
  · exact nofun
  · exact fun _ => assigned_of_erase
  · -- what was included after the read is not given up
    intro r hr hread hlanded
    obtain ⟨ok, atMs, htx, hle⟩ := hlanded.included k solver hash hk
    have hkey := hc.covered_solver hk rfl hlanded.covered
    have hseen := List.all_eq_true.mp (hmay _ htx) r hr
    rw [Bool.or_eq_true, Bool.or_eq_true, Option.isNone_iff_eq_none, bne_iff_ne,
      decide_eq_true_eq] at hseen
    rcases hseen with (hnone | hne) | hlt
    · exact absurd hnone hread
    · exact absurd hkey.symm hne
    · omega

/-- The collateral is posted: the reservation is put on hold. -/
theorem Sound.posted (h : Sound C s) (hk : s.calls.lookup k = some (.outcome id solver hash))
    {atMs : Nat} (hstatus : (s.txs hash).map PostTx.status = some (.included true atMs))
    {patch : ArbitrumLedgerEntry → ArbitrumLedgerEntry} :
    Sound C { s with
      book := s.book.holdFor solver id.1 s.nowMs C.reservationHoldMs
      ledger := s.ledger.setArbitrumStage id.1 .collateral_posted patch
      calls := s.calls.erase k } := by
  have hc := h.consistent
  have hreserved := hc.reserved k _ solver hk rfl
  change s.book.find (addrKey solver) id.1 = _ at hreserved
  rw [← id.2] at hreserved
  have hheld : ∀ a i, (s.book.holdFor solver id.1 s.nowMs C.reservationHoldMs).find a i =
      if a = addrKey solver ∧ i = intentKey id.1 then
        some ⟨C.wei id, some (s.nowMs + C.reservationHoldMs)⟩
      else s.book.find a i := by
    intro a i
    rw [ReservationBook.find_holdFor]
    split
    · next hown =>
      rw [hown.1, hown.2, hreserved]
      rfl
    · rfl
  have hbook : KeepsBook s { s with
      book := s.book.holdFor solver id.1 s.nowMs C.reservationHoldMs }
      (.outcome id solver hash) := by
    intro a i hi
    refine (hheld a i).trans (if_neg ?_)
    rintro ⟨-, rfl⟩
    exact hi id.2
  apply h.move (moves_erase hk (fun i hi => lookup_set_ne hi _ patch) hbook)
  · apply Own.ended
    · intro a r _
      exact ⟨_, ArbitrumLedger.lookup_setArbitrumStage_self _ _ _ _, rfl⟩
    · intro hash' tx htx hpending hid
      have hsame := hc.hash_of_pending hk htx hpending hid
      cases hsame
      have htx : s.txs hash = some tx := htx
      rw [htx, Option.map_some, hpending] at hstatus
      cases hstatus
  · exact hbook
  · rfl
  · rfl
  · exact nofun
  · exact fun _ => assigned_of_erase
  · intro r hr _ hlanded
    obtain ⟨l, j, reads, left, -, hl, hr⟩ := mem_reads hr
    have hat := (h.stale l j reads left hl r hr).1
    have hkey := hc.covered_solver hk rfl hlanded.covered
    refine ⟨fun ha => hlanded.not_assigned (assigned_of_erase ha), Or.inl ?_, ?_⟩
    · -- the hold began after the read
      refine ⟨⟨C.wei id, some (s.nowMs + C.reservationHoldMs)⟩, ?_, rfl, ?_⟩
      · refine (hheld _ _).trans (if_pos ?_)
        exact ⟨hkey.symm, id.2.symm⟩
      · intro u hu
        cases hu
        omega
    · intro l sv hash' hl
      refine absurd ?_ (no_call_of_erase hc hk hl)
      rfl

/-- The sequence throws with its transaction out: the ledger counts it from now on. -/
theorem Sound.threw (h : Sound C s) (hk : s.calls.lookup k = some (.outcome id solver hash)) :
    Sound C { s with book := s.book.release solver id.1, calls := s.calls.erase k } := by
  have hc := h.consistent
  obtain ⟨hposting, -⟩ := hc.sent k id solver hash hk
  have hbook := keepsBook_release (s := s) (c := .outcome id solver hash)
    { s with book := s.book.release solver id.1 } rfl
  apply h.move (moves_erase hk (fun _ _ => rfl) hbook)
  · apply Own.ended
    · intro a r hr
      exact absurd (hr.symm.trans (hc.find_released hk rfl a)) nofun
    · intro hash' tx htx hpending hid
      have hsame := hc.hash_of_pending hk htx hpending hid
      cases hsame
      exact hposting
  · exact hbook
  · rfl
  · rfl
  · exact nofun
  · exact fun _ => assigned_of_erase
  · intro r hr _ hlanded
    have hkey := hc.covered_solver hk rfl hlanded.covered
    obtain ⟨entry, hentry, hstage, -, hwei⟩ := hposting
    refine ⟨fun ha => hlanded.not_assigned (assigned_of_erase ha), Or.inr ⟨?_, ?_⟩, ?_⟩
    · exact not_hasIntent_of_find (hc.find_released hk rfl)
    · refine ⟨entry, hentry, hstage, ?_⟩
      rw [← entryWei_congr hkey]
      exact hwei
    · intro l sv hash' hl
      refine absurd ?_ (no_call_of_erase hc hk hl)
      rfl

/-- Call `k` goes on. -/
theorem moves_insert (hk : s.calls.lookup k = some c) {d : Call} (hid : d.id = c.id)
    {ledger : ArbitrumLedger Str} (hledger : ∀ i, i ≠ c.id.1 → ledger.lookup i = s.ledger.lookup i)
    {txs : Str → Option PostTx}
    (htxs : ∀ hash tx, txs hash = some tx → s.txs hash = some tx ∨ tx.id = c.id)
    (hsent : ∀ hash tx, s.txs hash = some tx → txs hash = some tx) :
    Moves s { s with ledger, txs, calls := s.calls.insert k d } k c (some d) where
  before := hk
  becomes := AList.lookup_insert s.calls
  others _ hl := AList.lookup_insert_ne hl
  sameId := by
    rintro _ ⟨⟩
    exact hid
  turn _ _ h := h
  ledger := hledger
  book _ _ _ := Or.inl rfl
  txs := htxs
  sent := hsent

/-- The last gate lets the call on. -/
theorem Sound.passes (h : Sound C s) (hk : s.calls.lookup k = some (.assigned id solver)) :
    Sound C { s with calls := s.calls.insert k (.signing id solver) } := by
  have hc := h.consistent
  have hmoves : Moves s { s with calls := s.calls.insert k (.signing id solver) } k
      (.assigned id solver) (some (.signing id solver)) :=
    moves_insert (d := .signing id solver) hk rfl (fun _ _ => rfl) (fun _ _ => Or.inl)
      fun _ _ h => h
  apply h.move hmoves
  · refine ⟨nofun, ?_, ?_, nofun, ?_, ?_⟩
    · exact fun _ _ _ => hc.unposted k _ hk rfl
    · rintro d sv ⟨⟩ ⟨⟩
      exact hc.reserved k _ solver hk rfl
    · intro a r hr
      obtain ⟨sv, hsv, hkey⟩ := hc.found_solver hk hr
      exact Or.inl ⟨_, sv, rfl, hsv, hkey⟩
    · intro hash tx htx hpending hid
      cases hc.hash_of_pending hk htx hpending hid
  · exact fun _ _ _ => rfl
  · rfl
  · rfl
  · exact nofun
  · intro sv ha
    rcases ha with ⟨l, d, sv', hl, hid, hsv, hkey, hsigned⟩ | htx
    · rcases lookup_insert_cases hl with ⟨rfl, rfl⟩ | ⟨-, hl⟩
      · exact Or.inl ⟨l, _, sv', hk, rfl, hsv, hkey, rfl⟩
      · exact Or.inl ⟨l, d, sv', hl, hid, hsv, hkey, hsigned⟩
    · exact Or.inr htx
  · exact fun r _ _ hlanded => absurd hlanded (hc.not_landed hk rfl rfl r)

/-- What the entry says of a transaction that was just signed. -/
theorem entryWei_signed {entry : ArbitrumLedgerEntry} (hsolver : entry.solver = some solver)
    (hwei : entry.collateralWei = some (requiredCollateral (C.json id).amount)) :
    entryWei C.gate solver entry = C.wei id := by
  unfold entryWei
  rw [hsolver, hwei, Option.any_some, bne_self_eq_false, Bool.and_false, if_neg Bool.false_ne_true]
  rfl

theorem Sound.signs (h : Sound C s) (hk : s.calls.lookup k = some (.signing id solver))
    (hfresh : s.txs hash = none) {expiry : Int} :
    Sound C { s with
      ledger := s.ledger.setArbitrumStage id.1 .posting_collateral fun e => { e with
        collateralTxHash := some hash, expiry := some expiry, solver := some solver
        collateralWei := some (requiredCollateral (C.json id).amount) }
      txs := Function.update s.txs hash (some ⟨id, solver, .pending⟩)
      calls := s.calls.insert k (.outcome id solver hash) } := by
  have hc := h.consistent
  -- a transaction is the new one, or was there before
  have hold : ∀ {hash' tx},
      Function.update s.txs hash (some ⟨id, solver, .pending⟩) hash' = some tx →
      (hash' = hash ∧ tx = ⟨id, solver, .pending⟩) ∨ s.txs hash' = some tx := by
    intro hash' tx htx
    by_cases hhash : hash' = hash
    · subst hhash
      rw [Function.update_self] at htx
      cases htx
      exact Or.inl ⟨rfl, rfl⟩
    · rw [Function.update_of_ne hhash] at htx
      exact Or.inr htx
  apply h.move (moves_insert (d := .outcome id solver hash) hk rfl ?_ ?_ ?_)
  · refine ⟨nofun, ?_, ?_, ?_, ?_, ?_⟩
    · rintro d ⟨⟩ ⟨⟩
    · rintro d sv ⟨⟩ ⟨⟩
      exact hc.reserved k _ solver hk rfl
    · rintro sv hash' ⟨⟩
      refine ⟨⟨_, ArbitrumLedger.lookup_setArbitrumStage_self _ _ _ _, rfl, rfl, ?_⟩, ?_⟩
      · exact (entryWei_signed rfl rfl).ge
      · exact ⟨.pending, Function.update_self _ _ _⟩
    · intro a r hr
      obtain ⟨sv, hsv, hkey⟩ := hc.found_solver hk hr
      exact Or.inl ⟨_, sv, rfl, hsv, hkey⟩
    · intro hash' tx htx hpending hid
      rcases hold htx with ⟨rfl, rfl⟩ | htx
      · refine ⟨⟨_, ArbitrumLedger.lookup_setArbitrumStage_self _ _ _ _, rfl, rfl, ?_⟩, ?_⟩
        · exact (entryWei_signed rfl rfl).ge
        · rintro d ⟨⟩
          rfl
      · cases hc.hash_of_pending hk htx hpending hid
  · exact fun _ _ _ => rfl
  · rfl
  · rfl
  · exact nofun
  · intro sv ha
    rcases ha with ⟨l, d, sv', hl, hid, hsv, hkey, hsigned⟩ | ⟨hash', tx, htx, hid, hkey, hpending⟩
    · rcases lookup_insert_cases hl with ⟨-, rfl⟩ | ⟨-, hl⟩
      · cases hsigned
      · exact Or.inl ⟨l, d, sv', hl, hid, hsv, hkey, hsigned⟩
    · rcases hold htx with ⟨-, rfl⟩ | htx
      · exact Or.inl ⟨k, _, solver, hk, rfl, rfl, hkey, rfl⟩
      · exact Or.inr ⟨hash', tx, htx, hid, hkey, hpending⟩
  · exact fun r _ _ hlanded => absurd hlanded (hc.not_landed hk rfl rfl r)
  · exact fun i hi => lookup_set_ne hi _ _
  · intro hash' tx htx
    rcases hold htx with ⟨-, rfl⟩ | htx
    · exact Or.inr rfl
    · exact Or.inl htx
  · intro hash' tx htx
    refine (Function.update_of_ne ?_ _ _).trans htx
    rintro rfl
    rw [hfresh] at htx
    cases htx

end Calls

/-! ## A selection -/

section Selection

variable {k : Nat} {solver : Str} {id : Id} {done : List Read} {left : List Str}

/-- The call that selects is nowhere counted. -/
theorem Consistent.find_selecting (h : Consistent C s)
    (hk : s.calls.lookup k = some (.selecting id done left)) (a : Str) :
    s.book.find a id.1 = none := by
  cases hfind : s.book.find a id.1 with
  | none => rfl
  | some r =>
    obtain ⟨sv, hsv, -⟩ := h.found_solver hk hfind
    cases hsv

/-- While a selection has its turn no other one has read anything. -/
theorem Consistent.alone (h : Consistent C s) (hhead : s.queue.head? = some k) {l : Nat}
    (hl : l ≠ k) {j : Id} {others : List Read} {rest : List Str}
    (hcall : s.calls.lookup l = some (.selecting j others rest)) : others = [] := by
  by_contra hne
  have hturn := h.turn l j others rest hcall hne
  rw [hhead] at hturn
  cases hturn
  exact hl rfl

theorem Sound.reads_next (h : Sound C s) {left : List Str}
    (hk : s.calls.lookup k = some (.selecting id done (solver :: left)))
    (hhead : s.queue.head? = some k) {balance : Option Nat}
    (hbalance : ∀ wei, balance = some wei → wei = s.balance (addrKey solver)) :
    Sound C { s with
      calls := s.calls.insert k (.selecting id (done ++ [⟨solver, balance, s.nowMs⟩]) left) } := by
  have hc := h.consistent
  have hmoves : Moves s { s with
      calls := s.calls.insert k (.selecting id (done ++ [⟨solver, balance, s.nowMs⟩]) left) } k
      (.selecting id done (solver :: left))
      (some (.selecting id (done ++ [⟨solver, balance, s.nowMs⟩]) left)) :=
    moves_insert (d := .selecting id (done ++ [⟨solver, balance, s.nowMs⟩]) left) hk rfl
      (fun _ _ => rfl) (fun _ _ => Or.inl) fun _ _ h => h
  refine ⟨hc.move hmoves ⟨?_, ?_, ?_, nofun, ?_, ?_⟩, ?_,
    h.solvent.move hmoves rfl fun _ => assigned_of_selecting⟩
  · exact fun _ _ _ _ _ => hhead
  · exact fun _ _ _ => hc.unposted k _ hk rfl
  · rintro d sv ⟨⟩ ⟨⟩
  · intro a r hr
    exact absurd (hr.symm.trans (hc.find_selecting hk a)) nofun
  · intro hash tx htx hpending hid
    cases hc.hash_of_pending hk htx hpending hid
  · intro l j others rest hl r hr
    rcases lookup_insert_cases hl with ⟨rfl, hd⟩ | ⟨hlk, hl⟩
    · cases hd
      rcases List.mem_append.mp hr with hr | hr
      · refine (h.stale l id done _ hk r hr).move hmoves (fun _ _ _ => rfl) rfl rfl ?_
        intro _ hlanded
        refine ⟨fun ha => hlanded.not_assigned (assigned_of_selecting ha), hlanded.covered, ?_⟩
        intro m sv hash hm
        rcases lookup_insert_cases hm with ⟨-, hd⟩ | ⟨-, hm⟩
        · cases hd
        · exact hlanded.included m sv hash hm
      · -- nothing has left the wallet since
        rw [List.mem_singleton.mp hr]
        refine ⟨le_rfl, ?_⟩
        intro wei hwei
        refine ⟨∅, nofun, ?_⟩
        rw [hbalance wei hwei]
        exact Nat.le_add_right _ _
    · have hnone := hc.alone hhead hlk hl
      rw [hnone] at hr
      cases hr

/-- A call gets in line. -/
theorem Sound.queued (h : Sound C s) (hfree : s.calls.lookup k = none)
    (hnew : ∀ l c, s.calls.lookup l = some c → c.id ≠ id)
    (hstart : startable s.ledger id = true) {candidates : List Str} :
    Sound C { s with
      calls := s.calls.insert k (.selecting id [] candidates), queue := s.queue ++ [k] } := by
  have hc := h.consistent
  have hkept : ∀ {l d}, s.calls.lookup l = some d →
      (s.calls.insert k (.selecting id [] candidates)).lookup l = some d := by
    intro l d hl
    refine (AList.lookup_insert_ne ?_).trans hl
    rintro rfl
    rw [hfree] at hl
    cases hl
  refine ⟨⟨?_, ?_, ?_, ?_, ?_, ?_, ?_⟩, ?_, ?_⟩
  · intro l j others rest hl hne
    rcases lookup_insert_cases hl with ⟨-, hd⟩ | ⟨-, hl⟩
    · cases hd
      exact absurd rfl hne
    · have hhead := hc.turn l j others rest hl hne
      show (s.queue ++ [k]).head? = some l
      rw [List.head?_append, hhead]
      rfl
  · intro l m d d' hl hm hid
    rcases lookup_insert_cases hl with ⟨rfl, rfl⟩ | ⟨-, hl⟩
    · rcases lookup_insert_cases hm with ⟨rfl, -⟩ | ⟨-, hm⟩
      · rfl
      · exact absurd hid.symm (hnew m d' hm)
    · rcases lookup_insert_cases hm with ⟨-, rfl⟩ | ⟨-, hm⟩
      · exact absurd hid (hnew l d hl)
      · exact hc.ids l m d d' hl hm hid
  · intro l d hl hsigned
    rcases lookup_insert_cases hl with ⟨-, rfl⟩ | ⟨-, hl⟩
    · exact hstart
    · exact hc.unposted l d hl hsigned
  · intro l d sv hl hsv
    rcases lookup_insert_cases hl with ⟨-, rfl⟩ | ⟨-, hl⟩
    · cases hsv
    · exact hc.reserved l d sv hl hsv
  · intro l j sv hash hl
    rcases lookup_insert_cases hl with ⟨-, hd⟩ | ⟨-, hl⟩
    · cases hd
    · exact hc.sent l j sv hash hl
  · intro a i r hr
    rcases hc.known a i r hr with ⟨l, d, sv, hl, hrest⟩ | hposted
    · exact Or.inl ⟨l, d, sv, hkept hl, hrest⟩
    · exact Or.inr hposted
  · intro hash tx htx hpending
    obtain ⟨hposting, hcall⟩ := hc.pending hash tx htx hpending
    refine ⟨hposting, ?_⟩
    intro l d hl hid
    rcases lookup_insert_cases hl with ⟨-, rfl⟩ | ⟨-, hl⟩
    · -- a transaction of the intent would be in the ledger
      obtain ⟨entry, hentry, hstage, -⟩ := hposting
      have hid : id = tx.id := hid
      rw [startable, hid, hentry, Option.all_some, hstage] at hstart
      cases hstart
    · exact hcall l d hl hid
  · intro l j others rest hl r hr
    rcases lookup_insert_cases hl with ⟨-, hd⟩ | ⟨-, hl⟩
    · cases hd
      cases hr
    · obtain ⟨hat, hread⟩ := h.stale l j others rest hl r hr
      refine ⟨hat, ?_⟩
      intro wei hwei
      obtain ⟨X, hX, hle⟩ := hread wei hwei
      refine ⟨X, ?_, hle⟩
      intro i hi
      obtain ⟨hnot, hcovered, hincluded⟩ := hX i hi
      refine ⟨fun ha => hnot (assigned_of_selecting ha), hcovered, ?_⟩
      intro m sv hash hm
      rcases lookup_insert_cases hm with ⟨-, hd⟩ | ⟨-, hm⟩
      · cases hd
      · exact hincluded m sv hash hm
  · intro sv A hA
    exact h.solvent sv A fun i hi => assigned_of_selecting (hA i hi)

/-- The book after the evaluation: only holds that have run out are gone. -/
theorem find_of_purged {deps : SelectionDeps} {candidates : List Str} {book found : ReservationBook}
    (h : Purged deps candidates book found) (a i : Str) : found.find a i = book.find a i ∨
      found.find a i = none ∧ ∃ r u, book.find a i = some r ∧ r.releaseAtMs = some u := by
  rcases h a i with hsame | ⟨hnone, sv, -, -, ⟨wei, releaseAtMs⟩, hr, hlapsed⟩
  · exact Or.inl hsame
  · refine Or.inr ⟨hnone, ⟨wei, releaseAtMs⟩, ?_⟩
    cases releaseAtMs with
    | none => cases hlapsed
    | some u => exact ⟨u, hr, rfl⟩

theorem purged_none {deps : SelectionDeps} {candidates : List Str} {book found : ReservationBook}
    (h : Purged deps candidates book found) {a i : Str} (hnone : book.find a i = none) :
    found.find a i = none := by
  rcases find_of_purged h a i with hsame | ⟨hgone, -⟩
  · rw [hsame]
    exact hnone
  · exact hgone

/-- No solver is selected. -/
theorem Sound.unselected (h : Sound C s) (hk : s.calls.lookup k = some (.selecting id done left))
    (hhead : s.queue.head? = some k) {deps : SelectionDeps} {book : ReservationBook}
    (hpurged : Purged deps C.candidates s.book book)
    {patch : ArbitrumLedgerEntry → ArbitrumLedgerEntry} :
    Sound C { s with
      book, queue := s.queue.tail
      ledger := s.ledger.setArbitrumStage id.1 .collateral_failed patch
      calls := s.calls.erase k } := by
  have hc := h.consistent
  have hmoves : Moves s { s with
      book, queue := s.queue.tail
      ledger := s.ledger.setArbitrumStage id.1 .collateral_failed patch
      calls := s.calls.erase k } k (.selecting id done left) none :=
    { before := hk
      becomes := AList.lookup_erase k s.calls
      others := fun _ hl => AList.lookup_erase_ne hl
      sameId := nofun
      turn := by
        intro l hl hturn
        rw [hhead] at hturn
        cases hturn
        exact absurd rfl hl
      ledger := fun _ hi => lookup_set_ne hi _ patch
      book := fun a i _ => find_of_purged hpurged a i
      txs := fun _ _ => Or.inl
      sent := fun _ _ h => h }
  refine ⟨hc.move hmoves (.ended ?_ ?_), ?_, h.solvent.move hmoves rfl ?_⟩
  · intro a r hr
    exact absurd (hr.symm.trans (purged_none hpurged (hc.find_selecting hk a))) nofun
  · intro hash tx htx hpending hid
    cases hc.hash_of_pending hk htx hpending hid
  · intro l j others rest hl r hr
    by_cases hlk : l = k
    · subst hlk
      exact absurd (hl.symm.trans (AList.lookup_erase l s.calls)) nofun
    · rw [hc.alone hhead hlk ((AList.lookup_erase_ne hlk).symm.trans hl)] at hr
      cases hr
  · intro sv ha
    rcases ha with ⟨l, d, sv', hl, hid, hrest⟩ | htx
    · exact absurd hid (no_call_of_erase hc hk hl)
    · exact Or.inr htx

theorem assigned_congr {other : Str} (h : addrKey solver = addrKey other)
    (ha : s.Assigned solver id) : s.Assigned other id := by
  unfold State.Assigned at ha ⊢
  rw [← h]
  exact ha

/-- What a selection reads of the balance that it decides on. -/
theorem read_of_balance {deps : SelectionDeps} {wei : Nat}
    (h : (s.selectionDeps C done deps).getBalanceWei solver = .ok wei) :
    ∃ r ∈ done, r.solver = solver ∧ r.balance = some wei := by
  unfold State.selectionDeps at h
  dsimp only at h
  split at h
  · next balance hread =>
    cases h
    obtain ⟨r, hfind, hr⟩ := Option.bind_eq_some_iff.mp hread
    have hsolver := List.find?_some hfind
    exact ⟨r, List.mem_of_find?_eq_some hfind, of_decide_eq_true hsolver, hr⟩
  · cases h

/-- The balance covers the intent that is selected besides those that are assigned. -/
theorem Sound.covers_selected (h : Sound C s)
    (hk : s.calls.lookup k = some (.selecting id done left)) {deps : SelectionDeps}
    {nowSec : Int} (hsatisfies : Satisfies ⟨id.1, C.json id⟩ nowSec
      (s.selectionDeps C done deps) s.book solver)
    (hholds : ∀ r ∈ done, r.balance ≠ none → holdsRun C s r.solver r.atMs = true)
    {A : Finset Id} (hA : ∀ i ∈ A, s.Assigned solver i) :
    C.wei id + ∑ i ∈ A, C.wei i ≤ s.balance (addrKey solver) := by
  have hc := h.consistent
  obtain ⟨wei, hwei⟩ := hsatisfies.balance_read
  obtain ⟨r, hr, rfl, hbalance⟩ := read_of_balance hwei
  have hcapital := hsatisfies.capital
  unfold needed availableOf at hcapital
  rw [floor_three_halves, hwei] at hcapital
  have hcapital : (C.wei id : Int) ≤ wei - s.book.liveWei r.solver s.nowMs -
      ledgerReservedWei C.gate (inFlight s.ledger s.book) r.solver := hcapital
  obtain ⟨-, hread⟩ := h.stale k id done left hk r hr
  obtain ⟨X, hX, hle⟩ := hread wei hbalance
  have hdisjoint : Disjoint A X := by
    rw [Finset.disjoint_left]
    intro i hi hiX
    exact (hX i hiX).not_assigned (hA i hi)
  have hcounted := covered_le_counted (X := A ∪ X) (hholds r hr (by rw [hbalance]; exact nofun)) (by
    intro i hi
    rcases Finset.mem_union.mp hi with hi | hi
    · exact hc.covered_of_assigned (hA i hi)
    · exact (hX i hi).covered)
  rw [Finset.sum_union hdisjoint] at hcounted
  omega

/-- A solver is selected. -/
theorem Sound.selected (h : Sound C s) (hk : s.calls.lookup k = some (.selecting id done left))
    (hhead : s.queue.head? = some k) {deps : SelectionDeps} {nowSec : Int}
    {book : ReservationBook} (hpurged : Purged (s.selectionDeps C done deps) C.candidates s.book book)
    (hsatisfies : Satisfies ⟨id.1, C.json id⟩ nowSec (s.selectionDeps C done deps) s.book solver)
    (hstart : startable s.ledger id = true)
    (hholds : ∀ r ∈ done, r.balance ≠ none → holdsRun C s r.solver r.atMs = true) :
    Sound C { s with
      book := book.reserve solver id.1 (C.wei id), queue := s.queue.tail
      calls := s.calls.insert k (.assigned id solver) } := by
  have hc := h.consistent
  have hmoves : Moves s { s with
      book := book.reserve solver id.1 (C.wei id), queue := s.queue.tail
      calls := s.calls.insert k (.assigned id solver) } k (.selecting id done left)
      (some (.assigned id solver)) :=
    { before := hk
      becomes := AList.lookup_insert s.calls
      others := fun _ hl => AList.lookup_insert_ne hl
      sameId := by
        rintro _ ⟨⟩
        rfl
      turn := by
        intro l hl hturn
        rw [hhead] at hturn
        cases hturn
        exact absurd rfl hl
      ledger := fun _ _ => rfl
      book := by
        intro a i hi
        rw [ReservationBook.find_reserve, if_neg]
        · exact find_of_purged hpurged a i
        · rintro ⟨-, rfl⟩
          exact hi id.2
      txs := fun _ _ => Or.inl
      sent := fun _ _ h => h }
  refine ⟨hc.move hmoves ⟨nofun, ?_, ?_, nofun, ?_, ?_⟩, ?_, ?_⟩
  · exact fun _ _ _ => hstart
  · rintro d sv ⟨⟩ ⟨⟩
    refine (ReservationBook.find_reserve _ _ _ _).trans (if_pos ?_)
    exact ⟨rfl, id.2.symm⟩
  · intro a r hr
    have hr := (ReservationBook.find_reserve _ _ _ _).symm.trans hr
    split at hr
    · next ha => exact Or.inl ⟨_, solver, rfl, rfl, ha.1.symm⟩
    · exact absurd (hr.symm.trans (purged_none hpurged (hc.find_selecting hk a))) nofun
  · intro hash tx htx hpending hid
    cases hc.hash_of_pending hk htx hpending hid
  · intro l j others rest hl r hr
    rcases lookup_insert_cases hl with ⟨-, hd⟩ | ⟨hlk, hl⟩
    · cases hd
    · rw [hc.alone hhead hlk hl] at hr
      cases hr
  · -- what is assigned is the intent, for the solver, or was assigned before
    intro sv A hA
    have hold : ∀ {i}, i ≠ id → i ∈ A → s.Assigned sv i :=
      fun hne hi => hmoves.assigned hne (hA _ hi)
    by_cases hid : id ∈ A
    · have hkey : addrKey solver = addrKey sv := by
        rcases hA id hid with ⟨l, d, sv', hl, hdid, hsv, hkey, -⟩ | ⟨hash, tx, htx, htid, -, hp⟩
        · rcases lookup_insert_cases hl with ⟨-, rfl⟩ | ⟨hlk, hl⟩
          · cases hsv
            exact hkey
          · exact absurd (hc.ids l k d _ hl hk hdid) hlk
        · cases hc.hash_of_pending hk htx hp htid
      have hcovers := h.covers_selected hk hsatisfies hholds (A := A.erase id) (by
        intro i hi
        obtain ⟨hne, hi⟩ := Finset.mem_erase.mp hi
        exact assigned_congr hkey.symm (hold hne hi))
      rw [Finset.add_sum_erase A C.wei hid, hkey] at hcovers
      exact hcovers
    · refine h.solvent sv A ?_
      intro i hi
      refine hold ?_ hi
      rintro rfl
      exact hid hi

end Selection

/-! ## Wallets and transactions -/

section Wallets

variable {solver hash : Str} {id : Id}

/-- Time passes, and wallets receive. -/
theorem Sound.later (h : Sound C s) {nowMs : Nat} {balance : Str → Nat} (hnow : s.nowMs ≤ nowMs)
    (hbalance : ∀ a, s.balance a ≤ balance a) : Sound C { s with nowMs, balance } := by
  obtain ⟨⟨hturn, hids, hunposted, hreserved, hsent, hknown, hpending⟩, hstale, hsolvent⟩ := h
  refine ⟨⟨hturn, hids, hunposted, hreserved, hsent, hknown, hpending⟩, ?_, ?_⟩
  · intro k j reads left hk r hr
    obtain ⟨hat, hread⟩ := hstale k j reads left hk r hr
    refine ⟨hat.trans hnow, ?_⟩
    intro wei hwei
    obtain ⟨X, hX, hle⟩ := hread wei hwei
    refine ⟨X, ?_, hle.trans (Nat.add_le_add_right (hbalance _) _)⟩
    intro i hi
    obtain ⟨hnot, hcovered, hincluded⟩ := hX i hi
    exact ⟨hnot, hcovered, hincluded⟩
  · intro sv A hA
    exact (hsolvent sv A hA).trans (hbalance _)

theorem Posting.hash_unique {other : Str} {sv : Str} (h : Posting C s id solver hash)
    (h' : Posting C s id sv other) : hash = other := by
  obtain ⟨entry, hentry, -, hhash, -⟩ := h
  obtain ⟨entry', hentry', -, hhash', -⟩ := h'
  rw [hentry] at hentry'
  cases hentry'
  rw [hhash] at hhash'
  exact Option.some.inj hhash'

/-- The transaction cannot land any more. -/
def State.resolve (s : State) (hash : Str) (id : Id) (solver : Str) (status : PostStatus)
    (balance : Str → Nat) : State :=
  { s with txs := Function.update s.txs hash (some ⟨id, solver, status⟩), balance }

variable {status : PostStatus} {balance : Str → Nat}

/-- The other transactions are as they were. -/
theorem tx_of_resolve (hstatus : status ≠ .pending) {other : Str} {tx : PostTx}
    (htx : (s.resolve hash id solver status balance).txs other = some tx)
    (hpending : tx.status = .pending) : other ≠ hash ∧ s.txs other = some tx := by
  change Function.update s.txs hash _ other = some tx at htx
  by_cases hother : other = hash
  · subst hother
    rw [Function.update_self] at htx
    cases htx
    exact absurd hpending hstatus
  · rw [Function.update_of_ne hother] at htx
    exact ⟨hother, htx⟩

theorem assigned_of_resolve (hstatus : status ≠ .pending) {sv : Str} {j : Id}
    (ha : (s.resolve hash id solver status balance).Assigned sv j) : s.Assigned sv j := by
  rcases ha with hcall | ⟨other, tx, htx, hid, hkey, hpending⟩
  · exact Or.inl hcall
  · exact Or.inr ⟨other, tx, (tx_of_resolve hstatus htx hpending).2, hid, hkey, hpending⟩

/-- The intent of a transaction that is resolved is assigned no longer. -/
theorem Consistent.not_assigned_of_resolve (h : Consistent C s)
    (htx : s.txs hash = some ⟨id, solver, .pending⟩) (hstatus : status ≠ .pending) (sv : Str) :
    ¬(s.resolve hash id solver status balance).Assigned sv id := by
  obtain ⟨hposting, hcall⟩ := h.pending hash _ htx rfl
  rintro (⟨k, c, sv', hk, hid, -, -, hsigned⟩ | ⟨other, tx, htx', hid, -, hpending⟩)
  · rw [hcall k c hk hid] at hsigned
    cases hsigned
  · obtain ⟨hne, htx'⟩ := tx_of_resolve hstatus htx' hpending
    have hposting' := (h.pending other tx htx' hpending).1
    rw [hid] at hposting'
    exact hne (hposting'.hash_unique hposting)

theorem Consistent.resolve (h : Consistent C s)
    (htx : s.txs hash = some ⟨id, solver, .pending⟩) (hstatus : status ≠ .pending) :
    Consistent C (s.resolve hash id solver status balance) := by
  refine ⟨h.turn, h.ids, h.unposted, h.reserved, ?_, h.known, ?_⟩
  · intro k j sv other hk
    obtain ⟨hposting, status', htx'⟩ := h.sent k j sv other hk
    refine ⟨hposting, ?_⟩
    by_cases hother : other = hash
    · subst hother
      rw [htx] at htx'
      cases htx'
      exact ⟨status, Function.update_self _ _ _⟩
    · exact ⟨status', (Function.update_of_ne hother _ _).trans htx'⟩
  · intro other tx htx' hpending
    exact h.pending other tx (tx_of_resolve hstatus htx' hpending).2 hpending

/-- What had landed still has. -/
theorem Landed.resolve {r : Read} {j : Id} (hlanded : Landed C s r j)
    (htx : s.txs hash = some ⟨id, solver, .pending⟩) (hstatus : status ≠ .pending) :
    Landed C (s.resolve hash id solver status balance) r j := by
  refine ⟨fun ha => hlanded.not_assigned (assigned_of_resolve hstatus ha), hlanded.covered, ?_⟩
  intro k sv other hk
  obtain ⟨ok, atMs, hincluded, hle⟩ := hlanded.included k sv other hk
  refine ⟨ok, atMs, (Function.update_of_ne ?_ _ _).trans hincluded, hle⟩
  rintro rfl
  rw [htx] at hincluded
  cases hincluded

theorem Sound.dropped (h : Sound C s) (htx : s.txs hash = some ⟨id, solver, .pending⟩) :
    Sound C (s.resolve hash id solver .dropped s.balance) := by
  have hstatus : PostStatus.dropped ≠ .pending := nofun
  refine ⟨h.consistent.resolve htx hstatus, ?_, ?_⟩
  · intro k j reads left hk r hr
    obtain ⟨hat, hread⟩ := h.stale k j reads left hk r hr
    refine ⟨hat, ?_⟩
    intro wei hwei
    obtain ⟨X, hX, hle⟩ := hread wei hwei
    exact ⟨X, fun i hi => (hX i hi).resolve htx hstatus, hle⟩
  · intro sv A hA
    exact h.solvent sv A fun i hi => assigned_of_resolve hstatus (hA i hi)

/-- The transaction lands, or reverts, and the wallet pays for it. -/
theorem Sound.included (h : Sound C s) (htx : s.txs hash = some ⟨id, solver, .pending⟩)
    {ok : Bool} {spentWei : Nat} (hspent : spentWei ≤ C.wei id) :
    Sound C (s.resolve hash id solver (.included ok s.nowMs) (Function.update s.balance
      (addrKey solver) (s.balance (addrKey solver) - spentWei))) := by
  have hc := h.consistent
  have hstatus : PostStatus.included ok s.nowMs ≠ .pending := nofun
  have hassigned : ∀ {sv}, addrKey solver = addrKey sv → s.Assigned sv id :=
    fun hkey => Or.inr ⟨hash, _, htx, rfl, hkey, rfl⟩
  refine ⟨hc.resolve htx hstatus, ?_, ?_⟩
  · intro k j reads left hk r hr
    obtain ⟨hat, hread⟩ := h.stale k j reads left hk r hr
    refine ⟨hat, ?_⟩
    intro wei hwei
    obtain ⟨X, hX, hle⟩ := hread wei hwei
    have hX' : ∀ i ∈ X, Landed C (s.resolve hash id solver (.included ok s.nowMs)
        (Function.update s.balance (addrKey solver) (s.balance (addrKey solver) - spentWei))) r i :=
      fun i hi => (hX i hi).resolve htx hstatus
    by_cases hkey : addrKey r.solver = addrKey solver
    · -- the intent has left this wallet since the read
      have hid : id ∉ X := fun hi => (hX id hi).not_assigned (hassigned hkey.symm)
      refine ⟨insert id X, ?_, ?_⟩
      · intro i hi
        rcases Finset.mem_insert.mp hi with rfl | hi
        · refine ⟨hc.not_assigned_of_resolve htx hstatus _, ?_, ?_⟩
          · exact hc.covered_of_assigned (hassigned hkey.symm)
          · intro l sv other hl
            have hcall := (hc.pending hash _ htx rfl).2 l _ hl rfl
            cases hcall
            exact ⟨ok, s.nowMs, Function.update_self _ _ _, hat⟩
        · exact hX' i hi
      · rw [Finset.sum_insert hid]
        have hnew : (s.resolve hash id solver (.included ok s.nowMs) (Function.update s.balance
            (addrKey solver) (s.balance (addrKey solver) - spentWei))).balance (addrKey r.solver) =
            s.balance (addrKey r.solver) - spentWei := by
          rw [hkey]
          exact Function.update_self _ _ _
        rw [hnew]
        omega
    · refine ⟨X, hX', ?_⟩
      have hnew : (s.resolve hash id solver (.included ok s.nowMs) (Function.update s.balance
          (addrKey solver) (s.balance (addrKey solver) - spentWei))).balance (addrKey r.solver) =
          s.balance (addrKey r.solver) := Function.update_of_ne hkey _ _
      rw [hnew]
      exact hle
  · intro sv A hA
    have hold : ∀ i ∈ A, s.Assigned sv i := fun i hi => assigned_of_resolve hstatus (hA i hi)
    show _ ≤ Function.update s.balance (addrKey solver) _ (addrKey sv)
    by_cases hkey : addrKey sv = addrKey solver
    · have hid : id ∉ A := fun hi => hc.not_assigned_of_resolve htx hstatus sv (hA id hi)
      have hsolvent := h.solvent sv (insert id A) (by
        intro i hi
        rcases Finset.mem_insert.mp hi with rfl | hi
        · exact hassigned hkey.symm
        · exact hold i hi)
      rw [Finset.sum_insert hid, hkey] at hsolvent
      rw [hkey, Function.update_self]
      omega
    · rw [Function.update_of_ne hkey]
      exact h.solvent sv A hold

end Wallets

/-! ## Runs -/

theorem holds_of_counts {k : Nat} {nowSec : Int} {deps : SelectionDeps} {id : Id}
    {done : List Read} {left : List Str} (hk : s.calls.lookup k = some (.selecting id done left))
    (hhead : s.queue.head? = some k) (hok : countsUntilSeen C s (.decide k nowSec deps) = true) :
    ∀ r ∈ done, r.balance ≠ none → holdsRun C s r.solver r.atMs = true := by
  intro r hr hread
  have hreads : s.reads = done := by
    unfold State.reads
    rw [hhead, Option.bind_some, hk]
  have hcounts : (s.reads.all fun r => r.balance.isNone || holdsRun C s r.solver r.atMs) = true :=
    hok
  rw [hreads] at hcounts
  have hthis := List.all_eq_true.mp hcounts r hr
  rw [Bool.or_eq_true, Option.isNone_iff_eq_none] at hthis
  exact hthis.resolve_left hread

theorem Sound.step (h : Sound C s) {e : Event} (hok : countsUntilSeen C s e = true)
    (hstep : Steps C s e s') : Sound C s' := by
  cases hstep with
  | time hms => exact h.later hms fun _ => le_rfl
  | @deposit solver wei =>
    refine h.later le_rfl ?_
    intro a
    by_cases ha : a = addrKey solver
    · rw [ha, Function.update_self]
      exact Nat.le_add_right _ _
    · rw [Function.update_of_ne ha]
  | refused => exact h
  | queued hfree hnew hstart => exact h.queued hfree hnew hstart
  | reads hk hhead hbalance => exact h.reads_next hk hhead hbalance
  | unselected hk hhead hpurged => exact h.unselected hk hhead hpurged
  | selected hk hhead hpurged hsatisfies hstart =>
    exact h.selected hk hhead hpurged hsatisfies hstart (holds_of_counts hk hhead hok)
  | abandoned hk hstart =>
    have hunposted := h.consistent.unposted _ _ hk rfl
    exact absurd (hunposted.symm.trans hstart) nofun
  | passes hk => exact h.passes hk
  | signs hk hfresh => exact h.signs hk hfresh
  | posted hk hstatus => exact h.posted hk hstatus
  | unsent hk hsolver hsigned hledger => exact h.unsent hk hsolver hsigned hledger
  | @failed e k id solver hash patch hk he =>
    refine h.failed hk ?_
    intro tx htx
    rcases he with rfl | ⟨rfl, atMs, hstatus⟩
    · simp only [countsUntilSeen, hk, htx, Option.all_some] at hok
      exact hok
    · rw [htx, Option.map_some, Option.some_inj] at hstatus
      simp only [countsUntilSeen, hk, htx, Option.all_some, hstatus] at hok
      rw [hstatus]
      exact hok
  | threw hk => exact h.threw hk
  | included htx hspent hle => exact h.included htx hspent
  | dropped htx => exact h.dropped htx

/-- What is known when the orchestrator starts: no call and no reservation; each transaction that
can still land is the one that the ledger has for its intent, with what it may spend; and a
solver's balance covers what the ledger has in flight. -/
structure Starts (C : Config) (s : State) : Prop where
  calls : s.calls = ∅
  book : s.book = ∅
  pending : ∀ hash tx, s.txs hash = some tx → tx.status = .pending →
    Posting C s tx.id tx.solver hash
  balance : ∀ solver, ledgerReservedWei C.gate s.ledger.getPostingCollateralEntries solver ≤
    s.balance (addrKey solver)

theorem Starts.sound (h : Starts C s) : Sound C s := by
  have hnone : ∀ {k c}, s.calls.lookup k ≠ some c := by
    intro k c hk
    rw [h.calls, AList.lookup_empty] at hk
    cases hk
  have hconsistent : Consistent C s := by
    refine ⟨?_, ?_, ?_, ?_, ?_, ?_, ?_⟩
    · exact fun _ _ _ _ hk => absurd hk hnone
    · exact fun _ _ _ _ hk => absurd hk hnone
    · exact fun _ _ hk => absurd hk hnone
    · exact fun _ _ _ hk => absurd hk hnone
    · exact fun _ _ _ _ hk => absurd hk hnone
    · intro a i r hr
      rw [h.book] at hr
      cases hr
    · exact fun hash tx htx hpending =>
        ⟨h.pending hash tx htx hpending, fun _ _ hk => absurd hk hnone⟩
  refine ⟨hconsistent, fun _ _ _ _ hk => absurd hk hnone, ?_⟩
  intro solver A hA
  have hholds : holdsRun C s solver 0 = true := by
    unfold holdsRun ReservationBook.forSolver
    rw [h.book]
    rfl
  have hcounted := covered_le_counted hholds fun i hi => hconsistent.covered_of_assigned (hA i hi)
  have hlive : s.book.liveWei solver s.nowMs = 0 := by
    unfold ReservationBook.liveWei ReservationBook.forSolver
    rw [h.book]
    rfl
  have hflight : inFlight s.ledger s.book = s.ledger.getPostingCollateralEntries := by
    unfold inFlight
    rw [h.book]
    exact List.filter_eq_self.mpr fun _ _ => rfl
  rw [hlive, Nat.zero_add, hflight] at hcounted
  exact hcounted.trans (h.balance solver)

/-- However many calls there are and however long their reads and transactions take: as long as
reservations count until the balances that are read show the transactions, a solver's balance
covers the collateral and the gas of every intent that is assigned to it and can still land. -/
theorem never_overcommitted (C : Config) (s₀ : State) (hstart : Starts C s₀) (es : List Event)
    (s : State) (hrun : Run.run (Run.restrict (countsUntilSeen C) (step C)) s₀ es = some s)
    (solver : Str) (A : Finset Id) (hA : ∀ i ∈ A, s.Assigned solver i) :
    ∑ i ∈ A, (requiredCollateral (C.json i).amount + C.gate.gasBufferWei) ≤
      s.balance (addrKey solver) := by
  have hsound : Sound C s := by
    refine Run.run_keeps ?_ hrun hstart.sound
    intro s e s' h hstep
    obtain ⟨hok, hstep⟩ := Run.restrict_eq_some.mp hstep
    exact h.step hok (step_cases hstep)
  exact hsound.solvent solver A hA

/-! ### Three intents and one wallet -/

/-- One solver; every intent takes a collateral of 150 and a gas buffer of 10. -/
def sampleRouting : Config where
  candidates := [sampleSolver]
  distinct := List.nodup_singleton _
  gate := ⟨1000, 10, 600⟩
  reservationHoldMs := 30000
  json id := ⟨id.1, 100, ZERO_ADDRESS, 5000⟩

def sampleStart : State where
  nowMs := 0
  ledger := ∅
  book := ∅
  balance _ := 350
  txs _ := none
  calls := ∅
  queue := []

theorem sampleStart_starts : Starts sampleRouting sampleStart where
  calls := rfl
  book := rfl
  pending := by
    intro hash tx htx
    cases htx
  balance _ := Nat.zero_le _

def firstId : Id := ⟨['a'], rfl⟩
def secondId : Id := ⟨['b'], rfl⟩
def thirdId : Id := ⟨['c'], rfl⟩

/-- Two intents are assigned; a third selection has read the balance before the collateral of the
first lands. -/
def samplePostings : List Event :=
  [.dispatch 0 firstId, .read 0 true, .decide 0 1000 sampleDeps, .gate 0 1000 350,
    .sign 0 ['p'], .dispatch 1 secondId, .read 1 true, .decide 1 1000 sampleDeps,
    .dispatch 2 thirdId, .read 2 true, .included ['p'] 150 true, .receipt 0]

theorem assigned_of_call {k : Nat} {id : Id} {solver : Str}
    (hk : s.calls.lookup k = some (.assigned id solver)) : s.Assigned solver id :=
  Or.inl ⟨k, _, solver, hk, rfl, rfl, rfl, rfl⟩

/-- The third selection decides at once, and takes nothing. -/
theorem never_overcommitted_sample :
    ∃ s, Run.run (Run.restrict (countsUntilSeen sampleRouting) (step sampleRouting)) sampleStart
        (samplePostings ++ [.decide 2 1000 sampleDeps]) = some s ∧
      s.calls.lookup 1 = some (.assigned secondId sampleSolver) ∧ s.calls.lookup 2 = none ∧
      ∑ i ∈ {secondId}, (requiredCollateral (sampleRouting.json i).amount +
        sampleRouting.gate.gasBufferWei) ≤ s.balance (addrKey sampleSolver) := by
  have hsome : ((Run.run (Run.restrict (countsUntilSeen sampleRouting) (step sampleRouting))
      sampleStart (samplePostings ++ [.decide 2 1000 sampleDeps])).any fun s =>
        s.calls.lookup 1 == some (.assigned secondId sampleSolver) &&
          s.calls.lookup 2 == none) = true := by
    decide +kernel
  obtain ⟨s, hrun, hs⟩ := (Option.any_eq_true _ _).mp hsome
  obtain ⟨hsecond, hthird⟩ := Bool.and_eq_true_iff.mp hs
  refine ⟨s, hrun, eq_of_beq hsecond, eq_of_beq hthird, ?_⟩
  apply never_overcommitted sampleRouting sampleStart sampleStart_starts _ s hrun
  intro i hi
  rw [Finset.mem_singleton.mp hi]
  exact assigned_of_call (eq_of_beq hsecond)

/-- The third selection decides when the hold of the first intent has run out, on the balance from
before: the wallet has 200 and the two intents take 320. -/
theorem slow_read_overcommits :
    Starts sampleRouting sampleStart ∧
    ∃ s, Run.run (step sampleRouting) sampleStart
        (samplePostings ++ [.time 30000, .decide 2 1000 sampleDeps]) = some s ∧
      s.Assigned sampleSolver secondId ∧ s.Assigned sampleSolver thirdId ∧
      secondId ≠ thirdId ∧ s.balance (addrKey sampleSolver) = 200 ∧
      sampleRouting.wei secondId + sampleRouting.wei thirdId = 320 := by
  have hsome : ((Run.run (step sampleRouting) sampleStart
      (samplePostings ++ [.time 30000, .decide 2 1000 sampleDeps])).any fun s =>
        s.calls.lookup 1 == some (.assigned secondId sampleSolver) &&
          (s.calls.lookup 2 == some (.assigned thirdId sampleSolver) &&
            s.balance (addrKey sampleSolver) == 200)) = true := by
    decide +kernel
  obtain ⟨s, hrun, hs⟩ := (Option.any_eq_true _ _).mp hsome
  obtain ⟨hsecond, hrest⟩ := Bool.and_eq_true_iff.mp hs
  obtain ⟨hthird, hbalance⟩ := Bool.and_eq_true_iff.mp hrest
  exact ⟨sampleStart_starts, s, hrun, assigned_of_call (eq_of_beq hsecond),
    assigned_of_call (eq_of_beq hthird), by decide, eq_of_beq hbalance, rfl⟩

end Dispatch

end Maat.Orchestrator
