import Maat.Lib.Hex
import Maat.Laws.IntentManager.Authority
import Maat.Orchestrator.System

/-!
# The contract under the orchestrator

`System` knows the contract by its status and solver rules alone. Every run of the contract model,
re-entrancy and reverts included, is a run of those rules: what `intents(id)` returns moves by one
`ChainAction` or not at all.
-/

namespace Maat.Orchestrator

open Js
open IntentManager (Address Bytes32)

def statusCode : IntentManager.IntentStatus → Nat
  | .Pending => INTENT_STATUS_PENDING
  | .Settled => INTENT_STATUS_SETTLED
  | .Expired => INTENT_STATUS_EXPIRED
  | .Slashed => INTENT_STATUS_SLASHED
  | .Refunded => INTENT_STATUS_REFUNDED

theorem statusCode_eq_pending {status : IntentManager.IntentStatus} :
    statusCode status = INTENT_STATUS_PENDING ↔ status = .Pending := by
  cases status <;> decide

/-- What `intents(id)` returns for a record, where `text` decodes an address. -/
def onChain (text : Address → Str) (intent : IntentManager.Intent) : OnChainIntent where
  owner := text intent.owner
  amount := intent.amount
  tokenAddress := text intent.tokenAddress
  status := statusCode intent.status
  solver := text intent.solver
  collateralPosted := intent.collateralPosted

/-- The zero address has a text of its own. -/
def ZeroText (text : Address → Str) : Prop := ∀ a, text a = ZERO_ADDRESS ↔ a = 0

section step

variable {E : IntentManager.Env} {text : Address → Str} {w w' : IntentManager.World}
  {i : IntentManager.Intent}

theorem onChain_empty (htext : ZeroText text) : onChain text .empty = blankIntent := by
  have hzero : text 0 = ZERO_ADDRESS := (htext 0).mpr rfl
  simp only [onChain, IntentManager.Intent.empty, hzero]
  rfl

/-- A pending record is reported with its solver. -/
theorem onChain_solved (htext : ZeroText text) (hpending : i.status = .Pending)
    (hsolver : i.solver ≠ 0) :
    (onChain text i).status = INTENT_STATUS_PENDING ∧ (onChain text i).solver ≠ ZERO_ADDRESS :=
  ⟨statusCode_eq_pending.mpr hpending, fun h => hsolver ((htext _).mp h)⟩

/-- A solver that can still post finds the intent pending: one that was cancelled has expired. -/
theorem pending_of_unsolved {id : Bytes32} (hkept : IntentManager.Kept E w)
    (hfree : (w.intents id).solver = 0) (hexpiry : w.timestamp < (w.intents id).expiry.toNat) :
    (w.intents id).status = .Pending := by
  have h := hkept.accounted id
  cases hstatus : (w.intents id).status with
  | Pending => rfl
  | Settled =>
    simp only [IntentManager.Intent.Accounted, hstatus] at h
    exact absurd hfree h.1
  | Slashed =>
    simp only [IntentManager.Intent.Accounted, hstatus] at h
    exact absurd hfree h.1
  | Refunded =>
    simp only [IntentManager.Intent.Accounted, hstatus] at h
    exact absurd hfree h.1
  | Expired =>
    simp only [IntentManager.Intent.Accounted, hstatus] at h
    obtain ⟨-, -, -, -, -, hpast⟩ := h
    exact absurd hexpiry (Nat.not_lt.mpr hpast)

/-- The view of `id` stays, or moves by one action at the time of `w'`. -/
def ViewMoves (text : Address → Str) (expiry : Bytes32 → Int) (w w' : IntentManager.World)
    (id : Bytes32) (action : ChainAction) : Prop :=
  action.apply (expiry id) w'.timestamp (onChain text (w.intents id)) =
    some (onChain text (w'.intents id))

/-- Nothing changed, or one intent did. -/
def ViewMoved (text : Address → Str) (expiry : Bytes32 → Int) (w w' : IntentManager.World) : Prop :=
  (∀ id, onChain text (w'.intents id) = onChain text (w.intents id)) ∨
    ∃ id action, ViewMoves text expiry w w' id action ∧
      ∀ j, j ≠ id → onChain text (w'.intents j) = onChain text (w.intents j)

theorem viewMoved_of_update {expiry : Bytes32 → Int} {id : Bytes32} {i' : IntentManager.Intent}
    (hintents : w'.intents = Function.update w.intents id i') (action : ChainAction)
    (h : action.apply (expiry id) w'.timestamp (onChain text (w.intents id)) =
      some (onChain text i')) : ViewMoved text expiry w w' := by
  refine .inr ⟨id, action, ?_, fun j hj => ?_⟩
  · rw [ViewMoves, hintents, Function.update_self]
    exact h
  · rw [hintents, Function.update_of_ne hj]

/-- One call that is entitled to its change moves one intent by one action. -/
theorem viewMoved_of_acts (htext : ZeroText text) {expiry : Bytes32 → Int} {msg : IntentManager.Msg}
    {call : IntentManager.Call} (hkept : IntentManager.Kept E w)
    (hsender : msg.sender ≠ 0)
    (hexpiry : ∀ id, (w.intents id).owner ≠ 0 → expiry id = (w.intents id).expiry.toNat)
    (hacts : IntentManager.Acts E w msg call w'.intents w'.creations)
    (htime : w'.timestamp = w.timestamp) :
    ViewMoved text expiry w w' := by
  have hexpiry_of_solver : ∀ id, (w.intents id).solver ≠ 0 →
      expiry id = (w.intents id).expiry.toNat := fun id hsolver =>
    hexpiry id (IntentManager.owner_ne_zero hkept hsolver)
  generalize hf : w'.intents = f at hacts
  generalize w'.creations = creations at hacts
  cases hacts with
  | leaves => exact .inl fun id => by rw [hf]
  | @submits id tokenAddress asked amount wallet chainId expiry slippageBps _ hfresh =>
    refine viewMoved_of_update hf (.submitIntent (text msg.sender) (text tokenAddress) amount) ?_
    have hzero : text 0 = ZERO_ADDRESS := (htext 0).mpr rfl
    rw [hfresh, onChain_empty htext]
    simp only [ChainAction.apply, blankIntent, and_self, if_true]
    simp only [onChain, IntentManager.Intent.created, IntentManager.Intent.empty, statusCode, hzero]
  | @posts id _ _ howner hfree hlive _ =>
    refine viewMoved_of_update hf (.postCollateral (text msg.sender) msg.value) ?_
    have hpending := pending_of_unsolved hkept hfree hlive
    have hlive' : (w'.timestamp : Int) < expiry id := by
      rw [hexpiry id howner, htime]
      exact_mod_cast hlive
    have hcond : (onChain text (w.intents id)).owner ≠ ZERO_ADDRESS ∧
        (onChain text (w.intents id)).solver = ZERO_ADDRESS ∧ (w'.timestamp : Int) < expiry id ∧
        (onChain text (w.intents id)).status = INTENT_STATUS_PENDING ∧
        text msg.sender ≠ ZERO_ADDRESS :=
      ⟨fun h => howner ((htext _).mp h), (htext _).mpr hfree, hlive',
        statusCode_eq_pending.mpr hpending, fun h => hsender ((htext _).mp h)⟩
    rw [ChainAction.apply, if_pos hcond]
    rfl
  | @confirms id proof _ hpending hsolver =>
    refine viewMoved_of_update hf .confirmSettlement ?_
    rw [ChainAction.apply, if_pos (onChain_solved htext hpending hsolver)]
    rfl
  | @slashes id _ hpending hsolver hpast =>
    refine viewMoved_of_update hf .slashSolver ?_
    obtain ⟨hp, hs⟩ := onChain_solved htext hpending hsolver
    have hpast' : expiry id ≤ (w'.timestamp : Int) := by
      rw [hexpiry_of_solver id hsolver, htime]
      exact_mod_cast hpast
    rw [ChainAction.apply, if_pos ⟨hp, hpast', hs⟩]
    rfl
  | @cancels id howner hpending hfree hpast =>
    refine viewMoved_of_update hf .cancelIntent ?_
    have hpast' : expiry id ≤ (w'.timestamp : Int) := by
      rw [hexpiry id (howner ▸ hsender), htime]
      exact_mod_cast hpast
    have hcond : (onChain text (w.intents id)).status = INTENT_STATUS_PENDING ∧
        expiry id ≤ (w'.timestamp : Int) ∧ (onChain text (w.intents id)).solver = ZERO_ADDRESS :=
      ⟨statusCode_eq_pending.mpr hpending, hpast', (htext _).mpr hfree⟩
    rw [ChainAction.apply, if_pos hcond]
    rfl
  | @refunds id _ hpending hsolver hpast =>
    refine viewMoved_of_update hf .claimRefund ?_
    obtain ⟨hp, hs⟩ := onChain_solved htext hpending hsolver
    have hpast' : expiry id + REFUND_GRACE ≤ (w'.timestamp : Int) := by
      have hgrace : REFUND_GRACE = (IntentManager.REFUND_GRACE : Int) := rfl
      rw [hexpiry_of_solver id hsolver, htime, hgrace]
      exact_mod_cast hpast
    rw [ChainAction.apply, if_pos ⟨hp, hpast', hs⟩]
    rfl

end step

/-! ## Runs -/

/-- An action taken on an intent. -/
structure Taken where
  id : Bytes32
  timestamp : Nat
  action : ChainAction
  deriving DecidableEq

/-- The event by which the system sees it. -/
def Taken.event (t : Taken) : Event Bytes32 := .others t.id t.timestamp t.action

/-- The actions, in the order of their times, take the system's contract from blank to the view of
`w`. -/
structure MatchedBy (P : Params Bytes32) (bound : Nat) (now : Int) (text : Address → Str)
    (w : IntentManager.World) (taken : List Taken) (s : Sys Bytes32) : Prop where
  run : Run.run (step P bound) (Sys.initial now) (taken.map Taken.event) = some s
  view : ∀ id, (s.world.contract id).current = onChain text (w.intents id)
  ordered : taken.Pairwise fun t u => t.timestamp ≤ u.timestamp
  past : ∀ t ∈ taken, t.timestamp ≤ w.timestamp

/-- The parameters know the expiry of every intent there is. -/
def KnowsExpiry (P : Params Bytes32) (w : IntentManager.World) : Prop :=
  ∀ id, (w.intents id).owner ≠ 0 → P.expiry id = (w.intents id).expiry.toNat

section run

variable {E : IntentManager.Env} {P : Params Bytes32} {bound : Nat} {now : Int}
  {text : Address → Str} {w w' : IntentManager.World} {taken : List Taken} {s : Sys Bytes32}

theorem KnowsExpiry.earlier (h : KnowsExpiry P w') (hevolves : IntentManager.Evolves w w') :
    KnowsExpiry P w := by
  intro id howner
  have hsame := hevolves.intents id howner
  rw [h id (hsame.owner ▸ howner), hsame.expiry]

theorem MatchedBy.idle (h : MatchedBy P bound now text w taken s) (htime : w.timestamp ≤ w'.timestamp)
    (hview : ∀ id, onChain text (w'.intents id) = onChain text (w.intents id)) :
    MatchedBy P bound now text w' taken s where
  run := h.run
  view id := (h.view id).trans (hview id).symm
  ordered := h.ordered
  past t ht := (h.past t ht).trans htime

theorem MatchedBy.act (h : MatchedBy P bound now text w taken s) (htime : w.timestamp ≤ w'.timestamp)
    {id : Bytes32} {action : ChainAction} (hmoves : ViewMoves text P.expiry w w' id action)
    (hrest : ∀ j, j ≠ id → onChain text (w'.intents j) = onChain text (w.intents j)) :
    ∃ s', MatchedBy P bound now text w' (taken ++ [⟨id, w'.timestamp, action⟩]) s' := by
  have hstep : ∃ s', step P bound s (Taken.event ⟨id, w'.timestamp, action⟩) = some s' ∧
      ∀ j, (s'.world.contract j).current = onChain text (w'.intents j) := by
    rw [ViewMoves, ← h.view id] at hmoves
    simp only [Taken.event, step, hmoves, Option.map_some, Option.some.injEq, exists_eq_left']
    intro j
    by_cases hj : j = id
    · subst hj
      simp only [Sys.setWorld, Function.update_self]
    · simp only [Sys.setWorld, Function.update_of_ne hj]
      exact (h.view j).trans (hrest j hj).symm
  obtain ⟨s', hs', hview⟩ := hstep
  refine ⟨s', ?_, hview, ?_, fun t ht => ?_⟩
  · rw [List.map_append, List.map_singleton]
    exact Run.run_append.mpr ⟨s, h.run, Run.run_cons_eq_some.mpr ⟨s', hs', Run.run_nil _⟩⟩
  · refine List.pairwise_append.mpr ⟨h.ordered, List.pairwise_singleton _ _, fun t ht u hu => ?_⟩
    rw [List.mem_singleton.mp hu]
    exact (h.past t ht).trans htime
  · rcases List.mem_append.mp ht with hold | hnew
    · exact (h.past t hold).trans htime
    · rw [List.mem_singleton.mp hnew]

/-- One event of the contract's run is at most one of the system's. -/
theorem MatchedBy.changes (htext : ZeroText text) (h : MatchedBy P bound now text w taken s)
    (hkept : IntentManager.Kept E w) (hevolves : IntentManager.Evolves w w')
    (hknows : KnowsExpiry P w') (hchanges : IntentManager.Changes E w w') :
    ∃ taken' s', MatchedBy P bound now text w' taken' s' := by
  cases hchanges with
  | same hintents htime _ => exact ⟨taken, s, h.idle htime fun id => by rw [hintents]⟩
  | «by» msg call hsender hacts htime =>
    rcases viewMoved_of_acts htext hkept hsender (hknows.earlier hevolves) hacts htime with
      hview | ⟨id, action, hmoves, hrest⟩
    · exact ⟨taken, s, h.idle htime.ge hview⟩
    · obtain ⟨s', hs'⟩ := h.act htime.ge hmoves hrest
      exact ⟨_, s', hs'⟩

/-- What `intents(id)` returns in the last idle world of any run of the contract is what the
system comes to by calls of others alone, in the order of their block times. -/
theorem contract_refines (htext : ZeroText text) {m : IntentManager.Machine}
    (hreach : IntentManager.Reachable E m) (hknows : KnowsExpiry P m.committed) :
    ∃ taken s, MatchedBy P bound now text m.committed taken s := by
  obtain ⟨orchestrator, treasury, owner, timestamp, storage, events, hdeploy, hrun⟩ := hreach
  have hinv := IntentManager.inv_deployed (E := E) hdeploy
  refine (Run.run_keeps (I := fun m => (IntentManager.Inv E m ∧ m.Acting E) ∧
    (KnowsExpiry P m.committed → ∃ taken s, MatchedBy P bound now text m.committed taken s)) ?_ hrun
    ⟨⟨hinv, fun _ hf => absurd hf List.not_mem_nil⟩, fun _ => ?_⟩).2 hknows
  · rintro m e m' ⟨⟨hinv, hacting⟩, ih⟩ hstep
    obtain ⟨hinv', hevolves⟩ := IntentManager.step_inv hinv hstep
    obtain ⟨hacting', hchanges⟩ := IntentManager.step_acts hinv hacting hstep
    refine ⟨⟨hinv', hacting'⟩, fun hknows => ?_⟩
    obtain ⟨taken, s, hs⟩ := ih (hknows.earlier hevolves)
    exact hs.changes htext hinv.committed_idle.kept hevolves hknows hchanges
  · refine ⟨[], _, Run.run_nil _, fun id => ?_, .nil, fun _ h => absurd h List.not_mem_nil⟩
    have hunowned : ∀ w : IntentManager.World, w.intents id = .empty →
        blankIntent = onChain text (w.intents id) := fun w hw => by rw [hw, onChain_empty htext]
    have hempty : storage.intents id = .empty := by
      simp only [IntentManager.constructor] at hdeploy
      split at hdeploy
      case isTrue => cases hdeploy
      obtain rfl := Option.some.inj hdeploy
      rfl
    exact hunowned _ hempty

end run

/-- An address in lower-case hex. -/
def addressText (a : Address) : Str := '0' :: 'x' :: Hex.toHex (Bytes.beBytes 20 a)

theorem zeroText_addressText : ZeroText addressText := by
  have hinjective : Function.Injective addressText := by
    intro a b h
    have hbytes : Bytes.beBytes 20 (a : Nat) = Bytes.beBytes 20 (b : Nat) := by
      have htail := (List.cons.inj (List.cons.inj h).2).2
      rw [← Hex.fromHex_toHex (Bytes.beBytes 20 (a : Nat)), htail, Hex.fromHex_toHex]
    have hvalue := congrArg Bytes.beNat hbytes
    rw [Bytes.beNat_beBytes, Bytes.beNat_beBytes] at hvalue
    have ha : (a : Nat) < 256 ^ 20 := a.isLt
    have hb : (b : Nat) < 256 ^ 20 := b.isLt
    rw [Nat.mod_eq_of_lt ha, Nat.mod_eq_of_lt hb] at hvalue
    exact Fin.ext hvalue
  have hzero : addressText 0 = ZERO_ADDRESS := by decide
  exact fun a => ⟨fun h => hinjective (h.trans hzero.symm), fun h => h ▸ hzero⟩

/-- The sample intent: 100 wei until second 2000. -/
def sampleIntentParams : Params Bytes32 where
  json _ := ⟨[], 100, ZERO_ADDRESS, 2000⟩
  gate := ⟨1000, 0, 0⟩
  confirmRetryMaxSecAfterExpiry := 0
  verifyAttempts := 1
  defaultSolver := addressText 5

/-- The sample run, from a submission to its settlement, seen by the orchestrator. -/
theorem contract_refines_sample :
    ∃ m, Run.run (IntentManager.step IntentManager.sampleEnv)
        (IntentManager.deployed IntentManager.sampleStorage 1000) IntentManager.sampleRun = some m ∧
      onChain addressText (m.committed.intents IntentManager.sampleId) =
        ⟨addressText 6, 100, ZERO_ADDRESS, INTENT_STATUS_SETTLED, addressText 5, 0⟩ ∧
      ∃ taken s, MatchedBy sampleIntentParams 1 0 addressText m.committed taken s := by
  have hend : (Run.run (IntentManager.step IntentManager.sampleEnv)
      (IntentManager.deployed IntentManager.sampleStorage 1000) IntentManager.sampleRun).map
        (fun m => (onChain addressText (m.committed.intents IntentManager.sampleId),
          (m.committed.intents IntentManager.sampleId).expiry.toNat,
          IntentManager.createdIds m.committed.logs)) =
      some (⟨addressText 6, 100, ZERO_ADDRESS, INTENT_STATUS_SETTLED, addressText 5, 0⟩, 2000,
        [IntentManager.sampleId]) := by decide
  obtain ⟨m, hm, hview⟩ := Option.map_eq_some_iff.mp hend
  simp only [Prod.mk.injEq] at hview
  obtain ⟨hview, hexpiry, hcreated⟩ := hview
  have hreach := IntentManager.sample_reachable hm
  have hknows : KnowsExpiry sampleIntentParams m.committed := by
    intro id howner
    have hmem := ((IntentManager.inv_of_reachable hreach).committed_idle.kept.created id).mp howner
    rw [hcreated] at hmem
    rw [List.mem_singleton.mp hmem, hexpiry]
    rfl
  exact ⟨m, hm, hview, contract_refines zeroText_addressText hreach hknows⟩

end Maat.Orchestrator
