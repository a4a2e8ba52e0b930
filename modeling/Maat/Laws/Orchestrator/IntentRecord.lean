import Maat.Orchestrator.IntentFiles
import Maat.Laws.Orchestrator.LedgerFile
import Maat.Laws.Orchestrator.Redact

/-!
# What a call does to a record

Every call puts a few members over the record before it. `Assigned` says which, with what each is
made of, and `assigned_of_patch` that there are no others; what the rest of a record keeps follows
from `lookup_overlay`.
-/

namespace Maat.Orchestrator.IntentFiles

open Js Json Directory
open LedgerFile (entries)

/-! ## Members -/

/-- A member that is put reads as put; the others read as before. -/
theorem lookup_assign (name other : Str) (value : Option Value) (record : IntentState) :
    (assign name value record).lookup other =
      if other = name then value else record.lookup other := by
  cases value with
  | none => exact lookup_remove name other record
  | some v => exact lookup_put name other v record

/-- A member is the last one put over the record under its name, or stays. -/
theorem lookup_overlay (members : Patch) (record : IntentState) (name : Str) :
    (∃ value, (name, value) ∈ members ∧ (overlay record members).lookup name = value) ∨
      name ∉ members.map Prod.fst ∧
        (overlay record members).lookup name = record.lookup name := by
  induction members generalizing record with
  | nil => exact .inr ⟨List.not_mem_nil, rfl⟩
  | cons m members ih =>
    have hcons : overlay record (m :: members) = overlay (assign m.1 m.2 record) members := rfl
    rw [hcons]
    rcases ih (assign m.1 m.2 record) with ⟨value, hmem, hvalue⟩ | ⟨hnot, hkept⟩
    · exact .inl ⟨value, List.mem_cons_of_mem _ hmem, hvalue⟩
    · rw [hkept, lookup_assign]
      by_cases hname : name = m.1
      · subst hname
        exact .inl ⟨m.2, .head _, if_pos rfl⟩
      · exact .inr ⟨by simp [hname, hnot], if_neg hname⟩

theorem members_assign {record : IntentState} (h : Members record) (name : Str)
    (value : Option Value) (hvalue : ∀ v, value = some v → v.WellFormed) :
    Members (assign name value record) := by
  cases value with
  | none => exact ⟨nodup_remove name h.1, fun m hm => h.2 m (List.mem_of_mem_filter hm)⟩
  | some v => exact members_put h (hvalue v rfl) name

/-- Well-formed members over a well-formed record give one. -/
theorem members_overlay {members : Patch} {record : IntentState} (h : Members record)
    (hmembers : ∀ m ∈ members, ∀ v, m.2 = some v → v.WellFormed) :
    Members (overlay record members) := by
  induction members generalizing record with
  | nil => exact h
  | cons m members ih =>
    exact ih (members_assign h m.1 m.2 (hmembers m (.head _)))
      fun m' hm' => hmembers m' (List.mem_cons_of_mem _ hm')

theorem nodup_numbered {α : Type} (xs : List α) (value : α → Value) :
    ((xs.zipIdx.map fun x => (Nat.toDigits 10 x.2, value x.1)).map Prod.fst).Nodup := by
  have hnames : (xs.zipIdx.map fun x => (Nat.toDigits 10 x.2, value x.1)).map Prod.fst =
      (List.range' 0 xs.length).map (Nat.toDigits 10) := by
    rw [← List.zipIdx_map_snd 0 xs, List.map_map, List.map_map]
    rfl
  have hdigits : Function.Injective (Nat.toDigits 10) :=
    Function.LeftInverse.injective (g := (Nat.ofDigitChars 10 · 0))
      fun n => Nat.ofDigitChars_toDigits (by decide) (by decide)
  rw [hnames]
  exact (List.nodup_range' 1).map hdigits

/-- The entries of a value are members of their own. -/
theorem members_entries {raw : Value} (h : raw.WellFormed) {members : IntentState}
    (hentries : entries raw = some members) : Members members := by
  have hvalues := LedgerFile.entries_wellFormed h
  rw [hentries] at hvalues
  refine ⟨?_, hvalues⟩
  cases h with
  | null => cases hentries
  | bool b =>
    cases hentries
    exact List.nodup_nil
  | number hnumber =>
    cases hentries
    exact List.nodup_nil
  | string text =>
    cases hentries
    exact nodup_numbered _ Value.string
  | array hitems =>
    cases hentries
    exact nodup_numbered _ id
  | object hnames hmembers =>
    cases hentries
    exact hnames

/-- The copy of a member's own members is well-formed. -/
theorem members_spread {prev : IntentState} (h : Members prev) (name : String) :
    Members (spread name prev) := by
  unfold spread
  rcases hbind : (prev.lookup name.toList).bind entries with _ | members
  · exact members_nil
  · obtain ⟨raw, hraw, hentries⟩ := Option.bind_eq_some_iff.mp hbind
    exact members_entries (h.2 _ (LedgerFile.mem_of_lookup hraw)) hentries

theorem wellFormed_inner {outer name : String} {prev : IntentState} (h : Members prev) {v : Value}
    (hinner : inner outer name prev = some (some v)) : v.WellFormed := by
  unfold inner at hinner
  split at hinner
  · cases hinner
  · cases hinner
  · next raw _ hraw =>
    have hwell : raw.WellFormed := h.2 _ (LedgerFile.mem_of_lookup hraw)
    have hmember : raw.member name.toList = some v := Option.some.inj hinner
    cases hwell with
    | object hnames hmembers => exact hmembers _ (LedgerFile.mem_of_lookup hmember)
    | _ => cases hmember

/-! ## What a call puts over a record -/

/-- Members that no law looks into. -/
def plainNames : List String :=
  ["sourceTxHash", "blockNumber", "blockHash", "amountWei", "tokenAddress", "destinationChainId",
    "destinationWallet", "vkey", "proofStatus", "settlement"]

/-- What a call puts over a record under a name, with what it is made of. -/
inductive Assigned (call : Call) (now : Str) (prev : IntentState) :
    String → Option Value → Prop where
  | intentId : Assigned call now prev "intentId" (some (.string call.intentId))
  | sourceChain {fields : IntentCreatedFields} {proofStatus : ProofStatus} :
    call = .recordIntentCreated fields proofStatus →
      Assigned call now prev "sourceChain" (some (.string fields.sourceChain))
  | plain {name : String} {v : Value} : name ∈ plainNames → v.WellFormed →
    Assigned call now prev name (some v)
  | reason {name : String} (reason : Str) : name = "rejectReason" ∨ name = "alertReason" →
    Assigned call now prev name (some (.string (redact reason)))
  | arbitrum {patch : ArbitrumPatch} {reason : Option Value} :
    (∃ r, reason = some (.string (redact r))) ∨
        inner "arbitrumSettlement" "reason" prev = some reason →
      Assigned call now prev "arbitrumSettlement"
        (some (.object (assign "reason".toList reason
          (overlay (spread "arbitrumSettlement" prev) patch.members))))
  | routing {solver tier : Value} (reason : Str) : solver.WellFormed → tier.WellFormed →
    Assigned call now prev "solverRouting"
      (some (.object [("solver".toList, solver), ("tier".toList, tier),
        ("reason".toList, .string (redact reason))]))
  | finality {intentId : Str} : call = .setFinal intentId →
    Assigned call now prev "finality" (some (text "final"))
  | timestamps {name : String} {time : Option Value} :
    (time = some (.string now) ∧ (name = "provingStartedAt" →
        ∀ v, inner "timestamps" name prev = some (some v) → v = .null)) ∨
        inner "timestamps" name prev = some time →
      Assigned call now prev "timestamps" (stamped name time prev).2

theorem wellFormed_nat (n : Nat) : (nat n).WellFormed := .number (isNumber_toDigits n)

theorem wellFormed_getD_map {α : Type} {make : α → Value} (h : ∀ a, (make a).WellFormed)
    (value : Option α) : ((value.map make).getD .null).WellFormed := by
  cases value with
  | none => exact .null
  | some a => exact h a

theorem wellFormed_proofStatus (status : ProofStatus) : status.value.WellFormed := by
  refine .object ?_ fun m hm => ?_
  · cases status
    case retrying =>
      have hnames : ["kind".toList, "attempt".toList, "maxAttempts".toList].Nodup := by decide
      exact hnames
    case skipped =>
      have hnames : ["kind".toList, "chain".toList].Nodup := by decide
      exact hnames
    all_goals exact List.nodup_singleton _
  · cases status <;> simp only [List.mem_cons, List.not_mem_nil, or_false] at hm
    case retrying attempt maxAttempts =>
      rcases hm with rfl | rfl | rfl
      · exact .string _
      · exact wellFormed_nat attempt
      · exact wellFormed_nat maxAttempts
    case skipped chain =>
      rcases hm with rfl | rfl <;> exact .string _
    all_goals
      cases hm
      exact .string _

theorem wellFormed_settlement (kind : String) (sig : Str) :
    (Value.object [("kind".toList, text kind), ("sig".toList, .string sig)]).WellFormed := by
  have hnames : ["kind".toList, "sig".toList].Nodup := by decide
  refine .object hnames fun m hm => ?_
  simp only [List.mem_cons, List.not_mem_nil, or_false] at hm
  rcases hm with rfl | rfl <;> exact .string _

/-- A call puts nothing over a record but what `Assigned` tells. -/
theorem assigned_of_patch {call : Call} {now : Str} {prev : IntentState} {patch : Patch}
    (h : call.patch now prev = some patch) {m : Str × Option Value} (hm : m ∈ patch) :
    ∃ name : String, m.1 = name.toList ∧ Assigned call now prev name m.2 := by
  have hnow {name : String} (hname : name ≠ "provingStartedAt") :
      Assigned call now prev "timestamps" (stamped name (some (.string now)) prev).2 :=
    .timestamps (.inl ⟨rfl, fun h => absurd h hname⟩)
  cases call with
  | recordIntentCreated fields proofStatus =>
    obtain ⟨queuedAt, hqueued, rfl⟩ := Option.map_eq_some_iff.mp h
    simp only [List.mem_cons, List.not_mem_nil, or_false] at hm
    rcases hm with rfl | rfl | rfl | rfl | rfl | rfl | rfl | rfl | rfl | rfl | rfl
    · exact ⟨_, rfl, .intentId⟩
    · exact ⟨_, rfl, .sourceChain rfl⟩
    · exact ⟨_, rfl, .plain (by decide) (.string _)⟩
    · exact ⟨_, rfl, .plain (by decide) (wellFormed_getD_map wellFormed_nat _)⟩
    · exact ⟨_, rfl, .plain (by decide) (wellFormed_getD_map .string _)⟩
    · exact ⟨_, rfl, .plain (by decide) (.string _)⟩
    · exact ⟨_, rfl, .plain (by decide) (.string _)⟩
    · exact ⟨_, rfl, .plain (by decide) (.string _)⟩
    · exact ⟨_, rfl, .plain (by decide) (.string _)⟩
    · exact ⟨_, rfl, .plain (by decide) (wellFormed_proofStatus _)⟩
    · split at hqueued
      · cases hqueued
        exact ⟨_, rfl, hnow (by decide)⟩
      · exact ⟨_, rfl, .timestamps (.inr hqueued)⟩
  | setProving intentId =>
    obtain ⟨since, hsince, rfl⟩ := Option.map_eq_some_iff.mp h
    simp only [List.mem_cons, List.not_mem_nil, or_false] at hm
    rcases hm with rfl | rfl
    · exact ⟨_, rfl, .plain (by decide) (wellFormed_proofStatus _)⟩
    · split
      · refine ⟨_, rfl, .timestamps (.inl ⟨rfl, fun _ v hv => ?_⟩)⟩
        rw [hsince] at hv
        cases hv
      · refine ⟨_, rfl, .timestamps (.inl ⟨rfl, fun _ v hv => ?_⟩)⟩
        rw [hsince] at hv
        cases hv
        rfl
      · exact ⟨_, rfl, .timestamps (.inr hsince)⟩
  | setRetrying intentId attempt maxAttempts =>
    cases h
    rw [List.mem_singleton] at hm
    subst hm
    exact ⟨_, rfl, .plain (by decide) (wellFormed_proofStatus _)⟩
  | setVerified intentId vkey =>
    cases h
    simp only [List.mem_cons, List.not_mem_nil, or_false] at hm
    rcases hm with rfl | rfl | rfl
    · exact ⟨_, rfl, .plain (by decide) (.string _)⟩
    · exact ⟨_, rfl, .plain (by decide) (wellFormed_proofStatus _)⟩
    · exact ⟨_, rfl, hnow (by decide)⟩
  | setRejected intentId reason =>
    cases h
    simp only [List.mem_cons, List.not_mem_nil, or_false] at hm
    rcases hm with rfl | rfl
    · exact ⟨_, rfl, .plain (by decide) (wellFormed_proofStatus _)⟩
    · exact ⟨_, rfl, .reason reason (.inl rfl)⟩
  | setAlert intentId reason =>
    cases h
    simp only [List.mem_cons, List.not_mem_nil, or_false] at hm
    rcases hm with rfl | rfl
    · exact ⟨_, rfl, .plain (by decide) (wellFormed_proofStatus _)⟩
    · exact ⟨_, rfl, .reason reason (.inr rfl)⟩
  | recordAlertReason intentId reason =>
    cases h
    rw [List.mem_singleton] at hm
    subst hm
    exact ⟨_, rfl, .reason reason (.inr rfl)⟩
  | setSettling intentId sig =>
    cases h
    simp only [List.mem_cons, List.not_mem_nil, or_false] at hm
    rcases hm with rfl | rfl
    · exact ⟨_, rfl, .plain (by decide) (wellFormed_settlement _ sig)⟩
    · exact ⟨_, rfl, hnow (by decide)⟩
  | setSettled intentId sig =>
    cases h
    simp only [List.mem_cons, List.not_mem_nil, or_false] at hm
    rcases hm with rfl | rfl
    · exact ⟨_, rfl, .plain (by decide) (wellFormed_settlement _ sig)⟩
    · exact ⟨_, rfl, hnow (by decide)⟩
  | setUnconfirmedNeedsReview intentId sig =>
    cases h
    rw [List.mem_singleton] at hm
    subst hm
    exact ⟨_, rfl, .plain (by decide) (wellFormed_settlement _ sig)⟩
  | setArbitrumSettlement intentId patch =>
    obtain ⟨reason, hreason, rfl⟩ := Option.map_eq_some_iff.mp h
    rw [List.mem_singleton] at hm
    subst hm
    split at hreason
    · next r _ =>
      cases hreason
      exact ⟨_, rfl, .arbitrum (.inl ⟨r, rfl⟩)⟩
    · exact ⟨_, rfl, .arbitrum (.inr hreason)⟩
  | setSolverRouting intentId solver tier reason =>
    cases h
    rw [List.mem_singleton] at hm
    subst hm
    exact ⟨_, rfl, .routing reason (wellFormed_getD_map .string _)
      (wellFormed_getD_map wellFormed_nat _)⟩
  | setFinal intentId =>
    cases h
    simp only [List.mem_cons, List.not_mem_nil, or_false] at hm
    rcases hm with rfl | rfl
    · exact ⟨_, rfl, .finality rfl⟩
    · exact ⟨_, rfl, hnow (by decide)⟩

section

variable {call : Call} {now : Str} {prev : IntentState} {name : String} {value : Option Value}

/-- What a call puts over a record is well-formed. -/
theorem wellFormed_of_assigned (hprev : Members prev) (h : Assigned call now prev name value)
    {v : Value} (hv : value = some v) : v.WellFormed := by
  cases h with
  | intentId | sourceChain _ | reason _ _ | finality _ =>
    cases hv
    exact .string _
  | plain _ hwell =>
    cases hv
    exact hwell
  | @arbitrum patch reason hreason =>
    cases hv
    have hpatch : ∀ m ∈ patch.members, ∀ v, m.2 = some v → v.WellFormed := by
      intro m hm v hv
      obtain ⟨given, -, hgiven⟩ := List.mem_filterMap.mp hm
      obtain ⟨value, -, rfl⟩ := Option.map_eq_some_iff.mp hgiven
      obtain ⟨s, -, rfl⟩ := Option.map_eq_some_iff.mp hv
      exact .string s
    have hmembers := members_assign (members_overlay (members_spread hprev "arbitrumSettlement")
      hpatch) "reason".toList reason fun v hv => ?_
    · exact .object hmembers.1 hmembers.2
    · rcases hreason with ⟨r, rfl⟩ | hinner
      · cases hv
        exact .string _
      · exact wellFormed_inner hprev (hv ▸ hinner)
  | routing reason hsolver htier =>
    cases hv
    have hnames : ["solver".toList, "tier".toList, "reason".toList].Nodup := by decide
    refine .object hnames fun m hm => ?_
    simp only [List.mem_cons, List.not_mem_nil, or_false] at hm
    rcases hm with rfl | rfl | rfl
    · exact hsolver
    · exact htier
    · exact .string _
  | @timestamps name time htime =>
    cases hv
    have hmembers := members_assign (members_spread hprev "timestamps") name.toList
      time fun v hv => ?_
    · exact .object hmembers.1 hmembers.2
    · rcases htime with ⟨rfl, -⟩ | hinner
      · cases hv
        exact .string _
      · exact wellFormed_inner hprev (hv ▸ hinner)

theorem assigned_intentId (h : Assigned call now prev "intentId" value) :
    value = some (.string call.intentId) := by
  generalize hname : "intentId" = field at h
  cases h with
  | intentId => rfl
  | plain hplain _ => exact absurd (hname ▸ hplain) (by decide)
  | reason _ hreason => exact absurd (hname ▸ hreason) (by decide)
  | _ => exact absurd hname (by decide)

/-- Only `recordIntentCreated` sets the chain. -/
theorem assigned_sourceChain (h : Assigned call now prev "sourceChain" value) :
    ∃ fields proofStatus, call = .recordIntentCreated fields proofStatus ∧
      value = some (.string fields.sourceChain) := by
  generalize hname : "sourceChain" = field at h
  cases h with
  | sourceChain hcall => exact ⟨_, _, hcall, rfl⟩
  | plain hplain _ => exact absurd (hname ▸ hplain) (by decide)
  | reason _ hreason => exact absurd (hname ▸ hreason) (by decide)
  | _ => exact absurd hname (by decide)

/-- A reason is put as `redact` leaves it. -/
theorem assigned_reason {name : String} (hreasons : name = "rejectReason" ∨ name = "alertReason")
    (h : Assigned call now prev name value) :
    ∃ reason, value = some (.string (redact reason)) := by
  cases h with
  | reason reason _ => exact ⟨reason, rfl⟩
  | plain hplain _ => rcases hreasons with rfl | rfl <;> exact absurd hplain (by decide)
  | _ => exact absurd hreasons (by decide)

/-- The reason of the Arbitrum settlement is redacted, or the one that was there. -/
theorem assigned_arbitrum (h : Assigned call now prev "arbitrumSettlement" value) :
    ∃ reason members, value = some (.object (assign "reason".toList reason members)) ∧
      ((∃ r, reason = some (.string (redact r))) ∨
        inner "arbitrumSettlement" "reason" prev = some reason) := by
  generalize hname : "arbitrumSettlement" = field at h
  cases h with
  | arbitrum hreason => exact ⟨_, _, rfl, hreason⟩
  | plain hplain _ => exact absurd (hname ▸ hplain) (by decide)
  | reason _ hreason => exact absurd (hname ▸ hreason) (by decide)
  | _ => exact absurd hname (by decide)

/-- The reason of a routing is redacted. -/
theorem assigned_routing (h : Assigned call now prev "solverRouting" value) :
    ∃ solver tier reason, value = some (.object [("solver".toList, solver),
      ("tier".toList, tier), ("reason".toList, .string (redact reason))]) := by
  generalize hname : "solverRouting" = field at h
  cases h with
  | routing reason _ _ => exact ⟨_, _, reason, rfl⟩
  | plain hplain _ => exact absurd (hname ▸ hplain) (by decide)
  | reason _ hreason => exact absurd (hname ▸ hreason) (by decide)
  | _ => exact absurd hname (by decide)

/-- Only `setFinal` sets the finality, to final. -/
theorem assigned_finality (h : Assigned call now prev "finality" value) :
    value = some (text "final") ∧ ∃ intentId, call = .setFinal intentId := by
  generalize hname : "finality" = field at h
  cases h with
  | finality hcall => exact ⟨rfl, _, hcall⟩
  | plain hplain _ => exact absurd (hname ▸ hplain) (by decide)
  | reason _ hreason => exact absurd (hname ▸ hreason) (by decide)
  | _ => exact absurd hname (by decide)

/-- A call sets one timestamp, to now or to what it was; a proof that has begun keeps its time. -/
theorem assigned_timestamps (h : Assigned call now prev "timestamps" value) :
    ∃ (name : String) (time : Option Value),
      value = some (.object (assign name.toList time (spread "timestamps" prev))) ∧
      ((time = some (.string now) ∧ (name = "provingStartedAt" →
          ∀ v, inner "timestamps" name prev = some (some v) → v = .null)) ∨
        inner "timestamps" name prev = some time) := by
  generalize hname : "timestamps" = field at h
  cases h with
  | timestamps htime => exact ⟨_, _, rfl, htime⟩
  | plain hplain _ => exact absurd (hname ▸ hplain) (by decide)
  | reason _ hreason => exact absurd (hname ▸ hreason) (by decide)
  | _ => exact absurd hname (by decide)

end

/-! ## The next record -/

/-- A record as the calls keep it: under the key of its intent, and of this chain only where the
listener of the chain writes the file. -/
structure Shaped (owner : Str → Role) (key : Str) (record : IntentState) : Prop where
  members : Members record
  intentId : ∃ intentId, intentIdOf record = some intentId ∧ keyOf intentId = key
  sourceChain : record.lookup "sourceChain".toList = some (.string arbitrumSepolia) →
    owner key = .listener
  timestamps : ∃ ms, record.lookup "timestamps".toList = some (.object ms)
  arbitrum : ∃ ms, record.lookup "arbitrumSettlement".toList = some (.object ms)

/-- An intent of this chain is recorded by its listener. -/
def Call.Homed (owner : Str → Role) (call : Call) : Prop :=
  ∀ fields proofStatus, call = .recordIntentCreated fields proofStatus →
    fields.sourceChain = arbitrumSepolia → owner (keyOf call.intentId) = .listener

section

variable {owner : Str → Role} {key : Str} {record : Option IntentState} {next : IntentState}
  {call : Call} {clock : Clock}

theorem members_blankState (intentId now : Str) : Members (blankState intentId now) := by
  constructor
  · have hnames : (["intentId", "sourceChain", "sourceTxHash", "blockNumber", "blockHash",
      "amountWei", "tokenAddress", "destinationChainId", "destinationWallet", "vkey",
      "proofStatus", "rejectReason", "alertReason", "settlement", "arbitrumSettlement",
      "finality", "timestamps", "updatedAt"].map String.toList).Nodup := by decide
    exact hnames
  · have hone (name : String) (s : String) :
        (Value.object [(name.toList, text s)]).WellFormed := by
      refine .object (List.nodup_singleton _) fun m hm => ?_
      rw [List.mem_singleton] at hm
      exact hm ▸ .string _
    intro m hm
    simp only [blankState, List.mem_cons, List.not_mem_nil, or_false] at hm
    rcases hm with rfl | rfl | rfl | rfl | rfl | rfl | rfl | rfl | rfl | rfl | rfl | rfl | rfl |
      rfl | rfl | rfl | rfl | rfl
    case _ => exact .string _
    all_goals first | exact .string _ | exact .null | exact hone _ _ | skip
    exact .object List.nodup_nil fun _ h => absurd h List.not_mem_nil

theorem shaped_blankState (owner : Str → Role) (intentId now : Str) :
    Shaped owner (keyOf intentId) (blankState intentId now) where
  members := members_blankState intentId now
  intentId := ⟨intentId, rfl, rfl⟩
  sourceChain := fun h => by
    have hunknown : (blankState intentId now).lookup "sourceChain".toList =
        some (text "unknown") := rfl
    rw [hunknown] at h
    exact absurd (Value.string.inj (Option.some.inj h)) (by decide)
  timestamps := ⟨[], rfl⟩
  arbitrum := ⟨[("stage".toList, text "none")], rfl⟩

/-- The record a call starts from is of its key, whether it was there or is blank. -/
theorem shaped_prevState (hrecord : ∀ r, record = some r → Shaped owner (keyOf call.intentId) r)
    (clock : Clock) :
    Shaped owner (keyOf call.intentId) (prevState record call clock) := by
  cases record with
  | none => exact shaped_blankState owner call.intentId clock.now
  | some r => exact hrecord r rfl

/-- `upsert` overlays the patch and sets `updatedAt` last. -/
theorem upsert_eq_some : upsert record call clock = some next ↔
    ∃ patch, call.patch clock.now (prevState record call clock) = some patch ∧
      put "updatedAt".toList (.string clock.updatedAt)
        (overlay (prevState record call clock) patch) = next :=
  Option.map_eq_some_iff

/-- Every member but the last is one that the call assigns, or stays. -/
theorem lookup_upsert (h : upsert record call clock = some next) {name : String}
    (hname : name ≠ "updatedAt") :
    Assigned call clock.now (prevState record call clock) name (next.lookup name.toList) ∨
      next.lookup name.toList = (prevState record call clock).lookup name.toList := by
  obtain ⟨patch, hpatch, rfl⟩ := upsert_eq_some.mp h
  rw [lookup_put, if_neg fun heq => hname (String.toList_inj.mp heq)]
  rcases lookup_overlay patch (prevState record call clock) name.toList with
    ⟨value, hmem, hvalue⟩ | ⟨-, hkept⟩
  · obtain ⟨field, hfield, hassigned⟩ := assigned_of_patch hpatch hmem
    obtain rfl : name = field := String.toList_inj.mp hfield
    exact .inl (hvalue ▸ hassigned)
  · exact .inr hkept

theorem mem_setFinal {intentId now : Str} {prev : IntentState} {patch : Patch}
    (h : (Call.setFinal intentId).patch now prev = some patch) {m : Str × Option Value}
    (hm : m ∈ patch) : m.1 = "finality".toList ∨ m.1 = "timestamps".toList := by
  cases h
  simp only [List.mem_cons, List.not_mem_nil, or_false] at hm
  rcases hm with rfl | rfl
  · exact .inl rfl
  · exact .inr rfl

/-- `setFinal` leaves the rest of the record as it is. -/
theorem lookup_setFinal {intentId : Str} (h : upsert record (.setFinal intentId) clock = some next)
    (name : String) (hname : name ∉ ["finality", "timestamps", "updatedAt"]) :
    next.lookup name.toList =
      (prevState record (.setFinal intentId) clock).lookup name.toList := by
  simp only [List.mem_cons, List.not_mem_nil, or_false, not_or] at hname
  obtain ⟨hfinality, htimestamps, hupdated⟩ := hname
  obtain ⟨patch, hpatch, rfl⟩ := upsert_eq_some.mp h
  rw [lookup_put, if_neg fun heq => hupdated (String.toList_inj.mp heq)]
  rcases lookup_overlay patch (prevState record (.setFinal intentId) clock) name.toList with
    ⟨value, hmem, -⟩ | ⟨-, hkept⟩
  · rcases mem_setFinal hpatch hmem with heq | heq
    · exact absurd (String.toList_inj.mp heq) hfinality
    · exact absurd (String.toList_inj.mp heq) htimestamps
  · exact hkept

/-- A call on a well-formed record leaves one. -/
theorem members_upsert (hprev : Members (prevState record call clock))
    (h : upsert record call clock = some next) : Members next := by
  obtain ⟨patch, hpatch, rfl⟩ := upsert_eq_some.mp h
  refine members_put (members_overlay hprev fun m hm v hv => ?_) (.string _) _
  obtain ⟨name, -, hassigned⟩ := assigned_of_patch hpatch hm
  exact wellFormed_of_assigned hprev hassigned hv

theorem inner_of_object {outer name : String} {prev ms : IntentState}
    (h : prev.lookup outer.toList = some (.object ms)) :
    inner outer name prev = some (ms.lookup name.toList) := by
  rw [inner, h]
  rfl

/-- No setter throws on a record of its shape. -/
theorem isSome_patch {prev : IntentState} (hprev : Shaped owner key prev) (call : Call)
    (now : Str) : (call.patch now prev).isSome := by
  obtain ⟨times, htimes⟩ := hprev.timestamps
  obtain ⟨arbitrum, harbitrum⟩ := hprev.arbitrum
  cases call with
  | recordIntentCreated fields proofStatus =>
    rw [Call.patch, IntentFiles.recordIntentCreated, Option.isSome_map, inner_of_object htimes]
    split <;> rfl
  | setProving intentId =>
    rw [Call.patch, IntentFiles.setProving, Option.isSome_map, inner_of_object htimes]
    rfl
  | setArbitrumSettlement intentId patch =>
    rw [Call.patch, IntentFiles.setArbitrumSettlement, Option.isSome_map,
      inner_of_object harbitrum]
    split <;> rfl
  | _ => rfl

/-- A call on a record of its key, or on none, does not throw, and gives a record of that key. -/
theorem shaped_upsert (hrecord : ∀ r, record = some r → Shaped owner (keyOf call.intentId) r)
    (hhomed : call.Homed owner) (clock : Clock) :
    ∃ next, upsert record call clock = some next ∧ Shaped owner (keyOf call.intentId) next := by
  have hprev := shaped_prevState hrecord clock
  obtain ⟨next, h⟩ := Option.isSome_iff_exists.mp
    ((Option.isSome_map ..).trans (isSome_patch hprev call clock.now) :
      (upsert record call clock).isSome)
  refine ⟨next, h, members_upsert hprev.members h, ?_, fun hchain => ?_, ?_, ?_⟩
  · rcases lookup_upsert h (show "intentId" ≠ "updatedAt" by decide) with hassigned | hkept
    · exact ⟨call.intentId, by rw [intentIdOf, assigned_intentId hassigned]; rfl, rfl⟩
    · rw [intentIdOf, hkept]
      exact hprev.intentId
  · rcases lookup_upsert h (show "sourceChain" ≠ "updatedAt" by decide) with hassigned | hkept
    · obtain ⟨fields, proofStatus, rfl, hvalue⟩ := assigned_sourceChain hassigned
      rw [hvalue] at hchain
      exact hhomed fields proofStatus rfl (Value.string.inj (Option.some.inj hchain))
    · exact hprev.sourceChain (hkept ▸ hchain)
  · rcases lookup_upsert h (show "timestamps" ≠ "updatedAt" by decide) with hassigned | hkept
    · obtain ⟨name, time, hvalue, -⟩ := assigned_timestamps hassigned
      exact ⟨_, hvalue⟩
    · rw [hkept]
      exact hprev.timestamps
  · rcases lookup_upsert h (show "arbitrumSettlement" ≠ "updatedAt" by decide) with
      hassigned | hkept
    · obtain ⟨reason, members, hvalue, -⟩ := assigned_arbitrum hassigned
      exact ⟨_, hvalue⟩
    · rw [hkept]
      exact hprev.arbitrum

/-! ## Reasons -/

/-- The texts that say why something went wrong. -/
def reasonsOf (record : IntentState) : List Str :=
  [record.lookup "rejectReason".toList, record.lookup "alertReason".toList,
    (record.lookup "arbitrumSettlement".toList).bind (Value.member "reason".toList),
    (record.lookup "solverRouting".toList).bind (Value.member "reason".toList)].filterMap
      fun value => value.bind Value.asStr

/-- No text shows an address with a key in it. -/
def Hides (record : IntentState) : Prop := ∀ reason ∈ reasonsOf record, NoUrl reason

/-- The four places of a reason. -/
theorem mem_reasonsOf {record : IntentState} {reason : Str} :
    reason ∈ reasonsOf record ↔
      (∃ name, (name = "rejectReason" ∨ name = "alertReason") ∧
        record.lookup name.toList = some (.string reason)) ∨
      (record.lookup "arbitrumSettlement".toList).bind (Value.member "reason".toList) =
        some (.string reason) ∨
      (record.lookup "solverRouting".toList).bind (Value.member "reason".toList) =
        some (.string reason) := by
  have hstr (value : Option Value) :
      value.bind Value.asStr = some reason ↔ value = some (.string reason) := by
    rcases value with _ | (_ | _ | _ | _ | _ | _) <;> simp [Value.asStr]
  simp only [reasonsOf, List.mem_filterMap, List.mem_cons, List.not_mem_nil, or_false, hstr]
  constructor
  · rintro ⟨value, rfl | rfl | rfl | rfl, h⟩
    · exact .inl ⟨_, .inl rfl, h⟩
    · exact .inl ⟨_, .inr rfl, h⟩
    · exact .inr (.inl h)
    · exact .inr (.inr h)
  · rintro (⟨name, rfl | rfl, h⟩ | h | h)
    · exact ⟨_, .inl rfl, h⟩
    · exact ⟨_, .inr (.inl rfl), h⟩
    · exact ⟨_, .inr (.inr (.inl rfl)), h⟩
    · exact ⟨_, .inr (.inr (.inr rfl)), h⟩

theorem hides_blankState (intentId now : Str) : Hides (blankState intentId now) := by
  have hnone : reasonsOf (blankState intentId now) = [] := rfl
  intro reason hreason
  rw [hnone] at hreason
  cases hreason

/-- A call on a record that shows no address leaves one. -/
theorem hides_upsert (hprev : Hides (prevState record call clock))
    (h : upsert record call clock = some next) : Hides next := by
  intro reason hreason
  rcases mem_reasonsOf.mp hreason with ⟨name, hname, hvalue⟩ | hvalue | hvalue
  · have hother : name ≠ "updatedAt" := by rcases hname with rfl | rfl <;> decide
    rcases lookup_upsert h hother with hassigned | hkept
    · obtain ⟨r, hr⟩ := assigned_reason hname hassigned
      cases hvalue.symm.trans hr
      exact noUrl_redact r
    · exact hprev reason (mem_reasonsOf.mpr (.inl ⟨name, hname, hkept ▸ hvalue⟩))
  · rcases lookup_upsert h (show "arbitrumSettlement" ≠ "updatedAt" by decide) with
      hassigned | hkept
    · obtain ⟨given, members, hmembers, hgiven⟩ := assigned_arbitrum hassigned
      have hmember : given = some (.string reason) := by
        rw [hmembers] at hvalue
        simpa [Value.member, lookup_assign] using hvalue
      rcases hgiven with ⟨r, hr⟩ | hinner
      · cases hr.symm.trans hmember
        exact noUrl_redact r
      · refine hprev reason (mem_reasonsOf.mpr (.inr (.inl ?_)))
        rw [hmember] at hinner
        unfold inner at hinner
        split at hinner
        · cases hinner
        · cases hinner
        · next raw _ hraw =>
          rw [hraw]
          exact Option.some.inj hinner
    · exact hprev reason (mem_reasonsOf.mpr (.inr (.inl (hkept ▸ hvalue))))
  · rcases lookup_upsert h (show "solverRouting" ≠ "updatedAt" by decide) with
      hassigned | hkept
    · obtain ⟨solver, tier, r, hr⟩ := assigned_routing hassigned
      rw [hr] at hvalue
      have hmember : some (Value.string (redact r)) = some (.string reason) := hvalue
      cases hmember
      exact noUrl_redact r
    · exact hprev reason (mem_reasonsOf.mpr (.inr (.inr (hkept ▸ hvalue))))

/-! ## What stays -/

/-- `finality` is final. -/
def isFinal (record : IntentState) : Bool :=
  isString (record.lookup "finality".toList) "final".toList

/-- The timestamp of that name, if the record has it. -/
def timestampOf (name : String) (record : IntentState) : Option Value :=
  (record.lookup "timestamps".toList).bind (Value.member name.toList)

/-- A record goes on: it stays final, keeps its times, and the time its proof was first begun at
does not change. -/
structure Advances (before after : IntentState) : Prop where
  final : isFinal before = true → isFinal after = true
  times : ∀ name, (timestampOf name before).isSome → (timestampOf name after).isSome
  proving : ∀ v, timestampOf "provingStartedAt" before = some v → v ≠ .null →
    timestampOf "provingStartedAt" after = some v

theorem Advances.refl (record : IntentState) : Advances record record :=
  ⟨id, fun _ => id, fun _ h _ => h⟩

theorem Advances.trans {a b c : IntentState} (hab : Advances a b) (hbc : Advances b c) :
    Advances a c where
  final := fun h => hbc.final (hab.final h)
  times := fun name h => hbc.times name (hab.times name h)
  proving := fun v h hv => hbc.proving v (hab.proving v h hv) hv

/-- A call takes a record onward. -/
theorem advances_upsert (hprev : Shaped owner key (prevState record call clock))
    (h : upsert record call clock = some next) :
    Advances (prevState record call clock) next := by
  obtain ⟨times, htimes⟩ := hprev.timestamps
  have hspread : spread "timestamps" (prevState record call clock) = times := by
    rw [spread, htimes]
    rfl
  have hinner (name : String) : inner "timestamps" name (prevState record call clock) =
      some (times.lookup name.toList) := inner_of_object htimes
  have hbefore (name : String) :
      timestampOf name (prevState record call clock) = times.lookup name.toList := by
    rw [timestampOf, htimes]
    rfl
  have hafter : (∀ name, timestampOf name next = times.lookup name.toList) ∨
      ∃ (name : String) (time : Option Value),
        (∀ other, timestampOf other next =
          if other.toList = name.toList then time else times.lookup other.toList) ∧
        ((time.isSome ∧ (name = "provingStartedAt" →
            ∀ v, times.lookup name.toList = some v → v = .null)) ∨
          times.lookup name.toList = time) := by
    rcases lookup_upsert h (show "timestamps" ≠ "updatedAt" by decide) with hassigned | hkept
    · obtain ⟨name, time, hvalue, htime⟩ := assigned_timestamps hassigned
      refine .inr ⟨name, time, fun other => ?_, ?_⟩
      · rw [timestampOf, hvalue, hspread]
        exact lookup_assign name.toList other.toList time times
      · rw [hinner] at htime
        rcases htime with ⟨rfl, hnull⟩ | htime
        · exact .inl ⟨rfl, fun hname v hv => hnull hname v (congrArg some hv)⟩
        · exact .inr (Option.some.inj htime)
    · refine .inl fun name => ?_
      rw [timestampOf, hkept, htimes]
      rfl
  refine ⟨fun hfinal => ?_, fun name hsome => ?_, fun v hv hnull => ?_⟩
  · rcases lookup_upsert h (show "finality" ≠ "updatedAt" by decide) with hassigned | hkept
    · rw [isFinal, (assigned_finality hassigned).1]
      rfl
    · rw [isFinal, hkept]
      exact hfinal
  · rw [hbefore] at hsome
    rcases hafter with hall | ⟨changed, time, hall, htime⟩
    · rwa [hall]
    · rw [hall]
      split
      · next heq =>
        rcases htime with ⟨htime, -⟩ | htime
        · exact htime
        · rwa [← htime, ← heq]
      · exact hsome
  · rw [hbefore] at hv
    rcases hafter with hall | ⟨changed, time, hall, htime⟩
    · rwa [hall]
    · rw [hall]
      split
      · next heq =>
        have hname : changed = "provingStartedAt" := (String.toList_inj.mp heq).symm
        rcases htime with ⟨-, hfirst⟩ | htime
        · exact absurd (hfirst hname v (heq ▸ hv)) hnull
        · rwa [← htime, ← heq]
      · exact hv

theorem isFinal_blankState (intentId now : Str) : isFinal (blankState intentId now) = false := by
  have hpending : (blankState intentId now).lookup "finality".toList = some (text "pending") := rfl
  rw [isFinal, hpending]
  rfl

/-- Only `setFinal` makes a record final. -/
theorem setFinal_of_isFinal (h : upsert record call clock = some next)
    (hprev : isFinal (prevState record call clock) = false) (hnext : isFinal next = true) :
    ∃ intentId, call = .setFinal intentId := by
  rcases lookup_upsert h (show "finality" ≠ "updatedAt" by decide) with hassigned | hkept
  · exact (assigned_finality hassigned).2
  · rw [isFinal, hkept] at hnext
    rw [isFinal, hnext] at hprev
    cases hprev

end

end Maat.Orchestrator.IntentFiles
