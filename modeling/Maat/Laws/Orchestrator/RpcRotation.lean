import Mathlib.Data.List.Perm.Subperm
import Mathlib.Data.List.ProdSigma
import Mathlib.Data.List.Nodup
import Mathlib.Data.Nat.ModEq
import Maat.Orchestrator.RpcRotation

/-!
# RPC rotation

However the requests of a process interleave, a URL is warned about once in each of its cooldowns
(`warned_once_per_window`), and a request posts to a URL once in a sweep at most, in four sweeps at
most, and gives up only after all four of them (`request_bounded`).
-/

namespace Maat.Orchestrator.RpcRotation

open Js

variable {transports : Nat → Transport} {cooldownSec : Nat}

/-! ## Warnings -/

/-- The end of the cooldown that a warning about a URL tells of. -/
def warning (url : Str) : Call → Option Nat
  | .warn other coolDownUntilMs => if other = url then some coolDownUntilMs else none
  | _ => none

def State.warnings (s : State) (url : Str) : List Nat := s.calls.filterMap (warning url)

/-- Nothing changes that warnings depend on. -/
structure Quiet (s s' : State) : Prop where
  nowMs : s'.nowMs = s.nowMs
  health : s'.healthByUrl = s.healthByUrl
  warnings : ∀ url, s'.warnings url = s.warnings url

theorem quiet_goOn (s : State) (k transport : Nat) (point : Point) (calls : List Call)
    (hcalls : ∀ url, calls.filterMap (warning url) = []) :
    Quiet s (s.goOn k transport point calls) :=
  ⟨rfl, rfl, fun url => by
    rw [State.warnings, State.goOn, List.filterMap_append, hcalls, List.append_nil]; rfl⟩

theorem quiet_tryNext (s : State) (k transport attempt : Nat) (lastErr : Str) (order : List Nat) :
    Quiet s (s.tryNext k transport attempt lastErr order) := by
  cases order with
  | cons idx rest => exact quiet_goOn s k transport _ _ fun _ => rfl
  | nil =>
    show Quiet s (s.failed k transport attempt lastErr)
    unfold State.failed
    split
    · exact quiet_goOn s k transport _ _ fun _ => rfl
    · exact quiet_goOn s k transport _ _ fun _ => rfl

/-- A cooldown is never longer than it is set to be, no warning tells of one that ends later than
that on record, and a warning comes after the end that the one before it told of. -/
structure Spaced (window : Nat) (s : State) : Prop where
  bound : ∀ url, s.healthByUrl url ≤ s.nowMs + window
  past : ∀ url, ∀ t ∈ s.warnings url, t ≤ s.healthByUrl url
  spaced : ∀ url, (s.warnings url).Pairwise fun a b => a + window ≤ b

theorem Spaced.quiet {window : Nat} {s s' : State} (h : Spaced window s) (hquiet : Quiet s s') :
    Spaced window s' where
  bound url := by
    rw [hquiet.health, hquiet.nowMs]
    exact h.bound url
  past url := by
    rw [hquiet.health, hquiet.warnings]
    exact h.past url
  spaced url := by
    rw [hquiet.warnings]
    exact h.spaced url

theorem Spaced.recordCapacityError {s : State} (h : Spaced (cooldownSec * 1000) s) (url : Str) :
    Spaced (cooldownSec * 1000) (s.recordCapacityError cooldownSec url) := by
  have hother {other : Str} (hne : other ≠ url) :
      (s.recordCapacityError cooldownSec url).warnings other = s.warnings other := by
    rw [State.warnings, State.recordCapacityError, List.filterMap_append]
    split
    · exact List.append_nil _
    · rw [List.filterMap_cons_none (by rw [warning, if_neg (Ne.symm hne)])]
      exact List.append_nil _
  have hself : (s.recordCapacityError cooldownSec url).warnings url =
      s.warnings url ++ if s.nowMs < s.healthByUrl url then []
        else [s.nowMs + cooldownSec * 1000] := by
    rw [State.warnings, State.recordCapacityError, List.filterMap_append]
    split
    · rfl
    · rw [List.filterMap_cons_some (by rw [warning, if_pos rfl])]
      rfl
  have hhealth : (s.recordCapacityError cooldownSec url).healthByUrl =
      Function.update s.healthByUrl url (s.nowMs + cooldownSec * 1000) := rfl
  refine ⟨fun other => ?_, fun other t ht => ?_, fun other => ?_⟩
  · rw [hhealth]
    by_cases hne : other = url
    · subst hne
      rw [Function.update_self]
      exact le_rfl
    · rw [Function.update_of_ne hne]
      exact h.bound other
  · rw [hhealth]
    by_cases hne : other = url
    · subst hne
      rw [hself] at ht
      rw [Function.update_self]
      rcases List.mem_append.mp ht with ht | ht
      · exact (h.past other t ht).trans (h.bound other)
      · split at ht
        · cases ht
        · rw [List.mem_singleton.mp ht]
    · rw [hother hne] at ht
      rw [Function.update_of_ne hne]
      exact h.past other t ht
  · by_cases hne : other = url
    · subst hne
      rw [hself]
      split
      · rw [List.append_nil]
        exact h.spaced other
      · next hcool =>
        rw [List.pairwise_append]
        refine ⟨h.spaced other, List.pairwise_singleton _ _, fun a ha b hb => ?_⟩
        rw [List.mem_singleton.mp hb]
        have := h.past other a ha
        omega
    · rw [hother hne]
      exact h.spaced other

theorem spaced_step {s s' : State} {e : Event} (h : Spaced (cooldownSec * 1000) s)
    (hstep : step transports cooldownSec s e = some s') : Spaced (cooldownSec * 1000) s' := by
  cases e with
  | tick ms =>
    cases hstep
    exact ⟨fun url => (h.bound url).trans (by simp only; omega), h.past, h.spaced⟩
  | request k transport =>
    simp only [step] at hstep
    split at hstep <;> cases hstep
    exact h.quiet (quiet_tryNext _ _ _ _ _ _)
  | slept k =>
    simp only [step] at hstep
    split at hstep <;> cases hstep
    exact h.quiet (quiet_tryNext _ _ _ _ _ _)
  | answer k result =>
    simp only [step] at hstep
    split at hstep
    · next transport attempt idx rest _ =>
      split at hstep <;> cases hstep
      · exact h.quiet ⟨rfl, rfl,
          (quiet_goOn s k transport .returned [] fun _ => rfl).warnings⟩
      · refine Spaced.quiet ?_ (quiet_tryNext _ _ _ _ _ _)
        split
        · exact h.recordCapacityError _
        · exact h
    · cases hstep

/-- A URL is warned about again only when the cooldown is over that the warning before told of. -/
theorem warned_once_per_window {nowMs : Nat} {events : List Event} {s : State}
    (hrun : Run.run (step transports cooldownSec) (.initial nowMs) events = some s) (url : Str) :
    (s.warnings url).Pairwise fun a b => a + cooldownSec * 1000 ≤ b := by
  refine (Run.run_invariant (I := Spaced (cooldownSec * 1000)) (fun _ => True)
    (fun _ _ _ _ h hstep => spaced_step h hstep) (fun _ _ => trivial) hrun ?_).spaced url
  exact ⟨fun _ => Nat.zero_le _, fun _ _ ht => absurd ht List.not_mem_nil, fun _ => .nil⟩

/-- One URL. -/
def sampleTransports (_ : Nat) : Transport := ⟨["a".toList], List.cons_ne_nil _ _⟩

/-- Two answers of one request tell of a limit, a second apart. -/
def sampleEvents : List Event :=
  [.request 0 0, .answer 0 (.error "HTTP 429".toList), .tick 1000, .slept 0,
    .answer 0 (.error "HTTP 429".toList)]

theorem warned_once_per_window_sample : ∃ s,
    Run.run (step sampleTransports 1) (.initial 5) sampleEvents = some s ∧
      s.warnings "a".toList = [1005, 2005] ∧
      (s.warnings "a".toList).Pairwise fun a b => a + 1 * 1000 ≤ b := by
  have hwarned : (Run.run (step sampleTransports 1) (.initial 5) sampleEvents).map
      (fun s => s.warnings "a".toList) = some [1005, 2005] := by decide
  obtain ⟨s, hrun, hwarned⟩ := Option.map_eq_some_iff.mp hwarned
  exact ⟨s, hrun, hwarned, warned_once_per_window hrun _⟩

/-! ## The order of a sweep -/

theorem rotationOrder_spec (health : Health) {urls : List Str} (hurls : urls ≠ [])
    (startIndex nowMs : Nat) :
    (rotationOrder health urls startIndex nowMs).Nodup ∧
      (∀ i ∈ rotationOrder health urls startIndex nowMs, i < urls.length) ∧
      rotationOrder health urls startIndex nowMs ≠ [] := by
  have hpos : 0 < urls.length := List.length_pos_iff.mpr hurls
  unfold rotationOrder
  generalize horder : (List.range urls.length).map (fun i => (startIndex + i) % urls.length) = order
  have hnodup : order.Nodup := by
    rw [← horder]
    refine List.Nodup.map_on (fun i hi j hj heq => ?_) List.nodup_range
    have hmod : i ≡ j [MOD urls.length] := Nat.ModEq.add_left_cancel' startIndex heq
    exact hmod.eq_of_lt_of_lt (List.mem_range.mp hi) (List.mem_range.mp hj)
  have hlt : ∀ i ∈ order, i < urls.length := by
    rw [← horder]
    intro i hi
    obtain ⟨j, -, rfl⟩ := List.mem_map.mp hi
    exact Nat.mod_lt _ hpos
  have hne : order ≠ [] := by
    rw [← horder]
    simp [hpos.ne']
  dsimp only
  split
  · next havailable =>
    exact ⟨hnodup.filter _, fun i hi => hlt i (List.mem_of_mem_filter hi), havailable⟩
  · have hperm := List.mergeSort_perm order fun a b =>
      decide (health (urls.getD a []) ≤ health (urls.getD b []))
    refine ⟨hperm.nodup_iff.mpr hnodup, fun i hi => hlt i (hperm.mem_iff.mp hi), fun hnil => ?_⟩
    rw [hnil] at hperm
    exact hne hperm.nil_eq.symm

/-! ## Requests -/

/-- The pauses between four sweeps. -/
def delays : List Nat := [150, 300, 600]

/-- The sweep and the URL of a post of request `k`. -/
def post (k : Nat) : Call → Option (Nat × Nat)
  | .rpcPost j attempt idx => if j = k then some (attempt, idx) else none
  | _ => none

def pause (k : Nat) : Call → Option Nat
  | .sleep j ms => if j = k then some ms else none
  | _ => none

def State.posts (s : State) (k : Nat) : List (Nat × Nat) := s.calls.filterMap (post k)

def State.pauses (s : State) (k : Nat) : List Nat := s.calls.filterMap (pause k)

/-- What has been posted in the first `m` sweeps over `n` URLs. -/
structure Swept (n m : Nat) (posts : List (Nat × Nat)) : Prop where
  nodup : posts.Nodup
  within : ∀ p ∈ posts, p.1 < m ∧ p.2 < n
  each : ∀ attempt < m, ∃ idx, (attempt, idx) ∈ posts

theorem Swept.post {n attempt idx : Nat} {posts : List (Nat × Nat)}
    (h : Swept n attempt posts ∨ Swept n (attempt + 1) posts) (hidx : idx < n)
    (hfresh : (attempt, idx) ∉ posts) : Swept n (attempt + 1) (posts ++ [(attempt, idx)]) := by
  have hnodup : posts.Nodup := h.elim Swept.nodup Swept.nodup
  have hwithin (p : Nat × Nat) (hp : p ∈ posts) : p.1 < attempt + 1 ∧ p.2 < n := by
    rcases h with h | h
    · exact ⟨Nat.lt_succ_of_lt (h.within p hp).1, (h.within p hp).2⟩
    · exact h.within p hp
  have heach (other : Nat) (hother : other < attempt) : ∃ idx, (other, idx) ∈ posts := by
    rcases h with h | h
    · exact h.each other hother
    · exact h.each other (Nat.lt_succ_of_lt hother)
  refine ⟨?_, fun p hp => ?_, fun other hother => ?_⟩
  · refine List.nodup_append.mpr ⟨hnodup, List.nodup_singleton _, fun a ha b hb hab => ?_⟩
    rw [List.mem_singleton.mp hb] at hab
    exact hfresh (hab ▸ ha)
  · rcases List.mem_append.mp hp with hp | hp
    · exact hwithin p hp
    · rw [List.mem_singleton.mp hp]
      exact ⟨Nat.lt_succ_self _, hidx⟩
  · rcases Nat.lt_succ_iff_lt_or_eq.mp hother with hlt | rfl
    · obtain ⟨i, hi⟩ := heach other hlt
      exact ⟨i, List.mem_append_left _ hi⟩
    · exact ⟨idx, List.mem_append_right _ (.head _)⟩

/-- What a request has posted, and how long it has paused, when it comes to a point. -/
def GoodAt (n : Nat) (posts : List (Nat × Nat)) (pauses : List Nat) : Point → Prop
  | .rpcPost attempt _ rest => attempt ≤ 3 ∧ Swept n (attempt + 1) posts ∧
    pauses = delays.take attempt ∧ rest.Nodup ∧ ∀ i ∈ rest, i < n ∧ (attempt, i) ∉ posts
  | .sleep attempt => attempt < 3 ∧ Swept n (attempt + 1) posts ∧
    pauses = delays.take (attempt + 1)
  | .returned => ∃ attempt ≤ 3, Swept n (attempt + 1) posts ∧ pauses = delays.take attempt
  | .threw _ => Swept n 4 posts ∧ pauses = delays

def Good (transports : Nat → Transport) (s : State) (k : Nat) : Prop :=
  match s.requests k with
  | none => s.posts k = [] ∧ s.pauses k = []
  | some request =>
    GoodAt (transports request.transport).urls.length (s.posts k) (s.pauses k) request.point

theorem Good.goodAt {s : State} {k transport : Nat} {point : Point} (h : Good transports s k)
    (hrequest : s.requests k = some ⟨transport, point⟩) :
    GoodAt (transports transport).urls.length (s.posts k) (s.pauses k) point := by
  unfold Good at h
  rwa [hrequest] at h

/-- Only the calls of request `k` change. -/
theorem good_goOn_ne {s : State} {j k transport : Nat} {point : Point} {calls : List Call}
    (h : Good transports s j) (hne : j ≠ k) (hposts : calls.filterMap (post j) = [])
    (hpauses : calls.filterMap (pause j) = []) :
    Good transports (s.goOn k transport point calls) j := by
  have hrequests : (s.goOn k transport point calls).requests j = s.requests j :=
    Function.update_of_ne hne _ _
  have hposts : (s.goOn k transport point calls).posts j = s.posts j := by
    rw [State.posts, State.goOn, List.filterMap_append, hposts, List.append_nil]; rfl
  have hpauses : (s.goOn k transport point calls).pauses j = s.pauses j := by
    rw [State.pauses, State.goOn, List.filterMap_append, hpauses, List.append_nil]; rfl
  unfold Good
  rw [hrequests, hposts, hpauses]
  exact h

theorem good_goOn {s : State} {k transport : Nat} {point : Point} {calls : List Call}
    (h : GoodAt (transports transport).urls.length (s.posts k ++ calls.filterMap (post k))
      (s.pauses k ++ calls.filterMap (pause k)) point) :
    Good transports (s.goOn k transport point calls) k := by
  have hrequests : (s.goOn k transport point calls).requests k = some ⟨transport, point⟩ :=
    Function.update_self _ _ _
  unfold Good
  rw [hrequests]
  simpa only [State.posts, State.pauses, State.goOn, List.filterMap_append] using h

theorem good_tryNext_ne {s : State} {j k transport attempt : Nat} {lastErr : Str}
    {order : List Nat} (h : Good transports s j) (hne : j ≠ k) :
    Good transports (s.tryNext k transport attempt lastErr order) j := by
  cases order with
  | cons idx rest =>
    exact good_goOn_ne h hne (List.filterMap_cons_none (if_neg (Ne.symm hne))) rfl
  | nil =>
    show Good transports (s.failed k transport attempt lastErr) j
    unfold State.failed
    split
    · exact good_goOn_ne h hne rfl (List.filterMap_cons_none (if_neg (Ne.symm hne)))
    · exact good_goOn_ne h hne rfl rfl

theorem good_tryNext {s : State} {k transport attempt : Nat} {lastErr : Str} {order : List Nat}
    (hattempt : attempt ≤ 3)
    (hswept : Swept (transports transport).urls.length (attempt + 1) (s.posts k) ∨
      order ≠ [] ∧ Swept (transports transport).urls.length attempt (s.posts k))
    (hpauses : s.pauses k = delays.take attempt) (hnodup : order.Nodup)
    (hfresh : ∀ i ∈ order, i < (transports transport).urls.length ∧ (attempt, i) ∉ s.posts k) :
    Good transports (s.tryNext k transport attempt lastErr order) k := by
  cases order with
  | cons idx rest =>
    obtain ⟨hidx, hnew⟩ := hfresh idx (.head _)
    obtain ⟨hnotMem, hrest⟩ := List.nodup_cons.mp hnodup
    have hposted := Swept.post (hswept.symm.imp_left And.right) hidx hnew
    have hpost : [Call.rpcPost k attempt idx].filterMap (post k) = [(attempt, idx)] :=
      List.filterMap_cons_some (if_pos rfl)
    refine good_goOn ⟨hattempt, ?_, ?_, hrest, fun i hi => ?_⟩
    · rwa [hpost]
    · rw [hpauses]
      exact List.append_nil _
    · obtain ⟨hlt, hunposted⟩ := hfresh i (.tail _ hi)
      refine ⟨hlt, fun hmem => ?_⟩
      rw [hpost] at hmem
      rcases List.mem_append.mp hmem with hmem | hmem
      · exact hunposted hmem
      · obtain rfl : i = idx := (Prod.mk.inj (List.mem_singleton.mp hmem)).2
        exact hnotMem hi
  | nil =>
    have hswept : Swept (transports transport).urls.length (attempt + 1) (s.posts k) :=
      hswept.resolve_right fun h => h.1 rfl
    show Good transports (s.failed k transport attempt lastErr) k
    unfold State.failed
    split
    · next hlt =>
      have hpause : [Call.sleep k (2 ^ attempt * DEFAULT_SWEEP_RETRY_DELAY_MS)].filterMap
          (pause k) = [2 ^ attempt * DEFAULT_SWEEP_RETRY_DELAY_MS] :=
        List.filterMap_cons_some (if_pos rfl)
      refine good_goOn ⟨hlt, ?_, ?_⟩
      · rwa [show [Call.sleep k _].filterMap (post k) = [] from rfl, List.append_nil]
      · rw [hpause, hpauses]
        have hall : ∀ attempt < 3, delays.take attempt ++ [2 ^ attempt * 150] =
            delays.take (attempt + 1) := by decide
        exact hall attempt hlt
    · next hlt =>
      obtain rfl : attempt = 3 := le_antisymm hattempt (not_lt.mp hlt)
      refine good_goOn ⟨?_, ?_⟩
      · rwa [List.filterMap_nil, List.append_nil]
      · rw [List.filterMap_nil, List.append_nil, hpauses]
        rfl

theorem good_attemptSweep {s : State} {k transport attempt : Nat} (hattempt : attempt ≤ 3)
    (hswept : Swept (transports transport).urls.length attempt (s.posts k))
    (hpauses : s.pauses k = delays.take attempt) :
    Good transports (s.attemptSweep transports k transport attempt) k := by
  obtain ⟨hnodup, hlt, hne⟩ := rotationOrder_spec s.healthByUrl (transports transport).configured
    (s.nextStartIndex transport) s.nowMs
  refine good_tryNext hattempt (.inr ⟨hne, hswept⟩) hpauses hnodup fun i hi =>
    ⟨hlt i hi, fun hmem => ?_⟩
  exact absurd (hswept.within _ hmem).1 (lt_irrefl _)

theorem good_recordCapacityError {s : State} {k : Nat} (h : Good transports s k) (url : Str) :
    Good transports (s.recordCapacityError cooldownSec url) k := by
  have hposts : (s.recordCapacityError cooldownSec url).posts k = s.posts k := by
    rw [State.posts, State.recordCapacityError, List.filterMap_append]
    split <;> exact List.append_nil _
  have hpauses : (s.recordCapacityError cooldownSec url).pauses k = s.pauses k := by
    rw [State.pauses, State.recordCapacityError, List.filterMap_append]
    split <;> exact List.append_nil _
  unfold Good
  rw [hposts, hpauses]
  exact h

theorem good_step {s s' : State} {e : Event} (h : ∀ k, Good transports s k)
    (hstep : step transports cooldownSec s e = some s') (k : Nat) : Good transports s' k := by
  cases e with
  | tick ms =>
    cases hstep
    exact h k
  | request j transport =>
    simp only [step] at hstep
    split at hstep
    case isFalse => cases hstep
    next hnone =>
    cases hstep
    by_cases hk : k = j
    · subst hk
      have hgood := h k
      unfold Good at hgood
      rw [hnone] at hgood
      refine good_attemptSweep (Nat.zero_le _) ?_ hgood.2
      rw [hgood.1]
      exact ⟨.nil, fun _ hp => absurd hp List.not_mem_nil,
        fun _ hlt => absurd hlt (Nat.not_lt_zero _)⟩
    · exact good_tryNext_ne (h k) hk
  | slept j =>
    simp only [step] at hstep
    split at hstep
    case h_2 => cases hstep
    next transport attempt hrequest =>
    cases hstep
    by_cases hk : k = j
    · subst hk
      obtain ⟨hattempt, hswept, hpauses⟩ := (h k).goodAt hrequest
      exact good_attemptSweep hattempt hswept hpauses
    · exact good_tryNext_ne (h k) hk
  | answer j result =>
    simp only [step] at hstep
    split at hstep
    case h_2 => cases hstep
    next transport attempt idx rest hrequest =>
    obtain ⟨hattempt, hswept, hpauses, -⟩ := (h j).goodAt hrequest
    split at hstep <;> cases hstep
    · by_cases hk : k = j
      · subst hk
        refine good_goOn (s := s) ⟨attempt, hattempt, ?_, ?_⟩
        · rwa [List.filterMap_nil, List.append_nil]
        · rwa [List.filterMap_nil, List.append_nil]
      · exact good_goOn_ne (h k) hk rfl rfl
    · next message =>
      have hrecorded : ∃ s₁, (if isCapacityError message then s.recordCapacityError cooldownSec
            ((transports transport).urls.getD idx []) else s) = s₁ ∧
          (∀ k, Good transports s₁ k) ∧ s₁.requests = s.requests := by
        split
        · exact ⟨_, rfl, fun k => good_recordCapacityError (h k) _, rfl⟩
        · exact ⟨_, rfl, h, rfl⟩
      obtain ⟨s₁, heq, hgood₁, hrequests⟩ := hrecorded
      rw [heq]
      by_cases hk : k = j
      · subst hk
        obtain ⟨hattempt, hswept, hpauses, hnodup, hfresh⟩ :=
          (hgood₁ k).goodAt ((congrFun hrequests k).trans hrequest)
        exact good_tryNext hattempt (.inl hswept) hpauses hnodup hfresh
      · exact good_tryNext_ne (hgood₁ k) hk

theorem Swept.length_le {n m : Nat} {posts : List (Nat × Nat)} (h : Swept n m posts) :
    posts.length ≤ m * n := by
  have hsubset : posts ⊆ (List.range m) ×ˢ (List.range n) := by
    intro p hp
    obtain ⟨hm, hn⟩ := h.within p hp
    exact List.mem_product.mpr ⟨List.mem_range.mpr hm, List.mem_range.mpr hn⟩
  calc posts.length ≤ ((List.range m) ×ˢ (List.range n)).length :=
        (h.nodup.subperm hsubset).length_le
    _ = m * n := by rw [List.length_product, List.length_range, List.length_range]

/-- A request posts to a URL once in a sweep at most, and makes four sweeps at most with the pauses
between them. Where it throws it has made all four, each with a post. A URL is its index in the
list: one listed twice is posted to twice. -/
theorem request_bounded {nowMs : Nat} {events : List Event} {s : State}
    (hrun : Run.run (step transports cooldownSec) (.initial nowMs) events = some s) {k : Nat}
    {request : Request} (hrequest : s.requests k = some request) :
    (s.posts k).Nodup ∧
      (∀ p ∈ s.posts k, p.1 < 4 ∧ p.2 < (transports request.transport).urls.length) ∧
      (s.posts k).length ≤ 4 * (transports request.transport).urls.length ∧
      s.pauses k <+: [150, 300, 600] ∧
      ∀ message, request.point = .threw message → s.pauses k = [150, 300, 600] ∧
        ∀ attempt < 4, ∃ idx, (attempt, idx) ∈ s.posts k := by
  have hgood : Good transports s k := Run.run_invariant (I := fun s => ∀ k, Good transports s k)
    (fun _ => True) (fun _ _ _ _ h hstep => good_step h hstep) (fun _ _ => trivial) hrun
    (fun _ => ⟨rfl, rfl⟩) k
  obtain ⟨transport, point⟩ := request
  replace hgood := hgood.goodAt hrequest
  have hposts {m : Nat} (hm : m ≤ 4) (h : Swept (transports transport).urls.length m (s.posts k)) :
      (s.posts k).Nodup ∧
        (∀ p ∈ s.posts k, p.1 < 4 ∧ p.2 < (transports transport).urls.length) ∧
        (s.posts k).length ≤ 4 * (transports transport).urls.length :=
    ⟨h.nodup, fun p hp => ⟨(h.within p hp).1.trans_le hm, (h.within p hp).2⟩,
      h.length_le.trans (Nat.mul_le_mul_right _ hm)⟩
  cases point with
  | rpcPost attempt idx rest =>
    obtain ⟨hattempt, hswept, hpauses, -⟩ := hgood
    obtain ⟨hnodup, hwithin, hlength⟩ := hposts (Nat.succ_le_succ hattempt) hswept
    exact ⟨hnodup, hwithin, hlength, hpauses ▸ List.take_prefix _ _, fun _ heq => by cases heq⟩
  | sleep attempt =>
    obtain ⟨hattempt, hswept, hpauses⟩ := hgood
    obtain ⟨hnodup, hwithin, hlength⟩ := hposts (Nat.succ_le_succ hattempt.le) hswept
    exact ⟨hnodup, hwithin, hlength, hpauses ▸ List.take_prefix _ _, fun _ heq => by cases heq⟩
  | returned =>
    obtain ⟨attempt, hattempt, hswept, hpauses⟩ := hgood
    obtain ⟨hnodup, hwithin, hlength⟩ := hposts (Nat.succ_le_succ hattempt) hswept
    exact ⟨hnodup, hwithin, hlength, hpauses ▸ List.take_prefix _ _, fun _ heq => by cases heq⟩
  | threw message =>
    obtain ⟨hswept, hpauses⟩ := hgood
    obtain ⟨hnodup, hwithin, hlength⟩ := hposts le_rfl hswept
    exact ⟨hnodup, hwithin, hlength, hpauses ▸ List.prefix_rfl,
      fun _ _ => ⟨hpauses, hswept.each⟩⟩

/-- One URL that never answers. -/
def sampleFailures : List Event :=
  [.request 0 0, .answer 0 (.error []), .slept 0, .answer 0 (.error []), .slept 0,
    .answer 0 (.error []), .slept 0, .answer 0 (.error [])]

theorem request_bounded_sample : ∃ s,
    Run.run (step sampleTransports 1) (.initial 5) sampleFailures = some s ∧
      s.requests 0 = some ⟨0, .threw []⟩ ∧
      (s.posts 0).length ≤ 4 * (sampleTransports 0).urls.length ∧
      s.posts 0 = [(0, 0), (1, 0), (2, 0), (3, 0)] := by
  have hthrew : (Run.run (step sampleTransports 1) (.initial 5) sampleFailures).map
      (fun s => (s.requests 0, s.posts 0)) =
        some (some ⟨0, .threw []⟩, [(0, 0), (1, 0), (2, 0), (3, 0)]) := by decide
  obtain ⟨s, hrun, hthrew⟩ := Option.map_eq_some_iff.mp hthrew
  obtain ⟨hrequest, hposts⟩ := Prod.mk.inj hthrew
  exact ⟨s, hrun, hrequest, (request_bounded hrun hrequest).2.2.1, hposts⟩

end Maat.Orchestrator.RpcRotation
