import Maat.Lib.Window
import Maat.Laws.IntentManager.Disposition

/-!
# The volume breaker as a window counter

`World.counter` reads the breaker of a world as a counter over tumbling windows, its book the
intents on record. One effect lemma says what a call can do to it (`effect_exec`): nothing, or book
one new intent in `submitIntent`. Reentrancy, reverts and the outside add nothing to that
(`step_moves`), so every run of the contract is a run of the counter (`run_refines`), and the bounds
of the counter are the contract's (`daily_volume_cap`).
-/

namespace Maat.IntentManager

open Resumption Resumption.Prog

variable {E : Env}

/-- When an intent was created and what was recorded as its amount. -/
def World.entry (w : World) (id : Bytes32) : Window.Entry :=
  ⟨(w.intents id).createdAt, (w.intents id).amount⟩

theorem World.entry_update {w w' : World} {id : Bytes32} {intent : Intent}
    (h : w'.intents = Function.update w.intents id intent) :
    w'.entry = Function.update w.entry id ⟨intent.createdAt, intent.amount⟩ := by
  funext j
  simp only [World.entry, h]
  by_cases hj : j = id
  · rw [hj, Function.update_self, Function.update_self]
  · rw [Function.update_of_ne hj, Function.update_of_ne hj]
    rfl

def World.counter (w : World) : Window.Counter :=
  { start := w.lastVolumeReset, volume := w.dailyVolume, now := w.timestamp
    book := (createdIds w.logs).map w.entry }

/-- The two worlds agree on the breaker and on every intent's entry. -/
structure SameBook (w w' : World) : Prop where
  dailyVolume : w'.dailyVolume = w.dailyVolume
  lastVolumeReset : w'.lastVolumeReset = w.lastVolumeReset
  timestamp : w'.timestamp = w.timestamp
  created : createdIds w'.logs = createdIds w.logs
  entry : w'.entry = w.entry

theorem SameBook.refl (w : World) : SameBook w w := ⟨rfl, rfl, rfl, rfl, rfl⟩

theorem SameBook.symm {w w' : World} (h : SameBook w w') : SameBook w' w :=
  ⟨h.dailyVolume.symm, h.lastVolumeReset.symm, h.timestamp.symm, h.created.symm, h.entry.symm⟩

theorem SameBook.trans {a b c : World} (h : SameBook a b) (h' : SameBook b c) : SameBook a c where
  dailyVolume := h'.dailyVolume.trans h.dailyVolume
  lastVolumeReset := h'.lastVolumeReset.trans h.lastVolumeReset
  timestamp := h'.timestamp.trans h.timestamp
  created := h'.created.trans h.created
  entry := h'.entry.trans h.entry

theorem SameBook.counter {w w' : World} (h : SameBook w w') : w'.counter = w.counter := by
  rw [World.counter, h.lastVolumeReset, h.dailyVolume, h.timestamp, h.created, h.entry]
  rfl

/-- One intent was accepted, below the limit. -/
structure Accepts (w w' : World) (id : Bytes32) (amount : Nat) : Prop where
  timestamp : w'.timestamp = w.timestamp
  created : createdIds w'.logs = createdIds w.logs ++ [id]
  entry : w'.entry = Function.update w.entry id ⟨w.timestamp, amount⟩
  counted : w'.lastVolumeReset = (w.counter.count VOLUME_WINDOW amount).start ∧
    w'.dailyVolume = (w.counter.count VOLUME_WINDOW amount).volume
  limit : w'.dailyVolume ≤ w'.dailyVolumeLimit

/-- What a call that does not revert does to the breaker. -/
def Effect (w w' : World) : Prop := SameBook w w' ∨ ∃ id amount, Accepts w w' id amount

/-! ## What leaves the book alone -/

variable {w₀ : World}

theorem keeps_same {f : World → World} (h : ∀ w, SameBook w (f w)) :
    Keeps (SameBook w₀) (update f : Tx Unit) := keeps_update fun w hw => hw.trans (h w)

theorem keeps_checkedAdd (a b : Nat) : Keeps (SameBook w₀) (checkedAdd a b) :=
  keeps_ite (keeps_pure _) (keeps_fail _)

/-- A log line that creates no intent. -/
theorem keeps_emit {log : Log} (h : log.created? = none) : Keeps (SameBook w₀) (emit log) := by
  apply keeps_same
  intro w
  refine ⟨rfl, rfl, rfl, ?_, rfl⟩
  rw [createdIds_append, createdIds_singleton, h, Option.toList_none, List.append_nil]

/-- Writing an intent back with its amount and time of creation. -/
theorem keeps_setIntent {w : World} (hw : SameBook w₀ w) {id : Bytes32} {intent : Intent}
    (hcreated : intent.createdAt = (w.intents id).createdAt)
    (hamount : intent.amount = (w.intents id).amount) :
    Keeps (SameBook w₀) (setIntent id intent) := by
  apply keeps_update
  intro s hs
  refine ⟨hs.dailyVolume, hs.lastVolumeReset, hs.timestamp, hs.created, ?_⟩
  rw [World.entry_update (w := s) rfl, hcreated, hamount]
  have hsame : w.entry id = s.entry id := congrFun (hw.entry.trans hs.entry.symm) id
  exact (Function.update_eq_self_iff.mpr hsame).trans hs.entry

theorem keeps_sendEth (recipient : Address) (value : Nat) :
    Keeps (SameBook w₀) (sendEth recipient value) :=
  keeps_bind (keeps_ask _) fun _ => keeps_failIf _ _

theorem keeps_releaseFunds (recipient : Address) (amount : Nat) (token : Address) :
    Keeps (SameBook w₀) (releaseFunds recipient amount token) :=
  keeps_ite (keeps_sendEth _ _) (keeps_bind (keeps_ask _) fun _ => keeps_failIf _ _)

theorem keeps_creditTreasury (collateral : Nat) :
    Keeps (SameBook w₀) (creditTreasury collateral) :=
  keeps_bind keeps_read fun _ => keeps_bind (keeps_checkedAdd _ _) fun _ =>
    keeps_same fun _ => ⟨rfl, rfl, rfl, rfl, rfl⟩

theorem keeps_nonPayable {msg : Msg} {body : Tx Unit} (h : Keeps (SameBook w₀) body) :
    Keeps (SameBook w₀) (nonPayable msg body) :=
  keeps_bind (keeps_failIf _ _) fun _ => h

theorem keeps_whenNotPaused {α : Type} {body : Tx α} (h : Keeps (SameBook w₀) body) :
    Keeps (SameBook w₀) (whenNotPaused body) :=
  keeps_bind keeps_read fun _ => keeps_bind (keeps_failIf _ _) fun _ => h

theorem keeps_lock (entered : Bool) :
    Keeps (SameBook w₀) (update fun w => { w with entered } : Tx Unit) :=
  keeps_same fun _ => ⟨rfl, rfl, rfl, rfl, rfl⟩

theorem keeps_nonReentrant {α : Type} {body : Tx α} (h : Keeps (SameBook w₀) body) :
    Keeps (SameBook w₀) (nonReentrant body) :=
  keeps_bind keeps_read fun _ => keeps_bind (keeps_failIf _ _) fun _ =>
    keeps_bind (keeps_lock true) fun _ => keeps_bind h fun _ =>
      keeps_bind (keeps_lock false) fun _ => keeps_pure _

theorem keeps_onlyOrchestrator {msg : Msg} {body : Tx Unit} (h : Keeps (SameBook w₀) body) :
    Keeps (SameBook w₀) (onlyOrchestrator msg body) :=
  keeps_bind keeps_read fun _ => keeps_bind (keeps_failIf _ _) fun _ => h

theorem keeps_onlyAdmin {msg : Msg} {body : Tx Unit} (h : Keeps (SameBook w₀) body) :
    Keeps (SameBook w₀) (onlyAdmin msg body) :=
  keeps_bind keeps_read fun _ => keeps_bind (keeps_failIf _ _) fun _ => h

theorem keeps_balanceOf (token : Address) : Keeps (SameBook w₀) (balanceOf token) := by
  apply keeps_bind (keeps_ask _)
  intro answer
  cases answer with
  | none => exact keeps_fail _
  | some balance => exact keeps_pure _

theorem keeps_pullEscrow (msg : Msg) (token : Address) (amount : Nat) :
    Keeps (SameBook w₀) (pullEscrow msg token amount) := by
  apply keeps_ite
  · exact keeps_bind (keeps_failIf _ _) fun _ => keeps_pure _
  · apply keeps_bind (keeps_failIf _ _)
    intro _
    apply keeps_bind (keeps_balanceOf _)
    intro _
    apply keeps_bind (keeps_bind (keeps_ask _) fun _ => keeps_failIf _ _)
    intro _
    apply keeps_bind (keeps_balanceOf _)
    intro _
    apply keeps_bind (keeps_ite (keeps_pure _) (keeps_fail _))
    intro _
    exact keeps_bind (keeps_failIf _ _) fun _ => keeps_pure _

theorem keeps_postCollateral (msg : Msg) (id : Bytes32) :
    Keeps (SameBook w₀) (postCollateral msg id) := by
  apply keeps_whenNotPaused
  apply keeps_nonReentrant
  apply keeps_read_bind
  intro w hw
  apply keeps_bind (keeps_failIf _ _)
  intro _
  apply keeps_bind (keeps_failIf _ _)
  intro _
  apply keeps_bind (keeps_failIf _ _)
  intro _
  apply keeps_bind (keeps_failIf _ _)
  intro _
  apply keeps_bind (keeps_ite (keeps_pure _) (keeps_fail _))
  intro _
  apply keeps_bind (keeps_failIf _ _)
  intro _
  exact keeps_bind (keeps_setIntent hw rfl rfl) fun _ => keeps_emit rfl

theorem keeps_confirmSettlement (msg : Msg) (id proof : Bytes32) :
    Keeps (SameBook w₀) (confirmSettlement msg id proof) := by
  apply keeps_onlyOrchestrator
  apply keeps_nonReentrant
  apply keeps_read_bind
  intro w hw
  apply keeps_bind (keeps_failIf _ _)
  intro _
  apply keeps_bind (keeps_failIf _ _)
  intro _
  refine keeps_bind (keeps_setIntent hw ?_ ?_) fun _ => ?_
  · rfl
  · rfl
  apply keeps_bind (keeps_releaseFunds _ _ _)
  intro _
  apply keeps_bind (keeps_sendEth _ _)
  intro _
  exact keeps_bind (keeps_emit rfl) fun _ => keeps_emit rfl

theorem keeps_slashSolver (msg : Msg) (id : Bytes32) :
    Keeps (SameBook w₀) (slashSolver msg id) := by
  apply keeps_onlyOrchestrator
  apply keeps_nonReentrant
  apply keeps_read_bind
  intro w hw
  apply keeps_bind (keeps_failIf _ _)
  intro _
  apply keeps_bind (keeps_failIf _ _)
  intro _
  apply keeps_bind (keeps_failIf _ _)
  intro _
  refine keeps_bind (keeps_setIntent hw ?_ ?_) fun _ => ?_
  · rfl
  · rfl
  apply keeps_bind (keeps_releaseFunds _ _ _)
  intro _
  exact keeps_bind (keeps_creditTreasury _) fun _ => keeps_emit rfl

theorem keeps_cancelIntent (msg : Msg) (id : Bytes32) :
    Keeps (SameBook w₀) (cancelIntent msg id) := by
  apply keeps_nonReentrant
  apply keeps_read_bind
  intro w hw
  apply keeps_bind (keeps_failIf _ _)
  intro _
  apply keeps_bind (keeps_failIf _ _)
  intro _
  apply keeps_bind (keeps_failIf _ _)
  intro _
  apply keeps_bind (keeps_failIf _ _)
  intro _
  refine keeps_bind (keeps_setIntent hw ?_ ?_) fun _ => ?_
  · rfl
  · rfl
  exact keeps_bind (keeps_releaseFunds _ _ _) fun _ => keeps_emit rfl

theorem keeps_claimRefund (msg : Msg) (id : Bytes32) :
    Keeps (SameBook w₀) (claimRefund msg id) := by
  apply keeps_nonReentrant
  apply keeps_read_bind
  intro w hw
  apply keeps_bind (keeps_failIf _ _)
  intro _
  apply keeps_bind (keeps_failIf _ _)
  intro _
  apply keeps_bind (keeps_failIf _ _)
  intro _
  apply keeps_bind (keeps_checkedAdd _ _)
  intro _
  apply keeps_bind (keeps_failIf _ _)
  intro _
  refine keeps_bind (keeps_setIntent hw ?_ ?_) fun _ => ?_
  · rfl
  · rfl
  apply keeps_bind (keeps_releaseFunds _ _ _)
  intro _
  exact keeps_bind (keeps_creditTreasury _) fun _ => keeps_emit rfl

theorem keeps_withdrawTreasury (msg : Msg) : Keeps (SameBook w₀) (withdrawTreasury msg) := by
  apply keeps_nonReentrant
  apply keeps_bind keeps_read
  intro _
  exact keeps_bind (keeps_same fun _ => ⟨rfl, rfl, rfl, rfl, rfl⟩) fun _ => keeps_sendEth _ _

/-- Writing one admin setting and logging it. -/
theorem keeps_setting {f : World → World} {log : Log} (h : ∀ w, SameBook w (f w))
    (hlog : log.created? = none) :
    Keeps (SameBook w₀) (do update f; emit log : Tx Unit) :=
  keeps_bind (keeps_same h) fun _ => keeps_emit hlog

/-! ## What an acceptance does -/

/-- The breaker lets the amount pass, counted below the limit, or reverts. -/
theorem countVolume_cases (w : World) (amount : Nat) :
    (∃ w' e, countVolume amount w = .throw w' e) ∨
      ∃ dailyVolume lastVolumeReset,
        countVolume amount w = .ret { w with dailyVolume, lastVolumeReset } () ∧
        lastVolumeReset = (w.counter.count VOLUME_WINDOW amount).start ∧
        dailyVolume = (w.counter.count VOLUME_WINDOW amount).volume ∧
        dailyVolume ≤ w.dailyVolumeLimit := by
  simp -implicitDefEqProofs only [countVolume, bind_apply, read_apply, Res.bind_ret, checkedAdd]
  generalize VOLUME_WINDOW = window
  by_cases hend : w.lastVolumeReset + window ≤ maxUint256
  case neg =>
    simp -implicitDefEqProofs only [if_neg hend, fail_apply, Res.bind_throw]
    exact .inl ⟨_, _, rfl⟩
  simp -implicitDefEqProofs only [if_pos hend, pure_apply, Res.bind_ret]
  by_cases hlapsed : w.lastVolumeReset + window < w.timestamp
  · have hcount : w.counter.count window amount =
        { w.counter with
          start := w.timestamp, volume := amount
          book := w.counter.book ++ [⟨w.timestamp, amount⟩] } := if_pos hlapsed
    rw [hcount]
    simp only [if_pos hlapsed, bind_apply, update_apply, Res.bind_ret, read_apply, Nat.zero_add]
    by_cases hfits : amount ≤ maxUint256
    case neg =>
      simp only [if_neg hfits, fail_apply, Res.bind_throw]
      exact .inl ⟨_, _, rfl⟩
    simp only [if_pos hfits, pure_apply, Res.bind_ret]
    by_cases hover : amount > w.dailyVolumeLimit
    · simp only [if_pos hover, emit, bind_apply, update_apply, Res.bind_ret, fail_apply,
        Res.bind_throw]
      exact .inl ⟨_, _, rfl⟩
    · refine .inr ⟨_, _, ?_, rfl, rfl, Nat.le_of_not_lt hover⟩
      rw [if_neg hover]
      rfl
  · have hcount : w.counter.count window amount =
        { w.counter with
          volume := w.dailyVolume + amount
          book := w.counter.book ++ [⟨w.timestamp, amount⟩] } := if_neg hlapsed
    rw [hcount]
    simp only [if_neg hlapsed, bind_apply, read_apply, Res.bind_ret]
    by_cases hfits : w.dailyVolume + amount ≤ maxUint256
    case neg =>
      simp only [if_neg hfits, fail_apply, Res.bind_throw]
      exact .inl ⟨_, _, rfl⟩
    simp only [if_pos hfits, pure_apply, Res.bind_ret]
    by_cases hover : w.dailyVolume + amount > w.dailyVolumeLimit
    · simp only [if_pos hover, emit, bind_apply, update_apply, Res.bind_ret, fail_apply,
        Res.bind_throw]
      exact .inl ⟨_, _, rfl⟩
    · refine .inr ⟨_, _, ?_, rfl, rfl, Nat.le_of_not_lt hover⟩
      rw [if_neg hover]
      rfl

/-- The world a submission ends in has one entry more, counted by the breaker. -/
theorem Accepts.of_update {w w' : World} {id : Bytes32} {amount : Nat} {intent : Intent}
    (hamount : intent.amount = amount) (hcreated : intent.createdAt = w.timestamp)
    (hintents : w'.intents = Function.update w.intents id intent) (htime : w'.timestamp = w.timestamp)
    (hlogs : createdIds w'.logs = createdIds w.logs ++ [id])
    (hreset : w'.lastVolumeReset = (w.counter.count VOLUME_WINDOW amount).start)
    (hvolume : w'.dailyVolume = (w.counter.count VOLUME_WINDOW amount).volume)
    (hlimit : w'.dailyVolume ≤ w'.dailyVolumeLimit) : Accepts w w' id amount where
  timestamp := htime
  created := hlogs
  entry := by rw [World.entry_update hintents, hamount, hcreated]
  counted := ⟨hreset, hvolume⟩
  limit := hlimit

theorem Accepts.of_same {a b c : World} {id : Bytes32} {amount : Nat} (h : SameBook a b)
    (h' : Accepts b c id amount) : Accepts a c id amount where
  timestamp := h'.timestamp.trans h.timestamp
  created := by rw [h'.created, h.created]
  entry := by rw [h'.entry, h.entry, h.timestamp]
  counted := by rw [← h.counter]; exact h'.counted
  limit := h'.limit

variable {call : Call} {msg : Msg}

/-- A call keeps the book while it waits, and completes with one effect. -/
abbrev Books (w₀ : World) {α : Type} : World → Res World Answer Err α → Prop :=
  Sat (keeping (SameBook w₀)) (fun _ w _ => Effect w₀ w) fun _ _ _ => True

theorem books_of_keeps {α : Type} {p : Tx α} (h : Keeps (SameBook w₀) p) {w : World}
    (hw : SameBook w₀ w) (s₀ : World) : Books w₀ s₀ (p w) :=
  (h w hw).start.mono (fun _ _ _ hs => .inl hs) fun _ _ _ _ => trivial

theorem books_submitIntent {w : World} (h : SameBook w₀ w) (token : Address) (amount : Nat)
    (wallet : Bytes32) (chainId expiry : UInt64) (slippageBps : UInt16) (s₀ : World) :
    Books w₀ s₀ (submitIntent E msg token amount wallet chainId expiry slippageBps w) := by
  simp only [submitIntent, whenNotPaused, nonReentrant, bind_apply, read_apply, Res.bind_ret]
  refine sat_failIf_bind.mpr ⟨fun _ => trivial, fun _ => ?_⟩
  refine sat_failIf_bind.mpr ⟨fun _ => trivial, fun _ => ?_⟩
  simp only [bind_apply, update_apply, Res.bind_ret, Res.bind_assoc]
  refine sat_failIf_bind.mpr ⟨fun _ => trivial, fun _ => ?_⟩
  simp only [read_apply, Res.bind_ret]
  refine sat_failIf_bind.mpr ⟨fun _ => trivial, fun _ => ?_⟩
  have hlocked : SameBook w₀ { w with entered := true } := h.trans ⟨rfl, rfl, rfl, rfl, rfl⟩
  refine (keeps_pullEscrow msg token amount).sat_bind hlocked (fun _ _ _ => trivial)
    (fun amount' s₁ s hs => ?_) s₀
  rcases countVolume_cases s amount' with
    ⟨w', e, hthrow⟩ | ⟨dailyVolume, lastVolumeReset, hcount, hreset, hvolume, hlimit⟩
  · rw [hthrow]
    exact sat_throw.mpr trivial
  rw [hcount, Res.bind_ret]
  refine sat_checkedAdd_bind.mpr ⟨fun _ => ?_, fun _ => trivial⟩
  simp only [pure_apply, Res.bind_ret, bind_apply, update_apply, emit]
  refine sat_ret.mpr (.inr ⟨E.keccak256 (encodePacked msg.sender s.intentNonce s.timestamp), amount',
    Accepts.of_same hs ?_⟩)
  refine Accepts.of_update (w := s) ?_ ?_ rfl rfl ?_ hreset hvolume hlimit
  · rfl
  · rfl
  · rw [createdIds_append, createdIds_singleton]
    rfl

/-- What any call does to the breaker, begun in any world. -/
theorem books_exec (w : World) (value : Nat) (s₀ : World) :
    Books w s₀ (exec E msg call { w with balance := w.balance + value }) := by
  have hw : SameBook w { w with balance := w.balance + value } := ⟨rfl, rfl, rfl, rfl, rfl⟩
  cases call with
  | submitIntent token amount wallet chainId expiry slippageBps =>
    simp only [exec, bind_apply]
    refine sat_bind.mpr ((books_submitIntent hw token amount wallet chainId expiry slippageBps
      s₀).mono ?_ fun _ _ _ h => h)
    intro s₁ s id heffect
    exact sat_ret.mpr heffect
  | postCollateral id => exact books_of_keeps (keeps_postCollateral _ _) hw s₀
  | confirmSettlement id proof =>
    exact books_of_keeps (keeps_nonPayable (keeps_confirmSettlement _ _ _)) hw s₀
  | slashSolver id => exact books_of_keeps (keeps_nonPayable (keeps_slashSolver _ _)) hw s₀
  | cancelIntent id => exact books_of_keeps (keeps_nonPayable (keeps_cancelIntent _ _)) hw s₀
  | claimRefund id => exact books_of_keeps (keeps_nonPayable (keeps_claimRefund _ _)) hw s₀
  | withdrawTreasury => exact books_of_keeps (keeps_nonPayable (keeps_withdrawTreasury _)) hw s₀
  | pause =>
    refine books_of_keeps (keeps_nonPayable (keeps_onlyAdmin (keeps_whenNotPaused
      (keeps_setting (fun _ => ?_) rfl)))) hw s₀
    exact ⟨rfl, rfl, rfl, rfl, rfl⟩
  | unpause =>
    refine books_of_keeps (keeps_nonPayable (keeps_onlyAdmin (keeps_bind keeps_read fun _ =>
      keeps_bind (keeps_failIf _ _) fun _ => keeps_setting (fun _ => ?_) rfl))) hw s₀
    exact ⟨rfl, rfl, rfl, rfl, rfl⟩
  | setDailyVolumeLimit newLimit =>
    refine books_of_keeps (keeps_nonPayable (keeps_onlyAdmin
      (keeps_setting (fun _ => ?_) rfl))) hw s₀
    exact ⟨rfl, rfl, rfl, rfl, rfl⟩
  | setOrchestrator newOrchestrator =>
    refine books_of_keeps (keeps_nonPayable (keeps_onlyAdmin (keeps_bind (keeps_failIf _ _)
      fun _ => keeps_bind keeps_read fun _ => keeps_setting (fun _ => ?_) rfl))) hw s₀
    exact ⟨rfl, rfl, rfl, rfl, rfl⟩
  | setSolver solver approved =>
    refine books_of_keeps (keeps_nonPayable (keeps_onlyAdmin (keeps_bind (keeps_failIf _ _)
      fun _ => keeps_setting (fun _ => ?_) rfl))) hw s₀
    exact ⟨rfl, rfl, rfl, rfl, rfl⟩

/-! ## Steps -/

/-- A waiting call: the book is the one it began with, and it will complete with one effect. -/
structure FrameBooks (frame : Frame) (now : World) : Prop where
  now : SameBook frame.saved now
  asked : SameBook frame.saved frame.asked
  resume : ∀ w answer, SameBook frame.saved w → Books frame.saved w (frame.resume w answer)

def Machine.Books (m : Machine) : Prop := ∀ frame ∈ m.stack, FrameBooks frame m.world

/-- What one event does to the breaker. -/
inductive Moves (m m' : Machine) : Prop where
  | same (h : SameBook m.world m'.world)
  | tick (timestamp : Nat) (hle : m.world.timestamp ≤ timestamp)
      (h : m'.world = { m.world with timestamp })
  | accept (id : Bytes32) (amount : Nat) (hidle : m'.stack = [])
      (h : Accepts m.world m'.world id amount)

/-- A call that began in `saved`, where the book is that of `w`. -/
theorem settle_books {saved s₀ w : World} {r : Res World Answer Err Unit}
    (hw : SameBook saved w) (hr : Books saved s₀ r) (stack : List Frame) :
    (settle E saved msg call [] r).Books ∧ Moves ⟨w, stack⟩ (settle E saved msg call [] r) := by
  induction r generalizing s₀ with
  | ret s a =>
    refine ⟨fun _ hf => absurd hf List.not_mem_nil, ?_⟩
    rcases sat_ret.mp hr with hsame | ⟨id, amount, haccept⟩
    · exact .same (hw.symm.trans hsame)
    · exact .accept id amount rfl (haccept.of_same hw.symm)
  | throw s e => exact ⟨fun _ hf => absurd hf List.not_mem_nil, .same hw.symm⟩
  | ask s ext k ih =>
    obtain ⟨hs, hresume⟩ := sat_ask.mp hr
    rw [settle]
    split
    · have hdepart : SameBook saved (depart call ext s) := hs.trans ⟨rfl, rfl, rfl, rfl, rfl⟩
      refine ⟨fun frame hf => ?_, .same (hw.symm.trans hdepart)⟩
      obtain rfl := List.mem_singleton.mp hf
      exact ⟨hdepart, hs, fun w answer hw => hresume w answer hw⟩
    · exact ih s none (hresume s none hs)

theorem SameBook.of_administers {w w' : World} (h : Administers w w') : SameBook w w' where
  dailyVolume := h.dailyVolume
  lastVolumeReset := h.lastVolumeReset
  timestamp := h.timestamp
  created := by
    obtain ⟨admin, hlogs, hadmin⟩ := h.logs
    rw [hlogs, createdIds_append, (admin_history hadmin 0).2.2.2, List.append_nil]
  entry := by
    funext id
    rw [World.entry, h.intents]
    rfl

/-- The world moved, the waiting call did not. -/
theorem FrameBooks.move {frame frame' : Frame} {w w' : World} (h : FrameBooks frame w)
    (hsame : frame' = { frame with due := frame'.due }) (hw : SameBook w w') :
    FrameBooks frame' w' := by
  rw [hsame]
  exact ⟨h.now.trans hw, h.asked, h.resume⟩

theorem books_singleton {w : World} {frame : Frame} (h : FrameBooks frame w) :
    Machine.Books ⟨w, [frame]⟩ := fun _ hf => List.mem_singleton.mp hf ▸ h

/-- One event from an idle machine books at most one intent. -/
theorem rawStep_moves_idle {w : World} {m' : Machine} {e : Event}
    (hstep : rawStep E ⟨w, []⟩ e = some m') : m'.Books ∧ Moves ⟨w, []⟩ m' := by
  have hnone : ∀ w' : World, Machine.Books ⟨w', []⟩ :=
    fun _ _ hf => absurd hf List.not_mem_nil
  cases e with
  | call msg call =>
    simp only [rawStep] at hstep
    split at hstep
    case isFalse => cases hstep
    obtain rfl := Option.some.inj hstep
    exact settle_books (.refl w) (books_exec w msg.value w) []
  | reply word => cases hstep
  | fail => cases hstep
  | debit => cases hstep
  | tokenIn token amount =>
    obtain rfl := Option.some.inj hstep
    exact ⟨hnone _, .same ⟨rfl, rfl, rfl, rfl, rfl⟩⟩
  | forceEth amount =>
    simp only [rawStep] at hstep
    split at hstep
    case isFalse => cases hstep
    obtain rfl := Option.some.inj hstep
    exact ⟨hnone _, .same ⟨rfl, rfl, rfl, rfl, rfl⟩⟩
  | tick timestamp =>
    simp only [rawStep] at hstep
    split at hstep
    case isFalse => cases hstep
    next hcond =>
      obtain rfl := Option.some.inj hstep
      exact ⟨hnone _, .tick timestamp hcond.2 rfl⟩

/-- One event while a call waits. -/
theorem rawStep_moves_waiting {w : World} {frame : Frame} {m' : Machine} {e : Event}
    (hlocked : w.entered = true) (hf : FrameBooks frame w)
    (hstep : rawStep E ⟨w, [frame]⟩ e = some m') : m'.Books ∧ Moves ⟨w, [frame]⟩ m' := by
  have hmove : ∀ {frame' : Frame} {w' : World}, frame' = { frame with due := frame'.due } →
      SameBook w w' → Machine.Books ⟨w', [frame']⟩ ∧ Moves ⟨w, [frame]⟩ ⟨w', [frame']⟩ :=
    fun hsame hw => ⟨books_singleton (hf.move hsame hw), .same hw⟩
  cases e with
  | call msg call =>
    simp only [rawStep] at hstep
    split at hstep
    case isFalse => cases hstep
    obtain rfl := Option.some.inj hstep
    have hentered : ({ w with balance := w.balance + msg.value } : World).entered = true := hlocked
    rcases settle_locked E w msg call frame hentered with hback | ⟨w', hdone, -, hadmin⟩
    · rw [hback]
      exact hmove rfl (.refl w)
    · rw [hdone]
      have hbring : SameBook w { w with balance := w.balance + msg.value } :=
        ⟨rfl, rfl, rfl, rfl, rfl⟩
      exact hmove rfl (hbring.trans (.of_administers hadmin))
  | reply word =>
    simp only [rawStep] at hstep
    split at hstep
    case isFalse => cases hstep
    obtain rfl := Option.some.inj hstep
    exact settle_books hf.now (hf.resume w (some word) hf.now) [frame]
  | fail =>
    obtain rfl := Option.some.inj hstep
    exact settle_books hf.now (hf.resume frame.asked none hf.asked) [frame]
  | debit =>
    simp only [rawStep] at hstep
    split at hstep
    case isFalse => cases hstep
    obtain rfl := Option.some.inj hstep
    exact hmove rfl ⟨rfl, rfl, rfl, rfl, rfl⟩
  | tokenIn token amount =>
    simp only [rawStep] at hstep
    split at hstep
    case isFalse => cases hstep
    obtain rfl := Option.some.inj hstep
    exact hmove rfl ⟨rfl, rfl, rfl, rfl, rfl⟩
  | forceEth amount =>
    simp only [rawStep] at hstep
    split at hstep
    case isFalse => cases hstep
    obtain rfl := Option.some.inj hstep
    exact hmove rfl ⟨rfl, rfl, rfl, rfl, rfl⟩
  | tick timestamp =>
    simp only [rawStep] at hstep
    split at hstep
    case isFalse => cases hstep
    next hcond => cases hcond.1

theorem step_moves {m m' : Machine} {e : Event} (h : Inv E m) (hbooks : m.Books)
    (hstep : step E m e = some m') : m'.Books ∧ Moves m m' := by
  obtain ⟨hraw, -⟩ := Option.filter_eq_some_iff.mp hstep
  rcases h.cases with ⟨w, rfl, hidle⟩ | ⟨w, frame, rfl, hwaits⟩
  · exact rawStep_moves_idle hraw
  · exact rawStep_moves_waiting (hwaits.waited.entered.trans hwaits.covers.entered)
      (hbooks frame List.mem_cons_self) hraw

/-! ## The counter -/

/-- A new intent's id is not among those of the intents before it. -/
theorem Accepts.fresh {w w' : World} {id : Bytes32} {amount : Nat} (h : Accepts w w' id amount)
    (honce : (createdIds w'.logs).Nodup) : id ∉ createdIds w.logs := by
  rw [h.created] at honce
  exact fun hid => (List.nodup_append.mp honce).2.2 id hid id List.mem_cons_self rfl

/-- Booking an intent is the counter's own step. -/
theorem Accepts.counter {w w' : World} {id : Bytes32} {amount : Nat} (h : Accepts w w' id amount)
    (honce : (createdIds w'.logs).Nodup) : w'.counter = w.counter.count VOLUME_WINDOW amount := by
  have hfresh := h.fresh honce
  have hold : (createdIds w.logs).map w'.entry = (createdIds w.logs).map w.entry := by
    apply List.map_congr_left
    intro j hj
    have hne : j ≠ id := fun heq => hfresh (heq ▸ hj)
    rw [h.entry, Function.update_of_ne hne]
  have hbook : (createdIds w'.logs).map w'.entry = w.counter.book ++ [⟨w.timestamp, amount⟩] := by
    rw [h.created, List.map_append, hold, List.map_singleton, h.entry, Function.update_self]
    rfl
  rw [World.counter, h.counted.1, h.counted.2, h.timestamp, hbook]
  unfold Window.Counter.count
  split <;> rfl

/-- One event is nothing, or one event of the counter with any limit the new world keeps. -/
theorem Moves.counter {m m' : Machine} (h : Moves m m') (hinv : Inv E m') {L : Nat}
    (hlimit : m'.world.dailyVolumeLimit = L) :
    SameBook m.world m'.world ∨
      ∃ e, Window.step VOLUME_WINDOW L m.world.counter e = some m'.world.counter := by
  cases h with
  | same h => exact .inl h
  | tick timestamp hle h =>
    refine .inr ⟨.tick timestamp, ?_⟩
    rw [h]
    exact if_pos hle
  | accept id amount hidle h =>
    refine .inr ⟨.accept amount, ?_⟩
    have honce : (createdIds m'.world.logs).Nodup := by
      rcases hinv.cases with ⟨w, rfl, hw⟩ | ⟨w, frame, rfl, -⟩
      · exact hw.kept.createdOnce
      · cases hidle
    have hcounter := h.counter honce
    rw [hcounter]
    refine if_pos ?_
    rw [← hcounter, ← hlimit]
    exact h.limit

/-! ## Runs -/

/-- What the breaker's laws need of a machine. -/
structure Booked (E : Env) (m : Machine) : Prop where
  inv : Inv E m
  books : m.Books
  sound : m.world.counter.Sound VOLUME_WINDOW

theorem step_booked {m m' : Machine} {e : Event} (h : Booked E m)
    (hstep : step E m e = some m') : Booked E m' ∧ Moves m m' := by
  have hinv := (step_inv h.inv hstep).1
  obtain ⟨hbooks, hmoves⟩ := step_moves h.inv h.books hstep
  refine ⟨⟨hinv, hbooks, ?_⟩, hmoves⟩
  rcases hmoves.counter hinv rfl with hsame | ⟨e, hcount⟩
  · rw [hsame.counter]
    exact h.sound
  · exact Window.step_sound h.sound hcount

theorem run_booked {m m' : Machine} {events : List Event} (h : Booked E m)
    (hrun : Run.run (step E) m events = some m') : Booked E m' :=
  Run.run_keeps (fun _ _ _ hm hstep => (step_booked hm hstep).1) hrun h

theorem booked_of_reachable {m : Machine} (h : Reachable E m) : Booked E m := by
  obtain ⟨orchestrator, treasury, owner, timestamp, storage, events, hdeploy, hrun⟩ := h
  refine run_booked ⟨inv_deployed hdeploy, fun _ hf => absurd hf List.not_mem_nil, ?_⟩ hrun
  simp only [constructor] at hdeploy
  split at hdeploy
  case isTrue => cases hdeploy
  obtain rfl := Option.some.inj hdeploy
  exact ⟨Nat.le_refl _, fun _ he => absurd he List.not_mem_nil,
    fun _ he => absurd he List.not_mem_nil, rfl⟩

/-- Intents on record stay on record, in their order. -/
theorem run_created {m m' : Machine} {events : List Event} (h : Booked E m)
    (hrun : Run.run (step E) m events = some m') :
    createdIds m.world.logs <+: createdIds m'.world.logs := by
  refine Run.run_relates (I := Booked E)
    (R := fun m m' => createdIds m.world.logs <+: createdIds m'.world.logs)
    (fun _ => List.prefix_refl _) (fun _ _ _ => List.IsPrefix.trans)
    (fun n e n' hn hstep => ?_) hrun h
  obtain ⟨hn', hmoves⟩ := step_booked hn hstep
  refine ⟨hn', ?_⟩
  cases hmoves with
  | same h => exact h.created ▸ List.prefix_refl _
  | tick timestamp hle h => exact h ▸ List.prefix_refl _
  | accept id amount hidle h => exact h.created ▸ List.prefix_append _ _

/-- The limit is `L` throughout the run. -/
def LimitStays (E : Env) (L : Nat) (m : Machine) (events : List Event) : Prop :=
  ∀ es n, es <+: events → Run.run (step E) m es = some n → n.world.dailyVolumeLimit = L

theorem LimitStays.rest {L : Nat} {m n : Machine} (es : List Event) {rest : List Event}
    (h : LimitStays E L m (es ++ rest)) (hn : Run.run (step E) m es = some n) :
    LimitStays E L n rest := fun ds k hds hk =>
  h (es ++ ds) k ((List.prefix_append_right_inj es).mpr hds) (Run.run_append.mpr ⟨n, hn, hk⟩)

/-- A run under one limit is a run of the counter. -/
theorem run_refines {m m' : Machine} {events : List Event} {L : Nat} (h : Booked E m)
    (hlimit : LimitStays E L m events) (hrun : Run.run (step E) m events = some m') :
    ∃ es, Run.run (Window.step VOLUME_WINDOW L) m.world.counter es = some m'.world.counter := by
  induction events generalizing m with
  | nil =>
    cases hrun
    exact ⟨[], rfl⟩
  | cons e events ih =>
    obtain ⟨n, hstep, hrest⟩ := Run.run_cons_eq_some.mp hrun
    obtain ⟨hn, hmoves⟩ := step_booked h hstep
    have hone : Run.run (step E) m [e] = some n := Run.run_cons_eq_some.mpr ⟨n, hstep, rfl⟩
    have hnow : n.world.dailyVolumeLimit = L :=
      hlimit [e] n ⟨events, rfl⟩ hone
    obtain ⟨es, hes⟩ := ih hn (LimitStays.rest [e] hlimit hone) hrest
    rcases hmoves.counter hn.inv hnow with hsame | ⟨e', hcount⟩
    · exact ⟨es, hsame.counter ▸ hes⟩
    · exact ⟨e' :: es, Run.run_cons_eq_some.mpr ⟨_, hcount, hes⟩⟩

/-! ## The cap -/

/-- What was recorded for those of `ids` that were created at a time in `p`. -/
def World.recorded (w : World) (p : Nat → Prop) [DecidablePred p] (ids : List Bytes32) : Nat :=
  ((ids.filter fun id => decide (p (w.intents id).createdAt)).map fun id =>
    (w.intents id).amount).sum

theorem World.recorded_eq (w : World) (p : Nat → Prop) [DecidablePred p] (ids : List Bytes32) :
    w.recorded p ids = Window.sumOver p (ids.map w.entry) := by
  rw [Window.sumOver, List.filter_map, List.map_map]
  rfl

/-- In every run with the limit at `L`: the volume is what was recorded for the intents created
since the last reset; once the run has accepted an intent, or if it began at or below `L`, the
volume is at most `L`; two windows start more than 24 hours apart; and what the run accepts inside
24 hours sums to at most twice `L`. -/
theorem daily_volume_cap {m m' : Machine} {events : List Event} {L : Nat} (hreach : Reachable E m)
    (hlimit : LimitStays E L m events) (hrun : Run.run (step E) m events = some m') :
    m'.world.dailyVolume =
      m'.world.recorded (m'.world.lastVolumeReset ≤ ·) (createdIds m'.world.logs) ∧
    (m.world.dailyVolume ≤ L ∨ createdIds m'.world.logs ≠ createdIds m.world.logs →
      m'.world.dailyVolume ≤ L) ∧
    (∀ es n, es <+: events → Run.run (step E) m es = some n →
      m'.world.lastVolumeReset = n.world.lastVolumeReset ∨
        n.world.lastVolumeReset + VOLUME_WINDOW < m'.world.lastVolumeReset) ∧
    ∃ ids, createdIds m'.world.logs = createdIds m.world.logs ++ ids ∧
      ∀ a b, b ≤ a + VOLUME_WINDOW → m'.world.recorded (fun t => a ≤ t ∧ t ≤ b) ids ≤ 2 * L := by
  have hbooked := booked_of_reachable hreach
  have hbooked' := run_booked hbooked hrun
  obtain ⟨es, hes⟩ := run_refines hbooked hlimit hrun
  obtain ⟨fresh, hcapped⟩ := Window.run_capped hbooked.sound hes
  obtain ⟨ids, hids⟩ := run_created hbooked hrun
  -- the run's own entries are those of the ids it added
  have hfresh : fresh = ids.map m'.world.entry := by
    have hbook := hcapped.book
    simp only [World.counter, ← hids, List.map_append] at hbook
    exact ((List.append_inj hbook (by simp only [List.length_map])).2).symm
  refine ⟨?_, fun hstart => ?_, fun es n hprefix hn => ?_, ids, hids.symm, fun a b hab => ?_⟩
  · rw [World.recorded_eq]
    exact hbooked'.sound.volume
  · rcases hcapped.running with hle | ⟨hnone, hsame⟩
    · exact hle
    · rcases hstart with hle | hne
      · exact hsame.trans_le hle
      · rw [hnone] at hfresh
        have hids' := List.map_eq_nil_iff.mp hfresh.symm
        rw [hids', List.append_nil] at hids
        exact absurd hids.symm hne
  · obtain ⟨rest, rfl⟩ := hprefix
    obtain ⟨k, hk, hrest⟩ := Run.run_append.mp hrun
    obtain rfl := Option.some.inj (hn.symm.trans hk)
    obtain ⟨ds, hds⟩ := run_refines (run_booked hbooked hn) (hlimit.rest es hn) hrest
    exact Window.run_starts hds
  · rw [World.recorded_eq, ← hfresh]
    refine (Window.sumOver_mono fun e _ he => ?_).trans (hcapped.interval a)
    exact ⟨he.1, he.2.trans hab⟩

theorem limitStays_of_all {L : Nat} {m : Machine} {events : List Event}
    (h : (events.inits.all fun es => (Run.run (step E) m es).all fun n =>
      decide (n.world.dailyVolumeLimit = L)) = true) : LimitStays E L m events := by
  intro es n hes hn
  have hall := List.all_eq_true.mp h es ((List.mem_inits _ _).mpr hes)
  rw [hn] at hall
  exact of_decide_eq_true hall

/-- The owner sets the limit to 150 wei. -/
def limitedStart : List Event := [.call ⟨4, 0⟩ (.setDailyVolumeLimit 150)]

/-- Account 6 escrows 100 wei, and a day passes. -/
def limitedRun : List Event :=
  [.call ⟨6, 100⟩ (.submitIntent 0 100 0 1399811149 2000 50), .tick 90000]

theorem daily_volume_cap_sample :
    ∃ m m', Run.run (step sampleEnv) (deployed sampleStorage 1000) limitedStart = some m ∧
      Run.run (step sampleEnv) m limitedRun = some m' ∧
      createdIds m'.world.logs = [sampleId] ∧ m'.world.dailyVolume ≤ 150 := by
  have hrun : ((Run.run (step sampleEnv) (deployed sampleStorage 1000) limitedStart).any fun m =>
      decide (m.world.dailyVolume ≤ 150) &&
        (limitedRun.inits.all fun es => (Run.run (step sampleEnv) m es).all fun n =>
          decide (n.world.dailyVolumeLimit = 150)) &&
        (Run.run (step sampleEnv) m limitedRun).any fun m' =>
          decide (createdIds m'.world.logs = [sampleId])) = true := by
    decide
  obtain ⟨m, hm, hcheck⟩ := (Option.any_eq_true _ _).mp hrun
  obtain ⟨hfirst, hend⟩ := Bool.and_eq_true_iff.mp hcheck
  obtain ⟨hstart, hlimit⟩ := Bool.and_eq_true_iff.mp hfirst
  obtain ⟨m', hm', hids⟩ := (Option.any_eq_true _ _).mp hend
  have hcap := daily_volume_cap (sample_reachable hm) (limitStays_of_all hlimit) hm'
  exact ⟨m, m', hm, hm', of_decide_eq_true hids,
    hcap.2.1 (.inl (of_decide_eq_true hstart))⟩

/-- Lowering the limit does not touch the volume: account 6 escrows 100 wei, then the owner sets
the limit to 50. -/
def loweredStart : List Event :=
  [.call ⟨6, 100⟩ (.submitIntent 0 100 0 1399811149 2000 50),
    .call ⟨4, 0⟩ (.setDailyVolumeLimit 50)]

/-- The limit is 50 throughout the run, the volume 100. -/
theorem volume_above_lowered_limit :
    ∃ m m', Reachable sampleEnv m ∧ LimitStays sampleEnv 50 m [.tick 1001] ∧
      Run.run (step sampleEnv) m [.tick 1001] = some m' ∧ ¬ m'.world.dailyVolume ≤ 50 := by
  have hrun : ((Run.run (step sampleEnv) (deployed sampleStorage 1000) loweredStart).any fun m =>
      (List.inits [Event.tick 1001]).all (fun es => (Run.run (step sampleEnv) m es).all fun n =>
        decide (n.world.dailyVolumeLimit = 50)) &&
      (Run.run (step sampleEnv) m [.tick 1001]).any fun m' =>
        decide (m'.world.dailyVolume = 100)) = true := by
    decide
  obtain ⟨m, hm, hcheck⟩ := (Option.any_eq_true _ _).mp hrun
  obtain ⟨hlimit, hend⟩ := Bool.and_eq_true_iff.mp hcheck
  obtain ⟨m', hm', hvolume⟩ := (Option.any_eq_true _ _).mp hend
  refine ⟨m, m', sample_reachable hm, limitStays_of_all hlimit, hm', ?_⟩
  rw [of_decide_eq_true hvolume]
  decide

end Maat.IntentManager
