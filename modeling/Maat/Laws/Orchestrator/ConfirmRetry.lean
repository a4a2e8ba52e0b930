import Mathlib.Tactic.Linarith
import Maat.Orchestrator.Sequence

/-!
# confirmSettlement against claimRefund

`confirmSettlementWithRetry` looks at its deadline only after an attempt has failed. It then waits,
reads and sends without looking again, so what it sends last it sends up to one wait after the
deadline; the first attempt it makes whatever the time. With a deadline that is not a number it
never ends, and the check at the start lets such a one through.

How late a transaction leaves depends on its dependencies too, so a run comes with a `lag`: no
transaction is signed later than that after its attempt was due (`Prompt`). For each lag,
`no_late_confirm_iff` says for which configurations and entry times every run is in time.
-/

namespace Maat.Orchestrator.Settlement

open Js Suspension

variable {config : Config} {lag : Nat} {expiry entered : Int} {zkProofHash : Str}

/-! ## Time -/

/-- `claimRefund` is open from here on, in milliseconds. -/
def refundableMs (expiry : Int) : Int := (expiry + CLAIM_REFUND_GRACE_SEC) * 1000

/-- The test after a failed attempt. -/
def Config.expired (config : Config) (expiry ms : Int) : Bool :=
  Number.ge (.ofInt (toSec ms)) (config.deadline expiry)

def Config.waitMs (config : Config) (attempt : Nat) : Int := timeoutMs (config.backoff attempt)

/-- The replies come at times that can be: the clock does not run back, a timer does not fire early,
and a transaction is signed no later than `lag` after its attempt was `due`. -/
def Prompt (config : Config) (lag : Nat) (failed : Nat) (due last : Int) : List Reply → Prop
  | [] => True
  | reply :: replies => last ≤ reply.now ∧
    match reply.answer with
    | .signed _ => reply.now ≤ due + lag ∧ Prompt config lag failed due reply.now replies
    | .outcome false _ =>
      Prompt config lag (failed + 1) (reply.now + config.waitMs (failed + 1)) reply.now replies
    | .elapsed => due ≤ reply.now ∧ Prompt config lag failed due reply.now replies
    | _ => Prompt config lag failed due reply.now replies

/-- The earliest time at which so many attempts may have failed and been waited for. -/
def Config.earliest (config : Config) (entered : Int) : Nat → Int
  | 0 => entered
  | failed + 1 => config.earliest entered failed + config.waitMs (failed + 1)

/-- No attempt can be due so late that it is signed too late: not the first, and none that follows
a failure before the deadline. -/
structure InTime (config : Config) (lag : Nat) (expiry entered : Int) : Prop where
  first : entered + lag < refundableMs expiry
  later : ∀ failed ms, config.earliest entered failed ≤ ms → ¬config.expired expiry ms →
    ms + config.waitMs (failed + 1) + lag < refundableMs expiry

theorem waitMs_pos (config : Config) (attempt : Nat) : 1 ≤ config.waitMs attempt :=
  one_le_timeoutMs _

theorem earliest_mono {failed failed' : Nat} (h : failed ≤ failed') :
    config.earliest entered failed ≤ config.earliest entered failed' := by
  refine monotone_nat_of_le_succ (fun failed => ?_) h
  have := waitMs_pos config (failed + 1)
  simp only [Config.earliest]
  omega

theorem toSec_mono {ms ms' : Int} (h : ms ≤ ms') : toSec ms ≤ toSec ms' :=
  Int.ediv_le_ediv (by omega) h

/-- Once the deadline has passed it stays so. -/
theorem expired_mono {ms ms' : Int} (h : ms ≤ ms') (hexpired : config.expired expiry ms) :
    config.expired expiry ms' := by
  unfold Config.expired at hexpired ⊢
  cases hdeadline : config.deadline expiry with
  | nan =>
    rw [hdeadline, Number.ge_nan] at hexpired
    cases hexpired
  | negInfinity => rfl
  | infinity =>
    rw [hdeadline] at hexpired
    cases hexpired
  | finite q =>
    rw [hdeadline, Number.ofInt, Number.ge_finite] at hexpired
    rw [Number.ofInt, Number.ge_finite]
    exact hexpired.trans (by exact_mod_cast toSec_mono h)

/-! ## One reply -/

/-- What a reply does to where `confirmSettlementWithRetry` waits. -/
inductive ConfirmStep (config : Config) (expiry : Int) :
    Suspension.Next ConfirmPoint Str → Reply → Suspension.Next ConfirmPoint Str → Prop where
  | resolved (attempt : Nat) (now : Int) (onChain : OnChainIntent) :
    ConfirmStep config expiry (.await (.reading attempt)) ⟨now, .record onChain⟩ .returned
  | open (attempt : Nat) (now : Int) (onChain : OnChainIntent) :
    ConfirmStep config expiry (.await (.reading attempt)) ⟨now, .record onChain⟩
      (.await (.confirming attempt))
  | signed (attempt : Nat) (now : Int) (hash : Str) :
    ConfirmStep config expiry (.await (.confirming attempt)) ⟨now, .signed hash⟩
      (.await (.confirming attempt))
  | confirmed (attempt : Nat) (now : Int) (txHash : Option Str) :
    ConfirmStep config expiry (.await (.confirming attempt)) ⟨now, .outcome true txHash⟩ .returned
  | stuck (attempt : Nat) (now : Int) (txHash : Option Str) (h : config.expired expiry now) :
    ConfirmStep config expiry (.await (.confirming attempt)) ⟨now, .outcome false txHash⟩ .returned
  | failed (attempt : Nat) (now : Int) (txHash : Option Str) (h : ¬config.expired expiry now) :
    ConfirmStep config expiry (.await (.confirming attempt)) ⟨now, .outcome false txHash⟩
      (.await (.sleeping attempt))
  | elapsed (attempt : Nat) (now : Int) :
    ConfirmStep config expiry (.await (.sleeping attempt)) ⟨now, .elapsed⟩
      (.await (.reading (attempt + 1)))
  | readThrew (attempt : Nat) (now : Int) (error : Str) :
    ConfirmStep config expiry (.await (.reading attempt)) ⟨now, .threw error⟩ (.threw error)
  | confirmThrew (attempt : Nat) (now : Int) (error : Str) :
    ConfirmStep config expiry (.await (.confirming attempt)) ⟨now, .threw error⟩ (.threw error)

theorem confirmStep_of_resume {card : Card} {point : ConfirmPoint} {reply : Reply}
    {t : Turn Card ConfirmPoint Call Str}
    (hresume : confirmResume config expiry zkProofHash card point reply = some t) :
    ConfirmStep config expiry (.await point) reply t.next := by
  obtain ⟨now, answer⟩ := reply
  unfold confirmResume at hresume
  split at hresume
  · next attempt onChain hanswer =>
    cases hanswer
    split at hresume
    · cases hresume
      exact .resolved attempt now onChain
    · split at hresume
      · cases hresume
        exact .resolved attempt now onChain
      · cases hresume
        exact .open attempt now onChain
  · next attempt hash hanswer =>
    cases hanswer
    cases hresume
    exact .signed attempt now hash
  · next attempt txHash hanswer =>
    cases hanswer
    cases hresume
    exact .confirmed attempt now txHash
  · next attempt txHash hanswer =>
    cases hanswer
    split at hresume
    · next hexpired =>
      cases hresume
      exact .stuck attempt now txHash hexpired
    · next hexpired =>
      cases hresume
      exact .failed attempt now txHash hexpired
  · next attempt hanswer =>
    cases hanswer
    cases hresume
    exact .elapsed attempt now
  · next attempt error hanswer =>
    cases hanswer
    cases hresume
    exact .readThrew attempt now error
  · next attempt error hanswer =>
    cases hanswer
    cases hresume
    exact .confirmThrew attempt now error
  · cases hresume

theorem confirmStep_of_feed {t t' : Turn Card ConfirmPoint Call Str} {reply : Reply}
    (h : feed (confirmResume config expiry zkProofHash) t reply = some t') :
    ConfirmStep config expiry t.next reply t'.next := by
  obtain ⟨point, t₁, hnext, hresume, rfl⟩ := feed_eq_some.mp h
  rw [hnext, andThen_next]
  exact confirmStep_of_resume hresume

/-! ## Every run of a configuration in time -/

/-- Where a run in time waits: no attempt that may still be signed was due too late. -/
def OnTime (config : Config) (lag : Nat) (expiry entered : Int) (failed : Nat) (due last : Int) :
    Suspension.Next ConfirmPoint Str → Prop
  | .await (.reading attempt) | .await (.confirming attempt) =>
    attempt = failed + 1 ∧ config.earliest entered failed ≤ last ∧
      due + lag < refundableMs expiry
  | .await (.sleeping attempt) =>
    attempt = failed ∧ config.earliest entered failed ≤ due ∧ due + lag < refundableMs expiry
  | .returned | .threw _ => True

theorem signs_before {t t' : Turn Card ConfirmPoint Call Str} {failed : Nat} {due last : Int}
    {replies : List Reply} (hin : InTime config lag expiry entered)
    (hdrive : drive (confirmResume config expiry zkProofHash) t replies = some t')
    (hprompt : Prompt config lag failed due last replies)
    (ht : OnTime config lag expiry entered failed due last t.next) :
    ∀ reply ∈ replies, reply.signs → reply.now < refundableMs expiry := by
  induction replies generalizing t failed due last with
  | nil => simp
  | cons reply replies ih =>
    obtain ⟨t₁, hfeed, hrest⟩ := drive_cons_eq_some.mp hdrive
    have hstep := confirmStep_of_feed hfeed
    obtain ⟨hlast, hprompt⟩ := hprompt
    generalize t.next = point at hstep ht
    have hih {failed : Nat} {due last : Int} : Prompt config lag failed due last replies →
        OnTime config lag expiry entered failed due last t₁.next →
        ∀ reply ∈ replies, reply.signs → reply.now < refundableMs expiry := ih hrest
    generalize t₁.next = point' at hstep hih
    rw [List.forall_mem_cons]
    cases hstep with
    | resolved | confirmed | readThrew | confirmThrew =>
      exact ⟨nofun, hih hprompt trivial⟩
    | stuck => exact ⟨nofun, hih hprompt trivial⟩
    | «open» attempt now =>
      obtain ⟨hattempt, hearliest, hdue⟩ := ht
      exact ⟨nofun, hih hprompt ⟨hattempt, hearliest.trans hlast, hdue⟩⟩
    | signed attempt now =>
      obtain ⟨hattempt, hearliest, hdue⟩ := ht
      obtain ⟨hsigned, hprompt⟩ := hprompt
      refine ⟨fun _ => hsigned.trans_lt hdue, hih hprompt ?_⟩
      exact ⟨hattempt, hearliest.trans hlast, hdue⟩
    | failed attempt now txHash hdeadline =>
      obtain ⟨rfl, hearliest, -⟩ := ht
      have hnow : config.earliest entered failed ≤ now := hearliest.trans hlast
      refine ⟨nofun, hih hprompt ⟨rfl, ?_, hin.later failed now hnow hdeadline⟩⟩
      exact Int.add_le_add_right hnow _
    | elapsed attempt now =>
      obtain ⟨rfl, hearliest, hdue⟩ := ht
      obtain ⟨helapsed, hprompt⟩ := hprompt
      exact ⟨nofun, hih hprompt ⟨rfl, hearliest.trans helapsed, hdue⟩⟩

/-! ## The end of the loop -/

/-- How many replies but signatures a run takes at most from where it waits, past the deadline. -/
def remaining : Suspension.Next ConfirmPoint Str → Nat
  | .await (.sleeping _) => 3
  | .await (.reading _) => 2
  | .await (.confirming _) => 1
  | .returned | .threw _ => 0

theorem remaining_le (next : Suspension.Next ConfirmPoint Str) : remaining next ≤ 3 := by
  unfold remaining
  split <;> omega

theorem remaining_after {t t' : Turn Card ConfirmPoint Call Str} {replies : List Reply}
    (hdrive : drive (confirmResume config expiry zkProofHash) t replies = some t')
    (hexpired : ∀ reply ∈ replies, config.expired expiry reply.now) :
    (replies.filter (!·.signs)).length + remaining t'.next ≤ remaining t.next := by
  induction replies generalizing t with
  | nil =>
    cases hdrive
    simp
  | cons reply replies ih =>
    obtain ⟨t₁, hfeed, hrest⟩ := drive_cons_eq_some.mp hdrive
    obtain ⟨hnow, hexpired⟩ := List.forall_mem_cons.mp hexpired
    have hrest := ih hrest hexpired
    have hstep := confirmStep_of_feed hfeed
    generalize t.next = point at hstep ⊢
    generalize t₁.next = point' at hstep hrest
    cases hstep with
    | failed attempt now txHash hdeadline => exact absurd hnow hdeadline
    | signed attempt now hash => exact hrest
    | resolved | confirmed | readThrew | confirmThrew | «open» | elapsed | stuck =>
      simp only [List.filter_cons, Reply.signs, Bool.not_false, if_true, List.length_cons,
        remaining] at hrest ⊢
      omega

/-! ## A run that is too late -/

def pendingIntent : OnChainIntent := ⟨[], 0, [], INTENT_STATUS_PENDING, [], 0⟩

/-- So many attempts, each of them due as early as can be, that fail at once. -/
def failing (config : Config) (entered : Int) : Nat → List Reply
  | 0 => []
  | failed + 1 =>
    let now := config.earliest entered failed
    failing config entered failed ++ [⟨now, .record pendingIntent⟩, ⟨now, .outcome false none⟩,
      ⟨config.earliest entered (failed + 1), .elapsed⟩]

/-- An attempt that fails at `ms`, and the next, which is signed `lag` after it was due. -/
def failThenSign (config : Config) (lag failed : Nat) (ms : Int) : List Reply :=
  let due := ms + config.waitMs (failed + 1)
  [⟨ms, .record pendingIntent⟩, ⟨ms, .outcome false none⟩, ⟨due, .elapsed⟩,
    ⟨due, .record pendingIntent⟩, ⟨due + lag, .signed []⟩]

theorem prompt_failing (failed : Nat) (replies : List Reply) :
    Prompt config lag 0 entered entered (failing config entered failed ++ replies) ↔
      Prompt config lag failed (config.earliest entered failed) (config.earliest entered failed)
        replies := by
  induction failed generalizing replies with
  | zero => rfl
  | succ failed ih =>
    have hwait := waitMs_pos config (failed + 1)
    rw [failing, List.append_assoc, ih]
    simp only [List.cons_append, List.nil_append, Prompt, Config.earliest, le_refl, true_and]
    constructor
    · exact fun h => h.2
    · exact fun h => ⟨by omega, h⟩

section failing

variable (config expiry zkProofHash)

theorem feed_record {t : Turn Card ConfirmPoint Call Str} {attempt : Nat} (now : Int)
    (ht : t.next = .await (.reading attempt)) :
    ∃ t', feed (confirmResume config expiry zkProofHash) t ⟨now, .record pendingIntent⟩ = some t' ∧
      t'.next = .await (.confirming attempt) := by
  refine ⟨t.andThen ⟨t.state, [.confirmSettlement zkProofHash], .await (.confirming attempt)⟩, ?_,
    rfl⟩
  exact feed_eq_some.mpr ⟨_, _, ht, rfl, rfl⟩

theorem feed_failed {t : Turn Card ConfirmPoint Call Str} {attempt : Nat} {now : Int}
    (hdeadline : ¬config.expired expiry now) (ht : t.next = .await (.confirming attempt)) :
    ∃ t', feed (confirmResume config expiry zkProofHash) t ⟨now, .outcome false none⟩ = some t' ∧
      t'.next = .await (.sleeping attempt) := by
  refine ⟨t.andThen ⟨t.state, [.sleep (config.backoff attempt)], .await (.sleeping attempt)⟩, ?_,
    rfl⟩
  exact feed_eq_some.mpr ⟨_, _, ht, if_neg hdeadline, rfl⟩

theorem feed_elapsed {t : Turn Card ConfirmPoint Call Str} {attempt : Nat} (now : Int)
    (ht : t.next = .await (.sleeping attempt)) :
    ∃ t', feed (confirmResume config expiry zkProofHash) t ⟨now, .elapsed⟩ = some t' ∧
      t'.next = .await (.reading (attempt + 1)) :=
  ⟨_, feed_eq_some.mpr ⟨_, _, ht, rfl, rfl⟩, rfl⟩

theorem feed_signed {t : Turn Card ConfirmPoint Call Str} {attempt : Nat} (now : Int) (hash : Str)
    (ht : t.next = .await (.confirming attempt)) :
    ∃ t', feed (confirmResume config expiry zkProofHash) t ⟨now, .signed hash⟩ = some t' ∧
      t'.next = .await (.confirming attempt) :=
  ⟨_, feed_eq_some.mpr ⟨_, _, ht, rfl, rfl⟩, rfl⟩

/-- An attempt that fails before the deadline is followed by another. -/
theorem drive_attempt {t : Turn Card ConfirmPoint Call Str} {attempt : Nat} {now : Int}
    (later : Int) (hdeadline : ¬config.expired expiry now)
    (ht : t.next = .await (.reading attempt)) :
    ∃ t', drive (confirmResume config expiry zkProofHash) t
        [⟨now, .record pendingIntent⟩, ⟨now, .outcome false none⟩, ⟨later, .elapsed⟩] = some t' ∧
      t'.next = .await (.reading (attempt + 1)) := by
  obtain ⟨t₁, hrecord, ht₁⟩ := feed_record config expiry zkProofHash now ht
  obtain ⟨t₂, hfailed, ht₂⟩ := feed_failed config expiry zkProofHash hdeadline ht₁
  obtain ⟨t₃, helapsed, ht₃⟩ := feed_elapsed config expiry zkProofHash later ht₂
  refine ⟨t₃, drive_cons_eq_some.mpr ⟨t₁, hrecord, ?_⟩, ht₃⟩
  exact drive_cons_eq_some.mpr ⟨t₂, hfailed, drive_cons_eq_some.mpr ⟨t₃, helapsed, rfl⟩⟩

theorem drive_sign {t : Turn Card ConfirmPoint Call Str} {attempt : Nat} (now later : Int)
    (ht : t.next = .await (.reading attempt)) :
    ∃ t', drive (confirmResume config expiry zkProofHash) t
      [⟨now, .record pendingIntent⟩, ⟨later, .signed []⟩] = some t' := by
  obtain ⟨t₁, hrecord, ht₁⟩ := feed_record config expiry zkProofHash now ht
  obtain ⟨t₂, hsigned, -⟩ := feed_signed config expiry zkProofHash later [] ht₁
  exact ⟨t₂, drive_cons_eq_some.mpr ⟨t₁, hrecord, drive_cons_eq_some.mpr ⟨t₂, hsigned, rfl⟩⟩⟩

theorem drive_failing (card : Card) {failed : Nat}
    (hdeadline : ∀ j < failed, ¬config.expired expiry (config.earliest entered j)) :
    ∃ t, drive (confirmResume config expiry zkProofHash) (confirmSettlementWithRetry card)
        (failing config entered failed) = some t ∧
      t.next = .await (.reading (failed + 1)) := by
  induction failed with
  | zero => exact ⟨_, rfl, rfl⟩
  | succ failed ih =>
    obtain ⟨t, hdrive, ht⟩ := ih fun j hj => hdeadline j (hj.trans failed.lt_succ_self)
    obtain ⟨t', hattempt, ht'⟩ := drive_attempt config expiry zkProofHash
      (config.earliest entered (failed + 1)) (hdeadline failed failed.lt_succ_self) ht
    exact ⟨t', drive_append_eq_some.mpr ⟨t, hdrive, hattempt⟩, ht'⟩

theorem drive_failThenSign (lag : Nat) (card : Card) {failed : Nat} {ms : Int}
    (hms : config.earliest entered failed ≤ ms) (hdeadline : ¬config.expired expiry ms) :
    ∃ t, drive (confirmResume config expiry zkProofHash) (confirmSettlementWithRetry card)
      (failing config entered failed ++ failThenSign config lag failed ms) = some t := by
  have hearlier (j : Nat) (hj : j < failed) :
      ¬config.expired expiry (config.earliest entered j) := fun h =>
    hdeadline (expired_mono ((earliest_mono hj.le).trans hms) h)
  obtain ⟨t, hfailing, ht⟩ := drive_failing config expiry zkProofHash card hearlier
  obtain ⟨t₁, hattempt, ht₁⟩ := drive_attempt config expiry zkProofHash
    (ms + config.waitMs (failed + 1)) hdeadline ht
  obtain ⟨t₂, hsign⟩ := drive_sign config expiry zkProofHash (ms + config.waitMs (failed + 1))
    (ms + config.waitMs (failed + 1) + lag) ht₁
  exact ⟨t₂, drive_append_eq_some.mpr ⟨t, hfailing, drive_append_eq_some.mpr ⟨t₁, hattempt, hsign⟩⟩⟩

end failing

theorem prompt_failThenSign {failed : Nat} {ms : Int} (hms : config.earliest entered failed ≤ ms) :
    Prompt config lag 0 entered entered
      (failing config entered failed ++ failThenSign config lag failed ms) := by
  have hwait := waitMs_pos config (failed + 1)
  rw [prompt_failing]
  simp only [failThenSign, Prompt, le_refl, true_and, and_true]
  omega

/-- For the runs of a lag: no transaction is signed when `claimRefund` is open, and past the
deadline the loop takes no more than the three replies of one attempt. -/
theorem no_late_confirm_iff (config : Config) (lag : Nat) (expiry entered : Int) (card : Card)
    (zkProofHash : Str) :
    ((∀ replies t, Prompt config lag 0 entered entered replies →
        drive (confirmResume config expiry zkProofHash) (confirmSettlementWithRetry card) replies =
          some t →
        ∀ reply ∈ replies, reply.signs → reply.now < refundableMs expiry) ∧
      (∀ before after t,
        drive (confirmResume config expiry zkProofHash) (confirmSettlementWithRetry card)
          (before ++ after) = some t →
        (∀ reply ∈ after, config.expired expiry reply.now) →
        (after.filter (!·.signs)).length + remaining t.next ≤ 3)) ↔
    InTime config lag expiry entered := by
  constructor
  · rintro ⟨hbefore, -⟩
    constructor
    · obtain ⟨t, hdrive⟩ := drive_sign config expiry zkProofHash
        (t := confirmSettlementWithRetry card) entered (entered + lag) rfl
      refine hbefore _ t ?_ hdrive ⟨entered + lag, .signed []⟩ (by simp) rfl
      simp only [Prompt, le_refl, true_and, and_true]
      omega
    · intro failed ms hms hdeadline
      obtain ⟨t, hdrive⟩ := drive_failThenSign config expiry zkProofHash lag card hms
        hdeadline
      exact hbefore _ t (prompt_failThenSign hms) hdrive
        ⟨ms + config.waitMs (failed + 1) + lag, .signed []⟩ (by simp [failThenSign]) rfl
  · intro hin
    constructor
    · intro replies t hprompt hdrive
      exact signs_before hin hdrive hprompt ⟨rfl, le_rfl, hin.first⟩
    · intro before after t hdrive hexpired
      obtain ⟨t₁, -, hafter⟩ := drive_append_eq_some.mp hdrive
      exact (remaining_after hafter hexpired).trans (remaining_le t₁.next)

/-- The check at the start lets this through: retries up to 86000 s past expiry, and half an hour
between them. -/
def nearGrace : Config where
  gate := ⟨10000000000000000, 1000000000000000, 600⟩
  verifyAttempts := .ofInt 3
  verifyDelayMs := .ofInt 2000
  payoutRetryIntervalMs := .ofInt 30000
  confirmRetryBackoffMs := [.ofInt 1800000]
  confirmRetryMaxSecAfterExpiry := .ofInt 86000

/-- An attempt that fails one second before the deadline, and the one after it. -/
theorem confirm_after_grace :
    nearGrace.boots ∧
    Prompt nearGrace 0 0 85999000 85999000 (failThenSign nearGrace 0 0 85999000) ∧
    (drive (confirmResume nearGrace 0 []) (confirmSettlementWithRetry ⟨none, none, {}⟩)
      (failThenSign nearGrace 0 0 85999000)).isSome ∧
    ¬∀ reply ∈ failThenSign nearGrace 0 0 85999000, reply.signs → reply.now < refundableMs 0 := by
  refine ⟨by decide, ?_, by decide +kernel, by decide +kernel⟩
  exact (prompt_failing 0 _).mp (prompt_failThenSign le_rfl)

/-! ## Which configurations are in time -/

/-- A bound that is no number passes the check at the start, and no deadline ever passes. -/
theorem not_inTime_of_nan (h : config.confirmRetryMaxSecAfterExpiry = .nan) :
    ¬InTime config lag expiry entered := by
  intro hin
  have hnan (ms : Int) : ¬config.expired expiry ms := by
    simp only [Config.expired, Config.deadline, h, Number.ofInt, Number.add, Number.ge_nan,
      Bool.false_eq_true, not_false_eq_true]
  have hlate := hin.later 0 (max entered (refundableMs expiry)) (le_max_left _ _) (hnan _)
  have hwait := waitMs_pos config (0 + 1)
  have := le_max_right entered (refundableMs expiry)
  omega

/-- An entry that is in time, and a last wait that still fits between the deadline and the end of
the grace period. -/
theorem inTime_of_waits {deadline : ℚ} (hdeadline : config.deadline expiry = .finite deadline)
    (hentered : entered + lag < refundableMs expiry)
    (hwaits : ∀ attempt,
      1000 * ⌈deadline⌉ + config.waitMs attempt + lag ≤ refundableMs expiry) :
    InTime config lag expiry entered := by
  refine ⟨hentered, fun failed ms _ hms => ?_⟩
  rw [Config.expired, hdeadline, Number.ofInt, Number.ge_finite, not_le, ← Int.lt_ceil] at hms
  have hfits := hwaits (failed + 1)
  unfold toSec at hms
  omega

end Maat.Orchestrator.Settlement
