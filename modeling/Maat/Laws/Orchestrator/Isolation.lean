import Maat.Orchestrator.Passes
import Maat.Laws.Orchestrator.ConfirmRetry

/-!
# Failures of one intent in a pass over all

The three passes go from intent to intent, and each does for an intent what it would do for that
intent alone (`KeyWise`); an intent can reach another only by ending the pass. In
`reconcileSettlingLedger` and in the second loop of `reconcileArbitrumLedger` what is thrown is
caught for each entry. The first loop has `readIntent` outside of any `try`, and `pollAwaitingSlash`
has no `try` at all: there a failure ends the pass, and the entries behind it get nothing.
-/

namespace Maat.Orchestrator.Settlement

open Js Suspension Sweep

variable {ι : Type} [DecidableEq ι] {config : Config} {s : Surroundings ι}

/-! ## Statements -/

/-- The desk with some intents on no ledger. -/
def Desk.without (desk : Desk ι) (failing : ι → Bool) : Desk ι where
  arbKeys := desk.arbKeys.filter (!failing ·)
  settledKeys := desk.settledKeys.filter (!failing ·)
  card i := if failing i then ⟨none, none, {}⟩ else desk.card i
  arb_nodup := desk.arb_nodup.filter _
  settled_nodup := desk.settled_nodup.filter _
  mem_arbKeys i := by
    rw [List.mem_filter, desk.mem_arbKeys]
    cases failing i <;> simp
  mem_settledKeys i := by
    rw [List.mem_filter, desk.mem_settledKeys]
    cases failing i <;> simp

/-- The pass comes to its end, and whichever intents were not there, every other would come out with
the same records and the same calls. -/
structure Isolated (pass : Desk ι → Turn (ι → Card) ι (ι × Call) Str) (desk : Desk ι) : Prop where
  completes : (pass desk).next = .returned
  apart : ∀ failing, (pass (desk.without failing)).next = .returned ∧
    ∀ i, failing i = false →
      (pass (desk.without failing)).state i = (pass desk).state i ∧
        callsOf i (pass (desk.without failing)).calls = callsOf i (pass desk).calls

/-- Each call is answered or throws, until the computation ends. -/
def Answered {Point : Type} (resume : Resume Card Point Call Reply Str)
    (t : Turn Card Point Call Str) (replies : List Reply) : Prop :=
  ∃ t', drive resume t replies = some t' ∧ ∀ point, t'.next ≠ .await point

/-- The records after the first loop of `reconcileArbitrumLedger`. -/
def afterMid (s : Surroundings ι) (desk : Desk ι) (i : ι) : Card :=
  (visit getMidSequenceEntries (midBody s) i (desk.card i)).state

/-- What a pass does for each of its entries comes to an end. -/
structure FullyAnswered (config : Config) (s : Surroundings ι) (desk : Desk ι) : Prop where
  mid : ∀ i entry, getMidSequenceEntries (desk.card i) = some entry →
    Answered (midResume entry) (reconcileMidSequence entry (desk.card i)) (s.mid i)
  posted : ∀ i entry, getCollateralPostedEntries (afterMid s desk i) = some entry →
    Answered (postedResume config (s.deps i))
      (resumeCollateralPostedIntent (s.deps i) (afterMid s desk i)) (s.posted i)
  slash : ∀ i entry, getAwaitingExpirySlashEntries (desk.card i) = some entry →
    Answered (slashResume config (s.deps i))
      (pollEntry (s.deps i) (s.arrival i) entry (desk.card i)) (s.slash i)
  settling : ∀ i solanaSig, settlingSig (desk.card i) = some solanaSig →
    Answered settlingResume (reconcileSettling solanaSig (desk.card i)) (s.settling i)

def Reply.threw (reply : Reply) : Bool := reply.answer matches .threw _

def Reply.lands (reply : Reply) : Bool := reply.answer matches .landed true

/-- `readIntent` throws, for an entry of the first loop; the receipt is asked for before. -/
def midReadThrows (entry : RoutedEntry) (replies : List Reply) : Bool :=
  match truthy (stageHash entry.toArbitrumLedgerEntry) with
  | some _ => replies.tail.any Reply.threw
  | none => replies.any Reply.threw

/-- The proof's files are there, but cannot be read. -/
def ProofFiles.unreadable : ProofFiles → Bool
  | .corrupt | .present _ none => true
  | _ => false

/-- A call made for an entry of `pollAwaitingSlash` throws, or the reading of the proof's files does
after the payout has turned out to have landed. -/
def slashFails (deps : ResumeDeps) (card : Card) (replies : List Reply) : Bool :=
  replies.any Reply.threw ||
    (card.isAlreadySettled || replies.any Reply.lands) && deps.proof.unreadable

/-! ## One entry -/

theorem onReplies_eq {Point : Type} {resume : Resume Card Point Call Reply Str}
    {t t' : Turn Card Point Call Str} {replies : List Reply}
    (h : drive resume t replies = some t') : onReplies resume t replies = t' := by
  rw [onReplies, h, Option.getD_some]

theorem returned_iff_not_threw {Point : Type} {t : Turn Card Point Call Str}
    (hended : ∀ point, t.next ≠ .await point) :
    t.next = .returned ↔ ¬∃ error, t.next = .threw error := by
  cases h : t.next with
  | await point => exact absurd h (hended point)
  | returned => simp
  | threw error => simp

/-- What is answered to the end returns unless one of the replies throws. -/
theorem onReplies_returned_iff {Point : Type} {resume : Resume Card Point Call Reply Str}
    {t : Turn Card Point Call Str} {replies : List Reply} (Throws : Reply → Prop)
    (h : Answered resume t replies) (ht : ∀ error, t.next ≠ .threw error)
    (hstep : ∀ t reply t', feed resume t reply = some t' →
      ((∃ error, t'.next = .threw error) ↔ Throws reply)) :
    (onReplies resume t replies).next = .returned ↔ ¬∃ reply ∈ replies, Throws reply := by
  obtain ⟨t', hdrive, hended⟩ := h
  rw [onReplies_eq hdrive, returned_iff_not_threw hended, drive_threw_iff hstep hdrive ht]

omit [DecidableEq ι] in
theorem settling_returns {i : ι} {solanaSig : Str} {card : Card}
    (h : Answered settlingResume (reconcileSettling solanaSig card) (s.settling i)) :
    (settlingBody s i solanaSig card).next = .returned := by
  refine (onReplies_returned_iff (fun _ => False) h (fun _ => nofun) ?_).mpr (by simp)
  intro t reply t' hfeed
  obtain ⟨point, t₁, -, hresume, rfl⟩ := feed_eq_some.mp hfeed
  rw [iff_false, andThen_next]
  unfold settlingResume at hresume
  split at hresume <;> cases hresume <;> exact nofun

theorem resumeCollateralPosted_never_threw (deps : ResumeDeps) (card : Card) (error : Str) :
    (resumeCollateralPostedIntent deps card).next ≠ .threw error := by
  unfold resumeCollateralPostedIntent
  split
  · exact nofun
  · split
    · exact nofun
    · split
      · exact nofun
      · exact nofun
      · split
        · split <;> exact nofun
        · split <;> exact nofun

omit [DecidableEq ι] in
theorem posted_returns {i : ι} {entry : RoutedEntry} {card : Card}
    (h : Answered (postedResume config (s.deps i))
      (resumeCollateralPostedIntent (s.deps i) card) (s.posted i)) :
    (postedBody config s i entry card).next = .returned := by
  refine (onReplies_returned_iff (fun _ => False) h
    (resumeCollateralPosted_never_threw _ _) ?_).mpr (by simp)
  intro t reply t' hfeed
  obtain ⟨point, t₁, -, hresume, rfl⟩ := feed_eq_some.mp hfeed
  rw [iff_false, andThen_next]
  rintro ⟨error, herror⟩
  unfold postedResume at hresume
  split at hresume
  · obtain ⟨t₂, -, rfl⟩ := Option.map_eq_some_iff.mp hresume
    exact caught_never_threw _ _ herror
  · obtain ⟨t₂, -, rfl⟩ := Option.map_eq_some_iff.mp hresume
    exact caught_never_threw _ _ herror
  · cases hresume

/-! ## The first loop of reconcileArbitrumLedger -/

theorem midRead_threw_iff {entry : RoutedEntry} {t t' : Turn Card MidPoint Call Str}
    {receipt : Option Bool} {replies : List Reply} (ht : t.next = .await (.reading receipt))
    (hdrive : drive (midResume entry) t replies = some t')
    (hended : ∀ point, t'.next ≠ .await point) :
    (∃ error, t'.next = .threw error) ↔ replies.any Reply.threw = true := by
  cases replies with
  | nil =>
    cases hdrive
    exact absurd ht (hended _)
  | cons reply replies =>
    obtain ⟨t₁, hfeed, hrest⟩ := drive_cons_eq_some.mp hdrive
    obtain ⟨point, t₂, hnext, hresume, rfl⟩ := feed_eq_some.mp hfeed
    cases ht.symm.trans hnext
    obtain ⟨now, answer⟩ := reply
    unfold midResume at hresume
    split at hresume
    · next hpoint _ => cases hpoint
    · next hpoint _ => cases hpoint
    · next hanswer =>
      cases hanswer
      cases hresume
      obtain ⟨rfl, rfl⟩ := drive_of_ended (by simp) hrest
      simp [Reply.threw]
    · next hanswer =>
      cases hanswer
      cases hresume
      obtain ⟨rfl, rfl⟩ := drive_of_ended (by simp) hrest
      simp [Reply.threw]
    · cases hresume

omit [DecidableEq ι] in
theorem mid_returns_iff {i : ι} {entry : RoutedEntry} {card : Card}
    (h : Answered (midResume entry) (reconcileMidSequence entry card) (s.mid i)) :
    (midBody s i entry card).next = .returned ↔ midReadThrows entry (s.mid i) = false := by
  obtain ⟨t', hdrive, hended⟩ := h
  rw [midBody, onReplies_eq hdrive, returned_iff_not_threw hended, ← Bool.not_eq_true]
  refine not_congr ?_
  unfold reconcileMidSequence at hdrive
  unfold midReadThrows
  generalize truthy (stageHash entry.toArbitrumLedgerEntry) = hash at hdrive ⊢
  cases hash with
  | some hash =>
    -- The answer to the receipt is no throw, whatever it is.
    generalize s.mid i = replies at hdrive ⊢
    cases replies with
    | nil =>
      cases hdrive
      exact absurd rfl (hended _)
    | cons reply replies =>
      obtain ⟨t₁, hfeed, hrest⟩ := drive_cons_eq_some.mp hdrive
      obtain ⟨point, t₂, hnext, hresume, rfl⟩ := feed_eq_some.mp hfeed
      cases hnext
      have hreading : ∃ receipt, t₂.next = .await (.reading receipt) := by
        unfold midResume at hresume
        split at hresume
        · cases hresume
          exact ⟨_, rfl⟩
        · cases hresume
          exact ⟨_, rfl⟩
        · next hpoint _ => cases hpoint
        · next hpoint _ => cases hpoint
        · cases hresume
      obtain ⟨receipt, hreading⟩ := hreading
      exact midRead_threw_iff (t := Turn.andThen _ t₂) hreading hrest hended
  | none => exact midRead_threw_iff rfl hdrive hended

/-! ## pollAwaitingSlash -/

theorem confirm_threw_iff {expiry : Int} {zkProofHash : Str} {card : Card} {point : ConfirmPoint}
    {reply : Reply} {t : Turn Card ConfirmPoint Call Str}
    (h : confirmResume config expiry zkProofHash card point reply = some t) :
    ((∃ error, t.next = .threw error) ↔ reply.threw) ∧ reply.lands = false := by
  have hstep := confirmStep_of_resume h
  generalize t.next = next at hstep ⊢
  cases hstep <;> simp [Reply.threw, Reply.lands]

theorem resumeLanded_threw_iff (deps : ResumeDeps) (card : Card) :
    (∃ error, (resumeLanded deps card).next = .threw error) ↔ deps.proof.unreadable := by
  unfold resumeLanded
  split <;> simp_all [ProofFiles.unreadable, confirmSettlementWithRetry, within_next]

theorem slash_threw_iff {deps : ResumeDeps} {t t' : Turn Card SlashPoint Call Str} {reply : Reply}
    (h : feed (slashResume config deps) t reply = some t') :
    (∃ error, t'.next = .threw error) ↔
      reply.threw ∨ reply.lands ∧ deps.proof.unreadable := by
  obtain ⟨point, t₁, -, hresume, rfl⟩ := feed_eq_some.mp h
  rw [andThen_next]
  obtain ⟨now, answer⟩ := reply
  unfold slashResume at hresume
  split at hresume
  · next hanswer =>
    cases hanswer
    cases hresume
    rw [resumeLanded_threw_iff]
    simp [Reply.threw, Reply.lands]
  · next hanswer =>
    cases hanswer
    cases hresume
    simp [slashSolver, Reply.threw, Reply.lands]
  · next hanswer =>
    cases hanswer
    cases hresume
    simp [Reply.threw, Reply.lands]
  · next hanswer =>
    cases hanswer
    cases hresume
    simp [Reply.threw, Reply.lands]
  · next hanswer =>
    cases hanswer
    cases hresume
    simp [Reply.threw, Reply.lands]
  · next zkProofHash point =>
    split at hresume
    · obtain ⟨t₂, hconfirm, rfl⟩ := Option.map_eq_some_iff.mp hresume
      obtain ⟨hthrew, hlands⟩ := confirm_threw_iff hconfirm
      rw [within_threw, hthrew, hlands]
      simp
    · cases hresume
  · next hanswer =>
    cases hanswer
    cases hresume
    simp [Reply.threw, Reply.lands]
  · next hanswer =>
    cases hanswer
    cases hresume
    simp [Reply.threw, Reply.lands]
  · cases hresume

theorem pollEntry_threw_iff (deps : ResumeDeps) (nowSec : Int) (entry : RoutedEntry)
    (card : Card) :
    (∃ error, (pollEntry deps nowSec entry card).next = .threw error) ↔
      entry.due nowSec ∧ card.isAlreadySettled ∧ deps.proof.unreadable := by
  unfold pollEntry
  split
  · next hdue =>
    unfold resumeConfirmIfSolanaLanded
    split
    · next hsettled => simp [slashSolver, Card.isAlreadySettled, hsettled]
    · next ledgerEntry hsettled =>
      split
      · next hstatus =>
        rw [resumeLanded_threw_iff]
        simp [hdue, Card.isAlreadySettled, hsettled, hstatus]
      · next hstatus => split <;> simp [slashSolver, Card.isAlreadySettled, hsettled, hstatus]
  · next hdue => simp [hdue]

omit [DecidableEq ι] in
theorem slash_returns_iff {i : ι} {entry : RoutedEntry} {card : Card}
    (h : Answered (slashResume config (s.deps i))
      (pollEntry (s.deps i) (s.arrival i) entry card) (s.slash i)) :
    (slashBody config s i entry card).next = .returned ↔
      ¬(entry.due (s.arrival i) ∧ slashFails (s.deps i) card (s.slash i)) := by
  by_cases hdue : entry.due (s.arrival i)
  · by_cases hstart : card.isAlreadySettled ∧ (s.deps i).proof.unreadable
    · obtain ⟨error, hthrew⟩ := (pollEntry_threw_iff ..).mpr ⟨hdue, hstart⟩
      obtain ⟨t', hdrive, hended⟩ := h
      obtain ⟨-, rfl⟩ := drive_of_ended (by simp [hthrew]) hdrive
      rw [slashBody, onReplies_eq hdrive, hthrew]
      simp [hdue, slashFails, hstart]
    · have hstart' (error : Str) :
          (pollEntry (s.deps i) (s.arrival i) entry card).next ≠ .threw error := fun herror =>
        hstart ((pollEntry_threw_iff ..).mp ⟨error, herror⟩).2
      rw [slashBody, onReplies_returned_iff _ h hstart' fun _ _ _ => slash_threw_iff]
      refine not_congr ?_
      rw [not_and] at hstart
      simp only [slashFails, hdue, true_and, Bool.or_eq_true, Bool.and_eq_true, List.any_eq_true]
      constructor
      · rintro ⟨reply, hmem, hthrew | ⟨hlands, hunreadable⟩⟩
        · exact .inl ⟨reply, hmem, hthrew⟩
        · exact .inr ⟨.inr ⟨reply, hmem, hlands⟩, hunreadable⟩
      · rintro (⟨reply, hmem, hthrew⟩ | ⟨hsettled | ⟨reply, hmem, hlands⟩, hunreadable⟩)
        · exact ⟨reply, hmem, .inl hthrew⟩
        · exact absurd hunreadable (hstart hsettled)
        · exact ⟨reply, hmem, .inr ⟨hlands, hunreadable⟩⟩
  · obtain ⟨t', hdrive, hended⟩ := h
    have hskip : pollEntry (s.deps i) (s.arrival i) entry card = ⟨card, [], .returned⟩ :=
      if_neg hdue
    obtain ⟨-, rfl⟩ := drive_of_ended (by simp [hskip]) hdrive
    rw [slashBody, onReplies_eq hdrive, hskip]
    simp [hdue]

/-! ## The passes -/

theorem isolated_of_keyWise
    {pass : List ι → (ι → Card) → Turn (ι → Card) ι (ι × Call) Str} {returns : ι → Card → Prop}
    {leaves : ι → Card → Card × List Call} (hpass : KeyWise pass returns leaves)
    (keysOf : Desk ι → List ι) (hnodup : ∀ desk, (keysOf desk).Nodup)
    (hwithout : ∀ desk failing,
      keysOf (Desk.without desk failing) = (keysOf desk).filter (!failing ·)) (desk : Desk ι) :
    Isolated (fun desk => pass (keysOf desk) desk.card) desk ↔
      ∀ i ∈ keysOf desk, returns i (desk.card i) := by
  constructor
  · intro h
    exact (hpass.returned _ _ (hnodup desk)).mp h.completes
  · intro h
    refine ⟨(hpass.returned _ _ (hnodup desk)).mpr h, fun failing => ?_⟩
    have hcards (i : ι) (hi : !failing i) : (desk.without failing).card i = desk.card i := by
      rw [Bool.not_eq_true'] at hi
      simp [Desk.without, hi]
    have hapart := hpass.without (hnodup desk) h (!failing ·) hcards
    rw [hwithout]
    exact ⟨hapart.1, fun i hi => hapart.2 i (by rw [hi]; rfl)⟩

omit [DecidableEq ι] in
theorem visit_returned_iff {α Point : Type} {select : Card → Option α}
    {body : Body ι α Card Point Call Str} {i : ι} {card : Card} :
    (visit select body i card).next = .returned ↔
      ∀ a, select card = some a → (body i a card).next = .returned := by
  cases hselect : select card with
  | none => simp [visit_of_not_selected hselect]
  | some a => simp [visit_of_selected hselect]

/-- What is thrown for a payout that is looked up goes no further. -/
theorem settling_isolated {desk : Desk ι}
    (h : ∀ i solanaSig, settlingSig (desk.card i) = some solanaSig →
      Answered settlingResume (reconcileSettling solanaSig (desk.card i)) (s.settling i)) :
    Isolated (reconcileSettlingLedger s) desk := by
  refine (isolated_of_keyWise (keyWise_sweep settlingSig (settlingBody s)) Desk.settledKeys
    Desk.settled_nodup (fun _ _ => rfl) desk).mpr fun i _ => ?_
  exact visit_returned_iff.mpr fun solanaSig hsig => settling_returns (h i solanaSig hsig)

omit [DecidableEq ι] in
/-- The passes over the ledger select among its keys. -/
theorem mem_arbKeys_of_filter {desk : Desk ι} {i : ι} {p : RoutedEntry → Bool} {entry : RoutedEntry}
    (h : (desk.card i).arb.filter p = some entry) : i ∈ desk.arbKeys := by
  refine (desk.mem_arbKeys i).mpr ?_
  rw [(Option.filter_eq_some_iff.mp h).1, Option.isSome_some]

theorem arbitrum_isolated_iff {desk : Desk ι} (h : FullyAnswered config s desk) :
    Isolated (reconcileArbitrumLedger config s) desk ↔
      ∀ i entry, getMidSequenceEntries (desk.card i) = some entry →
        midReadThrows entry (s.mid i) = false := by
  refine (isolated_of_keyWise ((keyWise_sweep getMidSequenceEntries (midBody s)).followed
    (keyWise_sweep getCollateralPostedEntries (postedBody config s))) Desk.arbKeys
    Desk.arb_nodup (fun _ _ => rfl) desk).trans ?_
  simp only [visit_returned_iff]
  constructor
  · intro hreturns i entry hentry
    have hi : i ∈ desk.arbKeys := mem_arbKeys_of_filter hentry
    exact (mid_returns_iff (h.mid i entry hentry)).mp ((hreturns i hi).1 entry hentry)
  · intro hreads i _
    refine ⟨fun entry hentry => ?_, fun entry hentry => ?_⟩
    · exact (mid_returns_iff (h.mid i entry hentry)).mpr (hreads i entry hentry)
    · exact posted_returns (h.posted i entry hentry)

theorem slash_isolated_iff {desk : Desk ι}
    (h : ∀ i entry, getAwaitingExpirySlashEntries (desk.card i) = some entry →
      Answered (slashResume config (s.deps i))
        (pollEntry (s.deps i) (s.arrival i) entry (desk.card i)) (s.slash i)) :
    Isolated (pollAwaitingSlash config s) desk ↔
      ∀ i entry, getAwaitingExpirySlashEntries (desk.card i) = some entry →
        ¬(entry.due (s.arrival i) ∧ slashFails (s.deps i) (desk.card i) (s.slash i)) := by
  refine (isolated_of_keyWise (keyWise_sweep getAwaitingExpirySlashEntries (slashBody config s))
    Desk.arbKeys Desk.arb_nodup (fun _ _ => rfl) desk).trans ?_
  simp only [visit_returned_iff]
  constructor
  · intro hreturns i entry hentry
    have hi : i ∈ desk.arbKeys := mem_arbKeys_of_filter hentry
    exact (slash_returns_iff (h i entry hentry)).mp (hreturns i hi entry hentry)
  · intro hcalls i _ entry hentry
    exact (slash_returns_iff (h i entry hentry)).mpr (hcalls i entry hentry)

/-- The three passes isolate the failures of one intent from the others just when `readIntent`
throws for no entry of the first loop, and nothing throws for a due entry of the slash poller. -/
theorem failures_isolated_iff (config : Config) (s : Surroundings ι) (desk : Desk ι)
    (h : FullyAnswered config s desk) :
    (Isolated (reconcileSettlingLedger s) desk ∧ Isolated (reconcileArbitrumLedger config s) desk ∧
      Isolated (pollAwaitingSlash config s) desk) ↔
    (∀ i entry, getMidSequenceEntries (desk.card i) = some entry →
      midReadThrows entry (s.mid i) = false) ∧
    ∀ i entry, getAwaitingExpirySlashEntries (desk.card i) = some entry →
      ¬(entry.due (s.arrival i) ∧ slashFails (s.deps i) (desk.card i) (s.slash i)) := by
  rw [arbitrum_isolated_iff h, slash_isolated_iff h.slash]
  exact and_iff_right (settling_isolated h.settling)

/-! ## Two intents, one of which fails -/

/-- Two intents whose collateral was being posted at a crash. -/
def postingDesk : Desk Bool where
  arbKeys := [false, true]
  settledKeys := []
  card _ := ⟨some { stage := .posting_collateral }, none, {}⟩
  arb_nodup := by decide
  settled_nodup := by decide
  mem_arbKeys := by decide
  mem_settledKeys := by decide

/-- The first intent cannot be read; the second is settled. -/
def firstUnread : Surroundings Bool where
  deps _ := ⟨[], .missing, .absent⟩
  arrival _ := 0
  mid i := if i then [⟨0, .record ⟨[], 1, [], INTENT_STATUS_SETTLED, [], 1⟩⟩] else [⟨0, .threw []⟩]
  posted _ := []
  slash _ := []
  settling _ := []

def defaultConfig : Config := ⟨⟨0, 0, 600⟩, .ofInt 3, .ofInt 2000, .ofInt 30000, [], .ofInt 72000⟩

theorem first_unread_stops_pass :
    (reconcileArbitrumLedger defaultConfig firstUnread postingDesk).next = .threw [] ∧
    callsOf true (reconcileArbitrumLedger defaultConfig firstUnread postingDesk).calls = [] ∧
    callsOf true (reconcileArbitrumLedger defaultConfig firstUnread
      (postingDesk.without (!·))).calls = [.readIntent] ∧
    ¬(Isolated (reconcileSettlingLedger firstUnread) postingDesk ∧
      Isolated (reconcileArbitrumLedger defaultConfig firstUnread) postingDesk ∧
      Isolated (pollAwaitingSlash defaultConfig firstUnread) postingDesk) := by
  have hthrew : (reconcileArbitrumLedger defaultConfig firstUnread postingDesk).next =
      .threw [] := by decide
  refine ⟨hthrew, by decide, by decide, fun h => ?_⟩
  rw [h.2.1.completes] at hthrew
  cases hthrew

theorem failures_isolated_sample :
    FullyAnswered defaultConfig firstUnread postingDesk ∧
    ((Isolated (reconcileSettlingLedger firstUnread) postingDesk ∧
      Isolated (reconcileArbitrumLedger defaultConfig firstUnread) postingDesk ∧
      Isolated (pollAwaitingSlash defaultConfig firstUnread) postingDesk) ↔
    (∀ i entry, getMidSequenceEntries (postingDesk.card i) = some entry →
      midReadThrows entry (firstUnread.mid i) = false) ∧
    ∀ i entry, getAwaitingExpirySlashEntries (postingDesk.card i) = some entry →
      ¬(entry.due (firstUnread.arrival i) ∧
        slashFails (firstUnread.deps i) (postingDesk.card i) (firstUnread.slash i))) := by
  have hposted (i : Bool) :
      getCollateralPostedEntries (afterMid firstUnread postingDesk i) = none := by
    cases i <;> decide
  have hanswered : FullyAnswered defaultConfig firstUnread postingDesk := by
    refine ⟨fun i entry hentry => ?_, fun i entry hentry => ?_, fun _ _ => nofun, fun _ _ => nofun⟩
    · cases hentry
      cases i with
      | false => exact ⟨_, rfl, fun _ => nofun⟩
      | true => exact ⟨_, rfl, fun _ => nofun⟩
    · rw [hposted i] at hentry
      cases hentry
  exact ⟨hanswered, failures_isolated_iff defaultConfig firstUnread postingDesk hanswered⟩

end Maat.Orchestrator.Settlement
