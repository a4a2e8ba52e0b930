import Mathlib.Order.Nat
import Mathlib.Data.List.Basic
import Mathlib.Data.List.Count

/-!
# A feed read by pages from a time mark

A feed lists elements in the order of their times. A reader asks for the elements from a mark on,
gets a page of at most `limit` of them, and moves its mark to the last time it has seen. The mark
stands in for an offset `k` into the feed (`Marked`): below the mark everything has been read, at
the mark some of it may have been.

A page from any mark the reader has had extends what was read to another initial part
(`mem_take_or_page`). It goes past the offset (`Marked.progress`) unless the feed stalls: `limit`
elements share one time and more stand behind them (`Stalls`), and then the offset never passes
them (`Marked.stalled`).
-/

namespace Feed

variable {α : Type} (time : α → Nat)

/-- Times never go down. -/
abbrev Ascending (feed : List α) : Prop := feed.Pairwise fun a b => time a ≤ time b

/-- How many elements lie before a time. -/
def before (t : Nat) (feed : List α) : Nat := feed.countP fun e => decide (time e < t)

def page (limit t : Nat) (feed : List α) : List α :=
  (feed.filter fun e => decide (t ≤ time e)).take limit

/-- A full page of elements at one time, and more from that time on. -/
def Stalls (limit t : Nat) (feed : List α) : Prop :=
  limit ≤ feed.countP (fun e => decide (time e = t)) ∧
    limit < feed.countP fun e => decide (t ≤ time e)

instance (limit t : Nat) (feed : List α) : Decidable (Stalls time limit t feed) :=
  inferInstanceAs (Decidable (_ ∧ _))

variable {time}

theorem page_isPrefix {limit t : Nat} {feed feed' : List α} (h : feed <+: feed') :
    page time limit t feed <+: page time limit t feed' := by
  refine List.prefix_take_iff.mpr ⟨(List.take_prefix _ _).trans (h.filter _), ?_⟩
  rw [page, List.length_take]
  exact Nat.min_le_left _ _

theorem filter_eq_drop {feed : List α} (hasc : Ascending time feed) (t : Nat) :
    (feed.filter fun e => decide (t ≤ time e)) = feed.drop (before time t feed) := by
  induction feed with
  | nil => rfl
  | cons e es ih =>
    obtain ⟨hfirst, hrest⟩ := List.pairwise_cons.mp hasc
    by_cases he : time e < t
    · have hcount : before time t (e :: es) = before time t es + 1 :=
        List.countP_cons_of_pos (by simpa using he)
      rw [hcount, List.drop_succ_cons, ← ih hrest, List.filter_cons_of_neg (by simpa using he)]
    · have hnone : before time t (e :: es) = 0 := by
        refine List.countP_eq_zero.mpr ?_
        intro f hf
        rcases List.mem_cons.mp hf with rfl | hf
        · simpa using he
        · have := hfirst f hf
          simp only [decide_eq_true_eq]
          omega
      have hall : ∀ f ∈ e :: es, decide (t ≤ time f) = true := by
        intro f hf
        rcases List.mem_cons.mp hf with rfl | hf
        · simpa using he
        · have := hfirst f hf
          simp only [decide_eq_true_eq]
          omega
      rw [hnone, List.drop_zero, List.filter_eq_self.mpr hall]

theorem page_eq {feed : List α} (hasc : Ascending time feed) (limit t : Nat) :
    page time limit t feed = (feed.drop (before time t feed)).take limit := by
  rw [page, filter_eq_drop hasc]

theorem before_le_length (time : α → Nat) (t : Nat) (feed : List α) :
    before time t feed ≤ feed.length :=
  List.countP_le_length

theorem before_mono (time : α → Nat) {t u : Nat} (h : t ≤ u) (feed : List α) :
    before time t feed ≤ before time u feed := by
  refine List.countP_mono_left ?_
  intro e _ he
  simp only [decide_eq_true_eq] at he ⊢
  omega

theorem before_eq_zero {t : Nat} {feed : List α} (h : ∀ e ∈ feed, t ≤ time e) :
    before time t feed = 0 := by
  refine List.countP_eq_zero.mpr ?_
  intro e he
  have := h e he
  simp only [decide_eq_true_eq]
  omega

/-- What was read and a page from inside it. -/
theorem mem_take_or_page {feed : List α} {k a : Nat} (h : a ≤ k) (n : Nat) (e : α) :
    e ∈ feed.take k ∨ e ∈ (feed.drop a).take n ↔ e ∈ feed.take (max k (a + n)) := by
  have hsplit : feed.take (a + n) = feed.take a ++ (feed.drop a).take n := List.take_add
  have hmono : ∀ {i j}, i ≤ j → e ∈ feed.take i → e ∈ feed.take j :=
    fun hij he => (List.take_subset_take_left feed hij) he
  constructor
  · rintro (he | he)
    · exact hmono (Nat.le_max_left _ _) he
    · exact hmono (Nat.le_max_right _ _) (hsplit ▸ List.mem_append_right _ he)
  · intro he
    rcases Nat.le_total k (a + n) with hk | hk
    · rw [Nat.max_eq_right hk, hsplit] at he
      rcases List.mem_append.mp he with he | he
      · exact .inl (hmono h he)
      · exact .inr he
    · rw [Nat.max_eq_left hk] at he
      exact .inl he

theorem lt_of_mem_take_before {feed : List α} (hasc : Ascending time feed) {t : Nat} {e : α}
    (h : e ∈ feed.take (before time t feed)) : time e < t := by
  induction feed with
  | nil => cases h
  | cons f fs ih =>
    obtain ⟨hfirst, hrest⟩ := List.pairwise_cons.mp hasc
    by_cases hf : time f < t
    · have hcount : before time t (f :: fs) = before time t fs + 1 :=
        List.countP_cons_of_pos (by simpa using hf)
      rw [hcount, List.take_succ_cons] at h
      rcases List.mem_cons.mp h with rfl | h
      · exact hf
      · exact ih hrest h
    · have hnone : before time t (f :: fs) = 0 := by
        refine before_eq_zero ?_
        intro g hg
        rcases List.mem_cons.mp hg with rfl | hg
        · omega
        · have := hfirst g hg
          omega
      rw [hnone, List.take_zero] at h
      cases h

theorem le_of_mem_drop_before {feed : List α} (hasc : Ascending time feed) {t : Nat} {e : α}
    (h : e ∈ feed.drop (before time t feed)) : t ≤ time e := by
  rw [← filter_eq_drop hasc] at h
  simpa using (List.mem_filter.mp h).2

theorem countP_from {feed : List α} (hasc : Ascending time feed) (t : Nat) :
    (feed.countP fun e => decide (t ≤ time e)) = feed.length - before time t feed := by
  rw [List.countP_eq_length_filter, filter_eq_drop hasc, List.length_drop]

theorem before_succ (t : Nat) (feed : List α) :
    before time (t + 1) feed =
      before time t feed + feed.countP fun e => decide (time e = t) := by
  induction feed with
  | nil => rfl
  | cons e es ih =>
    simp only [before, List.countP_cons, decide_eq_true_eq] at ih ⊢
    split_ifs <;> omega

theorem length_page {feed : List α} (hasc : Ascending time feed) (limit t : Nat) :
    (page time limit t feed).length = min limit (feed.length - before time t feed) := by
  rw [page_eq hasc, List.length_take, List.length_drop]

/-! ## The mark -/

/-- The first `k` elements have been read, and the mark is their last time. -/
structure Marked (time : α → Nat) (start : Nat) (feed : List α) (k since : Nat) : Prop where
  le : k ≤ feed.length
  base : start ≤ since
  covers : ∀ e ∈ feed.take k, time e ≤ since
  reached : since = start ∨ ∃ e ∈ feed.take k, time e = since

section Marked

variable {start k since : Nat} {feed : List α}

theorem Marked.initial (feed : List α) : Marked time start feed 0 start where
  le := Nat.zero_le _
  base := le_rfl
  covers := by
    intro e he
    cases he
  reached := .inl rfl

/-- Everything before the mark has been read. -/
theorem Marked.before_le (h : Marked time start feed k since) (hasc : Ascending time feed)
    (hstart : ∀ e ∈ feed, start ≤ time e) {t : Nat} (ht : t ≤ since) :
    before time t feed ≤ k := by
  rcases h.reached with rfl | ⟨e, he, hmark⟩
  · have hzero : before time t feed = 0 :=
      before_eq_zero fun e he => ht.trans (hstart e he)
    omega
  · have hsplit : before time t feed =
        before time t (feed.take k) + before time t (feed.drop k) := by
      conv_lhs => rw [← List.take_append_drop k feed]
      exact List.countP_append
    have hrest : before time t (feed.drop k) = 0 := by
      refine before_eq_zero ?_
      intro f hf
      rw [← List.take_append_drop k feed] at hasc
      have := (List.pairwise_append.mp hasc).2.2 e he f hf
      omega
    have hfirst := before_le_length time t (feed.take k)
    rw [List.length_take] at hfirst
    omega

theorem Marked.mono {k' since' : Nat} (h : Marked time start feed k since)
    (h' : Marked time start feed k' since') (hk : k ≤ k') : since ≤ since' := by
  rcases h.reached with rfl | ⟨e, he, rfl⟩
  · exact h'.base
  · exact h'.covers e (List.take_subset_take_left feed hk he)

/-- A page from an earlier mark begins with what was read. -/
theorem Marked.head_read (h : Marked time start feed k since) (hasc : Ascending time feed)
    (hstart : ∀ e ∈ feed, start ≤ time e) (hk : 0 < k) {limit t : Nat} (ht : t ≤ since) {e : α}
    {p : List α} (hp : e :: p <+: page time limit t feed) : e ∈ feed.take k := by
  have hbefore : before time t feed < k := by
    refine Nat.lt_of_le_of_ne (h.before_le hasc hstart ht) ?_
    rintro rfl
    rcases h.reached with rfl | ⟨f, hf, hmark⟩
    · have hzero : before time t feed = 0 := before_eq_zero fun f hf => ht.trans (hstart f hf)
      omega
    · have := lt_of_mem_take_before hasc hf
      omega
  have hpiece : e :: p <+: feed.drop (before time t feed) := by
    rw [page_eq hasc] at hp
    exact hp.trans (List.take_prefix _ _)
  have hhead : e ∈ feed.take (before time t feed + 1) := by
    rw [List.take_add]
    refine List.mem_append_right _ ?_
    obtain ⟨rest, hrest⟩ := hpiece
    rw [← hrest]
    exact List.mem_cons_self
  exact List.take_subset_take_left feed hbefore hhead

theorem Marked.page_ne_nil (h : Marked time start feed k since)
    (hstart : ∀ e ∈ feed, start ≤ time e) (hk : 0 < k) {limit t : Nat} (hlimit : 0 < limit)
    (ht : t ≤ since) : page time limit t feed ≠ [] := by
  obtain ⟨e, he, hmark⟩ : ∃ e ∈ feed, since ≤ time e := by
    rcases h.reached with rfl | ⟨e, he, hmark⟩
    · have hlen : 0 < feed.length := hk.trans_le h.le
      exact ⟨feed[0], List.getElem_mem hlen, hstart _ (List.getElem_mem hlen)⟩
    · exact ⟨e, List.mem_of_mem_take he, hmark.ge⟩
  intro hnone
  rcases List.take_eq_nil_iff.mp hnone with hzero | hnone
  · omega
  · have hin : e ∈ feed.filter fun e => decide (t ≤ time e) :=
      List.mem_filter.mpr ⟨he, decide_eq_true (ht.trans hmark)⟩
    rw [hnone] at hin
    cases hin

/-- A page from an earlier mark moves the offset to its end. -/
theorem Marked.read (h : Marked time start feed k since) (hasc : Ascending time feed)
    {limit t since' : Nat} {p : List α} (hp : p <+: page time limit t feed)
    (ht : before time t feed ≤ k) (hle : since ≤ since')
    (hcovers : ∀ e ∈ p, time e ≤ since')
    (hreached : since' = since ∨ ∃ e ∈ p, time e = since') :
    Marked time start feed (max k (before time t feed + p.length)) since' ∧
      ∀ e, e ∈ feed.take k ∨ e ∈ p ↔
        e ∈ feed.take (max k (before time t feed + p.length)) := by
  have hpage : p <+: feed.drop (before time t feed) := by
    rw [page_eq hasc] at hp
    exact hp.trans (List.take_prefix _ _)
  have hpiece : p = (feed.drop (before time t feed)).take p.length :=
    List.prefix_iff_eq_take.mp hpage
  have hmem : ∀ e, e ∈ feed.take k ∨ e ∈ p ↔
      e ∈ feed.take (max k (before time t feed + p.length)) := by
    intro e
    rw [← mem_take_or_page ht p.length e, ← hpiece]
  refine ⟨⟨?_, h.base.trans hle, ?_, ?_⟩, hmem⟩
  · have hlen := hpage.length_le
    rw [List.length_drop] at hlen
    have := before_le_length time t feed
    have := h.le
    omega
  · intro e he
    rcases (hmem e).mpr he with he | he
    · exact (h.covers e he).trans hle
    · exact hcovers e he
  · rcases hreached with rfl | ⟨e, he, hmark⟩
    · rcases h.reached with hmark | ⟨e, he, hmark⟩
      · exact .inl hmark
      · exact .inr ⟨e, (hmem e).mp (.inl he), hmark⟩
    · exact .inr ⟨e, (hmem e).mp (.inr he), hmark⟩

/-- Where the feed does not stall at the mark, the page from it goes on. -/
theorem Marked.progress (h : Marked time start feed k since) (hasc : Ascending time feed)
    (hstart : ∀ e ∈ feed, start ≤ time e) {limit : Nat} (hlimit : 0 < limit)
    (hgoes : ¬ Stalls time limit since feed) (hrest : k < feed.length) :
    k < before time since feed + (page time limit since feed).length := by
  have hbefore := h.before_le hasc hstart le_rfl
  rw [length_page hasc]
  by_contra hstuck
  have hfull : before time since feed + limit ≤ k := by omega
  refine hgoes ⟨?_, ?_⟩
  · -- what was read from the mark on all lies at the mark
    have hsub : ((feed.take k).drop (before time since feed)).Sublist feed :=
      (List.drop_sublist _ _).trans (List.take_sublist _ _)
    have hall : ∀ e ∈ (feed.take k).drop (before time since feed),
        decide (time e = since) = true := by
      intro e he
      have hle := h.covers e (List.mem_of_mem_drop he)
      have hge := le_of_mem_drop_before hasc (e := e) (t := since) <| by
        rw [List.drop_take] at he
        exact List.mem_of_mem_take he
      simp only [decide_eq_true_eq]
      omega
    have hcount := hsub.countP_le (p := fun e => decide (time e = since))
    rw [List.countP_eq_length.mpr hall, List.length_drop, List.length_take] at hcount
    omega
  · rw [countP_from hasc]
    omega

/-- Past a stall the offset never goes. -/
theorem Marked.stalled (h : Marked time start feed k since) (hasc : Ascending time feed)
    {limit t u : Nat} (hstall : Stalls time limit t feed) (hstart : start ≤ t)
    (hk : k ≤ before time t feed + limit) (hu : u ≤ since) :
    before time u feed + (page time limit u feed).length ≤ before time t feed + limit := by
  have hmark : since ≤ t := by
    rcases h.reached with rfl | ⟨e, he, rfl⟩
    · exact hstart
    · have hpast : before time t feed + limit ≤ before time (t + 1) feed := by
        rw [before_succ]
        exact Nat.add_le_add_left hstall.1 _
      exact Nat.lt_succ_iff.mp (lt_of_mem_take_before hasc
        (List.take_subset_take_left feed (hk.trans hpast) he))
  have hbefore := before_mono time (hu.trans hmark) feed
  rw [length_page hasc]
  omega

end Marked

end Feed
