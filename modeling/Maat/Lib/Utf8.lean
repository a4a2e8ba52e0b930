import Mathlib.Data.List.Basic
import Mathlib.Data.List.Infix
import Mathlib.Tactic.Ring

/-!
# Lossy UTF-8 decoding

How `TextDecoder` and `Buffer.toString` read bytes: a byte that cannot continue the sequence it
stands in ends that sequence with U+FFFD. A text is the list of its code points.

A stream is decoded chunk by chunk, so a multi-byte character that a chunk boundary cuts is
lost. ASCII is not: an ASCII byte is read as itself wherever it stands (`text_split`), and an
ASCII code point is read from nothing else (`split_text`), so a run of ASCII bytes is found in
the text exactly where it is in the bytes.
-/

namespace Utf8

/-- U+FFFD. -/
def replacement : Nat := 0xFFFD

inductive State where
  | start
  /-- A continuation byte from `low` to `high` is due, then `more` others. -/
  | within (more : Nat) (low high : UInt8) (point : Nat)

/-- A byte that starts a character. -/
def lead (b : UInt8) : List Nat × State :=
  if b < 0x80 then ([b.toNat], .start)
  else if 0xC2 ≤ b ∧ b ≤ 0xDF then ([], .within 0 0x80 0xBF (b.toNat - 0xC0))
  else if b = 0xE0 then ([], .within 1 0xA0 0xBF 0)
  else if b = 0xED then ([], .within 1 0x80 0x9F 0xD)
  else if 0xE1 ≤ b ∧ b ≤ 0xEF then ([], .within 1 0x80 0xBF (b.toNat - 0xE0))
  else if b = 0xF0 then ([], .within 2 0x90 0xBF 0)
  else if b = 0xF4 then ([], .within 2 0x80 0x8F 4)
  else if 0xF1 ≤ b ∧ b ≤ 0xF3 then ([], .within 2 0x80 0xBF (b.toNat - 0xF0))
  else ([replacement], .start)

def feed : State → UInt8 → List Nat × State
  | .start, b => lead b
  | .within more low high point, b =>
    if low ≤ b ∧ b ≤ high then
      let point := point * 64 + (b.toNat - 0x80)
      match more with
      | 0 => ([point], .start)
      | more + 1 => ([], .within more 0x80 0xBF point)
    else (replacement :: (lead b).1, (lead b).2)

def decodeFrom : State → List UInt8 → List Nat
  | .start, [] => []
  | .within _ _ _ _, [] => [replacement]
  | st, b :: bs => (feed st b).1 ++ decodeFrom (feed st b).2 bs

/-- `buffer.toString()` -/
def toString (bs : List UInt8) : List Nat := decodeFrom .start bs

/-- What a stream read chunk by chunk adds up to. -/
def text (chunks : List (List UInt8)) : List Nat := chunks.flatMap toString

@[simp] theorem text_nil : text [] = [] := rfl

@[simp] theorem text_cons (c : List UInt8) (cs : List (List UInt8)) :
    text (c :: cs) = toString c ++ text cs := rfl

@[simp] theorem text_append (cs ds : List (List UInt8)) : text (cs ++ ds) = text cs ++ text ds :=
  List.flatMap_append

/-! ## Sequences stay clear of ASCII -/

/-- The due byte is no ASCII byte, and the character it leads to is none. -/
def State.Clear : State → Prop
  | .start => True
  | .within more low _ point =>
    0x80 ≤ low.toNat ∧ 0x80 ≤ (point * 64 + (low.toNat - 0x80)) * 64 ^ more

theorem clear_start : State.Clear .start := trivial

theorem lead_ascii {b : UInt8} (h : b < 0x80) : lead b = ([b.toNat], .start) := if_pos h

/-- A byte that is not ASCII gives code points that are not, and leaves a clear state. -/
theorem lead_clear {b : UInt8} (h : ¬ b < 0x80) :
    (∀ c ∈ (lead b).1, 0x80 ≤ c) ∧ (lead b).2.Clear := by
  have hnone : ∀ c ∈ ([] : List Nat), 0x80 ≤ c := fun _ hc => absurd hc List.not_mem_nil
  unfold lead
  rw [if_neg h]
  split
  · next hb =>
    have hlow := UInt8.le_iff_toNat_le.mp hb.1
    refine ⟨hnone, Nat.le_refl _, ?_⟩
    simp only [UInt8.reduceToNat, pow_zero] at hlow ⊢
    omega
  split
  · exact ⟨hnone, by decide, by decide⟩
  split
  · exact ⟨hnone, by decide, by decide⟩
  split
  · next hb =>
    have hlow := UInt8.le_iff_toNat_le.mp hb.1
    refine ⟨hnone, Nat.le_refl _, ?_⟩
    simp only [UInt8.reduceToNat, pow_one] at hlow ⊢
    omega
  split
  · exact ⟨hnone, by decide, by decide⟩
  split
  · exact ⟨hnone, by decide, by decide⟩
  split
  · next hb =>
    have hlow := UInt8.le_iff_toNat_le.mp hb.1
    refine ⟨hnone, Nat.le_refl _, ?_⟩
    simp only [UInt8.reduceToNat] at hlow ⊢
    omega
  · refine ⟨fun c hc => ?_, trivial⟩
    rw [List.mem_singleton.mp hc]
    decide

theorem feed_clear {st : State} {b : UInt8} (hst : st.Clear) (h : ¬ b < 0x80) :
    (∀ c ∈ (feed st b).1, 0x80 ≤ c) ∧ (feed st b).2.Clear := by
  cases st with
  | start => exact lead_clear h
  | within more low high point =>
    simp only [feed]
    split
    · next hb =>
      have hlow := UInt8.le_iff_toNat_le.mp hb.1
      obtain ⟨hascii, hpoint⟩ := hst
      have hmore : point * 64 + (low.toNat - 0x80) ≤ point * 64 + (b.toNat - 0x80) := by omega
      cases more with
      | zero =>
        rw [pow_zero, Nat.mul_one] at hpoint
        exact ⟨fun c hc => List.mem_singleton.mp hc ▸ hpoint.trans hmore, trivial⟩
      | succ more =>
        refine ⟨fun _ hc => absurd hc List.not_mem_nil, Nat.le_refl _, ?_⟩
        calc 0x80 ≤ (point * 64 + (low.toNat - 0x80)) * 64 ^ (more + 1) := hpoint
          _ ≤ (point * 64 + (b.toNat - 0x80)) * 64 ^ (more + 1) := Nat.mul_le_mul_right _ hmore
          _ = ((point * 64 + (b.toNat - 0x80)) * 64 + 0) * 64 ^ more := by ring
    · obtain ⟨hlead, hstate⟩ := lead_clear h
      refine ⟨fun c hc => ?_, hstate⟩
      rcases List.mem_cons.mp hc with rfl | hc
      · decide
      · exact hlead c hc

/-- What an interrupted sequence leaves. -/
def State.flush : State → List Nat
  | .start => []
  | .within _ _ _ _ => [replacement]

theorem decodeFrom_nil (st : State) : decodeFrom st [] = st.flush := by
  cases st <;> rfl

theorem decodeFrom_cons (st : State) (b : UInt8) (bs : List UInt8) :
    decodeFrom st (b :: bs) = (feed st b).1 ++ decodeFrom (feed st b).2 bs := by
  cases st <;> rfl

/-- An ASCII byte ends the sequence it interrupts and is read as itself. -/
theorem feed_ascii {st : State} {b : UInt8} (hst : st.Clear) (h : b < 0x80) :
    feed st b = (st.flush ++ [b.toNat], .start) := by
  cases st with
  | start => exact lead_ascii h
  | within more low high point =>
    have hlow : ¬ (low ≤ b ∧ b ≤ high) := by
      rintro ⟨hle, -⟩
      have hclear := hst.1
      rw [UInt8.le_iff_toNat_le] at hle
      rw [UInt8.lt_iff_toNat_lt] at h
      exact absurd (hclear.trans hle) (Nat.not_le.mpr h)
    simp only [feed, if_neg hlow, lead_ascii h]
    rfl

theorem flush_clear (st : State) : ∀ c ∈ st.flush, 0x80 ≤ c := by
  cases st with
  | start => exact fun _ hc => absurd hc List.not_mem_nil
  | within more low high point =>
    intro c hc
    rw [List.mem_singleton.mp hc]
    decide

/-! ## ASCII in the bytes is ASCII in the text -/

theorem decodeFrom_split {st : State} (hst : st.Clear) {a : UInt8} (ha : a < 0x80)
    (xs ys : List UInt8) :
    decodeFrom st (xs ++ a :: ys) = decodeFrom st xs ++ a.toNat :: toString ys := by
  induction xs generalizing st with
  | nil =>
    rw [List.nil_append, decodeFrom_cons, feed_ascii hst ha, decodeFrom_nil, List.append_assoc]
    rfl
  | cons x xs ih =>
    have hnext : (feed st x).2.Clear := by
      by_cases hx : x < 0x80
      · rw [feed_ascii hst hx]
        trivial
      · exact (feed_clear hst hx).2
    rw [List.cons_append, decodeFrom_cons, decodeFrom_cons, ih hnext, List.append_assoc]

/-- A chunked stream read around one ASCII byte. -/
theorem text_split_one {a : UInt8} (ha : a < 0x80) {cs : List (List UInt8)} {xs ys : List UInt8}
    (h : cs.flatten = xs ++ a :: ys) :
    ∃ cs₁ cs₂, cs₁.flatten = xs ∧ cs₂.flatten = ys ∧ text cs = text cs₁ ++ a.toNat :: text cs₂ := by
  induction cs generalizing xs with
  | nil => exact absurd h (by simp)
  | cons c cs ih =>
    rw [List.flatten_cons] at h
    rcases List.append_eq_append_iff.mp h with ⟨zs, hxs, hrest⟩ | ⟨zs, hc, hrest⟩
    · obtain ⟨cs₁, cs₂, h₁, h₂, htext⟩ := ih hrest
      refine ⟨c :: cs₁, cs₂, ?_, h₂, ?_⟩
      · rw [List.flatten_cons, h₁, hxs]
      · rw [text_cons, htext, text_cons, List.append_assoc]
    · cases zs with
      | nil =>
        rw [List.append_nil] at hc
        have hrest' : cs.flatten = [] ++ a :: ys := hrest.symm
        obtain ⟨cs₁, cs₂, h₁, h₂, htext⟩ := ih hrest'
        refine ⟨c :: cs₁, cs₂, ?_, h₂, ?_⟩
        · rw [List.flatten_cons, h₁, List.append_nil, hc]
        · rw [text_cons, htext, text_cons, List.append_assoc]
      | cons z zs =>
        obtain ⟨rfl, hys⟩ := List.cons.inj hrest
        refine ⟨[xs], zs :: cs, List.append_nil xs, ?_, ?_⟩
        · exact hys.symm
        · rw [text_cons, hc, toString, decodeFrom_split clear_start ha, List.append_assoc]
          simp only [text_cons, text_nil, List.append_nil, List.cons_append]
          rfl

theorem flatten_eq_nil_text {cs : List (List UInt8)} (h : cs.flatten = []) : text cs = [] := by
  induction cs with
  | nil => rfl
  | cons c cs ih =>
    obtain ⟨rfl, hrest⟩ := List.append_eq_nil_iff.mp (List.flatten_cons ▸ h)
    exact ih hrest

/-- A chunked stream read around a run of ASCII bytes. -/
theorem text_split {s : List UInt8} (hne : s ≠ []) (hs : ∀ b ∈ s, b < 0x80)
    {cs : List (List UInt8)} {xs ys : List UInt8} (h : cs.flatten = xs ++ (s ++ ys)) :
    ∃ cs₁ cs₂, cs₁.flatten = xs ∧ cs₂.flatten = ys ∧
      text cs = text cs₁ ++ (s.map UInt8.toNat ++ text cs₂) := by
  induction s generalizing cs xs with
  | nil => exact absurd rfl hne
  | cons b s ih =>
    obtain ⟨cs₁, cs₂, h₁, h₂, htext⟩ := text_split_one (hs b List.mem_cons_self) h
    cases s with
    | nil => exact ⟨cs₁, cs₂, h₁, h₂, htext⟩
    | cons b' s =>
      have h₂' : cs₂.flatten = [] ++ ((b' :: s) ++ ys) := h₂
      obtain ⟨cs₃, cs₄, h₃, h₄, hrest⟩ := ih (List.cons_ne_nil _ _)
        (fun x hx => hs x (List.mem_cons_of_mem _ hx)) h₂'
      rw [flatten_eq_nil_text h₃, List.nil_append] at hrest
      exact ⟨cs₁, cs₄, h₁, h₄, by rw [htext, hrest]; rfl⟩

/-! ## ASCII in the text is ASCII in the bytes -/

/-- Where an ASCII code point ends up, seen from the outputs before it. -/
theorem split_output {out tail L M : List Nat} {a : Nat} (hout : ∀ c ∈ out, 0x80 ≤ c)
    (ha : a < 0x80) (h : out ++ tail = L ++ a :: M) : ∃ L', L = out ++ L' ∧ tail = L' ++ a :: M := by
  rcases List.append_eq_append_iff.mp h with ⟨zs, hL, htail⟩ | ⟨zs, hout', hrest⟩
  · exact ⟨zs, hL, htail⟩
  · cases zs with
    | nil =>
      rw [List.append_nil] at hout'
      exact ⟨[], by rw [hout', List.append_nil], hrest.symm⟩
    | cons z zs =>
      obtain ⟨rfl, -⟩ := List.cons.inj hrest
      have hmem : a ∈ out := hout' ▸ List.mem_append_right _ List.mem_cons_self
      exact absurd (hout a hmem) (Nat.not_le.mpr ha)

theorem split_decodeFrom {st : State} (hst : st.Clear) {xs : List UInt8} {L M : List Nat} {a : Nat}
    (ha : a < 0x80) (h : decodeFrom st xs = L ++ a :: M) :
    ∃ ys b zs, xs = ys ++ b :: zs ∧ b.toNat = a ∧ decodeFrom st ys = L ∧ toString zs = M := by
  induction xs generalizing st L with
  | nil =>
    rw [decodeFrom_nil] at h
    have hmem : a ∈ st.flush := h ▸ List.mem_append_right _ List.mem_cons_self
    exact absurd (flush_clear st a hmem) (Nat.not_le.mpr ha)
  | cons x xs ih =>
    rw [decodeFrom_cons] at h
    by_cases hx : x < 0x80
    · rw [feed_ascii hst hx] at h
      rw [List.append_assoc] at h
      obtain ⟨L', rfl, htail⟩ := split_output (flush_clear st) ha h
      cases L' with
      | nil =>
        obtain ⟨rfl, hM⟩ := List.cons.inj htail
        exact ⟨[], x, xs, rfl, rfl, by rw [decodeFrom_nil, List.append_nil], hM⟩
      | cons c L' =>
        obtain ⟨rfl, hrest⟩ := List.cons.inj htail
        obtain ⟨ys, b, zs, rfl, hb, hys, hzs⟩ := ih clear_start hrest
        refine ⟨x :: ys, b, zs, rfl, hb, ?_, hzs⟩
        rw [decodeFrom_cons, feed_ascii hst hx, hys, List.append_assoc]
        rfl
    · obtain ⟨hout, hnext⟩ := feed_clear hst hx
      obtain ⟨L', rfl, htail⟩ := split_output hout ha h
      obtain ⟨ys, b, zs, rfl, hb, hys, hzs⟩ := ih hnext htail
      exact ⟨x :: ys, b, zs, rfl, hb, by rw [decodeFrom_cons, hys], hzs⟩

theorem split_text_one {cs : List (List UInt8)} {L M : List Nat} {a : Nat} (ha : a < 0x80)
    (h : text cs = L ++ a :: M) :
    ∃ cs₁ b cs₂, cs.flatten = cs₁.flatten ++ b :: cs₂.flatten ∧ b.toNat = a ∧ text cs₁ = L ∧
      text cs₂ = M := by
  induction cs generalizing L with
  | nil => exact absurd h (by simp)
  | cons c cs ih =>
    rw [text_cons] at h
    have hlater : ∀ L', L = toString c ++ L' → text cs = L' ++ a :: M →
        ∃ cs₁ b cs₂, (c :: cs).flatten = cs₁.flatten ++ b :: cs₂.flatten ∧ b.toNat = a ∧
          text cs₁ = L ∧ text cs₂ = M := by
      intro L' hL hrest
      obtain ⟨cs₁, b, cs₂, hflat, hb, h₁, h₂⟩ := ih hrest
      refine ⟨c :: cs₁, b, cs₂, ?_, hb, ?_, h₂⟩
      · rw [List.flatten_cons, hflat, List.flatten_cons, List.append_assoc]
      · rw [text_cons, h₁, hL]
    rcases List.append_eq_append_iff.mp h with ⟨zs, hL, hrest⟩ | ⟨zs, hc, hrest⟩
    · exact hlater zs hL hrest
    · cases zs with
      | nil =>
        rw [List.append_nil] at hc
        exact hlater [] (by rw [hc, List.append_nil]) hrest.symm
      | cons z zs =>
        obtain ⟨rfl, hM⟩ := List.cons.inj hrest
        obtain ⟨ys, b, rest, rfl, hb, hys, hzs⟩ := split_decodeFrom clear_start ha hc
        refine ⟨[ys], b, rest :: cs, ?_, hb, ?_, ?_⟩
        · simp only [List.flatten_cons, List.flatten_nil, List.append_nil, List.append_assoc,
            List.cons_append]
        · rw [text_cons, text_nil, List.append_nil]
          exact hys
        · rw [text_cons, hzs]
          exact hM.symm

/-- A byte is output at once or held in a sequence. -/
theorem lead_output (b : UInt8) : (lead b).1 ++ (lead b).2.flush ≠ [] := by
  unfold lead
  split_ifs <;> exact List.cons_ne_nil _ _

theorem feed_output (st : State) (b : UInt8) : (feed st b).1 ++ (feed st b).2.flush ≠ [] := by
  cases st with
  | start => exact lead_output b
  | within more low high point =>
    simp only [feed]
    split
    · cases more <;> exact List.cons_ne_nil _ _
    · exact List.cons_ne_nil _ _

theorem decodeFrom_eq_nil {st : State} {xs : List UInt8} (h : decodeFrom st xs = []) :
    xs = [] := by
  induction xs generalizing st with
  | nil => rfl
  | cons x xs ih =>
    rw [decodeFrom_cons] at h
    obtain ⟨hout, hrest⟩ := List.append_eq_nil_iff.mp h
    obtain rfl := ih hrest
    rw [decodeFrom_nil] at hrest
    exact absurd (List.append_eq_nil_iff.mpr ⟨hout, hrest⟩) (feed_output st x)

theorem text_eq_nil_flatten {cs : List (List UInt8)} (h : text cs = []) : cs.flatten = [] := by
  induction cs with
  | nil => rfl
  | cons c cs ih =>
    obtain ⟨hc, hrest⟩ := List.append_eq_nil_iff.mp (text_cons c cs ▸ h)
    rw [List.flatten_cons, ih hrest, decodeFrom_eq_nil hc, List.append_nil]

/-- A run of ASCII code points was read from a run of ASCII bytes. -/
theorem split_text {s : List UInt8} (hs : ∀ b ∈ s, b < 0x80) (hne : s ≠ [])
    {cs : List (List UInt8)} {L M : List Nat} (h : text cs = L ++ (s.map UInt8.toNat ++ M)) :
    ∃ cs₁ cs₂, cs.flatten = cs₁.flatten ++ (s ++ cs₂.flatten) ∧ text cs₁ = L ∧ text cs₂ = M := by
  induction s generalizing cs L with
  | nil => exact absurd rfl hne
  | cons b s ih =>
    have hb := hs b List.mem_cons_self
    obtain ⟨cs₁, b', cs₂, hflat, hb', h₁, h₂⟩ :=
      split_text_one (UInt8.lt_iff_toNat_lt.mp hb) h
    obtain rfl := UInt8.toNat_inj.mp hb'
    cases s with
    | nil => exact ⟨cs₁, cs₂, hflat, h₁, h₂⟩
    | cons c s =>
      have h₂' : text cs₂ = [] ++ ((c :: s).map UInt8.toNat ++ M) := h₂
      obtain ⟨cs₃, cs₄, hrest, h₃, h₄⟩ := ih (fun x hx => hs x (List.mem_cons_of_mem _ hx))
        (List.cons_ne_nil _ _) h₂'
      rw [text_eq_nil_flatten h₃, List.nil_append] at hrest
      exact ⟨cs₁, cs₄, by rw [hflat, hrest]; rfl, h₁, h₄⟩

end Utf8
