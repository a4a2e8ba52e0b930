import Maat.Orchestrator.Redact

/-!
# What redaction leaves

No URL is left (`noUrl_redact`). Of the long tokens that are none of the exempt shapes as a whole,
those are left whose part before the first hyphen is an exempt name and whose rest is too short to
be a token of its own: the exemption of such names ends at a word boundary, and a hyphen is one
(`opaque_redacted_iff`).
-/

namespace Maat.Orchestrator

open Js Regex

/-! ## URLs -/

/-- An address of `http` or `https`, in any case of the letters. -/
def IsUrl (u : Str) : Prop :=
  ∃ scheme rest, u = scheme ++ "://".toList ++ rest ∧ rest ≠ [] ∧
    (∀ c ∈ rest, isSpace c.toNat = false) ∧
    (scheme.map Char.toLower = "http".toList ∨ scheme.map Char.toLower = "https".toList)

def NoUrl (text : Str) : Prop := ∀ u, u <:+: text → ¬ IsUrl u

theorem url_plain : urlPattern.Plain := by
  refine ⟨trivial, trivial, trivial, trivial, trivial, trivial, trivial, trivial, trivial, ?_⟩
  rintro s ⟨c, -, rfl⟩
  exact List.cons_ne_nil _ _

theorem lang_url_head {s : Str} (h : urlPattern.Lang s) :
    ∃ c t, s = c :: t ∧ c.toLower = 'h' := by
  obtain ⟨x, y, ⟨c, hc, rfl⟩, -, rfl⟩ := h
  exact ⟨c, y, rfl, beq_iff_eq.mp hc⟩

theorem url_consumes : urlPattern.Consumes := by
  intro s hs
  obtain ⟨c, t, rfl, -⟩ := lang_url_head hs
  exact List.cons_ne_nil _ _

/-- The first pattern matches all of them. -/
theorem lang_of_isUrl {u : Str} (h : IsUrl u) : urlPattern.Lang u := by
  obtain ⟨scheme, rest, rfl, hrest, hspace, hscheme⟩ := h
  have hletter : ∀ letter c : Char, c.toLower = letter →
      (Re.char (sameLetter letter)).Lang [c] :=
    fun letter c hc => ⟨c, beq_iff_eq.mpr hc, rfl⟩
  have hthis : ∀ c : Char, (Re.char (· == c)).Lang [c] := fun c => ⟨c, beq_self_eq_true c, rfl⟩
  have hend : (Re.many (.char fun c => !isSpace c.toNat) 1).Lang rest :=
    lang_manyChar.mpr ⟨List.length_pos_iff.mpr hrest, fun c hc => by rw [hspace c hc]; rfl⟩
  have htail : (Re.seq (.char (· == ':')) <| .seq (.char (· == '/')) <| .seq (.char (· == '/')) <|
      .many (.char fun c => !isSpace c.toNat) 1).Lang ("://".toList ++ rest) :=
    ⟨_, _, hthis ':', ⟨_, _, hthis '/', ⟨_, _, hthis '/', hend, rfl⟩, rfl⟩, rfl⟩
  rcases hscheme with hscheme | hscheme
  · obtain ⟨h, u₁, rfl, hh, hscheme⟩ := List.map_eq_cons_iff.mp hscheme
    obtain ⟨t, u₂, rfl, ht, hscheme⟩ := List.map_eq_cons_iff.mp hscheme
    obtain ⟨t', u₃, rfl, ht', hscheme⟩ := List.map_eq_cons_iff.mp hscheme
    obtain ⟨p, u₄, rfl, hp, hscheme⟩ := List.map_eq_cons_iff.mp hscheme
    obtain rfl := List.map_eq_nil_iff.mp hscheme
    exact ⟨_, _, hletter _ _ hh, ⟨_, _, hletter _ _ ht, ⟨_, _, hletter _ _ ht', ⟨_, _,
      hletter _ _ hp, ⟨[], _, .inl rfl, htail, rfl⟩, rfl⟩, rfl⟩, rfl⟩, rfl⟩
  · obtain ⟨h, u₁, rfl, hh, hscheme⟩ := List.map_eq_cons_iff.mp hscheme
    obtain ⟨t, u₂, rfl, ht, hscheme⟩ := List.map_eq_cons_iff.mp hscheme
    obtain ⟨t', u₃, rfl, ht', hscheme⟩ := List.map_eq_cons_iff.mp hscheme
    obtain ⟨p, u₄, rfl, hp, hscheme⟩ := List.map_eq_cons_iff.mp hscheme
    obtain ⟨s, u₅, rfl, hs, hscheme⟩ := List.map_eq_cons_iff.mp hscheme
    obtain rfl := List.map_eq_nil_iff.mp hscheme
    exact ⟨_, _, hletter _ _ hh, ⟨_, _, hletter _ _ ht, ⟨_, _, hletter _ _ ht', ⟨_, _,
      hletter _ _ hp, ⟨_, _, .inr (hletter _ _ hs), htail, rfl⟩, rfl⟩, rfl⟩, rfl⟩, rfl⟩

/-- What a replacement puts into the text, as far as URLs are concerned. -/
structure Inert (new : Str) : Prop where
  head : new.head? = some '['
  letter : ∀ c ∈ new, c.toLower ≠ 'h'

theorem inert_of_all {new : Str} (hhead : new.head? = some '[')
    (hletter : new.all (fun c => c.toLower != 'h') = true) : Inert new :=
  ⟨hhead, fun c hc => bne_iff_ne.mp (List.all_eq_true.mp hletter c hc)⟩

theorem inert_redactedUrl : Inert redactedUrl := inert_of_all rfl (by decide)

theorem inert_redacted : Inert redacted := inert_of_all rfl (by decide)

/-- A scheme has no bracket in it. -/
theorem bracket_notMem {scheme : Str}
    (h : scheme.map Char.toLower = "http".toList ∨ scheme.map Char.toLower = "https".toList) :
    '[' ∉ scheme ++ "://".toList := by
  intro hmem
  rcases List.mem_append.mp hmem with hmem | hmem
  · have hlower := List.mem_map_of_mem hmem (f := Char.toLower)
    rcases h with h | h
    all_goals
      rw [h] at hlower
      revert hlower
      decide
  · revert hmem
    decide

/-- A URL of the new text was one of the text before, and its beginning was kept. -/
theorem url_before {re : Re} {new u : Str} {p : Place} (hre : re.Consumes)
    (hstart : ∀ s, re.Lang s → ∃ c t, s = c :: t ∧ isSpace c.toNat = false)
    (hnew : Inert new) (hu : IsUrl u) (hin : u <:+: texts new (scan re p)) :
    ∃ q v t w others, IsUrl v ∧ q.rest = v ++ t ∧ q.rest <:+ p.rest ∧ w ≠ [] ∧
      scan re q = w.map .kept ++ others := by
  obtain ⟨scheme, rest, rfl, hrest, hspace, hscheme⟩ := hu
  obtain ⟨x, z, hsplit⟩ := hin
  have hne : scheme ++ "://".toList ≠ [] := by simp
  obtain ⟨d, rest, rfl⟩ := List.exists_cons_of_ne_nil hrest
  have hsuffix : scheme ++ "://".toList ++ (d :: rest ++ z) <:+ texts new (scan re p) :=
    ⟨x, by rw [← hsplit]; simp only [List.append_assoc]⟩
  rcases suffix_texts hsuffix with ⟨pieces, hpieces, hu⟩ | ⟨v, others, hv, hvnew, hu⟩
  · obtain ⟨others, hkept, hothers⟩ := kept_of_texts hnew.head (bracket_notMem hscheme) hu.symm
    obtain ⟨q, hq, hqrest⟩ := scan_of_suffix hre hpieces
    have hsources : q.rest = scheme ++ "://".toList ++ sources others := by
      rw [← sources_scan hre q, ← hq, hkept, sources_append, sources_kept]
    obtain ⟨c, t, hct, hc⟩ : ∃ c t, sources others = c :: t ∧ isSpace c.toNat = false := by
      cases others with
      | nil => cases hothers
      | cons piece others =>
        cases piece with
        | kept c =>
          obtain ⟨rfl, -⟩ := List.cons.inj hothers
          exact ⟨_, _, rfl, hspace _ List.mem_cons_self⟩
        | replaced s =>
          have hmem : Piece.replaced s ∈ scan re q := by
            rw [← hq, hkept]
            exact List.mem_append_right _ List.mem_cons_self
          obtain ⟨c, t, rfl, hc⟩ := hstart s (lang_of_replaced hre hmem)
          exact ⟨c, t ++ sources others, rfl, hc⟩
    refine ⟨q, scheme ++ "://".toList ++ [c], t, scheme ++ "://".toList, others,
      ⟨scheme, [c], rfl, List.cons_ne_nil _ _, by simpa using hc, hscheme⟩, ?_, hqrest, hne,
      hq.symm.trans hkept⟩
    rw [hsources, hct, List.append_assoc, List.append_assoc, List.append_assoc]
    rfl
  · -- the letter that a URL starts with is not in the replacement
    obtain ⟨c, v, rfl⟩ := List.exists_cons_of_ne_nil hv
    have hlower : c.toLower = 'h' := by
      rcases hscheme with hscheme | hscheme
      all_goals
        obtain ⟨h, scheme, rfl, hh, -⟩ := List.map_eq_cons_iff.mp hscheme
        obtain ⟨rfl, -⟩ := List.cons.inj hu
        exact hh
    exact absurd hlower (hnew.letter c (hvnew.mem List.mem_cons_self))

theorem not_space_of_letter {c : Char} (h : c.toLower = 'h') : isSpace c.toNat = false := by
  have hcase : c = 'h' ∨ c = 'H' := by
    delta Char.toLower at h
    split at h
    · next hupper =>
      refine .inr (Char.ext (UInt32.toNat_inj.mp ?_))
      have hval := congrArg (fun c : Char => c.val.toNat) h
      have hle := UInt32.le_iff_toNat_le.mp hupper.2
      simp only [Char.reduceVal, UInt32.reduceToNat] at hval hle ⊢
      have hdiff : (97 - 65 : UInt32).toNat = 32 := rfl
      rw [UInt32.toNat_add, hdiff] at hval
      omega
    · exact .inl h
  rcases hcase with rfl | rfl
  all_goals decide

theorem noUrl_urls (text : Str) : NoUrl (replace urlPattern redactedUrl text) := by
  intro u hin hu
  have hstart : ∀ s, urlPattern.Lang s → ∃ c t, s = c :: t ∧ isSpace c.toNat = false := by
    intro s hs
    obtain ⟨c, t, rfl, hc⟩ := lang_url_head hs
    exact ⟨c, t, rfl, not_space_of_letter hc⟩
  obtain ⟨q, v, t, w, others, hv, hq, -, hw, hkept⟩ :=
    url_before url_consumes hstart inert_redactedUrl hu hin
  -- the scan keeps nothing where it finds a URL
  have hmatch : ⟨v.getLast?.or q.before, t⟩ ∈ urlPattern.ends q :=
    ends_complete url_plain (lang_of_isUrl hv) ⟨hq, rfl⟩
  obtain ⟨c, w, rfl⟩ := List.exists_cons_of_ne_nil hw
  obtain ⟨before, rest⟩ := q
  cases rest with
  | nil =>
    rw [scan_nil url_consumes] at hkept
    cases hkept
  | cons d rest =>
    have hd : d = c := by
      have hsources := sources_scan url_consumes ⟨before, d :: rest⟩
      rw [hkept, sources_append, sources_kept] at hsources
      exact (List.cons.inj hsources).1.symm
    subst hd
    rw [(ends_of_kept url_consumes hkept).1] at hmatch
    cases hmatch

/-! ## Tokens -/

theorem isUpper_iff {c : Char} : c.isUpper = true ↔ 'A'.val ≤ c.val ∧ c.val ≤ 'Z'.val :=
  decide_eq_true_iff

theorem isLower_iff {c : Char} : c.isLower = true ↔ 'a'.val ≤ c.val ∧ c.val ≤ 'z'.val := by
  show (decide _ && decide _) = true ↔ _
  simp only [ge_iff_le, Bool.and_eq_true, decide_eq_true_eq]

theorem isWord_eq (c : Char) : isWord c = (c.isUpper || c.isLower || c.isDigit || c == '_') := rfl

theorem isTokenChar_of_isWord {c : Char} (h : isWord c = true) : isTokenChar c = true := by
  rw [isTokenChar, h, Bool.true_or]

theorem isWord_of_isScreamingChar {c : Char} (h : isScreamingChar c = true) : isWord c = true := by
  simp only [isScreamingChar, isWord_eq, Bool.or_eq_true] at h ⊢
  tauto

theorem isWord_of_isUpper {c : Char} (h : c.isUpper = true) : isWord c = true :=
  isWord_of_isScreamingChar (by rw [isScreamingChar, h, Bool.true_or, Bool.true_or])

theorem not_space_of_token {c : Char} (h : isTokenChar c = true) : isSpace c.toNat = false := by
  simp only [isTokenChar, isWord_eq, isUpper_iff, isLower_iff, Char.isDigit, Bool.or_eq_true,
    Bool.and_eq_true, decide_eq_true_eq, beq_iff_eq, UInt32.le_iff_toNat_le, ge_iff_le] at h
  have hval : c.toNat = c.val.toNat := rfl
  rcases h with (((h | h) | h) | rfl) | rfl
  any_goals decide
  all_goals
    rw [isSpace, decide_eq_false_iff_not, hval]
    simp only [Char.reduceVal, UInt32.reduceToNat] at h
    omega

/-- The expression of the characters that are replaced. -/
theorem lang_token {s : Str} (h : tokenPattern.Lang s) :
    24 ≤ s.length ∧ ∀ c ∈ s, isTokenChar c = true := by
  obtain ⟨_, _, rfl, ⟨_, _, rfl, ⟨_, _, rfl, ⟨_, _, rfl, ⟨x, _, hx, rfl, rfl⟩, rfl⟩, rfl⟩, rfl⟩,
    rfl⟩ := h
  simpa using lang_manyChar.mp hx

theorem token_consumes : tokenPattern.Consumes := by
  rintro s hs rfl
  exact absurd (lang_token hs).1 (by decide)

/-- No URL is left in the text. -/
theorem noUrl_redact (text : Str) : NoUrl (redact text) := by
  intro u hin hu
  have hstart : ∀ s, tokenPattern.Lang s → ∃ c t, s = c :: t ∧ isSpace c.toNat = false := by
    intro s hs
    obtain ⟨c, t, rfl⟩ := List.exists_cons_of_ne_nil (token_consumes s hs)
    exact ⟨c, t, rfl, not_space_of_token ((lang_token hs).2 c List.mem_cons_self)⟩
  obtain ⟨q, v, t, w, others, hv, hq, hsuffix, -, -⟩ :=
    url_before token_consumes hstart inert_redacted hu hin
  refine noUrl_urls text v ?_ hv
  have hprefix : v <+: q.rest := ⟨t, hq.symm⟩
  exact hprefix.isInfix.trans hsuffix.isInfix

/-- `[A-Z][A-Z0-9_]*` -/
def IsScreaming (s : Str) : Prop :=
  ∃ c t, s = c :: t ∧ c.isUpper = true ∧ ∀ d ∈ t, isScreamingChar d = true

/-- Lowercase words that underscores join, two at least. -/
def IsSnake (s : Str) : Prop :=
  ∃ word words, s = word ++ (words.map fun w => '_' :: w).flatten ∧ words ≠ [] ∧
    ∀ w ∈ word :: words, w ≠ [] ∧ ∀ c ∈ w, c.isLower = true

theorem isWord_of_isScreaming {s : Str} (h : IsScreaming s) : ∀ c ∈ s, isWord c = true := by
  obtain ⟨c, t, rfl, hc, ht⟩ := h
  exact List.forall_mem_cons.mpr
    ⟨isWord_of_isUpper hc, fun d hd => isWord_of_isScreamingChar (ht d hd)⟩

/-- Where the characters of a class end is one place. -/
theorem append_unique {f : Char → Bool} {x y s t : Str} (hx : ∀ c ∈ x, f c = true)
    (hy : ∀ c ∈ y, f c = true) (hs : s.head?.any f = false) (ht : t.head?.any f = false)
    (h : x ++ s = y ++ t) : x = y ∧ s = t := by
  have hstop : ∀ z : Str, z.head?.any f = false → z.takeWhile f = [] := by
    intro z hz
    cases z with
    | nil => rfl
    | cons c z => exact List.takeWhile_cons_of_neg (ne_true_of_eq_false hz)
  have htake := congrArg (List.takeWhile f) h
  rw [List.takeWhile_append_of_pos hx, List.takeWhile_append_of_pos hy, hstop s hs, hstop t ht,
    List.append_nil, List.append_nil] at htake
  subst htake
  exact ⟨rfl, List.append_cancel_left h⟩

theorem dropWhile_next (f : Char → Bool) (s : Str) : (s.dropWhile f).head?.any f = false := by
  induction s with
  | nil => rfl
  | cons c s ih =>
    by_cases hc : f c = true
    · rw [List.dropWhile_cons_of_pos hc, ih]
    · rw [List.dropWhile_cons_of_neg hc]
      exact eq_false_of_ne_true hc

theorem last_isWord {w : Str} (hw : w ≠ []) (h : ∀ c ∈ w, isWord c = true)
    (before : Option Char) : (w.getLast?.or before).any isWord = true := by
  rw [List.getLast?_eq_some_getLast hw]
  exact h _ (List.getLast_mem hw)

theorem next_isWord {r : Str} (h : r.head?.any isTokenChar = false) :
    r.head?.any isWord = false := by
  cases r with
  | nil => rfl
  | cons c r => exact eq_false_of_ne_true (mt isTokenChar_of_isWord (ne_true_of_eq_false h))

section Place

variable {before : Option Char} {y t : Str} {p q : Place}

theorem mem_boundary : q ∈ Re.boundary.ends p ↔ q = p ∧ p.onBoundary = true := by
  rw [Re.ends]
  split
  · next h => simp [h]
  · next h => simp [h]

theorem mem_notAhead {re : Re} : q ∈ (Re.notAhead re).ends p ↔ q = p ∧ re.ends p = [] := by
  rw [Re.ends]
  split
  · next h => simp [List.isEmpty_iff.mp h]
  · next h => simp [mt List.isEmpty_iff.mpr h]

theorem mem_seq {a b : Re} : q ∈ (Re.seq a b).ends p ↔ ∃ m ∈ a.ends p, q ∈ b.ends m :=
  List.mem_flatMap

/-- Where the second pattern matches. -/
theorem mem_token : q ∈ tokenPattern.ends p ↔
    p.onBoundary = true ∧ hexPrefix.ends p = [] ∧ screamingName.ends p = [] ∧
      snakeName.ends p = [] ∧ q ∈ (Re.many (.char isTokenChar) 24).ends p ∧
      q.onBoundary = true := by
  unfold tokenPattern
  simp only [mem_seq, mem_boundary, mem_notAhead]
  constructor
  · rintro ⟨_, ⟨rfl, hb⟩, _, ⟨rfl, hhex⟩, _, ⟨rfl, hname⟩, _, ⟨rfl, hcode⟩, _, hq, rfl, hend⟩
    exact ⟨hb, hhex, hname, hcode, hq, hend⟩
  · rintro ⟨hb, hhex, hname, hcode, hq, hend⟩
    exact ⟨p, ⟨rfl, hb⟩, p, ⟨rfl, hhex⟩, p, ⟨rfl, hname⟩, p, ⟨rfl, hcode⟩, q, hq, rfl, hend⟩

theorem token_inside (h : p.onBoundary = false) : tokenPattern.ends p = [] := by
  refine List.eq_nil_iff_forall_not_mem.mpr fun q hq => ?_
  exact absurd (mem_token.mp hq).1 (ne_true_of_eq_false h)

theorem token_name (h : screamingName.ends p ≠ []) : tokenPattern.ends p = [] := by
  refine List.eq_nil_iff_forall_not_mem.mpr fun q hq => ?_
  exact h (mem_token.mp hq).2.2.1

/-- A text of the class that goes to the end of its run is matched. -/
theorem token_matches (hy : ∀ c ∈ y, isTokenChar c = true) (hlen : 24 ≤ y.length)
    (hlast : y.getLast?.any isWord = true) (ht : t.head?.any isTokenChar = false)
    (hb : Place.onBoundary ⟨before, y ++ t⟩ = true) (hhex : hexPrefix.ends ⟨before, y ++ t⟩ = [])
    (hname : screamingName.ends ⟨before, y ++ t⟩ = [])
    (hcode : snakeName.ends ⟨before, y ++ t⟩ = []) : tokenPattern.ends ⟨before, y ++ t⟩ ≠ [] := by
  have hplain : (Re.many (.char isTokenChar) 24).Plain := by
    refine ⟨trivial, ?_⟩
    rintro s ⟨c, -, rfl⟩
    exact List.cons_ne_nil _ _
  have hpass : Passes ⟨before, y ++ t⟩ y ⟨y.getLast?.or before, t⟩ := ⟨rfl, rfl⟩
  have hmany := ends_complete hplain (lang_manyChar.mpr ⟨hlen, hy⟩) hpass
  have hend : Place.onBoundary ⟨y.getLast?.or before, t⟩ = true := by
    cases hget : y.getLast? with
    | none =>
      rw [hget] at hlast
      cases hlast
    | some d =>
      rw [hget] at hlast
      rw [Place.onBoundary, Option.some_or, hlast, next_isWord ht]
      rfl
  exact List.ne_nil_of_mem (mem_token.mpr ⟨hb, hhex, hname, hcode, hmany, hend⟩)

/-- A rest that is too short is not matched. -/
theorem token_short (hlen : y.length < 24) (ht : t.head?.any isTokenChar = false) :
    tokenPattern.ends ⟨before, y ++ t⟩ = [] := by
  refine List.eq_nil_iff_forall_not_mem.mpr fun q hq => ?_
  obtain ⟨s, hs, hpass⟩ := ends_sound hq
  obtain ⟨hlong, htoken⟩ := lang_token hs
  rcases List.append_eq_append_iff.mp hpass.1 with ⟨z, rfl, rfl⟩ | ⟨z, rfl, -⟩
  · cases z with
    | nil =>
      rw [List.append_nil] at hlong
      omega
    | cons c z =>
      have hc := htoken c (by simp)
      rw [List.cons_append, List.head?_cons, Option.any_some, hc] at ht
      cases ht
  · rw [List.length_append] at hlen
    omega

/-- The exempt name ends where its word does. -/
theorem screaming_iff (hy : ∀ c ∈ y, isWord c = true) (ht : t.head?.any isWord = false) :
    screamingName.ends ⟨before, y ++ t⟩ ≠ [] ↔ IsScreaming y := by
  constructor
  · intro h
    obtain ⟨q, hq⟩ := List.exists_mem_of_ne_nil _ h
    obtain ⟨m, hm, m', hm', rfl, hb⟩ := by
      simpa only [screamingName, mem_seq, mem_boundary] using hq
    obtain ⟨_, ⟨c, hc, rfl⟩, hpass⟩ := ends_sound hm
    obtain ⟨s, hs, hpass'⟩ := ends_sound hm'
    have hs := (lang_manyChar.mp hs).2
    have hwhole := hpass.trans hpass'
    have hname : ∀ d ∈ c :: s, isWord d = true := List.forall_mem_cons.mpr
      ⟨isWord_of_isUpper hc, fun d hd => isWord_of_isScreamingChar (hs d hd)⟩
    have hlast := last_isWord (List.cons_ne_nil c s) hname before
    have hnext : q.rest.head?.any isWord = false := by
      rw [Place.onBoundary, hwhole.2, List.singleton_append, hlast] at hb
      simpa using hb
    have hsplit : y ++ t = c :: s ++ q.rest := hwhole.1
    refine ⟨c, s, ?_, hc, hs⟩
    exact (append_unique hy hname ht hnext hsplit).1
  · rintro ⟨c, s, rfl, hc, hs⟩
    have hone : (⟨some c, s ++ t⟩ : Place) ∈ (Re.char Char.isUpper).ends ⟨before, c :: s ++ t⟩ :=
      ends_complete (show (Re.char Char.isUpper).Plain from trivial) ⟨c, hc, rfl⟩ ⟨rfl, rfl⟩
    have hplain : (Re.many (.char isScreamingChar) 0).Plain := by
      refine ⟨trivial, ?_⟩
      rintro s ⟨c, -, rfl⟩
      exact List.cons_ne_nil _ _
    have hmany : (⟨s.getLast?.or (some c), t⟩ : Place) ∈
        (Re.many (.char isScreamingChar) 0).ends ⟨some c, s ++ t⟩ :=
      ends_complete hplain (lang_manyChar.mpr ⟨Nat.zero_le _, hs⟩) ⟨rfl, rfl⟩
    have hb : Place.onBoundary ⟨s.getLast?.or (some c), t⟩ = true := by
      rw [Place.onBoundary, ht]
      cases hget : s.getLast? with
      | none => rw [Option.none_or, Option.any_some, isWord_of_isUpper hc]; rfl
      | some d =>
        rw [Option.some_or, Option.any_some,
          isWord_of_isScreamingChar (hs d (List.mem_of_getLast? hget))]
        rfl
    have hmem : (⟨s.getLast?.or (some c), t⟩ : Place) ∈ screamingName.ends ⟨before, c :: s ++ t⟩ :=
      mem_seq.mpr ⟨_, hone, mem_seq.mpr ⟨_, hmany, mem_boundary.mpr ⟨rfl, hb⟩⟩⟩
    exact List.ne_nil_of_mem hmem

/-- The exempt reason code is the whole token. -/
theorem snake_whole (hy : ∀ c ∈ y, isTokenChar c = true) (ht : t.head?.any isTokenChar = false)
    (h : snakeName.ends ⟨before, y ++ t⟩ ≠ []) : IsSnake y := by
  obtain ⟨q, hq⟩ := List.exists_mem_of_ne_nil _ h
  obtain ⟨m, hm, m', hm', rfl, hahead⟩ := by
    simpa only [snakeName, mem_seq, mem_notAhead] using hq
  obtain ⟨word, hword, hpass⟩ := ends_sound hm
  obtain ⟨_, ⟨parts, hlen, hparts, rfl⟩, hpass'⟩ := ends_sound hm'
  have hlower : ∀ x, (Re.many (.char Char.isLower) 1).Lang x →
      x ≠ [] ∧ ∀ c ∈ x, c.isLower = true := by
    intro x hx
    obtain ⟨hpos, hx⟩ := lang_manyChar.mp hx
    exact ⟨List.length_pos_iff.mp hpos, hx⟩
  obtain ⟨words, rfl, hwords⟩ : ∃ words : List Str, parts = words.map (fun w => '_' :: w) ∧
      ∀ w ∈ words, w ≠ [] ∧ ∀ c ∈ w, c.isLower = true := by
    clear hlen hpass' hm'
    induction parts with
    | nil => exact ⟨[], rfl, nofun⟩
    | cons part parts ih =>
      obtain ⟨hpart, hparts⟩ := List.forall_mem_cons.mp hparts
      obtain ⟨words, rfl, hwords⟩ := ih hparts
      obtain ⟨_, w, ⟨c, hc, rfl⟩, hw, rfl⟩ := hpart
      obtain rfl := beq_iff_eq.mp hc
      exact ⟨w :: words, rfl, List.forall_mem_cons.mpr ⟨hlower w hw, hwords⟩⟩
  have hall : ∀ w ∈ word :: words, w ≠ [] ∧ ∀ c ∈ w, c.isLower = true :=
    List.forall_mem_cons.mpr ⟨hlower word hword, hwords⟩
  have htoken : ∀ c ∈ word ++ (words.map fun w => '_' :: w).flatten, isTokenChar c = true := by
    have hletter : ∀ c : Char, c.isLower = true → isTokenChar c = true := by
      intro c hc
      simp [isTokenChar, isWord_eq, hc]
    intro c hc
    rcases List.mem_append.mp hc with hc | hc
    · exact hletter c ((hall word List.mem_cons_self).2 c hc)
    · obtain ⟨_, hpart, hc⟩ := List.mem_flatten.mp hc
      obtain ⟨w, hw, rfl⟩ := List.mem_map.mp hpart
      rcases List.mem_cons.mp hc with rfl | hc
      · rfl
      · exact hletter c ((hwords w hw).2 c hc)
  have hnext : q.rest.head?.any isTokenChar = false := by
    cases hrest : q.rest with
    | nil => rfl
    | cons c z =>
      refine eq_false_of_ne_true fun hc => ?_
      have hplain : (Re.char isTokenChar).Plain := trivial
      have hmem : (⟨some c, z⟩ : Place) ∈ (Re.char isTokenChar).ends q :=
        ends_complete hplain ⟨c, hc, rfl⟩ ⟨hrest, rfl⟩
      rw [hahead] at hmem
      cases hmem
  obtain ⟨rfl, -⟩ := append_unique hy htoken ht hnext (hpass.trans hpass').1
  refine ⟨word, words, rfl, ?_, hall⟩
  rintro rfl
  exact absurd hlen (by decide)

theorem hex_start (hlen : 2 ≤ y.length) (h : hexPrefix.ends ⟨before, y ++ t⟩ ≠ []) :
    "0x".toList <+: y := by
  obtain ⟨q, hq⟩ := List.exists_mem_of_ne_nil _ h
  obtain ⟨_, ⟨_, _, ⟨c, hc, rfl⟩, ⟨d, hd, rfl⟩, rfl⟩, hpass⟩ := ends_sound hq
  obtain rfl := beq_iff_eq.mp hc
  obtain rfl := beq_iff_eq.mp hd
  exact List.prefix_of_prefix_length_le ⟨q.rest, hpass.1.symm⟩ (List.prefix_append y t) hlen

/-- None of the exempt shapes starts with a hyphen. -/
theorem exempt_hyphen : hexPrefix.ends ⟨before, '-' :: t⟩ = [] ∧
    screamingName.ends ⟨before, '-' :: t⟩ = [] ∧ snakeName.ends ⟨before, '-' :: t⟩ = [] :=
  ⟨rfl, rfl, rfl⟩

end Place

/-- A long token that is no hash, no name and no reason code as a whole. -/
structure Opaque (run : Str) : Prop where
  long : 24 ≤ run.length
  chars : ∀ c ∈ run, isTokenChar c = true
  first : run.head?.any isWord = true
  last : run.getLast?.any isWord = true
  notHex : ¬ "0x".toList <+: run
  notScreaming : ¬ IsScreaming run
  notSnake : ¬ IsSnake run

/-- An exempt name, and behind the hyphen fewer characters than a token has. -/
def Shielded (run : Str) : Prop :=
  ∃ name rest, run = name ++ '-' :: rest ∧ IsScreaming name ∧ rest.length < 23

/-- Nothing of a token matches if and only if a name shields it. -/
theorem run_kept_iff {run t : Str} {before : Option Char} (hrun : Opaque run)
    (hbefore : before.any isWord = false) (ht : t.head?.any isTokenChar = false) :
    (∃ others, scan tokenPattern ⟨before, run ++ t⟩ = run.map .kept ++ others) ↔ Shielded run := by
  have hne : run ≠ [] := List.length_pos_iff.mp (Nat.lt_of_lt_of_le (by decide) hrun.long)
  rw [scan_kept_iff token_consumes]
  constructor
  · intro h
    -- at the start only a name can keep the pattern from matching
    have hstart : screamingName.ends ⟨before, run ++ t⟩ ≠ [] := by
      intro hname
      have hb : Place.onBoundary ⟨before, run ++ t⟩ = true := by
        have hfirst := hrun.first
        obtain ⟨c, r, rfl⟩ := List.exists_cons_of_ne_nil hne
        rw [Place.onBoundary, hbefore, List.cons_append, List.head?_cons]
        rw [List.head?_cons] at hfirst
        rw [hfirst]
        rfl
      refine token_matches hrun.chars hrun.long hrun.last ht hb ?_ hname ?_ (h [] run rfl hne)
      · exact not_not.mp (mt (hex_start (Nat.le_trans (by decide) hrun.long)) hrun.notHex)
      · exact not_not.mp (mt (snake_whole hrun.chars ht) hrun.notSnake)
    obtain ⟨name, r, rfl, hname, hr⟩ : ∃ name r, run = name ++ r ∧ (∀ c ∈ name, isWord c = true) ∧
        r.head?.any isWord = false :=
      ⟨run.takeWhile isWord, run.dropWhile isWord, (List.takeWhile_append_dropWhile).symm,
        List.all_eq_true.mp List.all_takeWhile, dropWhile_next isWord run⟩
    have hafter : (r ++ t).head?.any isWord = false := by
      cases r with
      | nil => exact next_isWord ht
      | cons c r => exact hr
    rw [List.append_assoc, screaming_iff hname hafter] at hstart
    cases r with
    | nil => exact absurd (by rwa [List.append_nil]) hrun.notScreaming
    | cons c rest =>
      have hhyphen : c = '-' := by
        have htoken := hrun.chars c (by simp)
        rw [List.head?_cons, Option.any_some] at hr
        rw [isTokenChar, hr, Bool.false_or] at htoken
        exact beq_iff_eq.mp htoken
      subst hhyphen
      refine ⟨name, rest, rfl, hstart, ?_⟩
      by_contra hlong
      -- the rest is matched from the hyphen on
      obtain ⟨c, u, rfl, -, -⟩ := hstart
      have hb : Place.onBoundary ⟨(c :: u).getLast?.or before, '-' :: rest ++ t⟩ = true := by
        rw [Place.onBoundary, last_isWord (List.cons_ne_nil c u) hname]
        rfl
      have hlast : ('-' :: rest).getLast?.any isWord = true := by
        have := hrun.last
        rwa [List.getLast?_append, List.getLast?_cons, Option.some_or,
          ← List.getLast?_cons] at this
      obtain ⟨hhex, hscream, hsnake⟩ := exempt_hyphen (t := rest ++ t)
      refine token_matches (fun d hd => hrun.chars d (List.mem_append_right _ hd)) ?_ hlast ht hb
        hhex hscream hsnake (h (c :: u) ('-' :: rest) rfl (List.cons_ne_nil _ _))
      rw [List.length_cons]
      omega
  · rintro ⟨name, rest, rfl, hname, hrest⟩ x y hsplit hy
    have hword := isWord_of_isScreaming hname
    rcases List.append_eq_append_iff.mp hsplit.symm with ⟨z, rfl, rfl⟩ | ⟨z, rfl, hz⟩
    · rcases List.eq_nil_or_concat x with rfl | ⟨x, d, rfl⟩
      · have hnext : ('-' :: rest ++ t).head?.any isWord = false := rfl
        have hstart : screamingName.ends ⟨before, z ++ ('-' :: rest ++ t)⟩ ≠ [] :=
          (screaming_iff hword hnext).mpr hname
        rw [List.append_assoc]
        exact token_name hstart
      · rw [List.concat_eq_append] at hword ⊢
        cases z with
        | nil => exact token_short (by rw [List.nil_append, List.length_cons]; omega) ht
        | cons c z =>
          -- within the name there is no boundary
          refine token_inside ?_
          have hlast := last_isWord (by simp : x ++ [d] ≠ [])
            (fun e he => hword e (List.mem_append_left _ he)) before
          have hc := hword c (by simp)
          rw [Place.onBoundary, hlast, List.cons_append, List.cons_append, List.head?_cons,
            Option.any_some, hc]
          rfl
    · refine token_short ?_ ht
      have := congrArg List.length hz
      rw [List.length_append, List.length_cons] at this
      omega

/-! ## The text -/

/-- A run of the text that is maximal and outside its URLs, between what the first replacement
makes of the text before it and after it. -/
structure Stands (text : Str) (before : List Piece) (run : Str) (after : List Piece) : Prop where
  parts : scan urlPattern ⟨none, text⟩ = before ++ (run.map .kept ++ after)
  start : (sources before).getLast?.any isTokenChar = false
  stop : (sources after).head?.any isTokenChar = false

/-- The second replacement keeps the run where it stands. -/
def Survives (text : Str) (before : List Piece) (run : Str) : Prop :=
  ∃ left right, scan tokenPattern ⟨none, replace urlPattern redactedUrl text⟩ =
    left ++ (run.map .kept ++ right) ∧ sources left = texts redactedUrl before

theorem texts_getLast {pieces : List Piece} (h : (sources pieces).getLast?.any isTokenChar = false) :
    (texts redactedUrl pieces).getLast?.any isTokenChar = false := by
  rcases List.eq_nil_or_concat pieces with rfl | ⟨pieces, piece, rfl⟩
  · rfl
  · rw [List.concat_eq_append] at h ⊢
    rw [sources_append] at h
    rw [texts_append]
    cases piece with
    | kept c =>
      change ((sources pieces ++ [c]).getLast?).any isTokenChar = false at h
      show ((texts redactedUrl pieces ++ [c]).getLast?).any isTokenChar = false
      rw [List.getLast?_concat] at h ⊢
      exact h
    | replaced s =>
      show ((texts redactedUrl pieces ++ redactedUrl).getLast?).any isTokenChar = false
      rw [List.getLast?_append]
      rfl

theorem texts_head {pieces : List Piece} (h : (sources pieces).head?.any isTokenChar = false) :
    (texts redactedUrl pieces).head?.any isTokenChar = false := by
  cases pieces with
  | nil => rfl
  | cons piece pieces =>
    cases piece with
    | kept c => exact h
    | replaced s => rfl

theorem survives_iff {text run : Str} {before after : List Piece}
    (hstands : Stands text before run after) (hrun : Opaque run) :
    Survives text before run ↔ Shielded run := by
  have hlast := texts_getLast hstands.start
  have htext : replace urlPattern redactedUrl text =
      texts redactedUrl before ++ (run ++ texts redactedUrl after) := by
    rw [replace, hstands.parts, texts_append, texts_append, texts_kept]
  have hclass : ∀ s, tokenPattern.Lang s → ∀ c ∈ s, isTokenChar c = true :=
    fun s hs => (lang_token hs).2
  have hstop : (texts redactedUrl before).getLast?.all (fun c => !isTokenChar c) = true := by
    cases hget : (texts redactedUrl before).getLast? with
    | none => rfl
    | some c =>
      rw [hget, Option.any_some] at hlast
      rw [Option.all_some, hlast]
      rfl
  obtain ⟨pieces, hpieces, hsources⟩ : ∃ pieces,
      scan tokenPattern ⟨none, texts redactedUrl before ++ (run ++ texts redactedUrl after)⟩ =
        pieces ++ scan tokenPattern ⟨(texts redactedUrl before).getLast?.or none,
          run ++ texts redactedUrl after⟩ ∧
      sources pieces = texts redactedUrl before := scan_append token_consumes hclass hstop
  have hbefore : ((texts redactedUrl before).getLast?.or none).any isWord = false := by
    rw [Option.or_none]
    cases hget : (texts redactedUrl before).getLast? with
    | none => rfl
    | some c =>
      rw [hget, Option.any_some] at hlast
      exact eq_false_of_ne_true (mt isTokenChar_of_isWord (ne_true_of_eq_false hlast))
  rw [← run_kept_iff hrun hbefore (texts_head hstands.stop), Survives, htext, hpieces]
  constructor
  · rintro ⟨left, right, hscan, hleft⟩
    exact ⟨right, (pieces_unique token_consumes hpieces (hpieces.trans hscan)
      (hsources.trans hleft.symm)).2⟩
  · rintro ⟨right, hright⟩
    exact ⟨pieces, right, by rw [hright], hsources⟩

/-- The redacted text has no URL and, where it stands, no long token of the text. -/
def Redacted (text : Str) : Prop :=
  (∀ before run after, Stands text before run after → Opaque run → ¬ Survives text before run) ∧
    NoUrl (redact text)

/-- A text is redacted if and only if no name shields a token of it. -/
theorem opaque_redacted_iff (text : Str) :
    Redacted text ↔
      ∀ before run after, Stands text before run after → Opaque run → ¬ Shielded run := by
  constructor
  · intro h before run after hstands hrun
    exact mt (survives_iff hstands hrun).mpr (h.1 before run after hstands hrun)
  · intro h
    refine ⟨fun before run after hstands hrun => ?_, noUrl_redact text⟩
    exact mt (survives_iff hstands hrun).mp (h before run after hstands hrun)

/-- `ABCDEFGHIJ-abcdefghij0123` -/
def gluedSecret : Str := "ABCDEFGHIJ-abcdefghij0123".toList

theorem glued_secret_survives : ¬ Redacted gluedSecret := by
  intro h
  have hstands : Stands gluedSecret [] gluedSecret [] := ⟨by decide, rfl, rfl⟩
  have hopaque : Opaque gluedSecret := by
    refine ⟨by decide, List.all_eq_true.mp (by decide), rfl, rfl,
      by decide, ?_, ?_⟩
    · rintro ⟨c, t, h, -, ht⟩
      obtain ⟨-, rfl⟩ := List.cons.inj h
      exact absurd (ht '-' (by decide)) (by decide)
    · rintro ⟨word, words, h, -, hall⟩
      obtain ⟨hne, hlower⟩ := hall word List.mem_cons_self
      obtain ⟨c, word, rfl⟩ := List.exists_cons_of_ne_nil hne
      obtain ⟨rfl, -⟩ := List.cons.inj h
      exact absurd (hlower 'A' List.mem_cons_self) (by decide)
  have hkept : scan tokenPattern ⟨none, replace urlPattern redactedUrl gluedSecret⟩ =
      gluedSecret.map .kept := by decide
  exact h.1 [] gluedSecret [] hstands hopaque ⟨[], [], by rw [hkept, List.append_nil]; rfl, rfl⟩

end Maat.Orchestrator
