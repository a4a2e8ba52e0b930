import Mathlib.Data.List.Basic
import Mathlib.Data.List.Infix

/-!
# Regular expressions with backtracking

Matching as ECMAScript has it, by the list of the places where a match may end, in the order in
which backtracking comes to them; the match is the first of them. `replace` with the flag `g` cuts
a text into the characters it keeps and the matches it replaces, from left to right.

What a match consumes is in the language of the expression (`ends_sound`), and without assertions
every text of the language is matched (`ends_complete`). The scan of a replacement is read at a
place of its own: where it keeps characters (`scan_kept_iff`), and where a part of the text is
scanned apart from the rest (`scan_append`).
-/

namespace Regex

/-- A place in a text: the character before it, and the text from it on. -/
structure Place where
  before : Option Char
  rest : List Char

inductive Re where
  | empty
  | char (p : Char → Bool)
  | seq (a b : Re)
  /-- `a{min,}` -/
  | many (a : Re) (min : Nat)
  /-- `a?` -/
  | optional (a : Re)
  /-- `\b` -/
  | boundary
  /-- `(?!a)` -/
  | notAhead (a : Re)

/-- `\w` -/
def isWord (c : Char) : Bool := c.isAlphanum || c == '_'

namespace Place

def onBoundary (p : Place) : Bool := p.before.any isWord != p.rest.head?.any isWord

end Place

/-- Any further number of repetitions, the most first. None of them is empty. -/
def more (step : Place → List Place) : Nat → Place → List Place
  | 0, p => [p]
  | fuel + 1, p =>
    ((step p).filter fun q => q.rest.length < p.rest.length).flatMap (more step fuel) ++ [p]

def atLeast (step : Place → List Place) : Nat → Place → List Place
  | 0, p => more step p.rest.length p
  | min + 1, p => (step p).flatMap (atLeast step min)

/-- Where a match may end, in the order in which they are tried. -/
def Re.ends : Re → Place → List Place
  | .empty, p => [p]
  | .char f, p =>
    match p.rest with
    | [] => []
    | c :: t => if f c then [⟨some c, t⟩] else []
  | .seq a b, p => (a.ends p).flatMap b.ends
  | .many a min, p => atLeast a.ends min p
  | .optional a, p => a.ends p ++ [p]
  | .boundary, p => if p.onBoundary then [p] else []
  | .notAhead a, p => if (a.ends p).isEmpty then [p] else []

/-- The match at a place. -/
def Re.match? (re : Re) (p : Place) : Option Place := (re.ends p).head?

/-! ## What a match consumes -/

/-- The texts that an expression consumes, whatever its assertions say. -/
def Re.Lang : Re → List Char → Prop
  | .empty, s | .boundary, s | .notAhead _, s => s = []
  | .char f, s => ∃ c, f c = true ∧ s = [c]
  | .seq a b, s => ∃ x y, a.Lang x ∧ b.Lang y ∧ s = x ++ y
  | .many a min, s => ∃ parts : List (List Char), min ≤ parts.length ∧
      (∀ x ∈ parts, a.Lang x) ∧ s = parts.flatten
  | .optional a, s => s = [] ∨ a.Lang s

/-- From one place to the other by this text. -/
def Passes (p : Place) (s : List Char) (q : Place) : Prop :=
  p.rest = s ++ q.rest ∧ q.before = (s.getLast?).or p.before

theorem Passes.refl (p : Place) : Passes p [] p := ⟨rfl, rfl⟩

theorem Passes.trans {p q r : Place} {s t : List Char} (h : Passes p s q) (h' : Passes q t r) :
    Passes p (s ++ t) r := by
  refine ⟨by rw [h.1, h'.1, List.append_assoc], ?_⟩
  rw [h'.2, h.2, List.getLast?_append, Option.or_assoc]

theorem more_sound {step : Place → List Place} {L : List Char → Prop}
    (hstep : ∀ p q, q ∈ step p → ∃ s, L s ∧ Passes p s q) {fuel : Nat} {p q : Place}
    (h : q ∈ more step fuel p) :
    ∃ parts : List (List Char), (∀ x ∈ parts, L x) ∧ Passes p parts.flatten q := by
  induction fuel generalizing p with
  | zero =>
    obtain rfl := List.mem_singleton.mp h
    exact ⟨[], nofun, Passes.refl _⟩
  | succ fuel ih =>
    rcases List.mem_append.mp h with h | h
    · obtain ⟨m, hm, hq⟩ := List.mem_flatMap.mp h
      obtain ⟨s, hs, hpass⟩ := hstep p m (List.mem_filter.mp hm).1
      obtain ⟨parts, hparts, hrest⟩ := ih hq
      exact ⟨s :: parts, List.forall_mem_cons.mpr ⟨hs, hparts⟩, hpass.trans hrest⟩
    · obtain rfl := List.mem_singleton.mp h
      exact ⟨[], nofun, Passes.refl _⟩

theorem atLeast_sound {step : Place → List Place} {L : List Char → Prop}
    (hstep : ∀ p q, q ∈ step p → ∃ s, L s ∧ Passes p s q) {min : Nat} {p q : Place}
    (h : q ∈ atLeast step min p) :
    ∃ parts : List (List Char), min ≤ parts.length ∧ (∀ x ∈ parts, L x) ∧
      Passes p parts.flatten q := by
  induction min generalizing p with
  | zero =>
    obtain ⟨parts, hparts, hpass⟩ := more_sound hstep h
    exact ⟨parts, Nat.zero_le _, hparts, hpass⟩
  | succ min ih =>
    obtain ⟨m, hm, hq⟩ := List.mem_flatMap.mp h
    obtain ⟨s, hs, hpass⟩ := hstep p m hm
    obtain ⟨parts, hlen, hparts, hrest⟩ := ih hq
    exact ⟨s :: parts, Nat.succ_le_succ hlen, List.forall_mem_cons.mpr ⟨hs, hparts⟩,
      hpass.trans hrest⟩

/-- What a match consumes is in the language of the expression. -/
theorem ends_sound {re : Re} {p q : Place} (h : q ∈ re.ends p) :
    ∃ s, re.Lang s ∧ Passes p s q := by
  induction re generalizing p q with
  | empty =>
    obtain rfl := List.mem_singleton.mp h
    exact ⟨[], rfl, Passes.refl _⟩
  | char f =>
    obtain ⟨before, rest⟩ := p
    cases rest with
    | nil => cases h
    | cons c t =>
      rw [Re.ends] at h
      dsimp only at h
      split at h
      · next hc =>
        obtain rfl := List.mem_singleton.mp h
        exact ⟨[c], ⟨c, hc, rfl⟩, rfl, rfl⟩
      · cases h
  | seq a b iha ihb =>
    obtain ⟨m, hm, hq⟩ := List.mem_flatMap.mp h
    obtain ⟨x, hx, hpass⟩ := iha hm
    obtain ⟨y, hy, hrest⟩ := ihb hq
    exact ⟨x ++ y, ⟨x, y, hx, hy, rfl⟩, hpass.trans hrest⟩
  | many a min ih =>
    obtain ⟨parts, hlen, hparts, hpass⟩ := atLeast_sound (fun p q => ih) h
    exact ⟨parts.flatten, ⟨parts, hlen, hparts, rfl⟩, hpass⟩
  | optional a ih =>
    rcases List.mem_append.mp h with h | h
    · obtain ⟨s, hs, hpass⟩ := ih h
      exact ⟨s, .inr hs, hpass⟩
    · obtain rfl := List.mem_singleton.mp h
      exact ⟨[], .inl rfl, Passes.refl _⟩
  | boundary =>
    rw [Re.ends] at h
    split at h
    · obtain rfl := List.mem_singleton.mp h
      exact ⟨[], rfl, Passes.refl _⟩
    · cases h
  | notAhead a =>
    rw [Re.ends] at h
    split at h
    · obtain rfl := List.mem_singleton.mp h
      exact ⟨[], rfl, Passes.refl _⟩
    · cases h

/-- No match is empty. -/
def Re.Consumes (re : Re) : Prop := ∀ s, re.Lang s → s ≠ []

/-- No assertions, and nothing empty is repeated. -/
def Re.Plain : Re → Prop
  | .empty | .char _ => True
  | .seq a b => a.Plain ∧ b.Plain
  | .many a _ => a.Plain ∧ a.Consumes
  | .optional a => a.Plain
  | .boundary | .notAhead _ => False

theorem Passes.nil {p q : Place} (h : Passes p [] q) : q = p := by
  obtain ⟨before, rest⟩ := p
  obtain ⟨before', rest'⟩ := q
  obtain ⟨hrest, hbefore⟩ := h
  cases hrest
  cases hbefore
  rfl

theorem Passes.split {p q : Place} {x y : List Char} (h : Passes p (x ++ y) q) :
    ∃ m, Passes p x m ∧ Passes m y q := by
  refine ⟨⟨x.getLast?.or p.before, y ++ q.rest⟩, ⟨?_, rfl⟩, rfl, ?_⟩
  · rw [h.1, List.append_assoc]
  · rw [h.2, List.getLast?_append, Option.or_assoc]

theorem Passes.lt {p q : Place} {s : List Char} (h : Passes p s q) (hs : s ≠ []) :
    q.rest.length < p.rest.length := by
  have hpos := List.length_pos_iff.mpr hs
  rw [h.1, List.length_append]
  omega

theorem more_complete {step : Place → List Place} {L : List Char → Prop}
    (hstep : ∀ p q s, L s → Passes p s q → q ∈ step p) (hL : ∀ s, L s → s ≠ [])
    {parts : List (List Char)} {fuel : Nat} {p q : Place} (hparts : ∀ x ∈ parts, L x)
    (hpass : Passes p parts.flatten q) (hfuel : p.rest.length ≤ fuel) :
    q ∈ more step fuel p := by
  induction parts generalizing fuel p with
  | nil =>
    obtain rfl := hpass.nil
    cases fuel with
    | zero => exact List.mem_cons_self
    | succ fuel => exact List.mem_append_right _ List.mem_cons_self
  | cons x parts ih =>
    obtain ⟨hx, hparts⟩ := List.forall_mem_cons.mp hparts
    obtain ⟨m, hm, hrest⟩ := hpass.split
    have hlt := hm.lt (hL x hx)
    cases fuel with
    | zero => omega
    | succ fuel =>
      refine List.mem_append_left _ (List.mem_flatMap.mpr ⟨m, List.mem_filter.mpr
        ⟨hstep p m x hx hm, decide_eq_true hlt⟩, ih hparts hrest (by omega)⟩)

theorem atLeast_complete {step : Place → List Place} {L : List Char → Prop}
    (hstep : ∀ p q s, L s → Passes p s q → q ∈ step p) (hL : ∀ s, L s → s ≠ [])
    {parts : List (List Char)} {min : Nat} {p q : Place} (hlen : min ≤ parts.length)
    (hparts : ∀ x ∈ parts, L x) (hpass : Passes p parts.flatten q) : q ∈ atLeast step min p := by
  induction min generalizing parts p with
  | zero => exact more_complete hstep hL hparts hpass le_rfl
  | succ min ih =>
    cases parts with
    | nil => exact absurd hlen (Nat.not_succ_le_zero _)
    | cons x parts =>
      obtain ⟨hx, hparts⟩ := List.forall_mem_cons.mp hparts
      obtain ⟨m, hm, hrest⟩ := hpass.split
      exact List.mem_flatMap.mpr
        ⟨m, hstep p m x hx hm, ih (Nat.le_of_succ_le_succ hlen) hparts hrest⟩

/-- An expression without assertions matches all texts of its language. -/
theorem ends_complete {re : Re} (hre : re.Plain) {p q : Place} {s : List Char} (hs : re.Lang s)
    (hpass : Passes p s q) : q ∈ re.ends p := by
  induction re generalizing p q s with
  | empty =>
    cases hs
    rw [hpass.nil]
    exact List.mem_cons_self
  | char f =>
    obtain ⟨c, hc, rfl⟩ := hs
    obtain ⟨before, rest⟩ := p
    obtain ⟨before', rest'⟩ := q
    obtain ⟨hrest, hbefore⟩ := hpass
    cases hrest
    cases hbefore
    simp [Re.ends, hc]
  | seq a b iha ihb =>
    obtain ⟨x, y, hx, hy, rfl⟩ := hs
    obtain ⟨m, hm, hrest⟩ := hpass.split
    exact List.mem_flatMap.mpr ⟨m, iha hre.1 hx hm, ihb hre.2 hy hrest⟩
  | many a min ih =>
    obtain ⟨parts, hlen, hparts, rfl⟩ := hs
    exact atLeast_complete (fun p q s => ih hre.1) hre.2 hlen hparts hpass
  | optional a ih =>
    rcases hs with rfl | hs
    · rw [hpass.nil]
      exact List.mem_append_right _ List.mem_cons_self
    · exact List.mem_append_left _ (ih hre hs hpass)
  | boundary => exact hre.elim
  | notAhead a => exact hre.elim

/-! ## A class that is repeated -/

section Class

variable {f : Char → Bool}

theorem lang_manyChar {min : Nat} {s : List Char} :
    (Re.many (.char f) min).Lang s ↔ min ≤ s.length ∧ ∀ c ∈ s, f c = true := by
  constructor
  · rintro ⟨parts, hlen, hparts, rfl⟩
    have hsingle : ∀ x ∈ parts, x.length = 1 := by
      intro x hx
      obtain ⟨c, -, rfl⟩ := hparts x hx
      rfl
    refine ⟨?_, fun c hc => ?_⟩
    · rw [List.length_flatten, List.map_congr_left hsingle]
      simpa using hlen
    · obtain ⟨x, hx, hcx⟩ := List.mem_flatten.mp hc
      obtain ⟨d, hd, rfl⟩ := hparts x hx
      rwa [List.mem_singleton.mp hcx]
  · rintro ⟨hlen, hs⟩
    refine ⟨s.map fun c => [c], by rwa [List.length_map], ?_, ?_⟩
    · intro x hx
      obtain ⟨c, hc, rfl⟩ := List.mem_map.mp hx
      exact ⟨c, hs c hc, rfl⟩
    · rw [← List.flatMap_def, List.flatMap_singleton']

end Class

/-! ## Replacing -/

/-- A part of a text: a character that stays, or a match. -/
inductive Piece where
  | kept (c : Char)
  | replaced (source : List Char)
  deriving DecidableEq

def Piece.source : Piece → List Char
  | .kept c => [c]
  | .replaced source => source

/-- What stands in its place, with `new` for a match. -/
def Piece.text (new : List Char) : Piece → List Char
  | .kept c => [c]
  | .replaced _ => new

def sources (pieces : List Piece) : List Char := pieces.flatMap Piece.source

/-- The loop of a replacement with the flag `g`. After an empty match it goes on by a character. -/
def scanFrom (re : Re) : Nat → Place → List Piece
  | 0, _ => []
  | fuel + 1, p =>
    match re.match? p with
    | some q =>
      if q.rest.length < p.rest.length then
        .replaced (p.rest.take (p.rest.length - q.rest.length)) :: scanFrom re fuel q
      else
        .replaced [] ::
          match p.rest with
          | [] => []
          | c :: t => .kept c :: scanFrom re fuel ⟨some c, t⟩
    | none =>
      match p.rest with
      | [] => []
      | c :: t => .kept c :: scanFrom re fuel ⟨some c, t⟩

def scan (re : Re) (p : Place) : List Piece := scanFrom re (p.rest.length + 1) p

/-- What the pieces make, with `new` for the matches. -/
def texts (new : List Char) (pieces : List Piece) : List Char := pieces.flatMap (Piece.text new)

/-- `text.replace(re, new)` -/
def replace (re : Re) (new text : List Char) : List Char := texts new (scan re ⟨none, text⟩)

section Scan

variable {re : Re}

theorem scanFrom_fuel {fuel : Nat} {p : Place} (h : p.rest.length < fuel) :
    scanFrom re fuel p = scan re p := by
  suffices ∀ fuel fuel' p, p.rest.length < fuel → p.rest.length < fuel' →
      scanFrom re fuel p = scanFrom re fuel' p from
    this fuel (p.rest.length + 1) p h (Nat.lt_succ_self _)
  intro fuel
  induction fuel with
  | zero => exact fun _ _ h => absurd h (Nat.not_lt_zero _)
  | succ fuel ih =>
    intro fuel' p h h'
    obtain ⟨fuel', rfl⟩ := Nat.exists_eq_succ_of_ne_zero (Nat.ne_of_gt (Nat.zero_lt_of_lt h'))
    have hnext : ∀ c t, p.rest = c :: t →
        scanFrom re fuel ⟨some c, t⟩ = scanFrom re fuel' ⟨some c, t⟩ := by
      intro c t hrest
      rw [hrest, List.length_cons] at h h'
      exact ih fuel' ⟨some c, t⟩ (Nat.lt_of_succ_lt_succ h) (Nat.lt_of_succ_lt_succ h')
    unfold scanFrom
    split
    · next q _ =>
      split
      · next hlt => rw [ih fuel' q (by omega) (by omega)]
      · split
        · rfl
        · next c t hrest => rw [hnext c t hrest]
    · split
      · rfl
      · next c t hrest => rw [hnext c t hrest]

theorem scan_nil (hre : re.Consumes) (before : Option Char) : scan re ⟨before, []⟩ = [] := by
  have hnone : re.match? ⟨before, []⟩ = none := by
    cases hmatch : re.match? ⟨before, []⟩ with
    | none => rfl
    | some q =>
      obtain ⟨s, hs, hpass⟩ := ends_sound (List.mem_of_mem_head? hmatch)
      exact absurd (List.append_eq_nil_iff.mp hpass.1.symm).1 (hre s hs)
  rw [scan, scanFrom, hnone]

/-- A place without a match keeps its character. -/
theorem scan_kept {before : Option Char} {c : Char} {t : List Char}
    (h : re.ends ⟨before, c :: t⟩ = []) :
    scan re ⟨before, c :: t⟩ = .kept c :: scan re ⟨some c, t⟩ := by
  have hnone : re.match? ⟨before, c :: t⟩ = none := by rw [Re.match?, h]; rfl
  rw [scan, scanFrom, hnone]
  rfl

/-- A match is replaced, and the scan goes on after it. -/
theorem scan_replaced (hre : re.Consumes) {p q : Place} (h : re.match? p = some q) :
    ∃ s, re.Lang s ∧ Passes p s q ∧ scan re p = .replaced s :: scan re q := by
  obtain ⟨s, hs, hpass⟩ := ends_sound (List.mem_of_mem_head? h)
  have hpos : 0 < s.length := List.length_pos_iff.mpr (hre s hs)
  have hlen : p.rest.length = s.length + q.rest.length := by rw [hpass.1, List.length_append]
  refine ⟨s, hs, hpass, ?_⟩
  rw [scan, scanFrom, h]
  dsimp only
  rw [if_pos (by omega), scanFrom_fuel (by omega), hpass.1, List.length_append,
    Nat.add_sub_cancel, List.take_left]

/-- The scan's rule: at the end of the text, at a match, and at a place without one. -/
theorem scan_induction (hre : re.Consumes) {P : Place → Prop} (nil : ∀ before, P ⟨before, []⟩)
    (replaced : ∀ p q s, re.Lang s → Passes p s q → scan re p = .replaced s :: scan re q → P q → P p)
    (kept : ∀ before c t, scan re ⟨before, c :: t⟩ = .kept c :: scan re ⟨some c, t⟩ →
      P ⟨some c, t⟩ → P ⟨before, c :: t⟩) (p : Place) : P p := by
  suffices ∀ n p, p.rest.length ≤ n → P p from this _ p le_rfl
  intro n
  induction n with
  | zero =>
    rintro ⟨before, rest⟩ hlen
    obtain rfl := List.length_eq_zero_iff.mp (Nat.le_zero.mp hlen)
    exact nil before
  | succ n ih =>
    rintro ⟨before, rest⟩ hlen
    cases hmatch : re.match? ⟨before, rest⟩ with
    | some q =>
      obtain ⟨s, hs, hpass, hscan⟩ := scan_replaced hre hmatch
      have hpos : 0 < s.length := List.length_pos_iff.mpr (hre s hs)
      have hrest := congrArg List.length hpass.1
      rw [List.length_append] at hrest
      exact replaced _ q s hs hpass hscan (ih q (by omega))
    | none =>
      cases rest with
      | nil => exact nil before
      | cons c t =>
        exact kept before c t (scan_kept (List.head?_eq_none_iff.mp hmatch))
          (ih ⟨some c, t⟩ (Nat.le_of_succ_le_succ hlen))

/-- The pieces are the text. -/
theorem sources_scan (hre : re.Consumes) (p : Place) : sources (scan re p) = p.rest := by
  induction p using scan_induction hre with
  | nil before =>
    rw [scan_nil hre]
    rfl
  | replaced p q s _ hpass hscan ih =>
    rw [hscan, sources, List.flatMap_cons, ← sources, ih]
    exact hpass.1.symm
  | kept before c t hscan ih =>
    rw [hscan, sources, List.flatMap_cons, ← sources, ih]
    rfl

/-- A part of the scan that goes up to the end is a scan of its own. -/
theorem scan_of_suffix (hre : re.Consumes) {p : Place} {pieces : List Piece}
    (h : pieces <:+ scan re p) : ∃ q, pieces = scan re q ∧ q.rest <:+ p.rest := by
  induction p using scan_induction hre with
  | nil before =>
    refine ⟨⟨before, []⟩, ?_, List.suffix_refl _⟩
    rw [scan_nil hre] at h ⊢
    exact List.suffix_nil.mp h
  | replaced p q s _ hpass hscan ih =>
    rw [hscan] at h
    rcases List.suffix_cons_iff.mp h with heq | h
    · exact ⟨p, heq.trans hscan.symm, List.suffix_refl _⟩
    · obtain ⟨q', hq', hsuffix⟩ := ih h
      exact ⟨q', hq', hsuffix.trans ⟨s, hpass.1.symm⟩⟩
  | kept before c t hscan ih =>
    rw [hscan] at h
    rcases List.suffix_cons_iff.mp h with heq | h
    · exact ⟨⟨before, c :: t⟩, heq.trans hscan.symm, List.suffix_refl _⟩
    · obtain ⟨q', hq', hsuffix⟩ := ih h
      exact ⟨q', hq', hsuffix.trans (List.suffix_cons c t)⟩

theorem lang_of_replaced (hre : re.Consumes) {p : Place} {s : List Char}
    (h : .replaced s ∈ scan re p) : re.Lang s := by
  obtain ⟨left, right, hsplit⟩ := List.append_of_mem h
  have hsuffix : .replaced s :: right <:+ scan re p := ⟨left, hsplit.symm⟩
  obtain ⟨⟨before, rest⟩, hq, -⟩ := scan_of_suffix hre hsuffix
  cases hmatch : re.match? ⟨before, rest⟩ with
  | some q =>
    obtain ⟨s', hs', -, hscan⟩ := scan_replaced hre hmatch
    rw [hscan] at hq
    obtain ⟨hs, -⟩ := List.cons.inj hq
    rwa [Piece.replaced.inj hs]
  | none =>
    cases rest with
    | nil =>
      rw [scan_nil hre] at hq
      cases hq
    | cons c t =>
      rw [scan_kept (List.head?_eq_none_iff.mp hmatch)] at hq
      cases hq

theorem source_ne_nil (hre : re.Consumes) {p : Place} {piece : Piece} (h : piece ∈ scan re p) :
    piece.source ≠ [] := by
  cases piece with
  | kept c => exact List.cons_ne_nil _ _
  | replaced s => exact hre s (lang_of_replaced hre h)

/-- A character is kept where nothing matches. -/
theorem ends_of_kept (hre : re.Consumes) {before : Option Char} {c : Char} {t : List Char}
    {others : List Piece} (h : scan re ⟨before, c :: t⟩ = .kept c :: others) :
    re.ends ⟨before, c :: t⟩ = [] ∧ others = scan re ⟨some c, t⟩ := by
  cases hmatch : re.match? ⟨before, c :: t⟩ with
  | some q =>
    obtain ⟨s, -, -, hscan⟩ := scan_replaced hre hmatch
    rw [hscan] at h
    cases h
  | none =>
    have hends := List.head?_eq_none_iff.mp hmatch
    rw [scan_kept hends] at h
    exact ⟨hends, (List.cons.inj h).2.symm⟩

theorem scan_keeps {w t : List Char} {before : Option Char}
    (h : ∀ x y, w = x ++ y → y ≠ [] → re.ends ⟨x.getLast?.or before, y ++ t⟩ = []) :
    scan re ⟨before, w ++ t⟩ = w.map .kept ++ scan re ⟨w.getLast?.or before, t⟩ := by
  induction w generalizing before with
  | nil => rfl
  | cons c w ih =>
    have hrest : ∀ x y, w = x ++ y → y ≠ [] →
        re.ends ⟨x.getLast?.or (some c), y ++ t⟩ = [] := by
      intro x y hw hy
      have := h (c :: x) y (by rw [hw, List.cons_append]) hy
      rwa [List.getLast?_cons, ← Option.or_some, Option.or_assoc, Option.some_or] at this
    have hhere : re.ends ⟨before, c :: (w ++ t)⟩ = [] :=
      h [] (c :: w) rfl (List.cons_ne_nil _ _)
    rw [List.cons_append, scan_kept hhere, ih hrest, List.map_cons, List.cons_append,
      List.getLast?_cons, ← Option.or_some, Option.or_assoc, Option.some_or]

/-- A stretch of the text stays if and only if nothing matches within it. -/
theorem scan_kept_iff (hre : re.Consumes) {w t : List Char} {before : Option Char} :
    (∃ others, scan re ⟨before, w ++ t⟩ = w.map .kept ++ others) ↔
      ∀ x y, w = x ++ y → y ≠ [] → re.ends ⟨x.getLast?.or before, y ++ t⟩ = [] := by
  refine ⟨?_, fun h => ⟨_, scan_keeps h⟩⟩
  rintro ⟨others, h⟩ x y hw hy
  induction x generalizing w before with
  | nil =>
    obtain ⟨c, y, rfl⟩ := List.exists_cons_of_ne_nil hy
    obtain rfl := hw
    exact (ends_of_kept hre h).1
  | cons c x ih =>
    obtain rfl := hw
    have hrest := (ends_of_kept hre h).2
    have hends : re.ends ⟨x.getLast?.or (some c), y ++ t⟩ = [] := ih hrest.symm rfl
    rwa [List.getLast?_cons, ← Option.or_some, Option.or_assoc, Option.some_or]

/-- A text that ends outside the characters of the matches is scanned apart from what follows. -/
theorem scan_append (hre : re.Consumes) {f : Char → Bool} (hf : ∀ s, re.Lang s → ∀ c ∈ s, f c = true)
    {x t : List Char} {before : Option Char} (hx : x.getLast?.all (fun c => !f c) = true) :
    ∃ pieces, scan re ⟨before, x ++ t⟩ = pieces ++ scan re ⟨x.getLast?.or before, t⟩ ∧
      sources pieces = x := by
  suffices ∀ n x before, x.length ≤ n → x.getLast?.all (fun c => !f c) = true →
      ∃ pieces, scan re ⟨before, x ++ t⟩ = pieces ++ scan re ⟨x.getLast?.or before, t⟩ ∧
        sources pieces = x from this _ x before le_rfl hx
  clear hx x before
  intro n
  induction n with
  | zero =>
    intro x before hlen hx
    obtain rfl := List.length_eq_zero_iff.mp (Nat.le_zero.mp hlen)
    exact ⟨[], rfl, rfl⟩
  | succ n ih =>
    intro x before hlen hx
    cases x with
    | nil => exact ⟨[], rfl, rfl⟩
    | cons c x =>
      cases hmatch : re.match? ⟨before, c :: x ++ t⟩ with
      | none =>
        have hlast : x.getLast?.all (fun c => !f c) = true := by
          cases x with
          | nil => rfl
          | cons d x => rwa [List.getLast?_cons_cons] at hx
        obtain ⟨pieces, hpieces, hsources⟩ := ih x (some c) (Nat.le_of_succ_le_succ hlen) hlast
        refine ⟨.kept c :: pieces, ?_, ?_⟩
        · have hhere : re.ends ⟨before, c :: (x ++ t)⟩ = [] := List.head?_eq_none_iff.mp hmatch
          rw [List.cons_append, scan_kept hhere, hpieces, List.getLast?_cons, ← Option.or_some,
            Option.or_assoc, Option.some_or, List.cons_append]
        · rw [sources, List.flatMap_cons, ← sources, hsources]
          rfl
      | some q =>
        obtain ⟨s, hs, hpass, hscan⟩ := scan_replaced hre hmatch
        -- the match ends before `t`, for the last character of the text is no part of it
        rcases List.append_eq_append_iff.mp hpass.1 with ⟨y, hy, -⟩ | ⟨y, hy, hq⟩
        · have hmem : (c :: x).getLast (List.cons_ne_nil c x) ∈ s :=
            hy ▸ List.mem_append_left y (List.getLast_mem _)
          rw [List.getLast?_eq_some_getLast (List.cons_ne_nil c x)] at hx
          simp [hf s hs _ hmem] at hx
        · have hpos : 0 < s.length := List.length_pos_iff.mpr (hre s hs)
          have hshort : y.length ≤ n := by
            have := congrArg List.length hy
            rw [List.length_append] at this
            omega
          have hlast : y.getLast?.all (fun c => !f c) = true := by
            rw [hy, List.getLast?_append] at hx
            cases hget : y.getLast? with
            | none => rfl
            | some d => rwa [hget, Option.some_or] at hx
          obtain ⟨pieces, hpieces, hsources⟩ := ih y q.before hshort hlast
          refine ⟨.replaced s :: pieces, ?_, ?_⟩
          · have hplace : q = ⟨q.before, y ++ t⟩ := by rw [← hq]
            rw [hscan, hplace, hpieces, hpass.2, hy, List.getLast?_append, Option.or_assoc]
            rfl
          · rw [sources, List.flatMap_cons, ← sources, hsources, hy]
            rfl

theorem sources_append (as bs : List Piece) : sources (as ++ bs) = sources as ++ sources bs :=
  List.flatMap_append

/-- What stands before a part of the text tells the pieces before it. -/
theorem pieces_unique (hre : re.Consumes) {p : Place} {as bs cs ds : List Piece}
    (h : scan re p = as ++ bs) (h' : scan re p = cs ++ ds) (hsources : sources as = sources cs) :
    as = cs ∧ bs = ds := by
  have hnil : ∀ pieces : List Piece, (∀ x ∈ pieces, x ∈ scan re p) → sources pieces = [] →
      pieces = [] := by
    intro pieces hpieces hempty
    cases pieces with
    | nil => rfl
    | cons x pieces =>
      rw [sources, List.flatMap_cons, List.append_eq_nil_iff] at hempty
      exact absurd hempty.1 (source_ne_nil hre (hpieces x List.mem_cons_self))
  rcases List.append_eq_append_iff.mp (h.symm.trans h') with ⟨m, rfl, rfl⟩ | ⟨m, rfl, rfl⟩
  · rw [sources_append, List.self_eq_append_right] at hsources
    obtain rfl := hnil m (fun x hx => h' ▸ by simp [hx]) hsources
    exact ⟨(List.append_nil _).symm, rfl⟩
  · rw [sources_append, List.append_right_eq_self] at hsources
    obtain rfl := hnil m (fun x hx => h ▸ by simp [hx]) hsources
    exact ⟨List.append_nil _, rfl⟩

end Scan

/-! ## Kept and replaced -/

section Pieces

variable {new : List Char}

theorem texts_append (as bs : List Piece) : texts new (as ++ bs) = texts new as ++ texts new bs :=
  List.flatMap_append

theorem sources_kept (w : List Char) : sources (w.map .kept) = w := by
  rw [sources, List.flatMap_map]
  exact List.flatMap_singleton' w

theorem texts_kept (w : List Char) : texts new (w.map .kept) = w := by
  rw [texts, List.flatMap_map]
  exact List.flatMap_singleton' w

/-- The characters before the first replacement are kept ones. -/
theorem kept_of_texts {first : Char} {w z : List Char} {pieces : List Piece}
    (hnew : new.head? = some first) (hw : first ∉ w) (h : texts new pieces = w ++ z) :
    ∃ others, pieces = w.map .kept ++ others ∧ texts new others = z := by
  induction w generalizing pieces with
  | nil => exact ⟨pieces, rfl, h⟩
  | cons c w ih =>
    rw [List.mem_cons, not_or] at hw
    cases pieces with
    | nil => cases h
    | cons piece pieces =>
      cases piece with
      | kept d =>
        change d :: texts new pieces = c :: (w ++ z) at h
        obtain ⟨rfl, hrest⟩ := List.cons.inj h
        obtain ⟨others, rfl, hothers⟩ := ih hw.2 hrest
        exact ⟨others, rfl, hothers⟩
      | replaced s =>
        change new ++ texts new pieces = c :: (w ++ z) at h
        have hhead := congrArg List.head? h
        rw [List.head?_append, hnew] at hhead
        exact absurd (Option.some.inj hhead) hw.1

/-- A part of the new text up to its end starts at a piece or within a replacement. -/
theorem suffix_texts {u : List Char} {pieces : List Piece} (h : u <:+ texts new pieces) :
    (∃ others, others <:+ pieces ∧ u = texts new others) ∨
      ∃ v others, v ≠ [] ∧ v <:+ new ∧ u = v ++ texts new others := by
  induction pieces with
  | nil =>
    obtain rfl := List.suffix_nil.mp h
    exact .inl ⟨[], List.suffix_refl _, rfl⟩
  | cons piece pieces ih =>
    obtain ⟨x, hx⟩ := h
    have hcons : x ++ u = piece.text new ++ texts new pieces := hx
    rcases List.append_eq_append_iff.mp hcons with ⟨v, hv, hu⟩ | ⟨y, -, hu⟩
    · by_cases hnil : v = []
      · exact .inl ⟨pieces, List.suffix_cons _ _, by rw [hu, hnil, List.nil_append]⟩
      · cases piece with
        | kept c =>
          refine .inl ⟨.kept c :: pieces, List.suffix_refl _, ?_⟩
          have hxnil : x = [] := by
            have := congrArg List.length hv
            rw [List.length_append] at this
            have hpos := List.length_pos_iff.mpr hnil
            change 1 = _ at this
            exact List.length_eq_zero_iff.mp (by omega)
          rw [hxnil, List.nil_append] at hv
          rw [hu, ← hv]
          rfl
        | replaced s => exact .inr ⟨v, pieces, hnil, ⟨x, hv.symm⟩, hu⟩
    · exact (ih ⟨y, hu.symm⟩).imp_left fun ⟨others, hothers, hu⟩ =>
        ⟨others, hothers.trans (List.suffix_cons _ _), hu⟩

end Pieces

end Regex
