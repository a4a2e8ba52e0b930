import Maat.Orchestrator.Handshake

/-!
# Where a chunk may end

The handler acts on the first buffer in which its pattern matches, and the pattern's token has no
end of its own. So what it records is the signature up to the first chunk boundary inside it
(`read_calls`), and the child, which looks at each chunk alone, misses a `GO` that a boundary cuts.
`handshake_iff` puts the two together: the handshake works exactly for the chunkings that cut
neither.
-/

namespace Maat.Orchestrator

/-! ## The pattern -/

theorem after?_eq_some {p t rest : List Nat} : after? p t = some rest ↔ t = p ++ rest := by
  induction p generalizing t with
  | nil => simp only [after?, Option.some.injEq, List.nil_append]
  | cons x p ih =>
    cases t with
    | nil => simp only [after?, reduceCtorEq, List.cons_append, List.nil_eq]
    | cons y t =>
      simp only [after?]
      split
      · next hxy => rw [ih, hxy, List.cons_append, List.cons.injEq, and_iff_right rfl]
      · next hxy =>
        refine ⟨nofun, fun h => ?_⟩
        rw [List.cons_append] at h
        exact absurd (List.cons.inj h).1.symm hxy

/-- A word whose last letter stands nowhere else in it does not start before itself. -/
theorem not_prefix_straddle {m D r : List Nat} {x : Nat} (hx : x ∉ m) (hD : D ≠ [])
    (hno : ¬ (m ++ [x]) <+: D) : ¬ (m ++ [x]) <+: D ++ ((m ++ [x]) ++ r) := by
  intro h
  rcases List.prefix_or_prefix_of_prefix h (List.prefix_append D _) with hshort | ⟨e, he⟩
  · exact hno hshort
  · -- what is left of the word after `D` would be a shorter start of it with the same last letter
    rw [← he] at h
    have hrest := (List.prefix_append_right_inj D).mp h
    have hlen : e.length ≤ m.length := by
      have := congrArg List.length he
      have := List.length_pos_iff.mpr hD
      simp only [List.length_append, List.length_singleton] at *
      omega
    rw [he, List.append_assoc] at hrest
    have hem : e <+: m :=
      List.prefix_of_prefix_length_le hrest (List.prefix_append m _) hlen
    rcases List.eq_nil_or_concat' e with rfl | ⟨e', y, rfl⟩
    · rw [List.append_nil] at he
      exact hno (he ▸ List.prefix_refl _)
    · rw [← List.append_assoc] at he
      obtain ⟨-, hy⟩ := List.append_inj' he rfl
      obtain rfl := List.singleton_inj.mp hy
      exact hx (hem.subset (List.mem_append_right _ List.mem_cons_self))

/-- `SETTLING_SIG:` as code points. -/
abbrev markerText : List Nat := marker.map UInt8.toNat

theorem markerText_ends : ∃ m, markerText = m ++ [58] ∧ 58 ∉ m :=
  ⟨markerText.dropLast, by decide, by decide⟩

theorem not_marker_straddle {D r : List Nat} (hD : D ≠ []) (hno : ¬ markerText <+: D) :
    ¬ markerText <+: D ++ (markerText ++ r) := by
  obtain ⟨m, hm, hx⟩ := markerText_ends
  rw [hm] at hno ⊢
  exact not_prefix_straddle hx hD hno

theorem matchSig_of_after {t rest : List Nat} {c : Nat} {token : List Nat}
    (hafter : after? markerText t = some rest)
    (htoken : rest.takeWhile (fun x => !isSpace x) = c :: token) :
    matchSig t = some (c :: token) := by
  cases t with
  | nil => cases hafter
  | cons x t =>
    rw [matchSig, hafter]
    simp only [htoken]

/-- Without something after a marker there is no match. -/
theorem matchSig_eq_none {t : List Nat} (h : ∀ c, ¬ (markerText ++ [c]) <:+: t) :
    matchSig t = none := by
  induction t with
  | nil => rfl
  | cons x t ih =>
    have htail := ih fun c hc => h c (hc.trans (List.suffix_cons x t).isInfix)
    unfold matchSig
    split
    · exact htail
    · next rest hrest =>
      split
      · exact htail
      · next y sig htoken =>
        cases rest with
        | nil => cases htoken
        | cons z rest =>
          have hstart : x :: t = markerText ++ ([z] ++ rest) := after?_eq_some.mp hrest
          rw [← List.append_assoc] at hstart
          exact absurd ⟨[], rest, hstart.symm⟩ (h z)

/-- A buffer that ends inside the marker. -/
theorem matchSig_before {D m : List Nat} (hD : ¬ markerText <:+: D) (hm : m <+: markerText) :
    matchSig (D ++ m) = none := by
  apply matchSig_eq_none
  rintro c ⟨L, R, h⟩
  rw [List.append_assoc] at h
  have hlen := congrArg List.length h
  have hmlen := hm.length_le
  simp only [List.length_append, List.length_singleton] at hlen
  -- the marker would start in `D`
  obtain ⟨D', hD'⟩ : L <+: D :=
    List.prefix_of_prefix_length_le (h ▸ List.prefix_append L _) (List.prefix_append D m)
      (by omega)
  have hne : D' ≠ [] := by
    rintro rfl
    rw [List.append_nil] at hD'
    rw [hD'] at hlen
    omega
  rw [← hD', List.append_assoc L D'] at h
  have hrest := List.append_cancel_left h
  have hstarts : markerText <+: D' ++ m := by
    rw [← hrest, List.append_assoc]
    exact List.prefix_append _ _
  have hno : ¬ markerText <+: D' := fun hp =>
    hD (hD' ▸ (hp.isInfix.trans (List.suffix_append L D').isInfix))
  obtain ⟨m', hm'⟩ := hm
  refine not_marker_straddle (r := []) hne hno (hstarts.trans ?_)
  rw [List.append_nil, ← hm', ← List.append_assoc]
  exact List.prefix_append _ _

/-- A buffer that goes on after the marker. -/
theorem matchSig_after {D token rest : List Nat} (hD : ¬ markerText <:+: D) (hne : token ≠ [])
    (htoken : ∀ c ∈ token, isSpace c = false) (hrest : ∀ c ∈ rest.head?, isSpace c = true) :
    matchSig (D ++ (markerText ++ (token ++ rest))) = some token := by
  have htake : (token ++ rest).takeWhile (fun x => !isSpace x) = token := by
    rw [List.takeWhile_append_of_pos fun c hc => by rw [htoken c hc]; rfl]
    cases rest with
    | nil => exact List.append_nil token
    | cons c rest =>
      rw [List.takeWhile_cons, hrest c rfl]
      exact List.append_nil token
  induction D with
  | nil =>
    obtain ⟨x, token, rfl⟩ := List.exists_cons_of_ne_nil hne
    exact matchSig_of_after (after?_eq_some.mpr rfl) htake
  | cons x D ih =>
    have hno : ¬ markerText <+: x :: D := fun hp => hD hp.isInfix
    have hnone : after? markerText (x :: (D ++ (markerText ++ (token ++ rest)))) = none := by
      rw [Option.eq_none_iff_forall_ne_some]
      intro r hr
      refine not_marker_straddle (r := token ++ rest) (List.cons_ne_nil x D) hno ?_
      exact ⟨r, (after?_eq_some.mp hr).symm⟩
    rw [List.cons_append, matchSig, hnone]
    exact ih fun hin => hD (hin.trans (List.suffix_cons x D).isInfix)

/-! ## The stream -/

/-- A chunk ends after the first `n` bytes of the stream. -/
def Cut (chunks : List (List UInt8)) (n : Nat) : Prop :=
  ∃ cs, cs <+: chunks ∧ cs.flatten.length = n

instance (chunks : List (List UInt8)) (n : Nat) : Decidable (Cut chunks n) :=
  decidable_of_iff (∃ cs ∈ chunks.inits, cs.flatten.length = n)
    (exists_congr fun _ => and_congr_left' (List.mem_inits _ _))

/-- The chunk that brings the byte after the first `n`. -/
theorem exists_chunk {chunks : List (List UInt8)} {n : Nat} (h : n < chunks.flatten.length) :
    ∃ cs₁ c cs₂, chunks = cs₁ ++ c :: cs₂ ∧ cs₁.flatten.length ≤ n ∧
      n < (cs₁ ++ [c]).flatten.length := by
  induction chunks generalizing n with
  | nil => exact absurd h (Nat.not_lt_zero n)
  | cons c cs ih =>
    by_cases hc : n < c.length
    · exact ⟨[], c, cs, rfl, Nat.zero_le n, by simpa using hc⟩
    · rw [List.flatten_cons, List.length_append] at h
      obtain ⟨cs₁, d, cs₂, rfl, hle, hlt⟩ := ih (n := n - c.length) (by omega)
      refine ⟨c :: cs₁, d, cs₂, rfl, ?_, ?_⟩
      · rw [List.flatten_cons, List.length_append]
        omega
      · rw [List.cons_append, List.flatten_cons, List.length_append]
        omega

theorem flatten_mono {cs chunks : List (List UInt8)} (h : cs <+: chunks) :
    cs.flatten <+: chunks.flatten := by
  obtain ⟨rest, rfl⟩ := h
  rw [List.flatten_append]
  exact List.prefix_append _ _

theorem flatten_length_le {cs ds : List (List UInt8)} (h : cs <+: ds) :
    cs.flatten.length ≤ ds.flatten.length := (flatten_mono h).length_le

/-- A start of the stream ends before a chunk or contains it. -/
theorem prefix_around {cs₁ cs₂ p : List (List UInt8)} {c : List UInt8}
    (h : p <+: cs₁ ++ c :: cs₂) : p <+: cs₁ ∨ (cs₁ ++ [c]) <+: p := by
  have hwhole : (cs₁ ++ [c]) <+: cs₁ ++ c :: cs₂ := ⟨cs₂, by simp⟩
  rcases List.prefix_or_prefix_of_prefix h hwhole with hp | hp
  · obtain ⟨r, hr⟩ := hp
    rcases List.eq_nil_or_concat' r with rfl | ⟨r', y, rfl⟩
    · rw [List.append_nil] at hr
      exact .inr (hr ▸ List.prefix_refl _)
    · rw [← List.append_assoc] at hr
      exact .inl ⟨r', (List.append_inj' hr rfl).1⟩
  · exact .inr hp

/-! ## The handler -/

section handler

variable {intentId : Js.Str}

/-- What the handler does with the first match. -/
def recorded (intentId : Js.Str) (sig : List Nat) : List HandshakeCall :=
  [.markSettling intentId sig, .setSettling intentId sig, .endStdin goMessage]

theorem read_append (s : Settler) (cs ds : List (List UInt8)) :
    s.read intentId (cs ++ ds) = (s.read intentId cs).read intentId ds := List.foldl_append

/-- While nothing matches, the buffer grows. -/
theorem read_unmatched {s : Settler} (hs : s.sigHandled = false) {cs : List (List UInt8)}
    (h : ∀ p, p <+: cs → matchSig (s.settleOut ++ Utf8.text p) = none) :
    s.read intentId cs = { s with settleOut := s.settleOut ++ Utf8.text cs } := by
  induction cs generalizing s with
  | nil =>
    simp only [Settler.read, List.foldl_nil, Utf8.text_nil, List.append_nil]
  | cons c cs ih =>
    have hone := h [c] ⟨cs, rfl⟩
    rw [Utf8.text_cons, Utf8.text_nil, List.append_nil] at hone
    have hstep : s.onData intentId c =
        { s with settleOut := s.settleOut ++ Utf8.toString c } := by
      simp only [Settler.onData, hs, Bool.false_eq_true, if_false, hone]
    have hrest := ih (s := { s with settleOut := s.settleOut ++ Utf8.toString c }) hs
      fun p hp => by
        have hnext := h (c :: p) ((List.prefix_cons_inj c).mpr hp)
        rwa [Utf8.text_cons, ← List.append_assoc] at hnext
    rw [Settler.read, List.foldl_cons, hstep]
    rw [Settler.read] at hrest
    rw [hrest, Utf8.text_cons, List.append_assoc]

/-- After the first match nothing is recorded. -/
theorem read_handled {s : Settler} (hs : s.sigHandled = true) (cs : List (List UInt8)) :
    (s.read intentId cs).calls = s.calls := by
  induction cs generalizing s with
  | nil => rfl
  | cons c cs ih =>
    have hstep : s.onData intentId c =
        { s with settleOut := s.settleOut ++ Utf8.toString c } := by
      simp only [Settler.onData, hs, if_true]
    rw [Settler.read, List.foldl_cons, hstep]
    exact ih (s := { s with settleOut := s.settleOut ++ Utf8.toString c }) hs

/-- The first buffer that matches decides what is recorded. -/
theorem read_first {cs₁ cs₂ : List (List UInt8)} {c : List UInt8} {sig : List Nat}
    (hbefore : ∀ p, p <+: cs₁ → matchSig (Utf8.text p) = none)
    (hmatch : matchSig (Utf8.text (cs₁ ++ [c])) = some sig) :
    (Settler.spawned.read intentId (cs₁ ++ c :: cs₂)).calls = recorded intentId sig := by
  have hfirst : Settler.spawned.read intentId cs₁ =
      { Settler.spawned with settleOut := Utf8.text cs₁ } := read_unmatched rfl hbefore
  rw [Utf8.text_append, Utf8.text_cons, Utf8.text_nil, List.append_nil] at hmatch
  rw [read_append, hfirst, Settler.read, List.foldl_cons]
  simp only [Settler.onData, Settler.spawned, Bool.false_eq_true, if_false, hmatch]
  rw [← Settler.read]
  exact read_handled rfl cs₂

end handler

/-! ## What is recorded -/

/-- A printable ASCII byte, as all of base58 is. -/
def Printable (b : UInt8) : Prop := 0x21 ≤ b ∧ b ≤ 0x7E

/-- The child's stdout: a text, one line with the signature, another text. -/
structure Prints (chunks : List (List UInt8)) (pre sig post : List UInt8) : Prop where
  bytes : chunks.flatten = pre ++ (marker ++ (sig ++ 0x0A :: post))
  once : ¬ marker <:+: pre
  sig_ne : sig ≠ []
  printable : ∀ b ∈ sig, Printable b

theorem Printable.ascii {b : UInt8} (h : Printable b) : b < 0x80 := by
  have hle := UInt8.le_iff_toNat_le.mp h.2
  rw [UInt8.lt_iff_toNat_lt]
  simp only [UInt8.reduceToNat] at hle ⊢
  omega

theorem Printable.not_space {b : UInt8} (h : Printable b) : isSpace b.toNat = false := by
  have hlow := UInt8.le_iff_toNat_le.mp h.1
  have hhigh := UInt8.le_iff_toNat_le.mp h.2
  simp only [UInt8.reduceToNat] at hlow hhigh
  rw [isSpace, decide_eq_false_iff_not]
  omega

theorem marker_ascii : ∀ b ∈ marker, b < 0x80 := by decide +kernel

/-- The text holds no marker that the bytes do not. -/
theorem not_marker_text {cs : List (List UInt8)} (h : ¬ marker <:+: cs.flatten) :
    ¬ markerText <:+: Utf8.text cs := by
  rintro ⟨L, M, htext⟩
  rw [List.append_assoc] at htext
  obtain ⟨cs₁, cs₂, hflat, -, -⟩ := Utf8.split_text marker_ascii (by decide) htext.symm
  exact h ⟨cs₁.flatten, cs₂.flatten, by rw [hflat, List.append_assoc]⟩

theorem match_before {cs : List (List UInt8)} {pre : List UInt8} (hpre : ¬ marker <:+: pre)
    (h : cs.flatten <+: pre ++ marker) : matchSig (Utf8.text cs) = none := by
  rcases List.prefix_or_prefix_of_prefix h (List.prefix_append pre marker) with hin | ⟨m, hm⟩
  · have hno := not_marker_text fun hmark => hpre (hmark.trans hin.isInfix)
    have hnone := matchSig_before hno List.nil_prefix
    rwa [List.append_nil] at hnone
  · rw [← hm] at h
    have hmarker := (List.prefix_append_right_inj pre).mp h
    cases m with
    | nil =>
      rw [List.append_nil] at hm
      have hnone := matchSig_before (not_marker_text (hm ▸ hpre)) List.nil_prefix
      rwa [List.append_nil] at hnone
    | cons b m =>
      have hflat : cs.flatten = pre ++ ((b :: m) ++ []) := by rw [List.append_nil, hm]
      obtain ⟨cs₁, cs₂, h₁, h₂, htext⟩ := Utf8.text_split (List.cons_ne_nil b m)
        (fun x hx => marker_ascii x (hmarker.subset hx)) hflat
      rw [htext, Utf8.flatten_eq_nil_text h₂, List.append_nil]
      exact matchSig_before (not_marker_text (h₁ ▸ hpre)) (hmarker.map UInt8.toNat)

/-- A buffer with something after the marker matches that, up to the end of the line. -/
theorem match_after {cs : List (List UInt8)} {pre token rest : List UInt8}
    (hpre : ¬ marker <:+: pre) (hne : token ≠ []) (htoken : ∀ b ∈ token, Printable b)
    (h : cs.flatten = pre ++ (marker ++ (token ++ rest))) (hrest : ∀ b ∈ rest.head?, b = 0x0A) :
    matchSig (Utf8.text cs) = some (token.map UInt8.toNat) := by
  have hne' : token.map UInt8.toNat ≠ [] := fun hnil => hne (List.map_eq_nil_iff.mp hnil)
  have hspace : ∀ c ∈ token.map UInt8.toNat, isSpace c = false := by
    intro c hc
    obtain ⟨b, hb, rfl⟩ := List.mem_map.mp hc
    exact (htoken b hb).not_space
  have hascii : ∀ b ∈ marker ++ token, b < 0x80 := by
    intro b hb
    rcases List.mem_append.mp hb with hb | hb
    · exact marker_ascii b hb
    · exact (htoken b hb).ascii
  cases rest with
  | nil =>
    have hflat : cs.flatten = pre ++ ((marker ++ token) ++ []) := by
      rw [h, List.append_nil, List.append_nil]
    obtain ⟨cs₁, cs₂, h₁, h₂, htext⟩ :=
      Utf8.text_split (List.append_ne_nil_of_right_ne_nil _ hne) hascii hflat
    rw [htext, Utf8.flatten_eq_nil_text h₂, List.map_append, List.append_assoc]
    exact matchSig_after (not_marker_text (h₁ ▸ hpre)) hne' hspace (fun _ hc => by cases hc)
  | cons b rest =>
    obtain rfl := hrest b rfl
    have hline : ∀ b ∈ (marker ++ token) ++ [0x0A], b < 0x80 := by
      intro b hb
      rcases List.mem_append.mp hb with hb | hb
      · exact hascii b hb
      · rw [List.mem_singleton.mp hb]
        decide
    have hflat : cs.flatten = pre ++ (((marker ++ token) ++ [0x0A]) ++ rest) := by
      rw [h, List.append_assoc, List.append_assoc]
      rfl
    obtain ⟨cs₁, cs₂, h₁, h₂, htext⟩ := Utf8.text_split (List.append_ne_nil_of_right_ne_nil _
      (List.cons_ne_nil _ _)) hline hflat
    rw [htext, List.map_append, List.map_append, List.append_assoc, List.append_assoc]
    refine matchSig_after (not_marker_text (h₁ ▸ hpre)) hne' hspace fun c hc => ?_
    obtain rfl := Option.some.inj hc
    rfl

/-- What is recorded is the signature up to the first chunk boundary inside it. -/
theorem read_calls {chunks : List (List UInt8)} {pre sig post : List UInt8}
    (h : Prints chunks pre sig post) (intentId : Js.Str) :
    ∃ k, 0 < k ∧ k ≤ sig.length ∧
      (Settler.spawned.read intentId chunks).calls =
        recorded intentId ((sig.take k).map UInt8.toNat) ∧
      (k < sig.length → Cut chunks (pre.length + marker.length + k)) ∧
      ∀ j, 0 < j → j < k → ¬ Cut chunks (pre.length + marker.length + j) := by
  have hsig := List.length_pos_iff.mpr h.sig_ne
  have hlong : pre.length + marker.length < chunks.flatten.length := by
    rw [h.bytes]
    simp only [List.length_append, List.length_cons]
    omega
  obtain ⟨cs₁, c, cs₂, rfl, hle, hlt⟩ := exists_chunk hlong
  have hwhole : (cs₁ ++ [c]) <+: cs₁ ++ c :: cs₂ := ⟨cs₂, by simp⟩
  have hbytes : (cs₁ ++ c :: cs₂).flatten = (pre ++ marker) ++ (sig ++ 0x0A :: post) := by
    rw [h.bytes, List.append_assoc]
  -- the first buffer that goes on after the marker holds `w` of the rest
  obtain ⟨w, hw⟩ : (pre ++ marker) <+: (cs₁ ++ [c]).flatten :=
    List.prefix_of_prefix_length_le (hbytes ▸ List.prefix_append _ _) (flatten_mono hwhole)
      (by rw [List.length_append]; omega)
  have hwlen := congrArg List.length hw
  simp only [List.length_append] at hwlen
  have hwrest : w <+: sig ++ 0x0A :: post := by
    have hprefix := flatten_mono hwhole
    rw [← hw, hbytes] at hprefix
    exact (List.prefix_append_right_inj _).mp hprefix
  have hbefore : ∀ p, p <+: cs₁ → matchSig (Utf8.text p) = none := by
    intro p hp
    refine match_before h.once (List.prefix_of_prefix_length_le
      (flatten_mono (hp.trans (List.prefix_append _ _))) (hbytes ▸ List.prefix_append _ _) ?_)
    rw [List.length_append]
    exact (flatten_length_le hp).trans hle
  have hcuts : ∀ j, 0 < j → j < w.length →
      ¬ Cut (cs₁ ++ c :: cs₂) (pre.length + marker.length + j) := by
    rintro j hj hjw ⟨p, hp, hlen⟩
    rcases prefix_around hp with hp | hp
    · have := flatten_length_le hp
      omega
    · have := flatten_length_le hp
      omega
  rw [List.append_assoc] at hw
  by_cases hshort : w.length ≤ sig.length
  · have hwsig : w <+: sig := List.prefix_of_prefix_length_le hwrest (List.prefix_append _ _) hshort
    have htake : sig.take w.length = w := (List.prefix_iff_eq_take.mp hwsig).symm
    have hne : w ≠ [] := by
      rintro rfl
      rw [List.length_nil] at hwlen
      omega
    have hbuffer : (cs₁ ++ [c]).flatten = pre ++ (marker ++ (w ++ [])) := by
      rw [List.append_nil, hw]
    have hmatch := match_after h.once hne (fun b hb => h.printable b (hwsig.subset hb)) hbuffer
      fun _ hb => by cases hb
    refine ⟨w.length, List.length_pos_iff.mpr hne, hshort, ?_, fun _ => ?_, hcuts⟩
    · rw [htake]
      exact read_first hbefore hmatch
    · exact ⟨cs₁ ++ [c], hwhole, by omega⟩
  · obtain ⟨r, hr⟩ : sig <+: w :=
      List.prefix_of_prefix_length_le (List.prefix_append _ _) hwrest (by omega)
    have hline : r <+: 0x0A :: post := by
      rw [← hr] at hwrest
      exact (List.prefix_append_right_inj _).mp hwrest
    have hbuffer : (cs₁ ++ [c]).flatten = pre ++ (marker ++ (sig ++ r)) := by rw [hr, hw]
    have hends : ∀ b ∈ r.head?, b = 0x0A := by
      intro b hb
      cases r with
      | nil => cases hb
      | cons x t =>
        obtain rfl := Option.some.inj hb
        obtain ⟨u, hu⟩ := hline
        exact (List.cons.inj hu).1
    have hmatch := match_after h.once h.sig_ne h.printable hbuffer hends
    refine ⟨sig.length, hsig, Nat.le_refl _, ?_, fun hlt => absurd hlt (Nat.lt_irrefl _),
      fun j hj hjk => hcuts j hj (by omega)⟩
    rw [List.take_length]
    exact read_first hbefore hmatch

/-! ## GO -/

theorem includesGo_iff {chunk : List UInt8} : includesGo chunk = true ↔ ascii "GO" <:+: chunk := by
  have hascii : ∀ b ∈ ascii "GO", b < 0x80 := by decide +kernel
  have htext : Utf8.text [chunk] = Utf8.toString chunk := List.append_nil _
  rw [includesGo, decide_eq_true_iff]
  constructor
  · rintro ⟨L, M, h⟩
    rw [List.append_assoc, ← htext] at h
    obtain ⟨cs₁, cs₂, hflat, -, -⟩ := Utf8.split_text hascii (by decide) h.symm
    refine ⟨cs₁.flatten, cs₂.flatten, ?_⟩
    rw [List.append_assoc, ← hflat]
    exact List.append_nil chunk
  · rintro ⟨xs, ys, rfl⟩
    have hflat : [xs ++ ascii "GO" ++ ys].flatten = xs ++ (ascii "GO" ++ ys) := by
      rw [← List.append_assoc]
      exact List.append_nil _
    obtain ⟨cs₁, cs₂, -, -, h⟩ := Utf8.text_split (by decide) hascii hflat
    refine ⟨Utf8.text cs₁, Utf8.text cs₂, ?_⟩
    rw [← htext, h, List.append_assoc]

/-- A settled promise stays as it is. -/
theorem waitForGo_settled {g : GoState} (h : g ≠ .pending) (events : List GoEvent) :
    events.foldl waitForGo g = g := by
  induction events with
  | nil => rfl
  | cons e events ih =>
    cases g with
    | pending => exact absurd rfl h
    | resolved => exact ih
    | rejected => exact ih

/-- The child goes on once one chunk holds all of `GO`. -/
theorem waitForGo_resolves {chunks : List (List UInt8)} :
    (chunks.map GoEvent.data).foldl waitForGo .pending = .resolved ↔
      ∃ c ∈ chunks, ascii "GO" <:+: c := by
  induction chunks with
  | nil => simp
  | cons c chunks ih =>
    rw [List.map_cons, List.foldl_cons, List.exists_mem_cons_iff, ← includesGo_iff, waitForGo]
    by_cases hgo : includesGo c = true
    · rw [if_pos hgo, waitForGo_settled (by decide)]
      exact ⟨fun _ => .inl hgo, fun _ => rfl⟩
    · rw [if_neg hgo, ih]
      exact ⟨.inr, fun h => h.resolve_left hgo⟩

theorem resolves_iff {chunks : List (List UInt8)} (h : chunks.flatten = goMessage) :
    (chunks.map GoEvent.data).foldl waitForGo .pending = .resolved ↔ ¬ Cut chunks 1 := by
  rw [waitForGo_resolves]
  constructor
  · rintro ⟨c, hc, L, R, hgo⟩ ⟨p, hp, hlen⟩
    obtain ⟨cs₁, cs₂, rfl⟩ := List.append_of_mem hc
    have hclen : 2 ≤ c.length := by
      rw [← hgo, List.length_append, List.length_append]
      have : (ascii "GO").length = 2 := by decide
      omega
    rcases prefix_around hp with hp | hp
    · -- the chunk would hold a `GO` after the first byte
      have hle := flatten_length_le hp
      have hbytes : (cs₁.flatten ++ L) ++ (ascii "GO" ++ (R ++ cs₂.flatten)) = goMessage := by
        rw [← h, List.flatten_append, List.flatten_cons, ← hgo]
        simp only [List.append_assoc]
      have htotal := congrArg List.length hbytes
      have hgolen : (ascii "GO").length = 2 := by decide
      have hmessage : goMessage.length = 3 := by decide
      simp only [List.length_append, hgolen, hmessage] at htotal
      have hdrop := congrArg (List.drop 1) hbytes
      have hone : (cs₁.flatten ++ L).length = 1 := by
        rw [List.length_append]
        omega
      rw [← hone, List.drop_left, hone] at hdrop
      exact absurd (List.cons.inj hdrop).1 (by decide)
    · have hle := flatten_length_le hp
      rw [List.flatten_append, List.length_append, List.flatten_cons, List.length_append] at hle
      omega
  · intro hcut
    have hpos : 0 < chunks.flatten.length := by
      rw [h]
      decide
    obtain ⟨cs₁, c, cs₂, rfl, hle, hlt⟩ := exists_chunk hpos
    have hnil : cs₁.flatten = [] := List.length_eq_zero_iff.mp (Nat.le_zero.mp hle)
    have hwhole : (cs₁ ++ [c]) <+: cs₁ ++ c :: cs₂ := ⟨cs₂, by simp⟩
    have hflat : (cs₁ ++ [c]).flatten = c := by simp [hnil]
    rw [hflat] at hlt
    have htwo : 2 ≤ c.length := by
      by_contra hshort
      exact hcut ⟨cs₁ ++ [c], hwhole, by rw [hflat]; omega⟩
    have hprefix : c <+: goMessage := by
      have hin := flatten_mono hwhole
      rwa [hflat, h] at hin
    have hstart : ascii "GO" <+: c :=
      List.prefix_of_prefix_length_le (by decide) hprefix htwo
    exact ⟨c, by simp, hstart.isInfix⟩

/-! ## The handshake -/

/-- The handler records the whole signature exactly if no chunk ends inside it, and the child goes
on exactly if no chunk ends inside `GO`. -/
theorem handshake_iff {chunks goChunks : List (List UInt8)} {pre sig post : List UInt8}
    (h : Prints chunks pre sig post) (hgo : goChunks.flatten = goMessage) (intentId : Js.Str) :
    ((Settler.spawned.read intentId chunks).calls = recorded intentId (sig.map UInt8.toNat) ↔
      ∀ k, 0 < k → k < sig.length → ¬ Cut chunks (pre.length + marker.length + k)) ∧
    ((goChunks.map GoEvent.data).foldl waitForGo .pending = .resolved ↔ ¬ Cut goChunks 1) := by
  refine ⟨?_, resolves_iff hgo⟩
  obtain ⟨k, hk, hle, hcalls, hcut, hnone⟩ := read_calls h intentId
  rw [hcalls]
  constructor
  · intro heq
    have hlen : k = sig.length := by
      simp only [recorded, List.cons.injEq, HandshakeCall.markSettling.injEq] at heq
      have := congrArg List.length heq.1.2
      simp only [List.length_map, List.length_take] at this
      omega
    exact fun j hj hjk => hnone j hj (hlen ▸ hjk)
  · intro hwhole
    have hlen : k = sig.length := by
      by_contra hne
      exact hwhole k hk (by omega) (hcut (by omega))
    rw [hlen, List.take_length]

theorem prints_ab {chunks : List (List UInt8)}
    (h : chunks.flatten = marker ++ (ascii "5Ab" ++ [0x0A])) :
    Prints chunks [] (ascii "5Ab") [] where
  bytes := h
  once := by decide
  sig_ne := by decide
  printable := by
    simp only [Printable]
    decide +kernel

/-- One chunk each way. -/
theorem handshake_sample :
    (Settler.spawned.read [] [marker ++ ascii "5Ab\n"]).calls =
        recorded [] ((ascii "5Ab").map UInt8.toNat) ∧
      ([goMessage].map GoEvent.data).foldl waitForGo .pending = .resolved := by
  have hprints : Prints [marker ++ ascii "5Ab\n"] [] (ascii "5Ab") [] := prints_ab (by decide)
  have hmessage : [goMessage].flatten = goMessage := List.append_nil _
  obtain ⟨hread, hgo⟩ := handshake_iff hprints hmessage []
  refine ⟨hread.mpr ?_, hgo.mpr ?_⟩
  · intro k hk hlt
    have hlen : (ascii "5Ab").length = 3 := by decide
    obtain rfl | rfl : k = 1 ∨ k = 2 := by omega
    · decide
    · decide
  · decide

/-- A chunk that ends inside the signature: its first character is recorded as the signature. And a
`GO` in two chunks is never seen. -/
theorem split_handshake_fails :
    Prints [marker ++ ascii "5", ascii "Ab\n"] [] (ascii "5Ab") [] ∧
      (Settler.spawned.read [] [marker ++ ascii "5", ascii "Ab\n"]).calls =
        recorded [] ((ascii "5").map UInt8.toNat) ∧
      (Settler.spawned.read [] [marker ++ ascii "5", ascii "Ab\n"]).calls ≠
        recorded [] ((ascii "5Ab").map UInt8.toNat) ∧
      [ascii "G", ascii "O\n"].flatten = goMessage ∧
      ([ascii "G", ascii "O\n"].map GoEvent.data).foldl waitForGo .pending ≠ .resolved :=
  ⟨prints_ab (by decide), by decide, by decide, by decide, by decide⟩

end Maat.Orchestrator
