import Maat.Orchestrator.SolverKeys

/-!
# Which keys are loaded

Three functions draw the line between the variables that are loaded and those that are not, each
by its own count. They agree for every variable whose index is written as JavaScript writes it
(`no_key_silent_iff`): an index with leading zeros, the index 0, and one that is no double are
neither loaded nor named.
-/

namespace Maat.Orchestrator.SolverKeys

open Js

variable {env : Env}

/-! ## The contiguous prefix -/

theorem numberedName_inj {i j : Nat} (h : numberedName i = numberedName j) : i = j := by
  have hdigits : Nat.toDigits 10 i = Nat.toDigits 10 j :=
    (List.cons.inj (List.append_cancel_left h)).2
  have hvalue := congrArg (Nat.ofDigitChars 10 · 0) hdigits
  simpa only [Nat.ofDigitChars_ten_toDigits] using hvalue

theorem isSet_iff {name : Str} :
    env.isSet name = true ↔ ∃ v, env.vars.lookup name = some v ∧ v.isEmpty = false := by
  unfold Env.isSet
  rw [Option.any_eq_true_iff_get]
  cases env.vars.lookup name with
  | none => simp
  | some v => simp

theorem mem_keys_of_isSet {name : Str} (h : env.isSet name = true) : name ∈ env.vars.keys := by
  obtain ⟨v, hv, -⟩ := isSet_iff.mp h
  exact AList.mem_keys.mp (AList.lookup_isSome.mp (hv ▸ rfl))

theorem le_contiguousFrom (fuel n : Nat) : n ≤ contiguousFrom env fuel n := by
  induction fuel generalizing n with
  | zero => exact le_rfl
  | succ fuel ih =>
    unfold contiguousFrom
    split
    · exact (Nat.le_succ n).trans (ih (n + 1))
    · exact le_rfl

theorem isSet_of_le {fuel n i : Nat} (hn : n < i) (hi : i ≤ contiguousFrom env fuel n) :
    env.isSet (numberedName i) = true := by
  induction fuel generalizing n with
  | zero => exact absurd hi (not_le.mpr hn)
  | succ fuel ih =>
    unfold contiguousFrom at hi
    split at hi
    · next hset =>
      rcases (Nat.succ_le_of_lt hn).lt_or_eq with hlt | rfl
      · exact ih hlt hi
      · exact hset
    · exact absurd hi (not_le.mpr hn)

theorem gap_or_exhausted (fuel n : Nat) :
    env.isSet (numberedName (contiguousFrom env fuel n + 1)) = false ∨
      contiguousFrom env fuel n = n + fuel := by
  induction fuel generalizing n with
  | zero => exact .inr rfl
  | succ fuel ih =>
    unfold contiguousFrom
    split
    · exact (ih (n + 1)).imp_right fun h => by omega
    · next hset => exact .inl (Bool.eq_false_iff.mpr hset)

/-- There are no more numbered variables in a row than variables. -/
theorem contiguous_le (env : Env) : contiguous env ≤ env.vars.keys.length := by
  have hnodup : ((List.range' 1 (contiguous env)).map numberedName).Nodup :=
    List.Nodup.map (fun _ _ => numberedName_inj) List.nodup_range'
  have hsub : (List.range' 1 (contiguous env)).map numberedName ⊆ env.vars.keys := by
    intro name hname
    obtain ⟨i, hi, rfl⟩ := List.mem_map.mp hname
    have hi := List.mem_range'_1.mp hi
    exact mem_keys_of_isSet (isSet_of_le (by omega) (show i ≤ contiguous env by omega))
  have hlen := (List.subperm_of_subset hnodup hsub).length_le
  rwa [List.length_map, List.length_range'] at hlen

theorem isSet_contiguous {i : Nat} (hpos : 0 < i) (hi : i ≤ contiguous env) :
    env.isSet (numberedName i) = true :=
  isSet_of_le hpos hi

/-- The count ends at a gap. -/
theorem gap_contiguous (env : Env) : env.isSet (numberedName (contiguous env + 1)) = false := by
  have hends : env.isSet (numberedName (contiguous env + 1)) = false ∨
      contiguous env = 0 + (env.vars.keys.length + 1) := gap_or_exhausted _ 0
  rcases hends with h | h
  · exact h
  · have hle := contiguous_le env
    omega

/-! ## What is loaded -/

theorem collectFrom_gap {fuel i : Nat} (h : env.isSet (numberedName i) = false) :
    collectFrom env fuel i = [] := by
  cases fuel with
  | zero => rfl
  | succ fuel =>
    unfold collectFrom
    split
    · next v hv =>
      split
      · rfl
      · next hne =>
        rw [isSet_iff.mpr ⟨v, hv, Bool.eq_false_iff.mpr hne⟩] at h
        cases h
    · rfl

theorem collectFrom_set {fuel i : Nat} {v : Str}
    (hv : env.vars.lookup (numberedName i) = some v) (hne : v.isEmpty = false) :
    collectFrom env (fuel + 1) i = ⟨numberedName i, v⟩ :: collectFrom env fuel (i + 1) := by
  rw [collectFrom, hv]
  simp only [hne, Bool.false_eq_true, if_false]

theorem mem_collectFrom {entry : SolverPrivateKeyEnvEntry} {fuel n : Nat} :
    entry ∈ collectFrom env fuel (n + 1) ↔ ∃ i, n < i ∧ i ≤ contiguousFrom env fuel n ∧
      entry.envVarName = numberedName i ∧
        env.vars.lookup (numberedName i) = some entry.privateKey := by
  induction fuel generalizing n with
  | zero =>
    refine iff_of_false List.not_mem_nil ?_
    rintro ⟨i, hn, hi, -⟩
    exact absurd hi (not_le.mpr hn)
  | succ fuel ih =>
    unfold contiguousFrom
    by_cases hset : env.isSet (numberedName (n + 1)) = true
    · obtain ⟨v, hv, hne⟩ := isSet_iff.mp hset
      rw [collectFrom_set hv hne, if_pos hset, List.mem_cons, ih]
      constructor
      · rintro (rfl | ⟨i, hn, hi, hname, hkey⟩)
        · exact ⟨n + 1, Nat.lt_succ_self n, le_contiguousFrom fuel (n + 1), rfl, hv⟩
        · exact ⟨i, (Nat.lt_succ_self n).trans hn, hi, hname, hkey⟩
      · rintro ⟨i, hn, hi, hname, hkey⟩
        rcases (Nat.succ_le_of_lt hn).lt_or_eq with hlt | rfl
        · exact .inr ⟨i, hlt, hi, hname, hkey⟩
        · left
          rw [hv] at hkey
          obtain ⟨name, key⟩ := entry
          cases hname
          cases hkey
          rfl
    · rw [collectFrom_gap (Bool.eq_false_iff.mpr hset), if_neg hset]
      refine iff_of_false List.not_mem_nil ?_
      rintro ⟨i, hn, hi, -⟩
      exact absurd hi (not_le.mpr hn)

/-- The variable's value is among the keys that are loaded. -/
def Loaded (env : Env) (name : Str) : Prop :=
  ∃ key, env.vars.lookup name = some key ∧ ⟨name, key⟩ ∈ collectSolverPrivateKeyEnvEntries env

theorem collectFrom_eq_nil_iff :
    collectFrom env (env.vars.keys.length + 1) 1 = [] ↔ env.isSet (numberedName 1) = false := by
  constructor
  · intro h
    rw [← Bool.not_eq_true]
    intro hset
    obtain ⟨v, hv, hne⟩ := isSet_iff.mp hset
    rw [collectFrom_set hv hne] at h
    cases h
  · exact collectFrom_gap

theorem indexedName_ne_legacyName (digits : Str) : indexedName digits ≠ legacyName := by
  intro h
  have hlen := congrArg List.length h
  rw [indexedName, List.length_append, List.length_cons] at hlen
  omega

theorem loaded_indexed_iff {digits : Str} :
    Loaded env (indexedName digits) ↔ ∃ i, 0 < i ∧ i ≤ contiguous env ∧
      digits = Nat.toDigits 10 i := by
  have hname : ∀ i, indexedName digits = numberedName i ↔ digits = Nat.toDigits 10 i := by
    intro i
    rw [numberedName, indexedName, indexedName, List.append_cancel_left_eq, List.cons.injEq,
      and_iff_right rfl]
  constructor
  · rintro ⟨key, -, hmem⟩
    unfold collectSolverPrivateKeyEnvEntries at hmem
    split at hmem
    · split at hmem
      · split at hmem
        · cases hmem
        · have hlegacy := congrArg SolverPrivateKeyEnvEntry.envVarName (List.mem_singleton.mp hmem)
          exact absurd hlegacy (indexedName_ne_legacyName digits)
      · cases hmem
    · obtain ⟨i, hpos, hi, h, -⟩ := mem_collectFrom.mp hmem
      exact ⟨i, hpos, hi, (hname i).mp h⟩
  · rintro ⟨i, hpos, hi, hdigits⟩
    have hset := isSet_contiguous hpos hi
    obtain ⟨v, hv, -⟩ := isSet_iff.mp hset
    have hmem := mem_collectFrom.mpr
      (⟨i, hpos, hi, (hname i).mpr hdigits, hv⟩ : ∃ j, 0 < j ∧ j ≤ contiguousFrom env
        (env.vars.keys.length + 1) 0 ∧
          (⟨indexedName digits, v⟩ : SolverPrivateKeyEnvEntry).envVarName = numberedName j ∧ env.vars.lookup (numberedName j) = some v)
    refine ⟨v, (hname i).mpr hdigits ▸ hv, ?_⟩
    unfold collectSolverPrivateKeyEnvEntries
    split
    · next hnil =>
      rw [hnil] at hmem
      cases hmem
    · exact hmem

theorem loaded_legacy_iff (h : env.isSet legacyName = true) :
    Loaded env legacyName ↔ env.isSet (numberedName 1) = false := by
  obtain ⟨legacy, hlegacy, hne⟩ := isSet_iff.mp h
  constructor
  · rintro ⟨key, -, hmem⟩
    unfold collectSolverPrivateKeyEnvEntries at hmem
    split at hmem
    · next hnil => exact collectFrom_eq_nil_iff.mp hnil
    · obtain ⟨i, -, -, hname, -⟩ := mem_collectFrom.mp hmem
      exact absurd hname.symm (indexedName_ne_legacyName _)
  · intro hgap
    refine ⟨legacy, hlegacy, ?_⟩
    unfold collectSolverPrivateKeyEnvEntries
    rw [collectFrom_eq_nil_iff.mpr hgap, hlegacy]
    simp only [hne, Bool.false_eq_true, if_false, List.mem_singleton]

/-! ## What is named -/

/-- The message is about this variable. -/
def Names (message name : Str) : Prop := ∃ rest, message = name ++ ' ' :: rest

/-- A message says that the variable is ignored. -/
def Ignored (env : Env) (name : Str) : Prop :=
  (∃ message ∈ findOrphanedSolverPrivateKeyEnvVars env, Names message name) ∨
    ∃ message, legacySolverKeyIgnoredNote env = some message ∧ Names message name

theorem append_space_inj {a b x y : Str} (ha : ' ' ∉ a) (hb : ' ' ∉ b)
    (h : a ++ ' ' :: x = b ++ ' ' :: y) : a = b := by
  have htake : ∀ {s rest : Str}, ' ' ∉ s →
      (s ++ ' ' :: rest).takeWhile (· != ' ') = s := by
    intro s rest hs
    have hinside : ∀ c ∈ s, (c != ' ') = true := fun c hc =>
      bne_iff_ne.mpr fun hspace => hs (hspace ▸ hc)
    rw [List.takeWhile_append_of_pos hinside, List.takeWhile_cons_of_neg (by decide),
      List.append_nil]
  have hwords := congrArg (List.takeWhile (· != ' ')) h
  rwa [htake ha, htake hb] at hwords

theorem space_notMem {digits : Str} (h : digits.all Char.isDigit = true) : ' ' ∉ digits := by
  intro hmem
  exact absurd (List.all_eq_true.mp h ' ' hmem) (by decide)

theorem all_isDigit_toDigits (n : Nat) : (Nat.toDigits 10 n).all Char.isDigit = true :=
  List.all_eq_true.mpr fun _ => isDigit_toDigits

theorem space_notMem_integerText (n : Nat) : ' ' ∉ integerText n := by
  have hdigits : ∀ m, ' ' ∉ Nat.toDigits 10 m := fun m => space_notMem (all_isDigit_toDigits m)
  unfold integerText
  dsimp only
  generalize shortest n = c
  split
  · simp [hdigits]
  · have h := hdigits c.1
    split
    · next d heq =>
      rw [heq] at h
      simp_all
    · next d rest _ heq =>
      rw [heq] at h
      simp_all
    · exact List.not_mem_nil

theorem space_notMem_text (idx : Number) : ' ' ∉ idx.integerText := by
  cases idx with
  | finite q => exact space_notMem_integerText _
  | nan | infinity | negInfinity => decide

/-- What a text of digits is read as. -/
theorem ofDigits_cases (digits : Str) :
    ∃ m : Nat, double (Nat.ofDigitChars 10 digits 0 : Nat) = m ∧ double m = m ∧
      ((m : ℚ) < 2 ^ 1024 ∧ Number.ofDigits digits = .finite m ∨
        ¬(m : ℚ) < 2 ^ 1024 ∧ Number.ofDigits digits = .infinity) := by
  obtain ⟨m, hm, hfixed⟩ := double_natCast_fixed (Nat.ofDigitChars 10 digits 0)
  refine ⟨m, hm, hfixed, ?_⟩
  unfold Number.ofDigits
  dsimp only
  rw [hm]
  by_cases hlt : (m : ℚ) < 2 ^ 1024
  · exact .inl ⟨hlt, if_pos hlt⟩
  · exact .inr ⟨hlt, if_neg hlt⟩

theorem text_finite (m : Nat) : (Number.finite m).integerText = integerText m := by
  show integerText ⌊(m : ℚ)⌋.toNat = _
  rw [Int.floor_natCast, Int.toNat_natCast]

theorem indexedName_eq (digits : Str) : indexedName digits = (legacyName ++ ['_']) ++ digits := by
  rw [indexedName, List.append_assoc, List.singleton_append]

theorem drop_indexedName (digits : Str) :
    (indexedName digits).drop (legacyName.length + 1) = digits := by
  have hlen : (legacyName ++ ['_']).length = legacyName.length + 1 := by
    rw [List.length_append, List.length_singleton]
  rw [indexedName_eq, ← hlen, List.drop_left]

theorem isPrefixOf_indexedName (digits : Str) :
    (legacyName ++ ['_']).isPrefixOf (indexedName digits) = true := by
  rw [indexedName_eq]
  exact List.isPrefixOf_iff_prefix.mpr (List.prefix_append _ _)

theorem indexDigits_eq_some {name digits : Str} :
    indexDigits name = some digits ↔
      name = indexedName digits ∧ digits ≠ [] ∧ digits.all Char.isDigit = true := by
  unfold indexDigits
  constructor
  · intro h
    split at h
    · next hstart =>
      obtain ⟨t, rfl⟩ := List.isPrefixOf_iff_prefix.mp hstart
      rw [← indexedName_eq, drop_indexedName] at h
      dsimp only at h
      split at h
      · next hdigits =>
        cases h
        exact ⟨(indexedName_eq _).symm, List.isEmpty_eq_false_iff.mp hdigits.1, hdigits.2⟩
      · cases h
    · cases h
  · rintro ⟨rfl, hne, hdigits⟩
    have hfull := List.isEmpty_eq_false_iff.mpr hne
    simp only [isPrefixOf_indexedName, drop_indexedName, hfull, hdigits, and_self, if_true]

/-- A variable with an index is set. -/
structure SetAt (env : Env) (digits : Str) : Prop where
  ne_nil : digits ≠ []
  isDigits : digits.all Char.isDigit = true
  isSet : env.isSet (indexedName digits) = true

/-- The index is past the first gap. -/
def Past (env : Env) (digits : Str) : Prop :=
  Number.lt (.ofInt (contiguous env)) (.ofDigits digits) = true

theorem mem_orphanIndices {idx : Number} :
    idx ∈ orphanIndices env ↔
      ∃ digits, SetAt env digits ∧ Past env digits ∧ idx = .ofDigits digits := by
  unfold orphanIndices Past
  rw [List.mem_mergeSort, List.mem_filterMap]
  constructor
  · rintro ⟨key, -, h⟩
    obtain ⟨digits, hdigits, h⟩ := Option.bind_eq_some_iff.mp h
    obtain ⟨rfl, hne, hall⟩ := indexDigits_eq_some.mp hdigits
    dsimp only at h
    split at h
    · next hpast =>
      obtain ⟨hpast, hset⟩ := Bool.and_eq_true_iff.mp hpast
      cases h
      exact ⟨digits, ⟨hne, hall, hset⟩, hpast, rfl⟩
    · cases h
  · rintro ⟨digits, hset, hpast, rfl⟩
    refine ⟨indexedName digits, mem_keys_of_isSet hset.isSet, Option.bind_eq_some_iff.mpr
      ⟨digits, indexDigits_eq_some.mpr ⟨rfl, hset.ne_nil, hset.isDigits⟩, ?_⟩⟩
    dsimp only
    rw [hpast, hset.isSet]
    rfl

theorem indexedName_append (digits rest : Str) :
    indexedName digits ++ rest = legacyName ++ '_' :: (digits ++ rest) := by
  rw [indexedName, List.append_assoc, List.cons_append]

theorem not_names_note {digits : Str} : ¬Names legacyNote (indexedName digits) := by
  rintro ⟨rest, h⟩
  rw [indexedName_append, legacyNote, List.append_assoc, List.append_assoc] at h
  have hrest := List.append_cancel_left h
  exact absurd (congrArg List.head? hrest) (by simp)

theorem ignored_indexed_iff {digits : Str} (hdigits : digits.all Char.isDigit = true) :
    Ignored env (indexedName digits) ↔ ∃ other, SetAt env other ∧ Past env other ∧
      (Number.ofDigits other).integerText = digits := by
  unfold Ignored findOrphanedSolverPrivateKeyEnvVars
  constructor
  · rintro (⟨message, hmem, rest, hnames⟩ | ⟨message, hnote, hnames⟩)
    · obtain ⟨idx, hidx, rfl⟩ := List.mem_map.mp hmem
      obtain ⟨other, hset, hpast, rfl⟩ := mem_orphanIndices.mp hidx
      refine ⟨other, hset, hpast, ?_⟩
      unfold orphanMessage at hnames
      rw [List.append_assoc, List.append_assoc, indexedName_append, indexedName_append] at hnames
      have hrest := (List.cons.inj (List.append_cancel_left hnames)).2
      exact append_space_inj (space_notMem_text _) (space_notMem hdigits) hrest
    · unfold legacySolverKeyIgnoredNote at hnote
      split at hnote
      · cases hnote
        exact absurd hnames not_names_note
      · cases hnote
  · rintro ⟨other, hset, hpast, htext⟩
    refine .inl ⟨_, List.mem_map.mpr ⟨_, mem_orphanIndices.mpr ⟨other, hset, hpast, rfl⟩, rfl⟩, ?_⟩
    unfold orphanMessage
    rw [htext, List.append_assoc, List.append_assoc]
    exact ⟨_, rfl⟩

theorem ignored_legacy_iff (h : env.isSet legacyName = true) :
    Ignored env legacyName ↔ env.isSet (numberedName 1) = true := by
  unfold Ignored findOrphanedSolverPrivateKeyEnvVars
  constructor
  · rintro (⟨message, hmem, rest, hnames⟩ | ⟨message, hnote, -⟩)
    · obtain ⟨idx, -, rfl⟩ := List.mem_map.mp hmem
      unfold orphanMessage at hnames
      rw [List.append_assoc, List.append_assoc, indexedName_append] at hnames
      exact absurd (congrArg List.head? (List.append_cancel_left hnames)) (by simp)
    · unfold legacySolverKeyIgnoredNote at hnote
      split at hnote
      · next hboth => exact (Bool.and_eq_true_iff.mp hboth).1
      · cases hnote
  · intro hone
    refine .inr ⟨legacyNote, ?_, ?_⟩
    · rw [legacySolverKeyIgnoredNote, hone, h]
      rfl
    · unfold legacyNote
      rw [List.append_assoc, List.append_assoc]
      exact ⟨_, rfl⟩

/-! ## The partition -/

/-- The index is positive and written as JavaScript writes it. -/
def Plain (digits : Str) : Prop :=
  0 < Nat.ofDigitChars 10 digits 0 ∧ (Number.ofDigits digits).integerText = digits

/-- The variables that hold the solvers' keys. -/
inductive Configured (env : Env) : Str → Prop where
  | indexed (digits : Str) : SetAt env digits → Configured env (indexedName digits)
  | legacy : env.isSet legacyName = true → Configured env legacyName

theorem past_finite {m : Nat} : Number.lt (.ofInt (contiguous env)) (.finite m) = true ↔
    contiguous env < m := by
  simp [Number.lt, Number.ofInt]

theorem contiguous_lt (env : Env) : contiguous env < 2 ^ 53 := (contiguous_le env).trans_lt env.few

/-- What is loaded is not past the gap. -/
theorem not_past_toDigits {i : Nat} (hi : i ≤ contiguous env) : ¬Past env (Nat.toDigits 10 i) := by
  have hlt := contiguous_lt env
  obtain ⟨m, hm, -, ⟨-, hidx⟩ | ⟨hbig, -⟩⟩ := ofDigits_cases (Nat.toDigits 10 i)
  · rw [Nat.ofDigitChars_ten_toDigits, double_natCast (by omega)] at hm
    have hm : i = m := by exact_mod_cast hm
    unfold Past
    rw [hidx, past_finite]
    omega
  · rw [Nat.ofDigitChars_ten_toDigits, double_natCast (by omega)] at hm
    have hm : i = m := by exact_mod_cast hm
    have hsmall : (m : ℚ) < 2 ^ 1024 := by
      rw [← hm]
      calc (i : ℚ) < 2 ^ 53 := by exact_mod_cast hi.trans_lt hlt
        _ ≤ 2 ^ 1024 := pow_le_pow_right₀ one_le_two (by omega)
    exact absurd hsmall hbig

/-- An index up to the gap that is written plainly is one of those that are loaded. -/
theorem eq_toDigits_of_plain {digits : Str} (hplain : Plain digits) (hpast : ¬Past env digits) :
    ∃ i, 0 < i ∧ i ≤ contiguous env ∧ digits = Nat.toDigits 10 i := by
  have hlt := contiguous_lt env
  unfold Past at hpast
  obtain ⟨m, hm, hfixed, ⟨-, hidx⟩ | ⟨-, hidx⟩⟩ := ofDigits_cases digits
  · rw [hidx, past_finite, not_lt] at hpast
    have hvalue := eq_of_double_natCast (by omega) hm
    have hpos : 0 < m := hvalue ▸ hplain.1
    refine ⟨m, hpos, hpast, ?_⟩
    have htext := hplain.2
    rw [hidx, text_finite, integerText_of_lt hpos (by omega)] at htext
    exact htext.symm
  · rw [hidx] at hpast
    exact absurd rfl hpast

theorem plain_toDigits {i : Nat} (hpos : 0 < i) (hi : i ≤ contiguous env) :
    Plain (Nat.toDigits 10 i) := by
  have hlt := contiguous_lt env
  refine ⟨by rwa [Nat.ofDigitChars_ten_toDigits], ?_⟩
  have hpast := not_past_toDigits hi
  unfold Past at hpast
  obtain ⟨m, hm, -, ⟨-, hidx⟩ | ⟨-, hidx⟩⟩ := ofDigits_cases (Nat.toDigits 10 i)
  · rw [Nat.ofDigitChars_ten_toDigits, double_natCast (by omega)] at hm
    have hm : i = m := by exact_mod_cast hm
    rw [hidx, text_finite, ← hm, integerText_of_lt hpos (by omega)]
  · rw [hidx] at hpast
    exact absurd rfl hpast

/-- A name that a message gives is read back as the index it was written for. -/
theorem plain_of_text {digits other : Str} (hne : digits ≠ [])
    (hdigits : digits.all Char.isDigit = true) (hpast : Past env other)
    (htext : (Number.ofDigits other).integerText = digits) :
    Plain digits ∧ Number.ofDigits digits = Number.ofDigits other := by
  unfold Past at hpast
  obtain ⟨m, -, hfixed, ⟨hsmall, hidx⟩ | ⟨-, hidx⟩⟩ := ofDigits_cases other
  · rw [hidx, text_finite] at htext
    have hread : double (Nat.ofDigitChars 10 digits 0 : Nat) = m := by
      rw [← htext]
      exact ofDigits_integerText hfixed (htext ▸ List.all_eq_true.mp hdigits) (htext ▸ hne)
    have hsame : Number.ofDigits digits = .finite m := by
      unfold Number.ofDigits
      dsimp only
      rw [hread, if_pos hsmall]
    rw [hidx, past_finite] at hpast
    refine ⟨⟨?_, by rw [hsame, text_finite, htext]⟩, hsame.trans hidx.symm⟩
    rcases Nat.eq_zero_or_pos (Nat.ofDigitChars 10 digits 0) with hzero | hpos
    · rw [hzero, Nat.cast_zero, double_zero] at hread
      have : m = 0 := by exact_mod_cast hread.symm
      omega
    · exact hpos
  · rw [hidx] at htext
    rw [← htext] at hdigits
    exact absurd hdigits (by decide)

/-- Every variable for a solver's key is loaded or named as ignored, and not both, if and only if
the indices of those that are set are written plainly. -/
theorem no_key_silent_iff (env : Env) :
    (∀ name, Configured env name → Xor (Loaded env name) (Ignored env name)) ↔
      ∀ digits, SetAt env digits → Plain digits := by
  constructor
  · intro h digits hset
    rcases h _ (.indexed digits hset) with ⟨hloaded, -⟩ | ⟨hignored, -⟩
    · obtain ⟨i, hpos, hi, rfl⟩ := loaded_indexed_iff.mp hloaded
      exact plain_toDigits hpos hi
    · obtain ⟨other, -, hpast, htext⟩ := (ignored_indexed_iff hset.isDigits).mp hignored
      exact (plain_of_text hset.ne_nil hset.isDigits hpast htext).1
  · intro h name hconfigured
    cases hconfigured with
    | legacy hset =>
      rw [loaded_legacy_iff hset, ignored_legacy_iff hset]
      cases env.isSet (numberedName 1) <;> decide
    | indexed digits hset =>
      by_cases hpast : Past env digits
      · refine .inr ⟨(ignored_indexed_iff hset.isDigits).mpr
          ⟨digits, hset, hpast, (h digits hset).2⟩, fun hloaded => ?_⟩
        obtain ⟨i, -, hi, rfl⟩ := loaded_indexed_iff.mp hloaded
        exact not_past_toDigits hi hpast
      · refine .inl ⟨loaded_indexed_iff.mpr (eq_toDigits_of_plain (h digits hset) hpast),
          fun hignored => ?_⟩
        obtain ⟨other, hother, hpast', htext⟩ := (ignored_indexed_iff hset.isDigits).mp hignored
        rw [(h other hother).2] at htext
        exact hpast (htext ▸ hpast')

/-- `_1` and `_01` are set. -/
def paddedEnv : Env where
  vars := (AList.singleton (indexedName ['0', '1']) ['b']).insert (numberedName 1) ['a']
  few := by decide

/-- The second of them is neither loaded nor named. -/
theorem padded_index_silent :
    Configured paddedEnv (indexedName ['0', '1']) ∧
      ¬Loaded paddedEnv (indexedName ['0', '1']) ∧ ¬Ignored paddedEnv (indexedName ['0', '1']) := by
  have hcollect : collectSolverPrivateKeyEnvEntries paddedEnv = [⟨numberedName 1, ['a']⟩] := by
    decide
  have horphans : findOrphanedSolverPrivateKeyEnvVars paddedEnv = [] := by decide +kernel
  have hnote : legacySolverKeyIgnoredNote paddedEnv = none := by decide
  refine ⟨.indexed _ ⟨by decide, by decide, by decide⟩, ?_, ?_⟩
  · rintro ⟨key, -, hmem⟩
    rw [hcollect, List.mem_singleton] at hmem
    have hname : indexedName ['0', '1'] = numberedName 1 :=
      congrArg SolverPrivateKeyEnvEntry.envVarName hmem
    exact absurd hname (by decide)
  · rintro (⟨message, hmem, -⟩ | ⟨message, hmessage, -⟩)
    · rw [horphans] at hmem
      cases hmem
    · rw [hnote] at hmessage
      cases hmessage

end Maat.Orchestrator.SolverKeys
