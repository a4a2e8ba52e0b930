import Mathlib.Data.List.Nodup
import Maat.Lib.Hex
import Maat.Lib.Run

/-!
# JSON texts

`JSON.parse`, and `JSON.stringify` with an indent of two. The parser is a machine that takes one
character at a time and keeps the arrays and objects it is inside of on a stack, so that a part of
a text is a run of its own. Three facts about it are what a file format rests on: what is read is
well formed (`parse_wellFormed`), what is well formed is read back from its text
(`parse_stringify`), and of a text that ends with a brace no shorter part is read at all
(`parse_cut`).

A number is the text it was read from, and half of a surrogate pair alone is U+FFFD.
-/

namespace Json

/-! ## Members -/

section Members

variable {κ α : Type} [DecidableEq κ]

/-- Under a name that is there in its place, else at the end. -/
def put (name : κ) (a : α) : List (κ × α) → List (κ × α)
  | [] => [(name, a)]
  | m :: ms => if m.1 = name then (name, a) :: ms else m :: put name a ms

theorem put_of_notMem {name : κ} {a : α} {ms : List (κ × α)} (h : name ∉ ms.map Prod.fst) :
    put name a ms = ms ++ [(name, a)] := by
  induction ms with
  | nil => rfl
  | cons m ms ih =>
    rw [List.map_cons, List.mem_cons, not_or] at h
    rw [put, if_neg (Ne.symm h.1), ih h.2, List.cons_append]

theorem mem_put {name : κ} {a : α} {ms : List (κ × α)} {m : κ × α} (h : m ∈ put name a ms) :
    m = (name, a) ∨ m ∈ ms := by
  induction ms with
  | nil => exact .inl (List.mem_singleton.mp h)
  | cons x ms ih =>
    unfold put at h
    split at h
    · exact (List.mem_cons.mp h).imp_right (List.mem_cons_of_mem _)
    · rcases List.mem_cons.mp h with rfl | h
      · exact .inr List.mem_cons_self
      · exact (ih h).imp_right (List.mem_cons_of_mem _)

theorem nodup_put (name : κ) (a : α) {ms : List (κ × α)} (h : (ms.map Prod.fst).Nodup) :
    ((put name a ms).map Prod.fst).Nodup := by
  induction ms with
  | nil => exact List.nodup_singleton _
  | cons m ms ih =>
    obtain ⟨hm, hms⟩ := List.nodup_cons.mp h
    unfold put
    split
    · next heq => exact heq ▸ h
    · next hne =>
      refine List.nodup_cons.mpr ⟨fun hmem => ?_, ih hms⟩
      obtain ⟨x, hx, hname⟩ := List.mem_map.mp hmem
      rcases mem_put hx with rfl | hx
      · exact hne hname.symm
      · exact hm (List.mem_map.mpr ⟨x, hx, hname⟩)

theorem lookup_put [BEq κ] [LawfulBEq κ] (name other : κ) (a : α) (ms : List (κ × α)) :
    (put name a ms).lookup other = if other = name then some a else ms.lookup other := by
  induction ms with
  | nil =>
    by_cases h : other = name
    · rw [if_pos h, h, put, List.lookup_cons_self]
    · rw [if_neg h, put, List.lookup_cons, beq_false_of_ne h]
  | cons m ms ih =>
    unfold put
    split
    · next heq =>
      rw [List.lookup_cons, List.lookup_cons, heq]
      by_cases h : other = name
      · rw [if_pos h, h, beq_self_eq_true]
      · rw [if_neg h, beq_false_of_ne h]
    · next hne =>
      rw [List.lookup_cons, List.lookup_cons, ih]
      by_cases h : other = m.1
      · subst h
        simp [hne]
      · rw [beq_false_of_ne h]

end Members

/-! ## Values -/

inductive Value where
  | null
  | bool (b : Bool)
  | number (text : List Char)
  | string (text : List Char)
  | array (items : List Value)
  | object (members : List (List Char × Value))

def isDigit (c : Char) : Bool := '0' ≤ c && c ≤ '9'

def exponent : List Char → Bool
  | [] => true
  | c :: t =>
    let digits := match t with
      | '+' :: ds | '-' :: ds => ds
      | ds => ds
    (c = 'e' || c = 'E') && !digits.isEmpty && digits.all isDigit

def fraction : List Char → Bool
  | '.' :: t =>
    let (digits, rest) := t.span isDigit
    !digits.isEmpty && exponent rest
  | t => exponent t

/-- A character that may stand in a number. -/
def numeric (c : Char) : Bool :=
  isDigit c || c = '-' || c = '+' || c = '.' || c = 'e' || c = 'E'

/-- The text of a number. -/
def isNumber (t : List Char) : Bool :=
  let (digits, rest) := (match t with
    | '-' :: t => t
    | t => t).span isDigit
  t.all numeric && !t.isEmpty && (digits = ['0'] || !digits.isEmpty && digits.head? ≠ some '0') &&
    fraction rest

theorem head?_toDigits {n : Nat} (hn : 0 < n) : (Nat.toDigits 10 n).head? ≠ some '0' := by
  induction n using Nat.strong_induction_on with
  | h n ih =>
    by_cases hlt : n < 10
    · rw [Nat.toDigits_of_lt_base hlt, List.head?_cons]
      have hdigit : ∀ d < 10, 0 < d → d.digitChar ≠ '0' := by decide
      exact fun h => hdigit n hlt hn (Option.some.inj h)
    · have hge : 10 ≤ n := Nat.not_lt.mp hlt
      rw [Nat.toDigits_of_base_le (by decide) hge,
        List.head?_append_of_ne_nil _ Nat.toDigits_ne_nil]
      exact ih (n / 10) (by omega) (by omega)

/-- The decimal digits of a natural number are the text of a number. -/
theorem isNumber_toDigits (n : Nat) : isNumber (Nat.toDigits 10 n) = true := by
  have hdigits : ∀ c ∈ Nat.toDigits 10 n, isDigit c = true := by
    intro c hc
    have h := Nat.isDigit_of_mem_toDigits (by decide) (by decide) hc
    simp only [Char.isDigit, Bool.and_eq_true, decide_eq_true_eq] at h
    simp only [isDigit, Bool.and_eq_true, decide_eq_true_eq]
    exact h
  have hall : (Nat.toDigits 10 n).all numeric = true :=
    List.all_eq_true.mpr fun c hc => by simp only [numeric, hdigits c hc, Bool.true_or]
  have hne : Nat.toDigits 10 n ≠ [] := Nat.toDigits_ne_nil
  have hzero : Nat.toDigits 10 n = ['0'] ∨ (Nat.toDigits 10 n).head? ≠ some '0' := by
    rcases Nat.eq_zero_or_pos n with rfl | hn
    · exact .inl (Nat.toDigits_zero 10)
    · exact .inr (head?_toDigits hn)
  generalize Nat.toDigits 10 n = t at *
  have hspan : t.span isDigit = (t, []) := by
    rw [List.span_eq_takeWhile_dropWhile, List.takeWhile_eq_self_iff.mpr hdigits,
      List.dropWhile_eq_nil_iff.mpr hdigits]
  unfold isNumber
  split
  next digits rest hsplit =>
  have hsame : (digits, rest) = t.span isDigit := by
    rw [← hsplit]
    split
    · exact absurd (hdigits '-' List.mem_cons_self) (by decide)
    · rfl
  rw [hspan] at hsame
  obtain ⟨rfl, rfl⟩ := Prod.mk.inj hsame
  rcases hzero with rfl | hhead
  · decide
  · simp [hall, hne, hhead, fraction, exponent]

/-- Members with different names, whose values are well formed. -/
inductive Value.WellFormed : Value → Prop where
  | null : WellFormed .null
  | bool (b : Bool) : WellFormed (.bool b)
  | number {text : List Char} : isNumber text → WellFormed (.number text)
  | string (text : List Char) : WellFormed (.string text)
  | array {items : List Value} : (∀ v ∈ items, WellFormed v) → WellFormed (.array items)
  | object {members : List (List Char × Value)} : (members.map Prod.fst).Nodup →
    (∀ m ∈ members, WellFormed m.2) → WellFormed (.object members)

/-- `value?.name` -/
def Value.member (name : List Char) : Value → Option Value
  | .object members => members.lookup name
  | _ => none

/-- `value[name]`, null where there is none. -/
def Value.index (v : Value) (name : List Char) : Value := (v.member name).getD .null

def Value.isNull : Value → Bool
  | .null => true
  | _ => false

def Value.asStr : Value → Option (List Char)
  | .string text => some text
  | _ => none

def Value.asArray : Value → Option (List Value)
  | .array items => some items
  | _ => none

/-! ## Writing -/

/-- The letter of an escape of two characters. -/
def letterOf : Char → Option Char
  | '"' => some '"'
  | '\\' => some '\\'
  | '\x08' => some 'b'
  | '\x0c' => some 'f'
  | '\n' => some 'n'
  | '\r' => some 'r'
  | '\t' => some 't'
  | _ => none

def escape (c : Char) : List Char :=
  match letterOf c with
  | some letter => ['\\', letter]
  | none =>
    if c.toNat < 0x20 then ['\\', 'u', '0', '0', Hex.digit (c.toNat / 16), Hex.digit (c.toNat % 16)]
    else [c]

def quote (t : List Char) : List Char := '"' :: t.flatMap escape ++ ['"']

def line (indent : Nat) : List Char := '\n' :: List.replicate indent ' '

mutual

def write (indent : Nat) : Value → List Char
  | .null => ['n', 'u', 'l', 'l']
  | .bool true => ['t', 'r', 'u', 'e']
  | .bool false => ['f', 'a', 'l', 's', 'e']
  | .number text => text
  | .string text => quote text
  | .array [] => ['[', ']']
  | .array (v :: items) =>
    '[' :: line (indent + 2) ++ write (indent + 2) v ++ writeItems (indent + 2) items ++
      line indent ++ [']']
  | .object [] => ['{', '}']
  | .object ((name, v) :: members) =>
    '{' :: line (indent + 2) ++ quote name ++ [':', ' '] ++ write (indent + 2) v ++
      writeMembers (indent + 2) members ++ line indent ++ ['}']

def writeItems (indent : Nat) : List Value → List Char
  | [] => []
  | v :: items => ',' :: line indent ++ write indent v ++ writeItems indent items

def writeMembers (indent : Nat) : List (List Char × Value) → List Char
  | [] => []
  | (name, v) :: members =>
    ',' :: line indent ++ quote name ++ [':', ' '] ++ write indent v ++ writeMembers indent members

end

/-- `JSON.stringify(value, null, 2)` -/
def stringify (v : Value) : List Char := write 0 v

/-! ## Reading -/

/-- The characters of a string so far, and the first half of a pair if that came last. -/
structure Reading where
  chars : List Char
  high : Option Nat

def replacement : Char := Char.ofNat 0xFFFD

def Reading.close (r : Reading) : List Char :=
  if r.high.isSome then r.chars ++ [replacement] else r.chars

def Reading.char (r : Reading) (c : Char) : Reading := ⟨r.close ++ [c], none⟩

/-- A code unit that was written as an escape. -/
def Reading.unit (r : Reading) (n : Nat) : Reading :=
  if 0xD800 ≤ n ∧ n < 0xDC00 then ⟨r.close, some n⟩
  else if 0xDC00 ≤ n ∧ n < 0xE000 then
    match r.high with
    | some h => ⟨r.chars ++ [Char.ofNat (0x10000 + (h - 0xD800) * 0x400 + (n - 0xDC00))], none⟩
    | none => r.char replacement
  else r.char (Char.ofNat n)

/-- An array or object that the machine is inside of. -/
inductive Frame where
  | item (before : List Value)
  | member (before : List (List Char × Value)) (name : List Char)

/-- What comes next. A string is the name of a member of an object with the members before it, or
else a value. -/
inductive Mode where
  | value
  | name (before : List (List Char × Value))
  | colon (before : List (List Char × Value)) (name : List Char)
  | text (before : Option (List (List Char × Value))) (r : Reading)
  | letter (before : Option (List (List Char × Value))) (r : Reading)
  | hex (before : Option (List (List Char × Value))) (r : Reading) (count unit : Nat)
  | word (rest : List Char) (v : Value)
  | number (text : List Char)
  | done (v : Value)

structure Machine where
  mode : Mode
  stack : List Frame

def isSpace (c : Char) : Bool := c = ' ' || c = '\n' || c = '\r' || c = '\t'

def letterMeans : Char → Option Char
  | '"' => some '"'
  | '\\' => some '\\'
  | '/' => some '/'
  | 'b' => some '\x08'
  | 'f' => some '\x0c'
  | 'n' => some '\n'
  | 'r' => some '\r'
  | 't' => some '\t'
  | _ => none

/-- The first character of a value. -/
def begin (stack : List Frame) (c : Char) : Option Machine :=
  if c = '"' then some ⟨.text none ⟨[], none⟩, stack⟩
  else if c = '[' then some ⟨.value, .item [] :: stack⟩
  else if c = '{' then some ⟨.name [], stack⟩
  else if c = 't' then some ⟨.word ['r', 'u', 'e'] (.bool true), stack⟩
  else if c = 'f' then some ⟨.word ['a', 'l', 's', 'e'] (.bool false), stack⟩
  else if c = 'n' then some ⟨.word ['u', 'l', 'l'] .null, stack⟩
  else if numeric c then some ⟨.number [c], stack⟩
  else none

/-- The character after a value. -/
def afterValue (v : Value) (stack : List Frame) (c : Char) : Option Machine :=
  if isSpace c then some ⟨.done v, stack⟩
  else
    match stack with
    | [] => none
    | .item before :: stack =>
      if c = ',' then some ⟨.value, .item (before ++ [v]) :: stack⟩
      else if c = ']' then some ⟨.done (.array (before ++ [v])), stack⟩
      else none
    | .member before name :: stack =>
      if c = ',' then some ⟨.name (put name v before), stack⟩
      else if c = '}' then some ⟨.done (.object (put name v before)), stack⟩
      else none

def step (m : Machine) (c : Char) : Option Machine :=
  match m.mode with
  | .value =>
    if isSpace c then some m
    else if c = ']' then
      match m.stack with
      | .item [] :: stack => some ⟨.done (.array []), stack⟩
      | _ => none
    else begin m.stack c
  | .name before =>
    if isSpace c then some m
    else if c = '"' then some ⟨.text (some before) ⟨[], none⟩, m.stack⟩
    else if c = '}' && before.isEmpty then some ⟨.done (.object []), m.stack⟩
    else none
  | .colon before name =>
    if isSpace c then some m
    else if c = ':' then some ⟨.value, .member before name :: m.stack⟩
    else none
  | .text before r =>
    if c = '"' then
      match before with
      | none => some ⟨.done (.string r.close), m.stack⟩
      | some before => some ⟨.colon before r.close, m.stack⟩
    else if c = '\\' then some ⟨.letter before r, m.stack⟩
    else if c.toNat < 0x20 then none
    else some ⟨.text before (r.char c), m.stack⟩
  | .letter before r =>
    if c = 'u' then some ⟨.hex before r 0 0, m.stack⟩
    else (letterMeans c).map fun x => ⟨.text before (r.char x), m.stack⟩
  | .hex before r count unit =>
    (Hex.value? c).map fun d =>
      if count = 3 then ⟨.text before (r.unit (unit * 16 + d)), m.stack⟩
      else ⟨.hex before r (count + 1) (unit * 16 + d), m.stack⟩
  | .word [] _ => none
  | .word (x :: rest) v =>
    if c = x then some ⟨if rest.isEmpty then .done v else .word rest v, m.stack⟩ else none
  | .number text =>
    if numeric c then some ⟨.number (text ++ [c]), m.stack⟩
    else if isNumber text then afterValue (.number text) m.stack c
    else none
  | .done v => afterValue v m.stack c

/-- The value, at the end of a text. -/
def result (m : Machine) : Option Value :=
  match m with
  | ⟨.done v, []⟩ => some v
  | ⟨.number text, []⟩ => if isNumber text then some (.number text) else none
  | _ => none

/-- `JSON.parse`; none where it throws. -/
def parse (t : List Char) : Option Value := (Run.run step ⟨.value, []⟩ t).bind result

/-! ## What is read is well formed -/

/-- Members with different names and well-formed values. -/
def Members (ms : List (List Char × Value)) : Prop :=
  (ms.map Prod.fst).Nodup ∧ ∀ m ∈ ms, m.2.WellFormed

theorem members_nil : Members [] := ⟨List.nodup_nil, fun _ h => absurd h List.not_mem_nil⟩

theorem members_put {ms : List (List Char × Value)} (h : Members ms) {v : Value}
    (hv : v.WellFormed) (name : List Char) : Members (put name v ms) := by
  refine ⟨nodup_put name v h.1, fun m hm => ?_⟩
  rcases mem_put hm with rfl | hm
  · exact hv
  · exact h.2 m hm

/-- The values inside of the machine are well formed. -/
def Mode.WellFormed : Mode → Prop
  | .name before | .colon before _ => Members before
  | .text before _ | .letter before _ | .hex before _ _ _ => ∀ ms ∈ before, Members ms
  | .word _ v | .done v => v.WellFormed
  | .value | .number _ => True

def Frame.WellFormed : Frame → Prop
  | .item before => ∀ v ∈ before, v.WellFormed
  | .member before _ => Members before

def Machine.WellFormed (m : Machine) : Prop :=
  m.mode.WellFormed ∧ ∀ f ∈ m.stack, f.WellFormed

theorem begin_wellFormed {stack : List Frame} (hstack : ∀ f ∈ stack, f.WellFormed) {c : Char}
    {m : Machine} (h : begin stack c = some m) : m.WellFormed := by
  unfold begin at h
  split at h
  · cases h
    exact ⟨fun ms hms => absurd hms (by simp), hstack⟩
  split at h
  · cases h
    exact ⟨trivial, List.forall_mem_cons.mpr ⟨fun v hv => absurd hv List.not_mem_nil, hstack⟩⟩
  split at h
  · cases h
    exact ⟨members_nil, hstack⟩
  split at h
  · cases h
    exact ⟨.bool true, hstack⟩
  split at h
  · cases h
    exact ⟨.bool false, hstack⟩
  split at h
  · cases h
    exact ⟨.null, hstack⟩
  split at h
  · cases h
    exact ⟨trivial, hstack⟩
  · cases h

theorem afterValue_wellFormed {v : Value} (hv : v.WellFormed) {stack : List Frame}
    (hstack : ∀ f ∈ stack, f.WellFormed) {c : Char} {m : Machine}
    (h : afterValue v stack c = some m) : m.WellFormed := by
  unfold afterValue at h
  split at h
  · cases h
    exact ⟨hv, hstack⟩
  split at h
  · cases h
  · next before stack =>
    obtain ⟨hbefore, hstack⟩ := List.forall_mem_cons.mp hstack
    have hall : ∀ w ∈ before ++ [v], w.WellFormed := by
      intro w hw
      rcases List.mem_append.mp hw with hw | hw
      · exact hbefore w hw
      · exact List.mem_singleton.mp hw ▸ hv
    split at h
    · cases h
      exact ⟨trivial, List.forall_mem_cons.mpr ⟨hall, hstack⟩⟩
    split at h
    · cases h
      exact ⟨.array hall, hstack⟩
    · cases h
  · next before name stack =>
    obtain ⟨hbefore, hstack⟩ := List.forall_mem_cons.mp hstack
    have hall : Members (put name v before) := members_put hbefore hv name
    split at h
    · cases h
      exact ⟨hall, hstack⟩
    split at h
    · cases h
      exact ⟨.object hall.1 hall.2, hstack⟩
    · cases h

theorem step_wellFormed (m : Machine) (c : Char) (m' : Machine) (hm : m.WellFormed)
    (h : step m c = some m') : m'.WellFormed := by
  obtain ⟨mode, stack⟩ := m
  obtain ⟨hmode, hstack⟩ := hm
  cases mode with
  | value =>
    simp only [step] at h
    split at h
    · cases h
      exact ⟨hmode, hstack⟩
    split at h
    · split at h
      · next stack =>
        cases h
        exact ⟨.array fun v hv => absurd hv List.not_mem_nil, (List.forall_mem_cons.mp hstack).2⟩
      · cases h
    · exact begin_wellFormed hstack h
  | name before =>
    simp only [step] at h
    split at h
    · cases h
      exact ⟨hmode, hstack⟩
    split at h
    · cases h
      exact ⟨fun ms hms => Option.mem_some_iff.mp hms ▸ hmode, hstack⟩
    split at h
    · cases h
      exact ⟨.object members_nil.1 members_nil.2, hstack⟩
    · cases h
  | colon before name =>
    simp only [step] at h
    split at h
    · cases h
      exact ⟨hmode, hstack⟩
    split at h
    · cases h
      exact ⟨trivial, List.forall_mem_cons.mpr ⟨hmode, hstack⟩⟩
    · cases h
  | text before r =>
    simp only [step] at h
    split at h
    · cases before with
      | none =>
        cases h
        exact ⟨.string _, hstack⟩
      | some before =>
        cases h
        exact ⟨hmode before rfl, hstack⟩
    split at h
    · cases h
      exact ⟨hmode, hstack⟩
    split at h
    · cases h
    · cases h
      exact ⟨hmode, hstack⟩
  | letter before r =>
    simp only [step] at h
    split at h
    · cases h
      exact ⟨hmode, hstack⟩
    · obtain ⟨x, -, rfl⟩ := Option.map_eq_some_iff.mp h
      exact ⟨hmode, hstack⟩
  | hex before r count unit =>
    obtain ⟨d, -, rfl⟩ := Option.map_eq_some_iff.mp h
    split
    · exact ⟨hmode, hstack⟩
    · exact ⟨hmode, hstack⟩
  | word rest v =>
    cases rest with
    | nil => cases h
    | cons x rest =>
      simp only [step] at h
      split at h
      · cases h
        refine ⟨?_, hstack⟩
        split
        · exact hmode
        · exact hmode
      · cases h
  | number text =>
    simp only [step] at h
    split at h
    · cases h
      exact ⟨trivial, hstack⟩
    split at h
    · next hnumber => exact afterValue_wellFormed (.number hnumber) hstack h
    · cases h
  | done v => exact afterValue_wellFormed hmode hstack h

theorem parse_wellFormed {t : List Char} {v : Value} (h : parse t = some v) : v.WellFormed := by
  obtain ⟨m, hrun, hresult⟩ := Option.bind_eq_some_iff.mp h
  have hstart : Machine.WellFormed ⟨.value, []⟩ :=
    ⟨trivial, fun f hf => absurd hf List.not_mem_nil⟩
  have hm := Run.run_keeps step_wellFormed hrun hstart
  unfold result at hresult
  split at hresult
  · cases hresult
    exact hm.1
  · split at hresult
    · next hnumber =>
      cases hresult
      exact .number hnumber
    · cases hresult
  · cases hresult

/-! ## A part of a text -/

/-- The machine may stop here. -/
def Machine.AtEnd (m : Machine) : Prop :=
  m.stack = [] ∧ ((∃ v, m.mode = .done v) ∨ ∃ text, m.mode = .number text)

theorem atEnd_of_result {m : Machine} {v : Value} (h : result m = some v) : m.AtEnd := by
  unfold result at h
  split at h
  · exact ⟨rfl, .inl ⟨_, rfl⟩⟩
  · exact ⟨rfl, .inr ⟨_, rfl⟩⟩
  · cases h

/-- What can still be read then is no brace, and the machine may stop after it as well. -/
theorem step_atEnd {m m' : Machine} {c : Char} (hm : m.AtEnd) (h : step m c = some m') :
    c ≠ '}' ∧ m'.AtEnd := by
  obtain ⟨mode, stack⟩ := m
  obtain ⟨rfl, hmode⟩ := hm
  have hafter : ∀ v, afterValue v [] c = some m' → c ≠ '}' ∧ m'.AtEnd := by
    intro v hv
    simp only [afterValue] at hv
    split at hv
    · next hspace =>
      cases hv
      exact ⟨fun hc => by simp [hc, isSpace] at hspace, rfl, .inl ⟨_, rfl⟩⟩
    · cases hv
  rcases hmode with ⟨v, rfl⟩ | ⟨text, rfl⟩
  · exact hafter v h
  · simp only [step] at h
    split at h
    · next hnumeric =>
      cases h
      exact ⟨fun hc => by simp [hc, numeric, isDigit] at hnumeric, rfl, .inr ⟨_, rfl⟩⟩
    split at h
    · exact hafter _ h
    · cases h

/-- Where a text ends with a brace, no shorter part of it is one. -/
theorem parse_cut {t p : List Char} (h : (parse (t ++ ['}'])).isSome) (hp : p <+: t) :
    parse p = none := by
  by_contra hne
  obtain ⟨v, hv⟩ := Option.ne_none_iff_exists'.mp hne
  obtain ⟨m, hrun, hresult⟩ := Option.bind_eq_some_iff.mp hv
  obtain ⟨w, hw⟩ := Option.isSome_iff_exists.mp h
  obtain ⟨end_, hwhole, -⟩ := Option.bind_eq_some_iff.mp hw
  obtain ⟨rest, rfl⟩ := hp
  rw [List.append_assoc, Run.run_append] at hwhole
  obtain ⟨m₁, hrun₁, hrest⟩ := hwhole
  obtain rfl : m = m₁ := Option.some.inj (hrun.symm.trans hrun₁)
  obtain ⟨m₂, hm₂, hlast⟩ := Run.run_append.mp hrest
  have hkeep := Run.run_keeps (fun _ _ _ hm hstep => (step_atEnd hm hstep).2) hm₂
    (atEnd_of_result hresult)
  obtain ⟨m₃, hm₃, -⟩ := Run.run_cons_eq_some.mp hlast
  exact (step_atEnd hkeep hm₃).1 rfl

/-! ## A text is read back -/

/-- The machine has read a value to its end. The end of a number shows by what follows it. -/
def Machine.After (v : Value) (stack : List Frame) (m : Machine) : Prop :=
  m = ⟨.done v, stack⟩ ∨ ∃ text, isNumber text ∧ v = .number text ∧ m = ⟨.number text, stack⟩

theorem step_of_after {v : Value} {stack : List Frame} {m : Machine} (h : m.After v stack)
    {c : Char} (hc : numeric c = false) : step m c = afterValue v stack c := by
  rcases h with rfl | ⟨text, hnumber, rfl, rfl⟩
  · rfl
  · simp only [step, hc, hnumber, Bool.false_eq_true, if_false, if_true]

/-- A new line leaves a machine where it is, if spaces do. -/
theorem run_line {m : Machine} (h : ∀ c, isSpace c = true → step m c = some m) (indent : Nat) :
    Run.run step m (line indent) = some m := by
  have hspaces : ∀ n, Run.run step m (List.replicate n ' ') = some m := by
    intro n
    induction n with
    | zero => rfl
    | succ n ih => exact Run.run_cons_eq_some.mpr ⟨m, h ' ' rfl, ih⟩
  exact Run.run_cons_eq_some.mpr ⟨m, h '\n' rfl, hspaces indent⟩

theorem step_value_space (stack : List Frame) (c : Char) (hc : isSpace c = true) :
    step ⟨.value, stack⟩ c = some ⟨.value, stack⟩ := by
  simp only [step, hc, if_true]

theorem step_done_space (v : Value) (stack : List Frame) (c : Char) (hc : isSpace c = true) :
    step ⟨.done v, stack⟩ c = some ⟨.done v, stack⟩ := by
  simp only [step, afterValue, hc, if_true]

theorem step_name_space (before : List (List Char × Value)) (stack : List Frame) (c : Char)
    (hc : isSpace c = true) : step ⟨.name before, stack⟩ c = some ⟨.name before, stack⟩ := by
  simp only [step, hc, if_true]

theorem run_line_after {v : Value} {stack : List Frame} {m : Machine} (h : m.After v stack)
    (indent : Nat) : Run.run step m (line indent) = some ⟨.done v, stack⟩ := by
  have hnewline : step m '\n' = some ⟨.done v, stack⟩ := by
    rw [step_of_after h (by decide)]
    rfl
  have hrest := run_line (step_done_space v stack) indent
  obtain ⟨m', hm', hspaces⟩ := Run.run_cons_eq_some.mp hrest
  rw [step_done_space v stack '\n' rfl] at hm'
  cases hm'
  exact Run.run_cons_eq_some.mpr ⟨_, hnewline, hspaces⟩

/-! ### Strings -/

theorem letterMeans_letterOf {c letter : Char} (h : letterOf c = some letter) :
    letterMeans letter = some c ∧ letter ≠ 'u' := by
  unfold letterOf at h
  split at h <;> cases h <;> exact ⟨rfl, by decide⟩

theorem reading_unit_control {chars : List Char} {c : Char} (h : c.toNat < 0x20) :
    Reading.unit ⟨chars, none⟩ c.toNat = ⟨chars ++ [c], none⟩ := by
  rw [Reading.unit, if_neg (by omega), if_neg (by omega), Char.ofNat_toNat]
  rfl

theorem run_escape (before : Option (List (List Char × Value))) (chars : List Char) (c : Char)
    (stack : List Frame) :
    Run.run step ⟨.text before ⟨chars, none⟩, stack⟩ (escape c) =
      some ⟨.text before ⟨chars ++ [c], none⟩, stack⟩ := by
  unfold escape
  split
  · next letter hletter =>
    obtain ⟨hmeans, hu⟩ := letterMeans_letterOf hletter
    simp [Run.run, step, hu, hmeans, Reading.char, Reading.close]
  · next hletter =>
    have hquote : c ≠ '"' := fun h => by simp [h, letterOf] at hletter
    have hbackslash : c ≠ '\\' := fun h => by simp [h, letterOf] at hletter
    split
    · next hcontrol =>
      have hhigh := Hex.value?_digit (c.toNat / 16) (by omega)
      have hlow := Hex.value?_digit (c.toNat % 16) (by omega)
      have hzero : Hex.value? '0' = some 0 := rfl
      have hunit : c.toNat / 16 * 16 + c.toNat % 16 = c.toNat := Nat.div_add_mod' _ _
      simp [Run.run, step, hzero, hhigh, hlow, hunit, reading_unit_control hcontrol]
    · next hplain => simp [Run.run, step, hquote, hbackslash, hplain, Reading.char, Reading.close]

theorem run_quoted (before : Option (List (List Char × Value))) (t : List Char)
    (chars : List Char) (stack : List Frame) :
    Run.run step ⟨.text before ⟨chars, none⟩, stack⟩ (t.flatMap escape) =
      some ⟨.text before ⟨chars ++ t, none⟩, stack⟩ := by
  induction t generalizing chars with
  | nil => simp
  | cons c t ih =>
    rw [List.flatMap_cons, Run.run_append]
    refine ⟨_, run_escape before chars c stack, ?_⟩
    rw [ih, List.append_assoc, List.singleton_append]

/-! ### Numbers -/

theorem ne_of_numeric {c d : Char} (hc : numeric c = true) (hd : numeric d = false) : c ≠ d := by
  rintro rfl
  exact absurd (hc.symm.trans hd) (by decide)

/-- The first character of a number begins one. -/
theorem step_number {c : Char} (hc : numeric c = true) (stack : List Frame) :
    step ⟨.value, stack⟩ c = some ⟨.number [c], stack⟩ := by
  have hne : ∀ d, numeric d = false → c ≠ d := fun d hd => ne_of_numeric hc hd
  have hspace : isSpace c = false := by
    simp [isSpace, hne ' ' (by decide), hne '\n' (by decide), hne '\r' (by decide),
      hne '\t' (by decide)]
  simp [step, begin, hspace, hc, hne ']' (by decide), hne '"' (by decide), hne '[' (by decide),
    hne '{' (by decide), hne 't' (by decide), hne 'f' (by decide), hne 'n' (by decide)]

theorem run_digits {t : List Char} (h : ∀ c ∈ t, numeric c = true) (text : List Char)
    (stack : List Frame) :
    Run.run step ⟨.number text, stack⟩ t = some ⟨.number (text ++ t), stack⟩ := by
  induction t generalizing text with
  | nil => simp
  | cons c t ih =>
    have hc := h c (.head _)
    refine Run.run_cons_eq_some.mpr ⟨⟨.number (text ++ [c]), stack⟩, ?_, ?_⟩
    · simp only [step, hc, if_true]
    · rw [ih (fun d hd => h d (.tail _ hd)), List.append_assoc, List.singleton_append]

theorem run_number {text : List Char} (h : isNumber text = true) (stack : List Frame) :
    Run.run step ⟨.value, stack⟩ text = some ⟨.number text, stack⟩ := by
  have hparts := h
  simp only [isNumber, Bool.and_eq_true, List.all_eq_true] at hparts
  obtain ⟨⟨⟨hall, hne⟩, -⟩, -⟩ := hparts
  cases text with
  | nil => cases hne
  | cons c t =>
    exact Run.run_cons_eq_some.mpr ⟨_, step_number (hall c (.head _)) stack,
      run_digits (fun d hd => hall d (.tail _ hd)) [c] stack⟩

/-! ### Arrays and objects -/

/-- What follows an item or a member is read as such. -/
theorem run_afterValue {v : Value} {stack : List Frame} {m m' : Machine} (h : m.After v stack)
    {c : Char} (hc : numeric c = false) (hstep : afterValue v stack c = some m') (t : List Char) :
    Run.run step m (c :: t) = Run.run step m' t := by
  rw [Run.run, step_of_after h hc, hstep, Option.bind_some]

/-- The machine reads the text of a value where one is due. -/
def Reads (v : Value) : Prop :=
  ∀ indent stack, ∃ m, Run.run step ⟨.value, stack⟩ (write indent v) = some m ∧ m.After v stack

theorem run_items {items : List Value} (hitems : ∀ w ∈ items, Reads w) (indent outer : Nat)
    {before : List Value} {v : Value} {stack : List Frame} {m : Machine}
    (hm : m.After v (.item before :: stack)) :
    Run.run step m (writeItems indent items ++ line outer ++ [']']) =
      some ⟨.done (.array (before ++ v :: items)), stack⟩ := by
  induction items generalizing before v m with
  | nil =>
    rw [writeItems, List.nil_append]
    exact Run.run_append.mpr ⟨_, run_line_after hm outer, rfl⟩
  | cons w items ih =>
    obtain ⟨m', hread, hafter⟩ := hitems w (.head _) indent (.item (before ++ [v]) :: stack)
    have hrest := ih (fun x hx => hitems x (.tail _ hx)) hafter
    rw [writeItems]
    simp only [List.cons_append, List.append_assoc]
    rw [run_afterValue hm (by decide) (show afterValue v (.item before :: stack) ',' =
      some ⟨.value, .item (before ++ [v]) :: stack⟩ from rfl)]
    refine Run.run_append.mpr ⟨_, run_line (step_value_space _) indent, ?_⟩
    refine Run.run_append.mpr ⟨m', hread, ?_⟩
    simpa only [List.append_assoc, List.singleton_append] using hrest

/-- A member's name leads to its value. -/
theorem run_name (before : List (List Char × Value)) (name : List Char) (stack : List Frame) :
    Run.run step ⟨.name before, stack⟩ (quote name ++ [':', ' ']) =
      some ⟨.value, .member before name :: stack⟩ := by
  rw [quote]
  simp only [List.cons_append, List.append_assoc]
  refine Run.run_cons_eq_some.mpr ⟨_, rfl, ?_⟩
  refine Run.run_append.mpr ⟨_, run_quoted (some before) name [] stack, ?_⟩
  rfl

theorem run_members {members : List (List Char × Value)} (hmembers : ∀ m ∈ members, Reads m.2)
    (indent outer : Nat) {before : List (List Char × Value)} {name : List Char} {v : Value}
    {stack : List Frame} {m : Machine} (hm : m.After v (.member before name :: stack))
    (hnames : ((before ++ (name, v) :: members).map Prod.fst).Nodup) :
    Run.run step m (writeMembers indent members ++ line outer ++ ['}']) =
      some ⟨.done (.object (before ++ (name, v) :: members)), stack⟩ := by
  have hput : put name v before = before ++ [(name, v)] := by
    apply put_of_notMem
    rw [List.map_append, List.nodup_append] at hnames
    exact fun h => hnames.2.2 name h name (.head _) rfl
  induction members generalizing before name v m with
  | nil =>
    rw [writeMembers, List.nil_append]
    refine Run.run_append.mpr ⟨_, run_line_after hm outer, ?_⟩
    rw [← hput]
    rfl
  | cons w members ih =>
    obtain ⟨other, w⟩ := w
    obtain ⟨m', hread, hafter⟩ :=
      hmembers (other, w) (.head _) indent (.member (before ++ [(name, v)]) other :: stack)
    have hsplit : before ++ (name, v) :: (other, w) :: members =
        before ++ [(name, v)] ++ (other, w) :: members := by simp
    rw [hsplit] at hnames ⊢
    have hother : put other w (before ++ [(name, v)]) = before ++ [(name, v)] ++ [(other, w)] := by
      apply put_of_notMem
      rw [List.map_append, List.nodup_append] at hnames
      exact fun h => hnames.2.2 other h other (.head _) rfl
    have hrest := ih (fun x hx => hmembers x (.tail _ hx)) hafter hnames hother
    have hcomma : afterValue v (.member before name :: stack) ',' =
        some ⟨.name (before ++ [(name, v)]), stack⟩ := by
      rw [← hput]
      rfl
    rw [writeMembers]
    simp only [List.cons_append, List.append_assoc]
    rw [run_afterValue hm (by decide) hcomma]
    refine Run.run_append.mpr ⟨_, run_line (step_name_space _ stack) indent, ?_⟩
    rw [show quote other ++ (':' :: ' ' :: ([] ++ (write indent w ++
      (writeMembers indent members ++ (line outer ++ ['}']))))) =
      quote other ++ [':', ' '] ++ (write indent w ++
        (writeMembers indent members ++ line outer ++ ['}'])) by simp]
    refine Run.run_append.mpr ⟨_, run_name _ other stack, ?_⟩
    refine Run.run_append.mpr ⟨m', hread, ?_⟩
    simpa only [List.append_assoc, List.cons_append, List.nil_append] using hrest

theorem reads_of_wellFormed {v : Value} (h : v.WellFormed) : Reads v := by
  induction h with
  | null => exact fun indent stack => ⟨_, rfl, .inl rfl⟩
  | bool b =>
    intro indent stack
    cases b with
    | true => exact ⟨_, rfl, .inl rfl⟩
    | false => exact ⟨_, rfl, .inl rfl⟩
  | @number text hnumber =>
    intro indent stack
    rw [write]
    exact ⟨_, run_number hnumber stack, .inr ⟨text, hnumber, rfl, rfl⟩⟩
  | string text =>
    intro indent stack
    rw [write, quote]
    refine ⟨_, Run.run_cons_eq_some.mpr ⟨_, rfl, ?_⟩, .inl rfl⟩
    exact Run.run_append.mpr ⟨_, run_quoted none text [] stack, rfl⟩
  | @array items _ ih =>
    intro indent stack
    cases items with
    | nil => exact ⟨_, rfl, .inl rfl⟩
    | cons w items =>
      obtain ⟨m, hread, hafter⟩ := ih w (.head _) (indent + 2) (.item [] :: stack)
      have hrest :=
        run_items (fun x hx => ih x (.tail _ hx)) (indent + 2) indent hafter
      rw [write]
      simp only [List.cons_append, List.append_assoc] at hrest ⊢
      refine ⟨_, Run.run_cons_eq_some.mpr ⟨_, rfl, ?_⟩, .inl rfl⟩
      refine Run.run_append.mpr ⟨_, run_line (step_value_space _) (indent + 2), ?_⟩
      exact Run.run_append.mpr ⟨m, hread, hrest⟩
  | @object members hnames _ ih =>
    intro indent stack
    cases members with
    | nil => exact ⟨_, rfl, .inl rfl⟩
    | cons w members =>
      obtain ⟨name, w⟩ := w
      obtain ⟨m, hread, hafter⟩ := ih (name, w) (.head _) (indent + 2) (.member [] name :: stack)
      have hrest := run_members (fun x hx => ih x (.tail _ hx)) (indent + 2) indent hafter hnames
      refine ⟨_, ?_, .inl rfl⟩
      rw [write, show '{' :: line (indent + 2) ++ quote name ++ [':', ' '] ++
        write (indent + 2) w ++ writeMembers (indent + 2) members ++ line indent ++ ['}'] =
        '{' :: (line (indent + 2) ++ ((quote name ++ [':', ' ']) ++ (write (indent + 2) w ++
          (writeMembers (indent + 2) members ++ line indent ++ ['}'])))) by simp]
      refine Run.run_cons_eq_some.mpr ⟨_, rfl, ?_⟩
      refine Run.run_append.mpr ⟨_, run_line (step_name_space _ stack) (indent + 2), ?_⟩
      refine Run.run_append.mpr ⟨_, run_name [] name stack, ?_⟩
      exact Run.run_append.mpr ⟨m, hread, hrest⟩

/-- What was written is read back. -/
theorem parse_stringify {v : Value} (h : v.WellFormed) : parse (stringify v) = some v := by
  obtain ⟨m, hrun, hafter⟩ := reads_of_wellFormed h 0 []
  rw [parse, stringify, hrun, Option.bind_some]
  rcases hafter with rfl | ⟨text, hnumber, rfl, rfl⟩
  · rfl
  · rw [result, if_pos hnumber]

end Json
