import Maat.Lib.Rlp

/-!
# Merkle-Patricia tries

A trie maps nibble paths to byte strings (`Trie.get`). Every node has a recursive-length-prefix
form, in which a child appears as its own form when that is shorter than a hash and as the hash of
it otherwise (`ref`). Where every stored value is as long as a hash, only absent children are
short: `ref_of_wellFormed` says each present child appears as its hash.

A `Standard` trie is of the one shape that its mapping has (`Standard.unique`): the nodes where
stored paths part are branches, and what they have in common before is in one extension. The nodes
on the way to a path are its `trail`.
-/

namespace Rlp

/-- Half a byte. -/
abbrev Nibble := Fin 16

instance neZero_nibble : NeZero 16 := ⟨by decide⟩

/-- The length of a hash. -/
abbrev hashLength : Nat := 32

/-- Pairs of nibbles as bytes. -/
def pack : List Nibble → List UInt8
  | hi :: lo :: rest => UInt8.ofNat (16 * hi.val + lo.val) :: pack rest
  | _ => []

/-- A path with a flag in front: the flag tells leaf from extension and odd from even length. -/
def hexPrefix (isLeaf : Bool) (path : List Nibble) : List UInt8 :=
  let flag : Nibble := if isLeaf then 2 else 0
  if path.length % 2 = 1 then pack ((flag + 1) :: path) else pack (flag :: 0 :: path)

/-- A mapping from nibble paths to byte strings, as a tree. -/
inductive Trie where
  | empty
  | leaf (path : List Nibble) (value : List UInt8)
  | ext (path : List Nibble) (child : Trie)
  | branch (children : Nibble → Trie) (value : Option (List UInt8))

namespace Trie

/-- The value at a path. -/
def get : Trie → List Nibble → Option (List UInt8)
  | empty, _ => none
  | leaf path value, key => if key = path then some value else none
  | ext path child, key => if path <+: key then child.get (key.drop path.length) else none
  | branch _ value, [] => value
  | branch children _, nibble :: key => (children nibble).get key

/-- The nodes on the way to a path, from the root on. -/
def trail : Trie → List Nibble → List Trie
  | ext path child, key =>
    ext path child :: if path <+: key then child.trail (key.drop path.length) else []
  | branch children value, nibble :: key =>
    branch children value :: (children nibble).trail key
  | t, _ => [t]

/-- The node is a branch. -/
def IsBranch : Trie → Prop
  | branch _ _ => True
  | _ => False

section Forms

variable (hash : List UInt8 → Bytes.Fixed hashLength)

/-- A child in its parent's form. -/
def ref (item : Item) : Item :=
  if item.encode.length < hashLength then item else .bytes (hash item.encode).val

/-- The form of a node. -/
def toItem : Trie → Item
  | empty => .bytes []
  | leaf path value => .list [.bytes (hexPrefix true path), .bytes value]
  | ext path child => .list [.bytes (hexPrefix false path), ref hash child.toItem]
  | branch children value =>
    .list (List.ofFn (fun i => ref hash (children i).toItem) ++ [.bytes (value.getD [])])

/-- The bytes of a node. -/
def encode (t : Trie) : List UInt8 := (t.toItem hash).encode

/-- The hash that commits to the whole trie. -/
def root (t : Trie) : Bytes.Fixed hashLength := hash (t.encode hash)

/-- Stored values are as long as a hash, no branch is empty, every extension has a path and leads to
a node, and every node has an encoding. -/
def WellFormed : Trie → Prop
  | empty => True
  | leaf path value => hashLength ≤ value.length ∧ ((leaf path value).toItem hash).Fits
  | ext path child =>
    path ≠ [] ∧ child ≠ empty ∧ child.WellFormed ∧ ((ext path child).toItem hash).Fits
  | branch children value =>
    ((∃ i, children i ≠ empty) ∨ value ≠ none) ∧ (∀ i, (children i).WellFormed) ∧
      (∀ v ∈ value, hashLength ≤ v.length) ∧ ((branch children value).toItem hash).Fits

/-- A Merkle-Patricia trie: stored values are not empty, an extension has a path and leads to a
branch, a branch has two entries at least, and every node has an encoding. -/
def Standard : Trie → Prop
  | empty => True
  | leaf path value => value ≠ [] ∧ ((leaf path value).toItem hash).Fits
  | ext path child =>
    path ≠ [] ∧ child.IsBranch ∧ child.Standard ∧ ((ext path child).toItem hash).Fits
  | branch children value =>
    (∃ i, children i ≠ empty ∧ (value ≠ none ∨ ∃ j, j ≠ i ∧ children j ≠ empty)) ∧
      (∀ i, (children i).Standard) ∧ (∀ v ∈ value, v ≠ []) ∧
      ((branch children value).toItem hash).Fits

/-- What shows that a path has its value: the root, and the nodes on the way that appear as
hashes. -/
def inclusionProof (t : Trie) (key : List Nibble) : List (List UInt8) :=
  t.encode hash :: ((t.trail key).tail.map (encode hash)).filter (hashLength ≤ ·.length)

/-- The bytes of all nodes of a trie. -/
def encodings : Trie → List (List UInt8)
  | empty => [empty.encode hash]
  | leaf path value => [(leaf path value).encode hash]
  | ext path child => (ext path child).encode hash :: child.encodings
  | branch children value =>
    (branch children value).encode hash ::
      (List.finRange 16).flatMap fun i => (children i).encodings

end Forms

/-! ## Present children appear as hashes -/

variable {hash : List UInt8 → Bytes.Fixed hashLength}

theorem length_le_encode_bytes (bs : List UInt8) : bs.length ≤ (Item.bytes bs).encode.length := by
  rw [Item.encode]
  split
  · exact le_rfl
  · rw [List.length_append]
    omega

/-- A list is at least as long as any string in it. -/
theorem length_le_encode_list {bs : List UInt8} {items : List Item} (h : Item.bytes bs ∈ items) :
    bs.length ≤ (Item.list items).encode.length := by
  calc bs.length ≤ (Item.bytes bs).encode.length := length_le_encode_bytes bs
    _ ≤ (encodeAll items).length := length_encode_le_encodeAll h
    _ ≤ (Item.list items).encode.length := by
      rw [Item.encode, List.length_append]
      omega

/-- A form that is long enough appears as its hash. -/
theorem ref_of_le (hash : List UInt8 → Bytes.Fixed hashLength) {item : Item}
    (h : hashLength ≤ item.encode.length) :
    ref hash item = .bytes (hash item.encode).val := by
  rw [ref, if_neg (by omega)]

theorem length_encode_of_wellFormed {t : Trie} (h : t.WellFormed hash) (hne : t ≠ .empty) :
    hashLength ≤ (t.toItem hash).encode.length := by
  induction t with
  | empty => exact absurd rfl hne
  | leaf path value =>
    exact h.1.trans (length_le_encode_list (.tail _ (.head _)))
  | ext path child ih =>
    have hchild := ref_of_le hash (ih h.2.2.1 h.2.1)
    rw [toItem, hchild]
    exact (hash _).property.ge.trans (length_le_encode_list (.tail _ (.head _)))
  | branch children value ih =>
    obtain ⟨hsome, hchildren, hvalue, -⟩ := h
    rw [toItem]
    rcases hsome with ⟨i, hi⟩ | hv
    · have hchild := ref_of_le hash (ih i (hchildren i) hi)
      refine (hash ((children i).toItem hash).encode).property.ge.trans
        (length_le_encode_list (List.mem_append_left _ ?_))
      exact List.mem_ofFn.mpr ⟨i, hchild⟩
    · obtain ⟨v, rfl⟩ := Option.ne_none_iff_exists'.mp hv
      exact (hvalue v rfl).trans
        (length_le_encode_list (List.mem_append_right _ (.head _)))

theorem encode_mem_encodings (t : Trie) : t.encode hash ∈ t.encodings hash := by
  cases t <;> exact .head _

/-- The nodes of a child are nodes. -/
theorem encodings_child {children : Nibble → Trie} {value : Option (List UInt8)} (i : Nibble)
    {bs : List UInt8} (h : bs ∈ (children i).encodings hash) :
    bs ∈ (branch children value).encodings hash :=
  .tail _ (List.mem_flatMap.mpr ⟨i, List.mem_finRange i, h⟩)

/-- The way to a path starts at the root. -/
theorem trail_eq_cons (t : Trie) (key : List Nibble) : t.trail key = t :: (t.trail key).tail := by
  cases t with
  | branch children value => cases key <;> rfl
  | _ => rfl

/-- The nodes on the way to a path are nodes of the trie. -/
theorem encode_mem_of_trail {t node : Trie} {key : List Nibble} (h : node ∈ t.trail key) :
    node.encode hash ∈ t.encodings hash := by
  induction t generalizing key with
  | empty =>
    obtain rfl := List.mem_singleton.mp h
    exact encode_mem_encodings _
  | leaf path value =>
    obtain rfl := List.mem_singleton.mp h
    exact encode_mem_encodings _
  | ext path child ih =>
    rcases List.mem_cons.mp h with rfl | h
    · exact encode_mem_encodings _
    · split at h
      · exact .tail _ (ih h)
      · cases h
  | branch children value ih =>
    cases key with
    | nil =>
      obtain rfl := List.mem_singleton.mp h
      exact encode_mem_encodings _
    | cons nibble key =>
      rcases List.mem_cons.mp h with rfl | h
      · exact encode_mem_encodings _
      · exact encodings_child nibble (ih nibble h)

/-- In a well-formed trie the form of a child is the empty string or a hash. -/
theorem ref_of_wellFormed {t : Trie} (h : t.WellFormed hash) :
    (t = .empty ∧ ref hash (t.toItem hash) = .bytes []) ∨
      (t ≠ .empty ∧ ref hash (t.toItem hash) = .bytes (t.root hash).val) := by
  by_cases hne : t = .empty
  · subst hne
    exact .inl ⟨rfl, rfl⟩
  · exact .inr ⟨hne, ref_of_le hash (length_encode_of_wellFormed h hne)⟩

theorem WellFormed.fits {t : Trie} (h : t.WellFormed hash) : (t.toItem hash).Fits := by
  cases t with
  | empty => simp [Item.Fits, toItem, Item.encode, isSelfEncoded, lengthPrefix]
  | leaf path value => exact h.2
  | ext path child => exact h.2.2.2
  | branch children value => exact h.2.2.2

/-- A stored value has an encoding. -/
theorem length_of_get {t : Trie} (h : t.WellFormed hash) {key : List Nibble} {v : List UInt8}
    (hget : t.get key = some v) : v.length < 2 ^ 64 := by
  induction t generalizing key with
  | empty => cases hget
  | leaf path value =>
    obtain ⟨-, hfits⟩ := h
    rw [get] at hget
    split at hget
    · obtain rfl := Option.some.inj hget
      exact (length_le_encode_list (.tail _ (.head _))).trans_lt hfits
    · cases hget
  | ext path child ih =>
    rw [get] at hget
    split at hget
    · exact ih h.2.2.1 hget
    · cases hget
  | branch children value ih =>
    cases key with
    | nil =>
      rw [get] at hget
      subst hget
      have hfits := h.2.2.2
      exact (length_le_encode_list (List.mem_append_right _ (.head _))).trans_lt hfits
    | cons nibble key => exact ih nibble (h.2.1 nibble) hget

/-! ## Short nodes -/

theorem Standard.fits {t : Trie} (h : t.Standard hash) : (t.toItem hash).Fits := by
  cases t with
  | empty => simp [Item.Fits, toItem, Item.encode, isSelfEncoded, lengthPrefix]
  | leaf path value => exact h.2
  | ext path child => exact h.2.2.2
  | branch children value => exact h.2.2.2

/-- A branch has a byte for each of its members at least. -/
theorem length_encode_branch (children : Nibble → Trie) (value : Option (List UInt8)) :
    17 ≤ ((branch children value).toItem hash).encode.length := by
  have hmembers := length_le_encodeAll
    (List.ofFn (fun i => ref hash ((children i).toItem hash)) ++ [.bytes (value.getD [])])
  rw [List.length_append, List.length_ofFn, List.length_singleton] at hmembers
  rw [toItem, Item.encode, List.length_append]
  omega

theorem length_encode_ext {child : Trie} (h : child.IsBranch) (path : List Nibble) :
    17 ≤ ((ext path child).toItem hash).encode.length := by
  have hmem : ref hash (child.toItem hash) ∈
      [.bytes (hexPrefix false path), ref hash (child.toItem hash)] := .tail _ (.head _)
  have hle := length_encode_le_encodeAll hmem
  have hchild : 17 ≤ (ref hash (child.toItem hash)).encode.length := by
    cases child with
    | empty => cases h
    | leaf path value => cases h
    | ext path child => cases h
    | branch children value =>
      rw [ref]
      split
      · exact length_encode_branch children value
      · refine le_trans ?_ (length_le_encode_bytes _)
        rw [(hash _).property]
        decide
  rw [toItem, Item.encode, List.length_append]
  omega

/-- A short branch has room for a short first child only. -/
theorem first_child_short {children : Nibble → Trie} {value : Option (List UInt8)}
    (hshort : ((branch children value).toItem hash).encode.length < hashLength) :
    (ref hash ((children 0).toItem hash)).encode.length < 16 := by
  have hrest := length_le_encodeAll (List.ofFn (fun i : Fin 15 =>
    ref hash ((children i.succ).toItem hash)) ++ [.bytes (value.getD [])])
  rw [List.length_append, List.length_ofFn, List.length_singleton] at hrest
  rw [toItem, Item.encode, List.length_append, List.ofFn_succ, List.cons_append,
    length_encodeAll_cons] at hshort
  have h32 : hashLength = 32 := rfl
  omega

/-! ## One trie for each mapping -/

/-- The longest path that all of two or more stored paths start with. -/
def Stem (stored : List Nibble → Option (List UInt8)) (path : List Nibble) : Prop :=
  (∀ key v, stored key = some v → path <+: key) ∧
    ∃ key key', (∃ v, stored key = some v) ∧ (∃ v, stored key' = some v) ∧ key ≠ key' ∧
      ∀ p, p <+: key → p <+: key' → p <+: path

theorem Stem.unique {stored : List Nibble → Option (List UInt8)} {p q : List Nibble}
    (hp : Stem stored p) (hq : Stem stored q) : p = q := by
  have hle : ∀ {p q}, Stem stored p → Stem stored q → p <+: q := by
    rintro p q ⟨hp, -⟩ ⟨-, key, key', ⟨v, hv⟩, ⟨v', hv'⟩, -, hlongest⟩
    exact hlongest p (hp key v hv) (hp key' v' hv')
  exact (hle hp hq).eq_of_length_le (hle hq hp).length_le

theorem not_stem_leaf {path p : List Nibble} {value : List UInt8} :
    ¬ Stem (leaf path value).get p := by
  rintro ⟨-, key, key', ⟨v, hv⟩, ⟨v', hv'⟩, hne, -⟩
  rw [get] at hv hv'
  split at hv
  · next heq =>
    split at hv'
    · next heq' => exact hne (heq.trans heq'.symm)
    · cases hv'
  · cases hv

theorem get_ext_append (path key : List Nibble) (child : Trie) :
    (ext path child).get (path ++ key) = child.get key := by
  rw [get, if_pos (List.prefix_append _ _), List.drop_left]

/-- Every node but the absent one leads to a value. -/
theorem exists_get {t : Trie} (h : t.Standard hash) (hne : t ≠ .empty) :
    ∃ key v, t.get key = some v := by
  induction t with
  | empty => exact absurd rfl hne
  | leaf path value => exact ⟨path, value, if_pos rfl⟩
  | ext path child ih =>
    obtain ⟨-, hbranch, hchild, -⟩ := h
    obtain ⟨key, v, hget⟩ := ih hchild (by rintro rfl; exact hbranch)
    exact ⟨path ++ key, v, by rw [get_ext_append, hget]⟩
  | branch children value ih =>
    obtain ⟨i, hi, -⟩ := h.1
    obtain ⟨key, v, hget⟩ := ih i (h.2.1 i) hi
    exact ⟨i :: key, v, hget⟩

/-- The paths below a branch part at once. -/
theorem stem_branch {children : Nibble → Trie} {value : Option (List UInt8)}
    (h : (branch children value).Standard hash) : Stem (branch children value).get [] := by
  obtain ⟨⟨i, hi, hother⟩, hchildren, -, -⟩ := h
  obtain ⟨key, v, hget⟩ := exists_get (hchildren i) hi
  refine ⟨fun key _ _ => List.nil_prefix, ?_⟩
  rcases hother with hvalue | ⟨j, hj, hne⟩
  · obtain ⟨w, hw⟩ := Option.ne_none_iff_exists'.mp hvalue
    exact ⟨i :: key, [], ⟨v, hget⟩, ⟨w, hw⟩, List.cons_ne_nil _ _, fun p _ hp => hp⟩
  · obtain ⟨key', v', hget'⟩ := exists_get (hchildren j) hne
    have hapart : ∀ p, p <+: i :: key → p <+: j :: key' → p <+: [] := by
      intro p hp hp'
      cases p with
      | nil => exact List.nil_prefix
      | cons x p =>
        have hi := (List.cons_prefix_cons.mp hp).1
        have hj' := (List.cons_prefix_cons.mp hp').1
        exact absurd (hj'.symm.trans hi) hj
    refine ⟨i :: key, j :: key', ⟨v, hget⟩, ⟨v', hget'⟩, ?_, hapart⟩
    intro heq
    exact hj (List.cons.inj heq).1.symm

theorem stem_ext {path : List Nibble} {child : Trie} (h : (ext path child).Standard hash) :
    Stem (ext path child).get path := by
  obtain ⟨-, hbranch, hchild, -⟩ := h
  cases child with
  | branch children value =>
    obtain ⟨-, key, key', hkey, hkey', hne, hapart⟩ := stem_branch hchild
    refine ⟨?_, path ++ key, path ++ key', ?_, ?_, ?_, ?_⟩
    · intro key v hget
      rw [get] at hget
      split at hget
      · next hpath => exact hpath
      · cases hget
    · rwa [get_ext_append]
    · rwa [get_ext_append]
    · exact fun heq => hne (List.append_cancel_left heq)
    · intro p hp hp'
      rcases List.prefix_or_prefix_of_prefix hp (List.prefix_append path key) with h | ⟨r, rfl⟩
      · exact h
      · have hr := hapart r ((List.prefix_append_right_inj _).mp hp)
          ((List.prefix_append_right_inj _).mp hp')
        obtain rfl := List.prefix_nil.mp hr
        simp only [List.append_nil, List.prefix_rfl]
  | _ => exact hbranch.elim

/-- Two standard tries with the same values at the same paths are one. -/
theorem Standard.unique {t t' : Trie} (h : t.Standard hash) (h' : t'.Standard hash)
    (hget : t.get = t'.get) : t = t' := by
  induction t generalizing t' with
  | empty =>
    by_contra hne
    obtain ⟨key, v, hv⟩ := exists_get h' (Ne.symm hne)
    rw [← hget] at hv
    cases hv
  | leaf path value =>
    have hstored : t'.get path = some value := by rw [← hget, get, if_pos rfl]
    cases t' with
    | empty => cases hstored
    | leaf path' value' =>
      rw [get] at hstored
      split at hstored
      · next heq => rw [heq, Option.some.inj hstored]
      · cases hstored
    | ext path' child' => exact absurd (hget ▸ stem_ext h') not_stem_leaf
    | branch children' value' => exact absurd (hget ▸ stem_branch h') not_stem_leaf
  | ext path child ih =>
    have hstem := stem_ext h
    rw [hget] at hstem
    cases t' with
    | empty =>
      obtain ⟨key, v, hv⟩ := exists_get h (fun h => by cases h)
      rw [hget] at hv
      cases hv
    | leaf path' value' => exact absurd hstem not_stem_leaf
    | ext path' child' =>
      obtain rfl := hstem.unique (stem_ext h')
      have hchild : child.get = child'.get := by
        funext key
        have hkey := congrFun hget (path ++ key)
        rwa [get_ext_append, get_ext_append] at hkey
      rw [ih h.2.2.1 h'.2.2.1 hchild]
    | branch children' value' => exact absurd (hstem.unique (stem_branch h')) h.1
  | branch children value ih =>
    have hstem := stem_branch h
    rw [hget] at hstem
    cases t' with
    | empty =>
      obtain ⟨key, v, hv⟩ := exists_get h (fun h => by cases h)
      rw [hget] at hv
      cases hv
    | leaf path' value' => exact absurd hstem not_stem_leaf
    | ext path' child' => exact absurd (hstem.unique (stem_ext h')).symm h'.1
    | branch children' value' =>
      have hvalue : value = value' := congrFun hget []
      have hchildren : children = children' := by
        funext i
        exact ih i (h.2.1 i) (h'.2.1 i) (funext fun key => congrFun hget (i :: key))
      rw [hvalue, hchildren]

/-! ## Long values -/

/-- A trie whose values are as long as a hash has no short nodes. -/
theorem Standard.wellFormed {t : Trie} (h : t.Standard hash)
    (hlong : ∀ key v, t.get key = some v → hashLength ≤ v.length) : t.WellFormed hash := by
  induction t with
  | empty => exact True.intro
  | leaf path value => exact ⟨hlong path value (if_pos rfl), h.2⟩
  | ext path child ih =>
    obtain ⟨hpath, hbranch, hchild, hfits⟩ := h
    refine ⟨hpath, by rintro rfl; exact hbranch, ih hchild ?_, hfits⟩
    intro key v hget
    exact hlong (path ++ key) v (by rw [get_ext_append, hget])
  | branch children value ih =>
    obtain ⟨⟨i, hi, -⟩, hchildren, -, hfits⟩ := h
    refine ⟨.inl ⟨i, hi⟩, fun j => ih j (hchildren j) ?_, fun v hv => hlong [] v hv, hfits⟩
    intro key v hget
    exact hlong (j :: key) v hget

/-- The nodes on the way to a value are long. -/
theorem WellFormed.length_trail {t : Trie} (h : t.WellFormed hash) {key : List Nibble}
    {v : List UInt8} (hget : t.get key = some v) {node : Trie} (hnode : node ∈ t.trail key) :
    hashLength ≤ (node.encode hash).length := by
  induction t generalizing key with
  | empty => cases hget
  | leaf path value =>
    obtain rfl := List.mem_singleton.mp hnode
    exact length_encode_of_wellFormed h (by simp)
  | ext path child ih =>
    rw [get] at hget
    split at hget
    · next hpath =>
      rw [trail, if_pos hpath] at hnode
      rcases List.mem_cons.mp hnode with rfl | hnode
      · exact length_encode_of_wellFormed h (by simp)
      · exact ih h.2.2.1 hget hnode
    · cases hget
  | branch children value ih =>
    cases key with
    | nil =>
      obtain rfl := List.mem_singleton.mp hnode
      exact length_encode_of_wellFormed h (by simp)
    | cons nibble key =>
      rcases List.mem_cons.mp hnode with rfl | hnode
      · exact length_encode_of_wellFormed h (by simp)
      · exact ih nibble (h.2.1 nibble) hget hnode

/-- Where all values are long, a proof is all the nodes on the way. -/
theorem WellFormed.inclusionProof_eq {t : Trie} (h : t.WellFormed hash) {key : List Nibble}
    {v : List UInt8} (hget : t.get key = some v) :
    t.inclusionProof hash key = (t.trail key).map (encode hash) := by
  have hall : ∀ bs ∈ (t.trail key).tail.map (encode hash), decide (hashLength ≤ bs.length) := by
    intro bs hbs
    obtain ⟨node, hnode, rfl⟩ := List.mem_map.mp hbs
    exact decide_eq_true (h.length_trail hget (List.mem_of_mem_tail hnode))
  rw [inclusionProof, List.filter_eq_self.mpr hall, ← List.map_cons, ← trail_eq_cons]

end Trie

end Rlp
