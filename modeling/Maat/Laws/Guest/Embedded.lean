import Maat.Laws.Guest.Walk

/-!
# Embedded nodes

A node shorter than a hash stands in its parent as itself. The walk follows the data of that
member, which is its payload without the list prefix, and asks for a node of these bytes. The
payload starts with the node's first member, so that member is what the walk reads as a node: a
path or an absent child is no list, and a leaf there would store a key of half a byte. So no list
of nodes leads past an embedded node (`walk_embedded`), and the walk returns exactly where every
node below the root on the way to the key is as long as a hash (`walk_returns_stored_iff`).
-/

namespace Maat.Guest

open Rlp Bytes

variable {R : Crate} {keccak256 : List UInt8 → Fixed 32}

/-! ## References -/

/-- The reference to a node as long as a hash leads to the node's root. -/
theorem childRef_long (hR : R.Correct) {child : Trie}
    (hfits : (Trie.ref keccak256 (child.toItem keccak256)).Fits)
    (hlong : hashLength ≤ (child.encode keccak256).length) :
    childRef R (Trie.ref keccak256 (child.toItem keccak256)).encode =
      some (.hash (child.root keccak256)) := by
  rw [Trie.ref_of_le keccak256 hlong] at hfits ⊢
  refine childRef_eq_some.mpr ⟨_, hR.data_bytes _ hfits, ?_, ?_⟩
  · exact List.ne_nil_of_length_pos (by rw [(keccak256 _).property]; decide)
  · rw [dif_pos (keccak256 _).property]
    rfl

/-- The reference to an embedded list asks for the payload of the list. -/
theorem childRef_embedded (hfirst : R.ReadsFirst) {item : Item} {items : List Item}
    (hshort : (Item.list (item :: items)).encode.length < hashLength) :
    childRef R (Item.list (item :: items)).encode =
      some (.inline (item.encode ++ encodeAll items)) := by
  have hfits : (Item.list (item :: items)).Fits := hshort.trans (by decide)
  have hpos := List.length_pos_of_ne_nil (encode_ne_nil item)
  have hpayload : (encodeAll (item :: items)).length < hashLength := by
    rw [Item.encode, List.length_append] at hshort
    omega
  rw [encodeAll, List.length_append] at hpayload
  refine childRef_eq_some.mpr ⟨_, hfirst.data_list _ hfits, ?_, ?_⟩
  · rw [encodeAll]
    exact List.ne_nil_of_length_pos (by rw [List.length_append]; omega)
  · rw [encodeAll, dif_neg]
    rw [List.length_append]
    exact hpayload.ne

/-! ## What follows an item is not read -/

/-- Bytes that start with a string are no node. -/
theorem Visited.of_bytes_append (hfirst : R.ReadsFirst) {bs rest : List UInt8}
    (hfits : (Item.bytes bs).Fits) {remaining : List Nibble} {v : Visit}
    (h : Visited R ((Item.bytes bs).encode ++ rest) remaining v) : False := by
  have hcount := hfirst.itemCount_bytes_append bs rest hfits
  cases h <;> simp_all

/-- A round on bytes that start with a list reads that list, where what follows it is too long to
be taken for a node's members. -/
theorem Visited.of_list_append (hR : R.Correct) (hfirst : R.ReadsFirst) {items following : List Item}
    (hfits : (Item.list items).Fits) (hfollowing : ∀ item ∈ following, item.Fits)
    (hlong : 17 < items.length + following.length) {remaining : List Nibble} {v : Visit}
    (h : Visited R ((Item.list items).encode ++ encodeAll following) remaining v) :
    Visited R (Item.list items).encode remaining v := by
  have hfield : ∀ i, field R ((Item.list items).encode ++ encodeAll following) i =
      field R (Item.list items).encode i := fun i => by
    rw [field, hfirst.at_append _ _ _ hfits, field]
  -- a count of 2 or 17 is the list's own
  have hcount : ∀ n ≤ 17, R.itemCount ((Item.list items).encode ++ encodeAll following) = some n →
      R.itemCount (Item.list items).encode = some n := by
    intro n hn hitems
    rw [hR.itemCount_list _ hfits]
    rcases hfirst.itemCount_list_append items following hfits hfollowing with hown | hmore
    · exact hown.symm.trans hitems
    · have : items.length + following.length = n := Option.some.inj (hmore.symm.trans hitems)
      omega
  cases h with
  | terminal h17 hvalue => exact .terminal (hcount 17 le_rfl h17) (hfield 16 ▸ hvalue)
  | branch h17 hitem hexpected =>
    exact .branch (hcount 17 le_rfl h17) (hfirst.at_append _ _ _ hfits ▸ hitem) hexpected
  | leaf h2 hencoded hpath hvalue =>
    exact .leaf (hcount 2 (by decide) h2) (hfield 0 ▸ hencoded) hpath (hfield 1 ▸ hvalue)
  | extension h2 hencoded hpath hitem hexpected =>
    exact .extension (hcount 2 (by decide) h2) (hfield 0 ▸ hencoded) hpath
      (hfirst.at_append _ _ _ hfits ▸ hitem) hexpected

/-- The walk past an embedded list reads the list's members as a node. -/
theorem visited_of_embedded (hfirst : R.ReadsFirst) {item : Item} {items : List Item}
    (hshort : (Item.list (item :: items)).encode.length < hashLength) {expected : NodeRef}
    (hexpected : childRef R (Item.list (item :: items)).encode = some expected)
    {remaining : List Nibble} {nodes : List (List UInt8)} {v : List UInt8}
    (h : walk R keccak256 expected remaining nodes = some v) :
    ∃ visit, Visited R (item.encode ++ encodeAll items) remaining visit := by
  rw [childRef_embedded hfirst hshort] at hexpected
  obtain rfl := Option.some.inj hexpected
  obtain ⟨node, rest, visit, rfl, hvisit, -⟩ := walk_eq_some h
  obtain ⟨hmatches, hvisited⟩ := visit_eq_some hvisit
  obtain rfl : node = item.encode ++ encodeAll items := hmatches
  exact ⟨visit, hvisited⟩

/-! ## Whole bytes -/

/-- Every stored path is odd or even as this one is. -/
def Aligned (t : Trie) (key : List Nibble) : Prop :=
  ∀ path w, t.get path = some w → path.length % 2 = key.length % 2

theorem Aligned.ext {path rest : List Nibble} {child : Trie}
    (h : Aligned (.ext path child) (path ++ rest)) : Aligned child rest := by
  intro below w hget
  have hpath := h (path ++ below) w (by
    rw [Trie.get, if_pos (List.prefix_append _ _), List.drop_left, hget])
  simp only [List.length_append] at hpath
  omega

theorem Aligned.child {children : Nibble → Trie} {value : Option (List UInt8)} {idx : Nibble}
    {rest : List Nibble} (h : Aligned (.branch children value) (idx :: rest)) :
    Aligned (children idx) rest := by
  intro below w hget
  have hpath := h (idx :: below) w hget
  simp only [List.length_cons] at hpath
  omega

theorem length_nibblesOf (bs : List UInt8) : (nibblesOf bs).length = 2 * bs.length := by
  induction bs with
  | nil => rfl
  | cons b bs ih =>
    rw [nibblesOf_cons]
    simp only [List.length_cons, ih]
    omega

/-- The paths of byte strings are even. -/
theorem aligned_of_bytes {t : Trie} (h : ∀ path w, t.get path = some w → ∃ bs, path = nibblesOf bs)
    (key : List UInt8) : Aligned t (nibblesOf key) := by
  intro path w hget
  obtain ⟨bs, rfl⟩ := h path w hget
  rw [length_nibblesOf, length_nibblesOf]
  omega

/-! ## The walk -/

/-- No list of nodes leads past an embedded node. -/
theorem walk_embedded (hR : R.Correct) (hfirst : R.ReadsFirst) {t : Trie}
    (ht : t.Standard keccak256) (hshort : (t.encode keccak256).length < hashLength)
    {remaining : List Nibble} {v : List UInt8} (hget : t.get remaining = some v)
    (hkeys : Aligned t remaining) {expected : NodeRef}
    (hexpected : childRef R (t.encode keccak256) = some expected) (nodes : List (List UInt8)) :
    walk R keccak256 expected remaining nodes = none := by
  by_contra hne
  obtain ⟨w, hwalk⟩ := Option.ne_none_iff_exists'.mp hne
  have hfits := ht.fits
  cases t with
  | empty => cases hget
  | leaf path value =>
    obtain ⟨visit, hvisited⟩ := visited_of_embedded hfirst hshort hexpected hwalk
    exact hvisited.of_bytes_append hfirst (hfits.mem (.head _))
  | ext path child =>
    obtain ⟨visit, hvisited⟩ := visited_of_embedded hfirst hshort hexpected hwalk
    exact hvisited.of_bytes_append hfirst (hfits.mem (.head _))
  | branch children value =>
    have hroom := Trie.first_child_short hshort
    rw [Trie.toItem, List.ofFn_succ, List.cons_append] at hfits
    rw [Trie.encode, Trie.toItem, List.ofFn_succ, List.cons_append] at hshort hexpected
    obtain ⟨visit, hvisited⟩ := visited_of_embedded hfirst hshort hexpected hwalk
    have hfollowing : ∀ item ∈ List.ofFn (fun i : Fin 15 =>
        Trie.ref keccak256 ((children i.succ).toItem keccak256)) ++ [.bytes (value.getD [])],
        item.Fits := fun item hitem => hfits.mem (.tail _ hitem)
    have hfits := hfits.mem (.head _)
    -- a hash, an extension and a branch have no room there
    rw [Trie.ref] at hroom hfits hvisited
    split at hroom
    · next hembedded =>
      rw [if_pos hembedded] at hfits hvisited
      have hchild := ht.2.1 0
      cases hc : children 0 with
      | empty =>
        rw [hc] at hfits hvisited
        exact hvisited.of_bytes_append hfirst hfits
      | leaf path value =>
        rw [hc] at hfits hvisited
        have hleaf := Visited.of_list_append hR hfirst hfits hfollowing (by simp) hvisited
        obtain ⟨rfl, -⟩ := Visited.of_leaf hR hfits hleaf
        have hodd := hkeys (0 :: remaining) value (by rw [Trie.get, hc, Trie.get, if_pos rfl])
        rw [List.length_cons] at hodd
        omega
      | ext path child =>
        rw [hc] at hroom hchild
        have : 17 ≤ ((Trie.ext path child).toItem keccak256).encode.length :=
          Trie.length_encode_ext hchild.2.1 path
        omega
      | branch children value =>
        rw [hc] at hroom
        have : 17 ≤ ((Trie.branch children value).toItem keccak256).encode.length :=
          Trie.length_encode_branch children value
        omega
    · next hlong =>
      rw [if_neg hlong] at hfits hvisited
      exact hvisited.of_bytes_append hfirst hfits

/-- What a child's reference leads to: its root if it is as long as a hash, and nowhere if it is
embedded. -/
theorem walk_child (hR : R.Correct) (hfirst : R.ReadsFirst) {child : Trie}
    (ht : child.Standard keccak256)
    (hfits : (Trie.ref keccak256 (child.toItem keccak256)).Fits) {remaining : List Nibble}
    {v : List UInt8} (hget : child.get remaining = some v) (hkeys : Aligned child remaining)
    {expected : NodeRef}
    (hexpected :
      childRef R (Trie.ref keccak256 (child.toItem keccak256)).encode = some expected)
    {nodes : List (List UInt8)} {w : List UInt8}
    (h : walk R keccak256 expected remaining nodes = some w) :
    hashLength ≤ (child.encode keccak256).length ∧ expected = .hash (child.root keccak256) := by
  by_cases hlong : hashLength ≤ (child.encode keccak256).length
  · rw [childRef_long hR hfits hlong] at hexpected
    exact ⟨hlong, (Option.some.inj hexpected).symm⟩
  · have hshort : (child.encode keccak256).length < hashLength := Nat.lt_of_not_le hlong
    have hembedded : Trie.ref keccak256 (child.toItem keccak256) = child.toItem keccak256 :=
      if_pos hshort
    rw [hembedded] at hexpected
    rw [walk_embedded hR hfirst ht hshort hget hkeys hexpected nodes] at h
    cases h

/-- A walk that returns met no embedded node and found the stored value. -/
theorem walk_stored (hR : R.Correct) (hfirst : R.ReadsFirst) {S : Set (List UInt8)}
    (hcoll : S.InjOn keccak256) {t : Trie} (ht : t.Standard keccak256)
    (hS : ∀ bs ∈ t.encodings keccak256, bs ∈ S) {key : List Nibble} {v : List UInt8}
    (hget : t.get key = some v) (hkeys : Aligned t key) {nodes : List (List UInt8)}
    (hnodes : ∀ n ∈ nodes, n ∈ S) {w : List UInt8}
    (h : walk R keccak256 (.hash (t.root keccak256)) key nodes = some w) :
    (∀ node ∈ (t.trail key).tail, hashLength ≤ (node.encode keccak256).length) ∧ w = v := by
  induction t generalizing key nodes with
  | empty => cases hget
  | leaf path value =>
    obtain ⟨rest, visit, hvisited, -, h⟩ :=
      walk_root hcoll (hS _ (Trie.encode_mem_encodings _)) hnodes h
    obtain ⟨rfl, rfl⟩ := Visited.of_leaf hR ht.fits hvisited
    rw [Trie.get, if_pos rfl] at hget
    refine ⟨?_, h.symm.trans (Option.some.inj hget)⟩
    rintro node ⟨⟩
  | ext path child ih =>
    obtain ⟨rest, visit, hvisited, hrest, h⟩ :=
      walk_root hcoll (hS _ (Trie.encode_mem_encodings _)) hnodes h
    obtain ⟨remaining, expected, rfl, hexpected, rfl⟩ := Visited.of_ext hR ht.fits hvisited
    obtain ⟨-, -, hchild, hfits⟩ := ht
    rw [Trie.get, if_pos (List.prefix_append _ _), List.drop_left] at hget
    have hfits := hfits.mem (.tail _ (.head _))
    obtain ⟨hlong, rfl⟩ := walk_child hR hfirst hchild hfits hget hkeys.ext hexpected h
    obtain ⟨htail, hvalue⟩ :=
      ih hchild (fun bs hbs => hS bs (.tail _ hbs)) hget hkeys.ext hrest h
    rw [Trie.trail, if_pos (List.prefix_append _ _), List.drop_left, List.tail_cons,
      Trie.trail_eq_cons]
    exact ⟨List.forall_mem_cons.mpr ⟨hlong, htail⟩, hvalue⟩
  | branch children value ih =>
    obtain ⟨rest, visit, hvisited, hrest, h⟩ :=
      walk_root hcoll (hS _ (Trie.encode_mem_encodings _)) hnodes h
    rcases Visited.of_branch hR ht.fits hvisited with
      ⟨rfl, rfl⟩ | ⟨idx, remaining, expected, rfl, hexpected, rfl⟩
    · rw [Trie.get] at hget
      subst hget
      refine ⟨?_, h.symm⟩
      rintro node ⟨⟩
    · obtain ⟨-, hchildren, -, hfits⟩ := ht
      have hget : (children idx).get remaining = some v := hget
      have hfits := hfits.mem (List.mem_of_getElem? (getElem?_children
        (fun i => Trie.ref keccak256 ((children i).toItem keccak256)) (.bytes (value.getD [])) idx))
      obtain ⟨hlong, rfl⟩ :=
        walk_child hR hfirst (hchildren idx) hfits hget hkeys.child hexpected h
      obtain ⟨htail, hvalue⟩ := ih idx (hchildren idx)
        (fun bs hbs => hS bs (Trie.encodings_child idx hbs)) hget hkeys.child hrest h
      rw [Trie.trail, List.tail_cons, Trie.trail_eq_cons]
      exact ⟨List.forall_mem_cons.mpr ⟨hlong, htail⟩, hvalue⟩

/-- A walk whose first round finds the value returns it. -/
theorem walk_found {t : Trie} {key : List Nibble} {v : List UInt8}
    (h : Visited R (t.encode keccak256) key (.found v)) (nodes : List (List UInt8)) :
    walk R keccak256 (.hash (t.root keccak256)) key (t.encode keccak256 :: nodes) = some v := by
  have hmatches : (NodeRef.hash (t.root keccak256)).Matches keccak256 (t.encode keccak256) := rfl
  rw [walk, visit_of_visited hmatches h, Option.bind_some]

/-- A round that goes on leaves the other nodes to the rest of the walk. -/
theorem walk_next {t : Trie} {key remaining : List Nibble} {expected : NodeRef}
    (h : Visited R (t.encode keccak256) key (.next expected remaining))
    (nodes : List (List UInt8)) :
    walk R keccak256 (.hash (t.root keccak256)) key (t.encode keccak256 :: nodes) =
      walk R keccak256 expected remaining nodes := by
  have hmatches : (NodeRef.hash (t.root keccak256)).Matches keccak256 (t.encode keccak256) := rfl
  rw [walk, visit_of_visited hmatches h, Option.bind_some]

/-- The nodes on the way to a key lead to its value, if all but the root are as long as a hash. -/
theorem walk_trail (hR : R.Correct) {t : Trie} (ht : t.Standard keccak256) {key : List Nibble}
    {v : List UInt8} (hget : t.get key = some v)
    (hlong : ∀ node ∈ (t.trail key).tail, hashLength ≤ (node.encode keccak256).length) :
    walk R keccak256 (.hash (t.root keccak256)) key
      ((t.trail key).map (Trie.encode keccak256)) = some v := by
  induction t generalizing key with
  | empty => cases hget
  | leaf path value =>
    have hfits := ht.fits
    rw [Trie.toItem] at hfits
    rw [Trie.get] at hget
    split at hget
    · next heq =>
      subst heq
      obtain rfl := Option.some.inj hget
      have hvisited : Visited R ((Trie.leaf key value).encode keccak256) key (.found value) :=
        .leaf (hR.itemCount_list _ hfits) (field_list hR hfits rfl)
          (decodeHexPrefix_hexPrefix true key) (field_list hR hfits rfl)
      exact walk_found hvisited _
    · cases hget
  | ext path child ih =>
    have hfits := ht.fits
    rw [Trie.toItem] at hfits
    rw [Trie.get] at hget
    split at hget
    · next hprefix =>
      obtain ⟨remaining, rfl⟩ := hprefix
      rw [List.drop_left] at hget
      rw [Trie.trail, if_pos (List.prefix_append _ _), List.drop_left] at hlong ⊢
      rw [List.tail_cons, Trie.trail_eq_cons, List.forall_mem_cons] at hlong
      obtain ⟨-, -, hchild, -⟩ := ht
      have hvisited : Visited R ((Trie.ext path child).encode keccak256) (path ++ remaining)
          (.next (.hash (child.root keccak256)) remaining) :=
        .extension (hR.itemCount_list _ hfits) (field_list hR hfits rfl)
          (decodeHexPrefix_hexPrefix false path) (hR.at_list _ 1 hfits)
          (childRef_long hR (hfits.mem (.tail _ (.head _))) hlong.1)
      rw [List.map_cons, walk_next hvisited]
      exact ih hchild hget hlong.2
    · cases hget
  | branch children value ih =>
    have hfits := ht.fits
    rw [Trie.toItem] at hfits
    have hcount := hR.itemCount_list _ hfits
    rw [List.length_append, List.length_ofFn, List.length_singleton] at hcount
    cases key with
    | nil =>
      rw [Trie.get] at hget
      subst hget
      have hvisited : Visited R ((Trie.branch children (some v)).encode keccak256) [] (.found v) :=
        .terminal hcount (field_list hR hfits (getElem?_value _ _))
      exact walk_found hvisited _
    | cons idx remaining =>
      rw [Trie.trail, List.tail_cons, Trie.trail_eq_cons, List.forall_mem_cons] at hlong
      obtain ⟨-, hchildren, -, -⟩ := ht
      have hitem := getElem?_children
        (fun i => Trie.ref keccak256 ((children i).toItem keccak256)) (.bytes (value.getD [])) idx
      have hchild := hR.at_list _ idx.val hfits
      rw [hitem, Option.map_some] at hchild
      have hvisited : Visited R ((Trie.branch children value).encode keccak256) (idx :: remaining)
          (.next (.hash ((children idx).root keccak256)) remaining) :=
        .branch hcount hchild
          (childRef_long hR (hfits.mem (List.mem_of_getElem? hitem)) hlong.1)
      rw [Trie.trail, List.map_cons, walk_next hvisited]
      exact ih idx (hchildren idx) hget hlong.2

/-! ## Which keys are reached -/

/-- Some list of nodes makes the walk return, and every one that does gives `v`. The nodes are from
a set on which keccak256 does not collide. -/
def Returns (R : Crate) (keccak256 : List UInt8 → Fixed 32) (S : Set (List UInt8))
    (root : Fixed 32) (key v : List UInt8) : Prop :=
  (∃ nodes, (∀ n ∈ nodes, n ∈ S) ∧ (verifyTrieProof R keccak256 root key nodes).isSome) ∧
    ∀ nodes, (∀ n ∈ nodes, n ∈ S) → ∀ w, verifyTrieProof R keccak256 root key nodes = some w →
      w = v

theorem walk_returns_stored_iff (R : Crate) (hR : R.Correct) (hfirst : R.ReadsFirst)
    (keccak256 : List UInt8 → Fixed 32) (S : Set (List UInt8)) (hcoll : S.InjOn keccak256)
    (t : Trie) (ht : t.Standard keccak256) (hS : ∀ bs ∈ t.encodings keccak256, bs ∈ S)
    (hkeys : ∀ path w, t.get path = some w → ∃ bs, path = nibblesOf bs) (key v : List UInt8)
    (hget : t.get (nibblesOf key) = some v) :
    Returns R keccak256 S (t.root keccak256) key v ↔
      ∀ node ∈ (t.trail (nibblesOf key)).tail, hashLength ≤ (node.encode keccak256).length := by
  have haligned := aligned_of_bytes hkeys key
  constructor
  · rintro ⟨⟨nodes, hnodes, hreturns⟩, -⟩
    obtain ⟨w, hw⟩ := Option.isSome_iff_exists.mp hreturns
    exact (walk_stored hR hfirst hcoll ht hS hget haligned hnodes hw).1
  · intro hlong
    refine ⟨⟨(t.trail (nibblesOf key)).map (Trie.encode keccak256), ?_, ?_⟩, ?_⟩
    · intro n hn
      obtain ⟨node, hnode, rfl⟩ := List.mem_map.mp hn
      exact hS _ (Trie.encode_mem_of_trail hnode)
    · rw [verifyTrieProof, walk_trail hR ht hget hlong]
      rfl
    · intro nodes hnodes w hw
      exact (walk_stored hR hfirst hcoll ht hS hget haligned hnodes hw).2

/-! ## A trie with an embedded leaf -/

/-- A value of 40 bytes at key 0x00 and one of a single byte at key 0x10. -/
def mixedTrie : Trie :=
  .branch (fun i => if i = 0 then .leaf [0] (List.replicate 40 0x61)
    else if i = 1 then .leaf [0] [2] else .empty) none

def longLeaf : List UInt8 := [0xea, 0x30, 0xa8] ++ List.replicate 40 0x61

def shortLeaf : List UInt8 := [0xc2, 0x30, 2]

def mixedBranch : List UInt8 :=
  [0xf3, 0xa0] ++ beBytes 32 0x3481ac485c345923550768bed9b7a7ea080f676fb9863b257dc411d0e6f99713 ++
    shortLeaf ++ List.replicate 15 0x80

/-- The strings of the sample: its nodes, the absent node and what the walk asks for in place of the
embedded leaf. -/
def mixedStrings : List (List UInt8) := [mixedBranch, longLeaf, shortLeaf, [0x80], [0x30, 2]]

/-- keccak256 on these strings. -/
def mixedKeccak256 (bs : List UInt8) : Fixed 32 :=
  ⟨beBytes 32 (
    if bs = mixedBranch then
      0x38a30692e3eec64f5ad65d986eff411ec7432f98d49e786eae15617f162fc293
    else if bs = longLeaf then
      0x3481ac485c345923550768bed9b7a7ea080f676fb9863b257dc411d0e6f99713
    else if bs = shortLeaf then
      0x65c24afd0b01c8114f9dec5b3af7e08e370d0ed18badec25629fa84e5471986a
    else if bs = [0x80] then
      0x56e81f171bcc55a6ff8345e692c0f86e5b48e01b996cadc001622fb5e363b421
    else if bs = [0x30, 2] then
      0x7da6f69187ba2e4254e7d6607cb1f58ce21dd48f66a44f69f9007edb11320158
    else 0), by simp⟩

theorem mixedTrie_standard : mixedTrie.Standard mixedKeccak256 := by
  refine ⟨⟨0, by simp, .inr ⟨1, by simp⟩⟩, ?_, by simp, ?_⟩
  · intro i
    dsimp only
    split
    · exact ⟨by decide, by rw [Item.Fits]; decide⟩
    · split
      · exact ⟨by decide, by rw [Item.Fits]; decide⟩
      · exact True.intro
  · rw [Item.Fits]
    decide

theorem mixedTrie_keys (path : List Nibble) (w : List UInt8) (h : mixedTrie.get path = some w) :
    ∃ bs, path = nibblesOf bs := by
  cases path with
  | nil => cases h
  | cons nibble path =>
    rw [mixedTrie, Trie.get] at h
    split at h
    · next hfirst =>
      rw [Trie.get] at h
      split at h
      · next hpath => exact ⟨[0x00], by rw [hfirst, hpath]; decide⟩
      · cases h
    · split at h
      · next hsecond =>
        rw [Trie.get] at h
        split at h
        · next hpath => exact ⟨[0x10], by rw [hsecond, hpath]; decide⟩
        · cases h
      · cases h

theorem mixedKeccak256_injOn : { bs | bs ∈ mixedStrings }.InjOn mixedKeccak256 := by
  have hpairs : ∀ a ∈ mixedStrings, ∀ b ∈ mixedStrings,
      mixedKeccak256 a = mixedKeccak256 b → a = b := by decide
  exact fun a ha b hb => hpairs a ha b hb

theorem mixedTrie_encodings :
    ∀ bs ∈ mixedTrie.encodings mixedKeccak256, bs ∈ { bs | bs ∈ mixedStrings } := by
  have hlisted : ∀ bs ∈ mixedTrie.encodings mixedKeccak256, bs ∈ mixedStrings := by decide
  exact hlisted

theorem walk_returns_stored_long_leaf :
    Returns reference mixedKeccak256 { bs | bs ∈ mixedStrings } (mixedTrie.root mixedKeccak256)
      [0x00] (List.replicate 40 0x61) := by
  refine (walk_returns_stored_iff reference reference_correct reference_readsFirst mixedKeccak256 _
    mixedKeccak256_injOn mixedTrie mixedTrie_standard mixedTrie_encodings mixedTrie_keys [0x00]
    (List.replicate 40 0x61) rfl).mpr ?_
  intro node hnode
  obtain rfl : node = .leaf [0] (List.replicate 40 0x61) := List.mem_singleton.mp hnode
  decide

/-- The value of a single byte is stored, but no list of nodes makes the walk return it. -/
theorem embedded_leaf_unreachable :
    ¬ ∀ (R : Crate) (keccak256 : List UInt8 → Fixed 32) (S : Set (List UInt8)) (t : Trie)
      (key v : List UInt8), R.Correct → R.ReadsFirst → S.InjOn keccak256 →
      t.Standard keccak256 → (∀ bs ∈ t.encodings keccak256, bs ∈ S) →
      (∀ path w, t.get path = some w → ∃ bs, path = nibblesOf bs) →
      t.get (nibblesOf key) = some v →
      Returns R keccak256 S (t.root keccak256) key v := by
  intro hclaim
  have hget : mixedTrie.get (nibblesOf [0x10]) = some [2] := rfl
  obtain ⟨⟨nodes, hnodes, hreturns⟩, -⟩ := hclaim reference mixedKeccak256
    { bs | bs ∈ mixedStrings } mixedTrie [0x10] [2] reference_correct reference_readsFirst
    mixedKeccak256_injOn mixedTrie_standard mixedTrie_encodings mixedTrie_keys hget
  obtain ⟨w, hw⟩ := Option.isSome_iff_exists.mp hreturns
  have hlong := (walk_stored reference_correct reference_readsFirst mixedKeccak256_injOn
    mixedTrie_standard mixedTrie_encodings hget (aligned_of_bytes mixedTrie_keys _) hnodes hw).1
  have hembedded := hlong (.leaf [0] [2]) (.head _)
  revert hembedded
  decide

end Maat.Guest
