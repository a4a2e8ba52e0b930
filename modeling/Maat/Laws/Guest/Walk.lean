import Maat.Laws.Guest.Main
import Maat.Guest.Receipt

/-!
# The walk finds what the trie stores

A walk that starts at the hash of a well-formed trie reads the nodes of that trie, as keccak256
does not collide between what the host supplies and the trie's nodes. So it ends with the value the
trie maps the key to (`walk_sound`). The one exception is a key that ends at a branch without a
value: the walk then returns the empty string.
-/

namespace Maat.Guest

open Rlp Bytes

/-! ## Paths -/

theorem nibblesOf_cons (b : UInt8) (bs : List UInt8) :
    nibblesOf (b :: bs) =
      Fin.ofNat 16 (b.toNat / 16) :: Fin.ofNat 16 b.toNat :: nibblesOf bs := rfl

/-- Packed nibbles are unpacked, two at a time. -/
theorem nibblesOf_pack_cons (hi lo : Nibble) (rest : List Nibble) :
    nibblesOf (pack (hi :: lo :: rest)) = hi :: lo :: nibblesOf (pack rest) := by
  have hbyte : (UInt8.ofNat (16 * hi.val + lo.val)).toNat = 16 * hi.val + lo.val := by
    rw [UInt8.toNat_ofNat']
    omega
  rw [pack, nibblesOf_cons, hbyte]
  congr 1
  · apply Fin.ext
    rw [Fin.val_ofNat]
    omega
  · congr 1
    apply Fin.ext
    rw [Fin.val_ofNat]
    omega

theorem nibblesOf_pack {path : List Nibble} (h : path.length % 2 = 0) :
    nibblesOf (pack path) = path := by
  induction path using pack.induct with
  | case1 hi lo rest ih =>
    rw [nibblesOf_pack_cons, ih]
    simp only [List.length_cons] at h
    omega
  | case2 path hne =>
    match path with
    | [] => rfl
    | [_] => cases h
    | hi :: lo :: rest => exact absurd rfl (hne hi lo rest)

/-- The guest reads back the path of a leaf or an extension, and which of the two it is. -/
theorem decodeHexPrefix_hexPrefix (isLeaf : Bool) (path : List Nibble) :
    decodeHexPrefix (hexPrefix isLeaf path) = some (isLeaf, path) := by
  by_cases hodd : path.length % 2 = 1
  · have heven (flag : Nibble) : (flag :: path).length % 2 = 0 := by
      rw [List.length_cons]
      omega
    rw [hexPrefix, if_pos hodd, decodeHexPrefix, nibblesOf_pack (heven _)]
    cases isLeaf <;> rfl
  · have heven (flag : Nibble) : (flag :: 0 :: path).length % 2 = 0 := by
      simp only [List.length_cons]
      omega
    rw [hexPrefix, if_neg hodd, decodeHexPrefix, nibblesOf_pack (heven _)]
    cases isLeaf <;> rfl

/-! ## Nodes -/

variable {R : Crate} {keccak256 : List UInt8 → Fixed 32}

theorem field_list (hR : R.Correct) {items : List Item} {i : Nat} {bs : List UInt8}
    (hfits : (Item.list items).Fits) (hi : items[i]? = some (.bytes bs)) :
    field R (Item.list items).encode i = some bs := by
  have hmem : Item.bytes bs ∈ items := List.mem_of_getElem? hi
  rw [field, hR.at_list _ _ hfits, hi, Option.map_some, Option.bind_some,
    hR.data_bytes _ (hfits.mem hmem)]

/-- A child that is a hash is followed as that hash. -/
theorem childRef_hash (hR : R.Correct) {h : Fixed 32} {expected : NodeRef}
    (hfits : (Item.bytes h.val).Fits)
    (hchild : childRef R (Item.bytes h.val).encode = some expected) : expected = .hash h := by
  obtain ⟨bytes, hdata, -, rfl⟩ := childRef_eq_some.mp hchild
  rw [hR.data_bytes _ hfits] at hdata
  obtain rfl := Option.some.inj hdata
  rw [dif_pos h.property]

/-- An absent child is not followed. -/
theorem childRef_absent (hR : R.Correct) {expected : NodeRef}
    (hchild : childRef R (Item.bytes []).encode = some expected) : False := by
  obtain ⟨bytes, hdata, hne, -⟩ := childRef_eq_some.mp hchild
  have hfits : (Item.bytes []).Fits := by
    simp [Item.Fits, Item.encode, isSelfEncoded, lengthPrefix]
  rw [hR.data_bytes _ hfits] at hdata
  exact hne (Option.some.inj hdata).symm

/-- The reference to a present child leads to the child's root. -/
theorem childRef_ref (hR : R.Correct) {child : Trie} (hwf : child.WellFormed keccak256)
    {expected : NodeRef} (hfits : (Trie.ref keccak256 (child.toItem keccak256)).Fits)
    (hchild : childRef R (Trie.ref keccak256 (child.toItem keccak256)).encode = some expected) :
    expected = .hash (child.root keccak256) := by
  rcases Trie.ref_of_wellFormed hwf with ⟨-, hempty⟩ | ⟨-, hhash⟩
  · rw [hempty] at hchild
    exact (childRef_absent hR hchild).elim
  · rw [hhash] at hchild hfits
    exact childRef_hash hR hfits hchild

theorem getElem?_children (f : Nibble → Item) (last : Item) (i : Nibble) :
    (List.ofFn f ++ [last])[i.val]? = some (f i) := by
  rw [List.getElem?_append_left (by rw [List.length_ofFn]; exact i.isLt), List.getElem?_ofFn,
    dif_pos i.isLt]

theorem getElem?_value (f : Nibble → Item) (last : Item) :
    (List.ofFn f ++ [last])[16]? = some last := by
  rw [List.getElem?_append_right (by rw [List.length_ofFn]), List.length_ofFn]
  rfl

/-! ## One round at each shape of node -/

/-- A string is no node. -/
theorem Visited.of_bytes (hR : R.Correct) {bs : List UInt8} (hfits : (Item.bytes bs).Fits)
    {remaining : List Nibble} {v : Visit} (h : Visited R (Item.bytes bs).encode remaining v) :
    False := by
  have hcount := hR.itemCount_bytes bs hfits
  cases h <;> simp_all

/-- What a round at a leaf or an extension does depends on the flag and the path. -/
theorem Visited.of_pair (hR : R.Correct) {isLeaf : Bool} {path : List Nibble} {second : Item}
    (hfits : (Item.list [.bytes (hexPrefix isLeaf path), second]).Fits)
    {remaining : List Nibble} {v : Visit}
    (h : Visited R (Item.list [.bytes (hexPrefix isLeaf path), second]).encode remaining v) :
    (isLeaf = true ∧ remaining = path ∧
      ∃ value, R.data second.encode = some value ∧ v = .found value) ∨
    (isLeaf = false ∧ ∃ rest expected, remaining = path ++ rest ∧
      childRef R second.encode = some expected ∧ v = .next expected rest) := by
  have hcount := hR.itemCount_list _ hfits
  have hpath := field_list hR hfits (i := 0) rfl
  have hsecond := hR.at_list _ 1 hfits
  cases h with
  | terminal h17 => exact absurd (show some 2 = some 17 from hcount.symm.trans h17) (by decide)
  | branch h17 => exact absurd (show some 2 = some 17 from hcount.symm.trans h17) (by decide)
  | leaf _ hencoded hprefix hvalue =>
    rw [hpath] at hencoded
    obtain rfl := Option.some.inj hencoded
    rw [decodeHexPrefix_hexPrefix] at hprefix
    obtain ⟨rfl, rfl⟩ := Prod.mk.inj (Option.some.inj hprefix)
    obtain ⟨part, hpart, hvalue⟩ := field_eq_some.mp hvalue
    obtain rfl := Option.some.inj (hsecond.symm.trans hpart)
    exact .inl ⟨rfl, rfl, _, hvalue, rfl⟩
  | extension _ hencoded hprefix hitem hexpected =>
    rw [hpath] at hencoded
    obtain rfl := Option.some.inj hencoded
    rw [decodeHexPrefix_hexPrefix] at hprefix
    obtain ⟨rfl, rfl⟩ := Prod.mk.inj (Option.some.inj hprefix)
    obtain rfl := Option.some.inj (hsecond.symm.trans hitem)
    exact .inr ⟨rfl, _, _, rfl, hexpected, rfl⟩

theorem Visited.of_leaf (hR : R.Correct) {path : List Nibble} {value : List UInt8}
    (hfits : ((Trie.leaf path value).toItem keccak256).Fits) {remaining : List Nibble} {v : Visit}
    (h : Visited R ((Trie.leaf path value).encode keccak256) remaining v) :
    remaining = path ∧ v = .found value := by
  rw [Trie.encode] at h
  rw [Trie.toItem] at h hfits
  rcases Visited.of_pair hR hfits h with ⟨-, hpath, found, hdata, rfl⟩ | ⟨hleaf, -⟩
  · rw [hR.data_bytes _ (hfits.mem (.tail _ (.head _)))] at hdata
    exact ⟨hpath, congrArg _ (Option.some.inj hdata).symm⟩
  · cases hleaf

theorem Visited.of_ext (hR : R.Correct) {path : List Nibble} {child : Trie}
    (hfits : ((Trie.ext path child).toItem keccak256).Fits) {remaining : List Nibble} {v : Visit}
    (h : Visited R ((Trie.ext path child).encode keccak256) remaining v) :
    ∃ rest expected, remaining = path ++ rest ∧
      childRef R (Trie.ref keccak256 (child.toItem keccak256)).encode = some expected ∧
      v = .next expected rest := by
  rw [Trie.encode] at h
  rw [Trie.toItem] at h hfits
  rcases Visited.of_pair hR hfits h with ⟨hleaf, -⟩ | ⟨-, hnext⟩
  · cases hleaf
  · exact hnext

theorem Visited.of_branch (hR : R.Correct) {children : Nibble → Trie}
    {value : Option (List UInt8)} (hfits : ((Trie.branch children value).toItem keccak256).Fits)
    {remaining : List Nibble} {v : Visit}
    (h : Visited R ((Trie.branch children value).encode keccak256) remaining v) :
    (remaining = [] ∧ v = .found (value.getD [])) ∨
    ∃ idx rest expected, remaining = idx :: rest ∧
      childRef R (Trie.ref keccak256 ((children idx).toItem keccak256)).encode = some expected ∧
      v = .next expected rest := by
  rw [Trie.encode] at h
  rw [Trie.toItem] at h hfits
  have hcount := hR.itemCount_list _ hfits
  rw [List.length_append, List.length_ofFn, List.length_singleton] at hcount
  cases h with
  | terminal _ hvalue =>
    have hstored := field_list hR hfits (getElem?_value _ _)
    obtain rfl := Option.some.inj (hstored.symm.trans hvalue)
    exact .inl ⟨rfl, rfl⟩
  | branch _ hitem hexpected =>
    rw [hR.at_list _ _ hfits, getElem?_children] at hitem
    obtain rfl := Option.some.inj hitem
    exact .inr ⟨_, _, _, rfl, hexpected, rfl⟩
  | leaf h2 => exact absurd (hcount.symm.trans h2) (by decide)
  | extension h2 => exact absurd (hcount.symm.trans h2) (by decide)

/-! ## The walk -/

/-- A walk from the hash of a trie reads its root first. -/
theorem walk_root {S : Set (List UInt8)} (hcoll : S.InjOn keccak256) {t : Trie}
    (hS : t.encode keccak256 ∈ S) {key : List Nibble} {nodes : List (List UInt8)} {v : List UInt8}
    (hnodes : ∀ n ∈ nodes, n ∈ S)
    (h : walk R keccak256 (.hash (t.root keccak256)) key nodes = some v) :
    ∃ rest visit, Visited R (t.encode keccak256) key visit ∧ (∀ n ∈ rest, n ∈ S) ∧
      match visit with
      | .found found => found = v
      | .next expected remaining => walk R keccak256 expected remaining rest = some v := by
  obtain ⟨node, rest, visit, rfl, hvisit, hrest⟩ := walk_eq_some h
  obtain ⟨hmatches, hvisited⟩ := visit_eq_some hvisit
  obtain rfl : node = t.encode keccak256 := hcoll (hnodes _ (.head _)) hS hmatches
  exact ⟨rest, visit, hvisited, fun n hn => hnodes n (.tail _ hn), hrest⟩

/-- A walk from the hash of a well-formed trie finds the value of the key, or the empty string where
the trie stores none. -/
theorem walk_sound (hR : R.Correct) {S : Set (List UInt8)} (hcoll : S.InjOn keccak256) {t : Trie}
    (hwf : t.WellFormed keccak256) (hS : ∀ bs ∈ t.encodings keccak256, bs ∈ S)
    {key : List Nibble} {nodes : List (List UInt8)} {v : List UInt8} (hnodes : ∀ n ∈ nodes, n ∈ S)
    (h : walk R keccak256 (.hash (t.root keccak256)) key nodes = some v) :
    t.get key = some v ∨ (t.get key = none ∧ v = []) := by
  induction t generalizing key nodes with
  | empty =>
    obtain ⟨-, visit, hvisited, -⟩ :=
      walk_root hcoll (hS _ (Trie.encode_mem_encodings _)) hnodes h
    exact (Visited.of_bytes hR hwf.fits hvisited).elim
  | leaf path value =>
    obtain ⟨rest, visit, hvisited, -, h⟩ :=
      walk_root hcoll (hS _ (Trie.encode_mem_encodings _)) hnodes h
    obtain ⟨rfl, rfl⟩ := Visited.of_leaf hR hwf.fits hvisited
    left
    rw [Trie.get, if_pos rfl]
    exact congrArg some h
  | ext path child ih =>
    obtain ⟨rest, visit, hvisited, hrest, h⟩ :=
      walk_root hcoll (hS _ (Trie.encode_mem_encodings _)) hnodes h
    obtain ⟨remaining, expected, rfl, hexpected, rfl⟩ := Visited.of_ext hR hwf.fits hvisited
    obtain ⟨-, -, hchild, hfits⟩ := hwf
    obtain rfl := childRef_ref hR hchild (hfits.mem (.tail _ (.head _))) hexpected
    rw [Trie.get, if_pos (List.prefix_append _ _), List.drop_left]
    exact ih hchild (fun bs hbs => hS bs (.tail _ hbs)) hrest h
  | branch children value ih =>
    obtain ⟨rest, visit, hvisited, hrest, h⟩ :=
      walk_root hcoll (hS _ (Trie.encode_mem_encodings _)) hnodes h
    rcases Visited.of_branch hR hwf.fits hvisited with
      ⟨rfl, rfl⟩ | ⟨idx, remaining, expected, rfl, hexpected, rfl⟩
    · rw [Trie.get]
      cases value with
      | none => exact .inr ⟨rfl, h.symm⟩
      | some value => exact .inl (congrArg some h)
    · obtain ⟨-, hchildren, -, hfits⟩ := hwf
      have hmem := List.mem_of_getElem? (getElem?_children
        (fun i => Trie.ref keccak256 ((children i).toItem keccak256)) (.bytes (value.getD [])) idx)
      obtain rfl := childRef_ref hR (hchildren idx) (hfits.mem hmem) hexpected
      exact ih idx (hchildren idx) (fun bs hbs => hS bs (Trie.encodings_child idx hbs)) hrest h

end Maat.Guest
