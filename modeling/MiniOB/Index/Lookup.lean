import MiniOB.Index.FanOut
import MiniOB.Lib.Bisection
import MiniOB.Lib.Bytes
import MiniOB.Lib.Memory

/-!
# Looking up keys in the bytes of a node

`lookup` of the leaves and of the internal nodes in `storage/index/bplus_tree.cpp`, with
`common::lower_bound` on which it rests. The items of a node lie one behind the other on its page
and are gone through by iterators that count in items. If the comparator is an order, the search
finds the place of a key among increasing keys, and the lookups of the tree are these searches.
-/

namespace MiniOB.BplusTree

open Bisection

/-! ### Iterators -/

/-- The conversion to `size_t`. -/
def sizeT (x : Int) : Nat := (x % 2 ^ 64).toNat

/-- The conversion of a `size_t` to `ptrdiff_t`. -/
def ptrdiffT (x : Nat) : Int := (x : Int).bmod (2 ^ 64)

theorem sizeT_natCast {x : Nat} (h : x < 2 ^ 63) : sizeT x = x := by
  have hlt : (x : Int) < 2 ^ 64 := by omega
  rw [sizeT, Int.emod_eq_of_lt (Int.natCast_nonneg x) hlt, Int.toNat_natCast]

theorem bmod_natCast {x m : Nat} (h : 2 * x < m) : (x : Int).bmod m = x := by
  apply Int.bmod_eq_of_le <;> omega

theorem ptrdiffT_of_lt {x : Nat} (h : x < 2 ^ 63) : ptrdiffT x = x := by
  have hlt : 2 * x < 2 ^ 64 := by omega
  exact bmod_natCast hlt

/-- `common::BinaryIterator<char>`: the bytes of an item, and the address that it has come to. -/
structure BinaryIterator where
  itemNum : Nat
  data : Nat
  deriving DecidableEq, Repr

namespace BinaryIterator

/-- `operator+=`. -/
def advance (it : BinaryIterator) (n : Nat) : BinaryIterator :=
  { it with data := it.data + it.itemNum * n }

/-- `operator-`. The difference of the addresses is a `size_t` when it is divided. -/
def sub (left right : BinaryIterator) : Int :=
  ptrdiffT (sizeT (left.data - right.data) / left.itemNum)

@[simp]
theorem advance_zero (it : BinaryIterator) : it.advance 0 = it := by
  rw [advance, Nat.mul_zero, Nat.add_zero]

theorem advance_advance (it : BinaryIterator) (n n' : Nat) :
  (it.advance n).advance n' = it.advance (n + n')
  := by
  simp only [advance, Nat.mul_add, Nat.add_assoc]

/-- The distance of the places that an iterator comes to. -/
theorem advance_sub {it : BinaryIterator} {n : Nat} (hitem : 0 < it.itemNum)
    (hfits : it.itemNum * n < 2 ^ 63) :
  (it.advance n).sub it = n
  := by
  have hn : n ≤ it.itemNum * n := Nat.le_mul_of_pos_left n hitem
  have hbytes : ((it.advance n).data : Int) - it.data = (it.itemNum * n : Nat) := by
    rw [advance, Nat.cast_add, add_sub_cancel_left]
  have hquot : it.itemNum * n / (it.advance n).itemNum = n := Nat.mul_div_cancel_left n hitem
  rw [sub, hbytes, sizeT_natCast hfits, hquot, ptrdiffT_of_lt (hn.trans_lt hfits)]

/-- The loop of `common::lower_bound`. -/
def lowerBoundLoop (comp : Nat → Int) (first : BinaryIterator) (lastCount : Nat) :
    BinaryIterator × Bool :=
  if 0 < lastCount then
    let step := lastCount / 2
    let iter := first.advance step
    let result := comp iter.data
    if result = 0 then (iter, true)
    else if result < 0 then lowerBoundLoop comp (iter.advance 1) (lastCount - (step + 1))
    else lowerBoundLoop comp first step
  else (first, false)
termination_by lastCount
decreasing_by all_goals omega

/-- `common::lower_bound`, where `comp` compares what lies at an address with the value. -/
def lowerBound (comp : Nat → Int) (first last : BinaryIterator) : BinaryIterator × Bool :=
  lowerBoundLoop comp first (last.sub first).toNat

/-- The iterators go through the places of the items. -/
theorem lowerBoundLoop_eq (comp : Nat → Int) (first : BinaryIterator) (index lastCount : Nat) :
  lowerBoundLoop comp (first.advance index) lastCount
    = let (index, found) := search (fun i => comp (first.advance i).data) index lastCount
      (first.advance index, found)
  := by
  induction lastCount using Nat.strongRecOn generalizing index with
  | ind lastCount ih =>
    rw [lowerBoundLoop, search]
    split
    · rename_i hcount
      simp only [advance_advance]
      split_ifs
      · rfl
      · exact ih _ (by omega) _
      · exact ih _ (by omega) _
    · rfl

theorem lowerBound_eq (comp : Nat → Int) {first : BinaryIterator} {n : Nat}
    (hitem : 0 < first.itemNum) (hfits : first.itemNum * n < 2 ^ 63) :
  lowerBound comp first (first.advance n)
    = let (index, found) := search (fun i => comp (first.advance i).data) 0 n
      (first.advance index, found)
  := by
  rw [lowerBound, advance_sub hitem hfits, Int.toNat_natCast]
  have hloop := lowerBoundLoop_eq comp first 0 n
  rwa [advance_zero] at hloop

end BinaryIterator

/-! ### Nodes -/

/-- `IndexNodeHandler`: the bytes of the memory, where the items of the node begin, and how many
there are. They lie on one page. A key ends in the identifier of a record. -/
structure IndexNodeHandler (valueSize : Nat) where
  memory : Nat → UInt8
  array : Nat
  attrLength : Nat
  size : Nat
  fits : size * (attrLength + 8 + valueSize) ≤ Record.pageDataSize

namespace IndexNodeHandler

variable {valueSize : Nat}

/-- `IndexNodeHandler::key_size`. -/
def keySize (node : IndexNodeHandler valueSize) : Nat := node.attrLength + 8

/-- `IndexNodeHandler::item_size`. -/
def itemSize (node : IndexNodeHandler valueSize) : Nat := node.keySize + valueSize

/-- `__item_at`. -/
def itemAt (node : IndexNodeHandler valueSize) (index : Nat) : Nat :=
  node.array + index * node.itemSize

/-- The bytes of a key at an address. -/
def readKey (node : IndexNodeHandler valueSize) (address : Nat) : List UInt8 :=
  Memory.read node.memory address node.keySize

/-- The bytes at `__key_at`. -/
def keyAt (node : IndexNodeHandler valueSize) (index : Nat) : List UInt8 :=
  node.readKey (node.itemAt index)

/-- The iterator at an item. -/
def iterAt (node : IndexNodeHandler valueSize) (index : Nat) : BinaryIterator :=
  ⟨node.itemSize, node.itemAt index⟩

end IndexNodeHandler

/-- `LeafIndexNodeHandler`, whose values are identifiers of records. -/
abbrev LeafIndexNodeHandler := IndexNodeHandler 8

/-- `InternalIndexNodeHandler`, whose values are pages. -/
abbrev InternalIndexNodeHandler := IndexNodeHandler 4

/-- `LeafIndexNodeHandler::lookup`: the position, and `found`. -/
def LeafIndexNodeHandler.lookup (node : LeafIndexNodeHandler)
    (comparator : List UInt8 → List UInt8 → Int) (key : List UInt8) : Int × Bool :=
  let iterBegin := node.iterAt 0
  let iterEnd := node.iterAt node.size
  let result := BinaryIterator.lowerBound
    (fun address => comparator (node.readKey address) key) iterBegin iterEnd
  (result.1.sub iterBegin, result.2)

/-- `InternalIndexNodeHandler::lookup`: the index of the child, `found` and `insert_position`. -/
def InternalIndexNodeHandler.lookup (node : InternalIndexNodeHandler)
    (comparator : List UInt8 → List UInt8 → Int) (key : List UInt8) : Int × Bool × Int :=
  if node.size = 0 then (0, false, 1)
  else
    let iterBegin := node.iterAt 1
    let iterEnd := node.iterAt node.size
    let result := BinaryIterator.lowerBound
      (fun address => comparator (node.readKey address) key) iterBegin iterEnd
    let found := result.2
    let ret := result.1.sub iterBegin + 1
    if node.size ≤ ret ∨ comparator key (node.keyAt ret.toNat) < 0 then (ret - 1, found, ret)
    else (ret, found, ret)

section Node

variable {valueSize : Nat} {node : IndexNodeHandler valueSize}
  {comparator : List UInt8 → List UInt8 → Int} {key : List UInt8}

theorem IndexNodeHandler.advance_iterAt (index n : Nat) :
  (node.iterAt index).advance n = node.iterAt (index + n)
  := by
  rw [iterAt, BinaryIterator.advance, iterAt, itemAt, itemAt, Nat.add_mul,
    Nat.mul_comm node.itemSize, Nat.add_assoc]

/-- The items lie on a page, so that the addresses can be subtracted. -/
theorem IndexNodeHandler.item_bounds {n : Nat} (hn : n ≤ node.size) :
  0 < node.itemSize ∧ node.itemSize * n < 2 ^ 63
  := by
  have hfits := node.fits
  have hle : node.itemSize * n ≤ node.size * node.itemSize := by
    rw [Nat.mul_comm]
    exact Nat.mul_le_mul_right _ hn
  rw [Record.pageDataSize] at hfits
  rw [itemSize, keySize] at hle ⊢
  constructor <;> omega

/-- `common::lower_bound` searches the items from one on to the end. -/
theorem IndexNodeHandler.lowerBound_eq (comp : Nat → Int) {first : Nat}
    (hfirst : first ≤ node.size) :
  BinaryIterator.lowerBound comp (node.iterAt first) (node.iterAt node.size)
    = let (index, found) := search (fun i => comp (node.itemAt (first + i))) 0 (node.size - first)
      (node.iterAt (first + index), found)
  := by
  have hend : node.iterAt node.size = (node.iterAt first).advance (node.size - first) := by
    rw [advance_iterAt, Nat.add_sub_cancel' hfirst]
  obtain ⟨hitem, hbytes⟩ := node.item_bounds (Nat.sub_le node.size first)
  rw [hend, BinaryIterator.lowerBound_eq comp hitem hbytes]
  simp only [advance_iterAt]
  rfl

theorem IndexNodeHandler.iterAt_sub {first n : Nat} (hn : n ≤ node.size) :
  (node.iterAt (first + n)).sub (node.iterAt first) = n
  := by
  obtain ⟨hitem, hbytes⟩ := node.item_bounds hn
  rw [← advance_iterAt, BinaryIterator.advance_sub hitem hbytes]

/-- A leaf is searched as a whole. -/
theorem LeafIndexNodeHandler.lookup_eq (leaf : LeafIndexNodeHandler) {m : Nat} {found : Bool}
    (hsearch : search (fun i => comparator (leaf.keyAt i) key) 0 leaf.size = (m, found))
    (hm : m ≤ leaf.size) :
  leaf.lookup comparator key = ((m : Int), found)
  := by
  rw [lookup]
  simp only [IndexNodeHandler.lowerBound_eq _ (Nat.zero_le leaf.size), Nat.zero_add, Nat.sub_zero]
  have hkeys : (fun i => comparator (leaf.readKey (leaf.itemAt i)) key)
      = fun i => comparator (leaf.keyAt i) key := rfl
  rw [hkeys, hsearch]
  simp only
  have hsub := @IndexNodeHandler.iterAt_sub 8 leaf 0 m hm
  rw [Nat.zero_add] at hsub
  rw [hsub]

/-- An internal node is searched from the second key on. -/
theorem InternalIndexNodeHandler.lookup_eq (node : InternalIndexNodeHandler) (hsize : 1 ≤ node.size)
    {m : Nat} {found : Bool}
    (hsearch : search (fun i => comparator (node.keyAt (1 + i)) key) 0 (node.size - 1) = (m, found))
    (hm : m ≤ node.size - 1) :
  node.lookup comparator key
    = if node.size ≤ m + 1 ∨ comparator key (node.keyAt (m + 1)) < 0
      then ((m : Int), found, (m : Int) + 1)
      else ((m : Int) + 1, found, (m : Int) + 1)
  := by
  rw [lookup, if_neg (by omega)]
  simp only [IndexNodeHandler.lowerBound_eq _ hsize]
  have hkeys : (fun i => comparator (node.readKey (node.itemAt (1 + i))) key)
      = fun i => comparator (node.keyAt (1 + i)) key := rfl
  rw [hkeys, hsearch]
  simp only
  rw [IndexNodeHandler.iterAt_sub (by omega)]
  have hret : ((m : Int) + 1).toNat = m + 1 := by omega
  have hle : ((node.size : Int) ≤ (m : Int) + 1) ↔ node.size ≤ m + 1 := by omega
  simp only [hret, hle, add_sub_cancel_right]

end Node

/-! ### The lookups of the tree -/

section Decode

variable {K V : Type} [LinearOrder K] {comparator : List UInt8 → List UInt8 → Int}
  {decode : List UInt8 → K} {key : List UInt8}

/-- The keys of the items are those that the bytes of a node hold. -/
def IndexNodeHandler.Holds {valueSize : Nat} (node : IndexNodeHandler valueSize)
    (decode : List UInt8 → K) (items : List (K × V)) : Prop :=
  items.map Prod.fst = (List.range node.size).map fun i => decode (node.keyAt i)

omit [LinearOrder K] in
theorem IndexNodeHandler.Holds.length_eq {valueSize : Nat} {node : IndexNodeHandler valueSize}
    {items : List (K × V)} (h : node.Holds decode items) :
  items.length = node.size
  := by
  rw [← List.length_map (f := Prod.fst), h, List.length_map, List.length_range]

omit [LinearOrder K] in
theorem IndexNodeHandler.Holds.keys_getElem? {valueSize : Nat} {node : IndexNodeHandler valueSize}
    {items : List (K × V)} (h : node.Holds decode items) {i : Nat} (hi : i < node.size) :
  (items.map Prod.fst)[i]? = some (decode (node.keyAt i))
  := by
  rw [h, List.getElem?_map, List.getElem?_range hi, Option.map_some]

/-- If the comparator compares what the bytes stand for, the lookup in a leaf is that of the
tree. -/
theorem LeafIndexNodeHandler.lookup_eq_leafLookup
    (hneg : ∀ a b, comparator a b < 0 ↔ decode a < decode b)
    (hzero : ∀ a b, comparator a b = 0 ↔ decode a = decode b) (leaf : LeafIndexNodeHandler)
    {items : List (K × V)} (hitems : leaf.Holds decode items) :
  leaf.lookup comparator key
    = (((leafLookup items (decode key)).1 : Int), (leafLookup items (decode key)).2)
  := by
  have hlength : (items.map Prod.fst).length = leaf.size := by
    rw [List.length_map, hitems.length_eq]
  have hsearch : leafLookup items (decode key)
      = search (fun i => comparator (leaf.keyAt i) key) 0 leaf.size := by
    rw [leafLookup, LowerBound.lowerBound, hlength]
    apply loop_eq_search _ (Nat.le_refl _) (by omega)
    intro i y hy
    have hi : i < leaf.size := hlength ▸ (List.getElem?_eq_some_iff.mp hy).1
    rw [hitems.keys_getElem? hi, Option.some.injEq] at hy
    rw [← hy]
    exact ⟨hneg _ _, hzero _ _⟩
  have hle := search_le (fun i => comparator (leaf.keyAt i) key) 0 leaf.size
  rw [Nat.zero_add] at hle
  rw [hsearch]
  exact leaf.lookup_eq rfl hle

/-- If the comparator compares what the bytes stand for, the lookup in an internal node is that
of the tree, and so is the place for an insertion. -/
theorem InternalIndexNodeHandler.lookup_eq_internalLookup
    (hneg : ∀ a b, comparator a b < 0 ↔ decode a < decode b)
    (hzero : ∀ a b, comparator a b = 0 ↔ decode a = decode b) (node : InternalIndexNodeHandler)
    {items : List (K × Int)} (hitems : node.Holds decode items) :
  ∃ found, node.lookup comparator key
    = ((internalLookup items (decode key) : Int), found, (insertPosition items (decode key) : Int))
  := by
  have hlength := hitems.length_eq
  obtain hsize | hsize := Nat.eq_zero_or_pos node.size
  · obtain rfl := List.length_eq_zero_iff.mp (hlength.trans hsize)
    rw [lookup, if_pos hsize]
    exact ⟨false, rfl⟩
  have htail : (items.tail.map Prod.fst).length = node.size - 1 := by
    rw [List.length_map, List.length_tail, hlength]
  have hsearch : LowerBound.lowerBound (items.tail.map Prod.fst) (decode key)
      = search (fun i => comparator (node.keyAt (1 + i)) key) 0 (node.size - 1) := by
    rw [LowerBound.lowerBound, htail]
    apply loop_eq_search _ (Nat.le_refl _) (by omega)
    intro i y hy
    have hi : i < node.size - 1 := htail ▸ (List.getElem?_eq_some_iff.mp hy).1
    rw [List.map_tail, List.getElem?_tail, hitems.keys_getElem? (by omega), Option.some.injEq] at hy
    rw [← hy, Nat.add_comm]
    exact ⟨hneg _ _, hzero _ _⟩
  have hle := search_le (fun i => comparator (node.keyAt (1 + i)) key) 0 (node.size - 1)
  rw [Nat.zero_add] at hle
  rw [internalLookup, insertPosition, hsearch, node.lookup_eq hsize rfl hle]
  generalize search (fun i => comparator (node.keyAt (1 + i)) key) 0 (node.size - 1) = r at hle
  refine ⟨r.2, ?_⟩
  by_cases hlast : node.size ≤ r.1 + 1
  · rw [if_pos (.inl hlast), List.getElem?_eq_none (by omega)]
    simp
  · have hkey := hitems.keys_getElem? (not_le.mp hlast)
    rw [List.getElem?_map, Option.map_eq_some_iff] at hkey
    obtain ⟨item, hitem, hkey⟩ := hkey
    simp only [hitem, hkey, hneg, hlast, false_or]
    split <;> simp

end Decode

/-! ### Comparators -/

/-- The identifier of a record in its bytes. -/
def ridOf (bytes : List UInt8) : RID :=
  ⟨Bytes.decode (bytes.take 4), Bytes.decode ((bytes.drop 4).take 4)⟩

/-- The key in its bytes: what is read at its beginning, and the identifier behind the first
`attrLength` bytes. -/
def keyOf {U : Type} (attrLength : Nat) (userKeyOf : List UInt8 → U) (bytes : List UInt8) : Key U :=
  ⟨userKeyOf bytes, ridOf (bytes.drop attrLength)⟩

/-- What is read in a column of the type `INTS` or `DATES`: four bytes, whatever its length is. -/
def intOf (bytes : List UInt8) : Int := Bytes.decode (bytes.take 4)

/-- What is read in a column of the type `CHARS(n)`. -/
def charsOf (n : Nat) (bytes : List UInt8) : Chars n :=
  Chars.ofBuffer n ((bytes.take n).map UInt8.toFin)

/-- `KeyComparator` on the bytes of two keys, with the comparison of the user keys in them. -/
def compareKeys {U : Type} (attrComparator : U → U → Int) (attrLength : Nat)
    (userKeyOf : List UInt8 → U) (v1 v2 : List UInt8) : Int :=
  keyComparator attrComparator (keyOf attrLength userKeyOf v1) (keyOf attrLength userKeyOf v2)

/-- `KeyComparator` for a column of the type `INTS` or `DATES`. -/
def compareIntKeys (attrLength : Nat) : List UInt8 → List UInt8 → Int :=
  compareKeys compareInt attrLength intOf

/-- `KeyComparator` for a column of the type `CHARS(n)`. -/
def compareCharKeys (n : Nat) : List UInt8 → List UInt8 → Int :=
  compareKeys (fun s t : Chars n => compareString n s.toCString t.toCString) n (charsOf n)

section Comparator

variable {U : Type} {P : List UInt8 → Prop}

theorem keyComparator_eq_zero_iff {attrComparator : U → U → Int}
    (hzero : ∀ v1 v2, attrComparator v1 v2 = 0 ↔ v1 = v2) (key key' : Key U) :
  keyComparator attrComparator key key' = 0 ↔ key = key'
  := by
  obtain ⟨userKey, page, slot⟩ := key
  obtain ⟨userKey', page', slot'⟩ := key'
  rw [keyComparator, Key.mk.injEq, ← hzero, RID.mk.injEq]
  simp only [ridCompare]
  split_ifs <;> omega

/-- Keys are in an order if the user keys are. -/
theorem isOrder_compareKeys [LinearOrder U] {attrComparator : U → U → Int}
    (hneg : ∀ v1 v2, attrComparator v1 v2 < 0 ↔ v1 < v2)
    (hzero : ∀ v1 v2, attrComparator v1 v2 = 0 ↔ v1 = v2) (attrLength : Nat)
    (userKeyOf : List UInt8 → U) :
  IsOrder P (compareKeys attrComparator attrLength userKeyOf)
  := by
  let _ : LinearOrder (Key U) := Key.lexOrder
  have horder : IsOrder (fun _ => True) (keyComparator attrComparator) := isOrder_of_linearOrder
    (keyComparator_neg_iff attrComparator hneg hzero) (keyComparator_eq_zero_iff hzero)
  exact horder.comap fun _ _ => trivial

theorem isOrder_compareIntKeys (attrLength : Nat) : IsOrder P (compareIntKeys attrLength) :=
  isOrder_compareKeys compareInt_neg_iff compareInt_eq_zero_iff attrLength intOf

theorem isOrder_compareCharKeys (n : Nat) : IsOrder P (compareCharKeys n) :=
  isOrder_compareKeys compareString_neg_iff compareString_eq_zero_iff n (charsOf n)

end Comparator

/-! ### Increasing keys -/

/-- The keys from the item `first` on are strictly increasing. -/
def IndexNodeHandler.Increasing {valueSize : Nat} (node : IndexNodeHandler valueSize)
    (comparator : List UInt8 → List UInt8 → Int) (first : Nat) : Prop :=
  ∀ i, first ≤ i → i + 1 < node.size → comparator (node.keyAt i) (node.keyAt (i + 1)) < 0

section Increasing

variable {comparator : List UInt8 → List UInt8 → Int} {P : List UInt8 → Prop} {key : List UInt8}

/-- The place of a key in a leaf is the number of the items that are smaller. -/
theorem LeafIndexNodeHandler.lookup_spec (hcomp : IsOrder P comparator) (hkey : P key)
    (leaf : LeafIndexNodeHandler) (hkeys : ∀ i < leaf.size, P (leaf.keyAt i))
    (hincreasing : leaf.Increasing comparator 0) :
  (leaf.lookup comparator key).1
      = ((Finset.range leaf.size).filter fun i => comparator (leaf.keyAt i) key < 0).card
    ∧ ((leaf.lookup comparator key).2 = true
      ↔ ∃ i < leaf.size, comparator (leaf.keyAt i) key = 0)
  := by
  obtain ⟨m, hm⟩ := (hcomp.ascending hkeys hkey fun i => hincreasing i (Nat.zero_le i)).exists_parts
  have hsearch := hm.search_eq (Nat.zero_le m) (by rw [Nat.zero_add]; exact hm.le)
    (Nat.zero_add leaf.size).le (by intro hlt _; omega)
  rw [leaf.lookup_eq hsearch hm.le, hm.card_neg, hm.exists_zero_iff, decide_eq_true_iff]
  exact ⟨rfl, Iff.rfl⟩

/-- The index of the child that an internal node has for a key, and the place of the key. -/
theorem InternalIndexNodeHandler.lookup_spec (hcomp : IsOrder P comparator) (hkey : P key)
    (node : InternalIndexNodeHandler) (hsize : 1 ≤ node.size)
    (hkeys : ∀ i, 1 ≤ i → i < node.size → P (node.keyAt i))
    (hincreasing : node.Increasing comparator 1) :
  ∃ (index position : Nat) (found : Bool),
    node.lookup comparator key = ((index : Int), found, (position : Int))
    ∧ IsGreatest {i | i < node.size ∧ (i = 0 ∨ comparator (node.keyAt i) key ≤ 0)} index
    ∧ (found = true ↔ ∃ i, 1 ≤ i ∧ i < node.size ∧ comparator (node.keyAt i) key = 0)
    ∧ (1 ≤ position ∧ position ≤ node.size)
    ∧ (∀ i, 1 ≤ i → i < position → comparator (node.keyAt i) key < 0)
    ∧ ∀ i, position ≤ i → i < node.size → comparator key (node.keyAt i) ≤ 0
  := by
  have hkeys' : ∀ i < node.size - 1, P (node.keyAt (1 + i)) := by
    intro i hi
    exact hkeys (1 + i) (by omega) (by omega)
  have hstep : ∀ i, i + 1 < node.size - 1 →
      comparator (node.keyAt (1 + i)) (node.keyAt (1 + (i + 1))) < 0 := by
    intro i hi
    exact hincreasing (1 + i) (by omega) (by omega)
  obtain ⟨m, hm⟩ := (hcomp.ascending (x := fun i => node.keyAt (1 + i)) hkeys' hkey
    hstep).exists_parts
  have hsearch := hm.search_eq (Nat.zero_le m) (by rw [Nat.zero_add]; exact hm.le)
    (Nat.zero_add _).le (by intro hlt _; omega)
  have hle := hm.le
  have hlast : m < node.size := by omega
  obtain ⟨hbefore, hhere, hbehind⟩ :=
    @Parts.from_one (fun i => comparator (node.keyAt i) key) node.size m hm
  have hfound : decide (m < node.size - 1 ∧ comparator (node.keyAt (1 + m)) key = 0) = true
      ↔ ∃ i, 1 ≤ i ∧ i < node.size ∧ comparator (node.keyAt i) key = 0 := by
    rw [decide_eq_true_iff]
    exact (@Parts.exists_zero_from_one_iff (fun i => comparator (node.keyAt i) key) node.size m
      hm).symm
  have hposition : ∀ i, m + 1 ≤ i → i < node.size → comparator key (node.keyAt i) ≤ 0 := by
    intro i hi hlt
    have hswap := hcomp.swap (node.keyAt i) key (hkeys i (by omega) hlt) hkey
    obtain rfl | hgt := Nat.eq_or_lt_of_le hi
    · have := hhere hlt
      omega
    · have := hbehind i hgt hlt
      omega
  rw [node.lookup_eq hsize hsearch hle]
  split_ifs with hbelow
  · refine ⟨m, m + 1, _, rfl, ⟨⟨hlast, ?_⟩, ?_⟩, hfound, ⟨Nat.le_add_left 1 m, hlast⟩, hbefore,
      hposition⟩
    · obtain rfl | hpos := Nat.eq_zero_or_pos m
      · exact .inl rfl
      · exact .inr (hbefore m hpos (Nat.lt_succ_self m)).le
    · -- from the place of the key on the keys are greater
      rintro i ⟨hlt, hkey'⟩
      by_contra hgt
      have hsize' : m + 1 < node.size := by omega
      have hless := hbelow.resolve_left (by omega)
      rw [hcomp.swap key _ hkey (hkeys _ (by omega) hsize')] at hless
      obtain rfl | hgt : i = m + 1 ∨ m + 1 < i := by omega
      · omega
      · have := hbehind i hgt hlt
        omega
  · obtain ⟨hsize', hless⟩ := not_or.mp hbelow
    have hsize' := not_le.mp hsize'
    have hswap := hcomp.swap key (node.keyAt (m + 1)) hkey (hkeys _ (by omega) hsize')
    refine ⟨m + 1, m + 1, _, rfl, ⟨⟨hsize', .inr ?_⟩, ?_⟩, hfound, ⟨Nat.le_add_left 1 m, hlast⟩,
      hbefore, hposition⟩
    · omega
    · rintro i ⟨hlt, hkey'⟩
      by_contra hgt
      have := hbehind i (not_le.mp hgt) hlt
      omega

/-- In every leaf whose items increase the lookup returns the number of the items smaller than
the key, and in every internal node whose keys increase from the second one on, the last index
whose key is not greater, or the first index; the place for an insertion keeps the keys in
order. A key is found if and only if it is there. -/
theorem node_lookup (hcomp : IsOrder P comparator) (hkey : P key) :
  (∀ leaf : LeafIndexNodeHandler, (∀ i < leaf.size, P (leaf.keyAt i)) →
    leaf.Increasing comparator 0 →
    (leaf.lookup comparator key).1
        = ((Finset.range leaf.size).filter fun i => comparator (leaf.keyAt i) key < 0).card
      ∧ ((leaf.lookup comparator key).2 = true
        ↔ ∃ i < leaf.size, comparator (leaf.keyAt i) key = 0))
  ∧ ∀ node : InternalIndexNodeHandler, 1 ≤ node.size →
    (∀ i, 1 ≤ i → i < node.size → P (node.keyAt i)) → node.Increasing comparator 1 →
    ∃ (index position : Nat) (found : Bool),
      node.lookup comparator key = ((index : Int), found, (position : Int))
      ∧ IsGreatest {i | i < node.size ∧ (i = 0 ∨ comparator (node.keyAt i) key ≤ 0)} index
      ∧ (found = true ↔ ∃ i, 1 ≤ i ∧ i < node.size ∧ comparator (node.keyAt i) key = 0)
      ∧ (1 ≤ position ∧ position ≤ node.size)
      ∧ (∀ i, 1 ≤ i → i < position → comparator (node.keyAt i) key < 0)
      ∧ ∀ i, position ≤ i → i < node.size → comparator key (node.keyAt i) ≤ 0
  := by
  constructor
  · intro leaf hkeys hincreasing
    exact LeafIndexNodeHandler.lookup_spec hcomp hkey leaf hkeys hincreasing
  · intro node hsize hkeys hincreasing
    exact InternalIndexNodeHandler.lookup_spec hcomp hkey node hsize hkeys hincreasing

theorem two_items_fit {valueSize : Nat} (hvalue : valueSize ≤ 8) :
  2 * (4 + 8 + valueSize) ≤ Record.pageDataSize
  := by
  rw [Record.pageDataSize]
  omega

/-- A node of two items, with the numbers 10 and 20 of two records as keys. -/
def nodeOfTwo (valueSize : Nat) (hvalue : valueSize ≤ 8) : IndexNodeHandler valueSize where
  memory address :=
    let item (n slot : Int) :=
      Bytes.encode 4 n ++ Bytes.encode 4 1 ++ Bytes.encode 4 slot ++ List.replicate valueSize 0
    (item 10 0 ++ item 20 1)[address]?.getD 0
  array := 0
  attrLength := 4
  size := 2
  fits := two_items_fit hvalue

theorem node_lookup_of_two :
  (LeafIndexNodeHandler.lookup (nodeOfTwo 8 (by decide)) (compareIntKeys 4)
      (Bytes.encode 4 20 ++ Bytes.encode 4 1 ++ Bytes.encode 4 1)).1 = 1
    ∧ ∃ (index position : Nat) (found : Bool),
      InternalIndexNodeHandler.lookup (nodeOfTwo 4 (by decide)) (compareIntKeys 4)
        (Bytes.encode 4 20 ++ Bytes.encode 4 1 ++ Bytes.encode 4 1)
          = ((index : Int), found, (position : Int)) ∧ found = true
  := by
  obtain ⟨hleaf, hnode⟩ := @node_lookup (compareIntKeys 4) (fun _ => True)
    (Bytes.encode 4 20 ++ Bytes.encode 4 1 ++ Bytes.encode 4 1) (isOrder_compareIntKeys 4) trivial
  constructor
  · refine (hleaf (nodeOfTwo 8 (by decide)) (fun _ _ => trivial) ?_).1.trans (by decide)
    intro i _ hi
    obtain rfl : i = 0 := by
      change i + 1 < 2 at hi
      omega
    decide
  · obtain ⟨index, position, found, hlookup, -, hfound, -⟩ :=
      hnode (nodeOfTwo 4 (by decide)) (by decide) (fun _ _ _ => trivial) (by
        intro i hi hlt
        change i + 1 < 2 at hlt
        omega)
    exact ⟨index, position, found, hlookup, hfound.mpr ⟨1, by decide, by decide, by decide⟩⟩

end Increasing

end MiniOB.BplusTree
