import MiniOB.Index.CharScan
import MiniOB.Record.RecordManager

/-!
# The fan-out of a tree

`BplusTreeHandler::create` computes the fan-out from the length of the attribute. A column of
the type `CHARS(n)` may have any length, and nothing keeps a long one from a fan-out of three,
two, one or none. A leaf for two or three entries is left without any by a deletion, and then
there is no last key by which it could be found in its parent. From a fan-out of four on all
calls succeed. A node of four or five children may be left with one: its last key is then in
the first slot, which below the leftmost nodes has the key of zero bytes.
-/

namespace MiniOB.BplusTree

open Levels

variable {K V : Type}

/-! ### Capacities -/

/-- `InternalIndexNode::HEADER_SIZE`. -/
def internalHeaderSize : Nat := 12

/-- `LeafIndexNode::HEADER_SIZE`. -/
def leafHeaderSize : Nat := internalHeaderSize + 4

/-- The bytes of an item of an internal node: the key, which ends in the identifier of a
record, and the page of the child. -/
def internalItemSize (attrLength : Nat) : Nat := attrLength + 8 + 4

/-- The bytes of an item of a leaf: the key and the identifier of a record. -/
def leafItemSize (attrLength : Nat) : Nat := attrLength + 8 + 8

/-- `calc_internal_page_capacity`. -/
def calcInternalPageCapacity (attrLength : Nat) : Nat :=
  (Record.pageDataSize - internalHeaderSize) / internalItemSize attrLength

/-- `calc_leaf_page_capacity`. -/
def calcLeafPageCapacity (attrLength : Nat) : Nat :=
  (Record.pageDataSize - leafHeaderSize) / leafItemSize attrLength

/-- What `BplusTreeHandler::create` fixes for an attribute, with the user key of zero bytes. -/
def Parameters.forAttr {U : Type} (attrLength : Nat) (zero : U) : Parameters (Key U) where
  internalMaxSize := calcInternalPageCapacity attrLength
  leafMaxSize := calcLeafPageCapacity attrLength
  zeroKey := ⟨zero, ⟨0, 0⟩⟩

/-- The bytes of a node. -/
def Body.bytes (attrLength : Nat) : Body K V → Nat
  | .leaf _ items => leafHeaderSize + items.length * leafItemSize attrLength
  | .internal items => internalHeaderSize + items.length * internalItemSize attrLength

/-- The pages on the ways down from the root. -/
inductive Live (t : Tree K V) : Int → Prop
  | root : Live t t.rootPage
  | child {page : Int} {items : List (K × Int)} {item : K × Int} : Live t page →
    t.body page = some (.internal items) → item ∈ items → Live t item.2

/-- Every node lies within its page. -/
def Tree.WithinPages (t : Tree K V) (attrLength : Nat) : Prop :=
  ∀ page body, Live t page → t.body page = some body → body.bytes attrLength ≤ Record.pageDataSize

/-! ### Nodes within their pages -/

section Within

theorem internal_fits {attrLength size : Nat} (h : size ≤ calcInternalPageCapacity attrLength) :
  internalHeaderSize + size * internalItemSize attrLength ≤ Record.pageDataSize
  := by
  have hheader : internalHeaderSize ≤ Record.pageDataSize := by decide
  have hitems : size * internalItemSize attrLength ≤ Record.pageDataSize - internalHeaderSize :=
    calc size * internalItemSize attrLength
        ≤ calcInternalPageCapacity attrLength * internalItemSize attrLength :=
          Nat.mul_le_mul_right _ h
      _ ≤ Record.pageDataSize - internalHeaderSize := Nat.div_mul_le_self _ _
  omega

theorem leaf_fits {attrLength size : Nat} (h : size ≤ calcLeafPageCapacity attrLength) :
  leafHeaderSize + size * leafItemSize attrLength ≤ Record.pageDataSize
  := by
  have hheader : leafHeaderSize ≤ Record.pageDataSize := by decide
  have hitems : size * leafItemSize attrLength ≤ Record.pageDataSize - leafHeaderSize :=
    calc size * leafItemSize attrLength
        ≤ calcLeafPageCapacity attrLength * leafItemSize attrLength := Nat.mul_le_mul_right _ h
      _ ≤ Record.pageDataSize - leafHeaderSize := Nat.div_mul_le_self _ _
  omega

variable {t : Tree K V}

theorem Vacant.live (h : Vacant t) {page : Int} (hlive : Live t page) : t.body page = none := by
  have hroot : t.body t.rootPage = none := by
    rw [h.root]
    by_contra hne
    exact ne_invalid_of_body (Option.isSome_iff_ne_none.mpr hne) rfl
  induction hlive with
  | root => exact hroot
  | child _ hbody _ ih =>
    rw [ih] at hbody
    contradiction

variable [LinearOrder K] {c : Parameters K} {ls : List (Leaf K V)} {Us : List (Level K)}

/-- The nodes on the ways down are leaves and inner nodes of the tree. -/
theorem Represents.live (h : Represents c t ls Us) {page : Int} (hlive : Live t page) :
  (∃ l ∈ ls, l.page = page) ∨ ∃ n ∈ Us.flatten, n.page = page
  := by
  have hpages : page ∈ entryPages (ls.map Leaf.entry) ++ pages Us := by
    induction hlive with
    | root =>
      rw [h.stands.root]
      exact h.stands.tower.top_mem
    | @child page items item _ hbody hitem ih =>
      rw [List.mem_append] at ih ⊢
      obtain hleaf | hbranch := ih
      · rw [entryPages_leaves] at hleaf
        obtain ⟨l, hl, rfl⟩ := List.mem_map.mp hleaf
        obtain ⟨A, B, rfl⟩ := List.append_of_mem hl
        rw [h.linked.body] at hbody
        cases hbody
      · obtain ⟨n, hn, rfl⟩ := List.mem_map.mp hbranch
        rw [(h.stands.holds n hn).body, Option.some.injEq, Body.internal.injEq] at hbody
        subst hbody
        obtain ⟨i, hi, rfl⟩ := List.mem_map.mp hitem
        apply h.stands.tower.child_mem hn
        exact List.mem_map_of_mem hi
  rw [List.mem_append, entryPages_leaves] at hpages
  exact hpages.imp List.mem_map.mp List.mem_map.mp

theorem Represents.withinPages (h : Represents c t ls Us) {attrLength : Nat}
    (hinternal : c.internalMaxSize = calcInternalPageCapacity attrLength)
    (hleaf : c.leafMaxSize = calcLeafPageCapacity attrLength) :
  t.WithinPages attrLength
  := by
  intro page body hlive hbody
  obtain ⟨l, hl, rfl⟩ | ⟨n, hn, rfl⟩ := h.live hlive
  · have hsize := (h.sizes l hl).1
    obtain ⟨A, B, rfl⟩ := List.append_of_mem hl
    rw [h.linked.body, Option.some.injEq] at hbody
    subst hbody
    exact leaf_fits (hleaf ▸ hsize)
  · have hsize := h.stands.tower.length_items_le hn
    rw [(h.stands.holds n hn).body, Option.some.injEq] at hbody
    subst hbody
    rw [Body.bytes, Branch.length_slots]
    exact internal_fits (hinternal ▸ hsize)

end Within

/-! ### Calls that succeed -/

section Calls

variable {B U : Type} [LinearOrder U]

attribute [local instance] Key.lexOrder

/-- The calls on a new tree succeed, after them the nodes lie within their pages, and the search
for a user key finds the identifiers of all entries with it. -/
def Works (c : Parameters (Key U)) (attrLength : Nat) (column : KeyColumn B U) (query : U → B)
    (calls : List (Call U)) : Prop :=
  ∃ rcs t, execAll c calls Tree.create = .ok rcs t ∧ t.WithinPages attrLength
    ∧ ∀ key ∈ (applyAll calls ∅).2, ∀ fuel, (applyAll calls ∅).2.card < fuel →
      ∃ rids, getEntry column fuel (query key.userKey) t = .ok (rids, .success) t
        ∧ key.rid ∈ rids

variable {c : Parameters (Key U)} {t : Tree (Key U) RID} {entries : Finset (Key U)}
  {attrLength : Nat} {column : KeyColumn B U} {query : U → B}

theorem Refines.withinPages (h : Refines c t entries)
    (hinternal : c.internalMaxSize = calcInternalPageCapacity attrLength)
    (hleaf : c.leafMaxSize = calcLeafPageCapacity attrLength) :
  t.WithinPages attrLength
  := by
  obtain ⟨hvacant, _⟩ | ⟨ls, Us, hrep, _⟩ := h
  · intro page body hlive hbody
    rw [hvacant.live hlive] at hbody
    cases hbody
  · exact hrep.withinPages hinternal hleaf

/-- The search for the user key of an entry. -/
theorem Refines.finds (h : Refines c t entries) (hrecords : ∀ key ∈ entries, IsRecord key.rid)
    (haccepted : ∀ userKey, column.refuses (some ⟨query userKey, true⟩)
      (some ⟨query userKey, true⟩) = false)
    (hfixed : ∀ wantGreater userKey, column.fixed wantGreater ⟨query userKey, true⟩
      = ⟨userKey, true⟩)
    {key : Key U} (hkey : key ∈ entries) {fuel : Nat} (hfuel : entries.card < fuel) :
  ∃ rids, getEntry column fuel (query key.userKey) t = .ok (rids, .success) t ∧ key.rid ∈ rids
  := by
  obtain ⟨scanner, hopen, hdrain⟩ := h.rangeScan hrecords _ _ (haccepted key.userKey)
  have hrids := hdrain fuel hfuel
  simp only [Option.map_some, hfixed] at hrids
  refine ⟨ridsOf (within (some ⟨key.userKey, true⟩) (some ⟨key.userKey, true⟩)) entries, ?_, ?_⟩
  · rw [getEntry, run_bind hopen]
    simp only
    rw [run_bind hrids]
    rfl
  · rw [ridsOf]
    apply List.mem_map_of_mem
    rw [Finset.mem_sort, Finset.mem_filter]
    refine ⟨hkey, ?_⟩
    simp only [within, Option.all_some, Bound.admitsAbove, Bound.admitsBelow, if_true, le_refl,
      decide_true, Bool.and_self]

/-- With capacities of at least four the calls succeed, if no entry is below the key of zero bytes
or nodes are left with two children. -/
theorem works_of_le (hinternal : c.internalMaxSize = calcInternalPageCapacity attrLength)
    (hleaf : c.leafMaxSize = calcLeafPageCapacity attrLength) (hmax : 4 ≤ c.internalMaxSize)
    (hleafMax : 4 ≤ c.leafMaxSize)
    (haccepted : ∀ userKey, column.refuses (some ⟨query userKey, true⟩)
      (some ⟨query userKey, true⟩) = false)
    (hfixed : ∀ wantGreater userKey, column.fixed wantGreater ⟨query userKey, true⟩
      = ⟨userKey, true⟩) {calls : List (Call U)}
    (hrecords : ∀ userKey rid, .insertEntry userKey rid ∈ calls → IsRecord rid)
    (hzero : 6 ≤ c.internalMaxSize
      ∨ ∀ userKey rid, .insertEntry userKey rid ∈ calls → c.zeroKey ≤ ⟨userKey, rid⟩) :
  Works c attrLength column query calls
  := by
  obtain ⟨t, hrun, hrefines⟩ := execAll_create hmax hleafMax hzero
  refine ⟨_, t, hrun, hrefines.withinPages hinternal hleaf, ?_⟩
  intro key hkey fuel hfuel
  apply hrefines.finds (records_applyAll hrecords) haccepted hfixed hkey hfuel

end Calls

/-! ### Strings -/

section Strings

variable {attrLength : Nat}

attribute [local instance] Key.lexOrder

/-- The string that searches for a string of a column. -/
theorem charColumn_refuses_self (s : Chars attrLength) :
  (charColumn attrLength).refuses (some ⟨s.toCString, true⟩) (some ⟨s.toCString, true⟩) = false
  := by
  have hcompare : (charColumn attrLength).compare s.toCString s.toCString = .eq := by
    change cmp (compareString attrLength s.toCString s.toCString) 0 = .eq
    rw [(compareString_eq_zero_iff s s).mpr rfl, cmp_self_eq_eq]
  simp [KeyColumn.refuses, hcompare]

theorem charColumn_fixed_self (wantGreater : Bool) (s : Chars attrLength) :
  (charColumn attrLength).fixed wantGreater ⟨s.toCString, true⟩ = ⟨s, true⟩
  := by
  have hfits : (⟨s.toCString, true⟩ : Bound CString).userKey.bytes.length ≤ attrLength := s.fits
  obtain ⟨hbytes, hinclusive⟩ := fixed_short hfits wantGreater
  cases hfixed : (charColumn attrLength).fixed wantGreater ⟨s.toCString, true⟩ with
  | mk userKey inclusive =>
    rw [hfixed] at hbytes hinclusive
    obtain rfl : userKey = s := Chars.bytes_inj.mp hbytes
    obtain rfl : inclusive = true := hinclusive
    rfl

theorem four_le_capacities (h : attrLength ≤ 2024) :
  4 ≤ calcInternalPageCapacity attrLength ∧ 4 ≤ calcLeafPageCapacity attrLength
  := by
  constructor
  · rw [calcInternalPageCapacity, Nat.le_div_iff_mul_le (by simp [internalItemSize])]
    simp only [internalItemSize, internalHeaderSize, Record.pageDataSize]
    omega
  · rw [calcLeafPageCapacity, Nat.le_div_iff_mul_le (by simp [leafItemSize])]
    simp only [leafItemSize, leafHeaderSize, internalHeaderSize, Record.pageDataSize]
    omega

/-! ### Calls that fail -/

/-- Calls that insert entries for the records in some slots of a page, and delete them again. -/
def fillAndEmpty (n : Nat) (slots : List Int) : List (Call (Chars n)) :=
  slots.map (fun slot => .insertEntry (Chars.empty n) ⟨1, slot⟩)
    ++ slots.map fun slot => .deleteEntry (Chars.empty n) ⟨1, slot⟩

/-- One entry more than a leaf has room for: the entries are divided among two leaves. One of
them loses its last entry, and its last key is read. -/
theorem fillAndEmpty_fails (n internalMaxSize : Nat) {leafMaxSize : Nat} (hpos : 1 ≤ leafMaxSize)
    (hlt : leafMaxSize < 4) :
  (execAll ⟨internalMaxSize, leafMaxSize, ⟨Chars.empty n, ⟨0, 0⟩⟩⟩
    (fillAndEmpty n ([0, 1, 2, 3].take (leafMaxSize + 1)))).run' Tree.create = none
  := by
  obtain rfl | rfl | rfl : leafMaxSize = 1 ∨ leafMaxSize = 2 ∨ leafMaxSize = 3 := by omega
  · cbv
  · cbv
  · cbv

/-- The first entry becomes a leaf, whatever its size. -/
theorem first_fails (n internalMaxSize leafMaxSize : Nat) (h : Record.pageDataSize < leafHeaderSize
    + leafItemSize n) {rcs : List RC} {t : Tree (Key (Chars n)) RID}
    (hrun : execAll ⟨internalMaxSize, leafMaxSize, ⟨Chars.empty n, ⟨0, 0⟩⟩⟩
      [.insertEntry (Chars.empty n) ⟨1, 0⟩] Tree.create = .ok rcs t) :
  ¬ t.WithinPages n
  := by
  have hfirst : execAll ⟨internalMaxSize, leafMaxSize, ⟨Chars.empty n, ⟨0, 0⟩⟩⟩
      [.insertEntry (Chars.empty n) ⟨1, 0⟩] Tree.create
      = .ok [.success] ⟨[some .fileHeader, some (.indexHeader 2), some (.node ⟨invalidPageNum,
        .leaf invalidPageNum [(⟨Chars.empty n, ⟨1, 0⟩⟩, ⟨1, 0⟩)]⟩)], 2, []⟩ := rfl
  rw [hfirst] at hrun
  cases hrun
  intro hwithin
  have hbytes := hwithin 2 _ Live.root rfl
  rw [Body.bytes, List.length_singleton, Nat.one_mul] at hbytes
  omega

theorem isRecord_of_page_one {slot : Int} : IsRecord ⟨1, slot⟩ := by
  refine ⟨le_refl 1, ?_⟩
  have hdiff : (1 : Int) - ridMax.pageNum < 0 := by decide
  simp only [ridCompare]
  rw [if_pos hdiff.ne]
  exact hdiff

theorem records_fillAndEmpty {n : Nat} {slots : List Int} {userKey : Chars n} {rid : RID}
    (h : .insertEntry userKey rid ∈ fillAndEmpty n slots) :
  IsRecord rid
  := by
  rw [fillAndEmpty, List.mem_append] at h
  obtain h | h := h
  · obtain ⟨slot, _, heq⟩ := List.mem_map.mp h
    cases heq
    exact isRecord_of_page_one
  · obtain ⟨slot, _, heq⟩ := List.mem_map.mp h
    cases heq

/-- A leaf for less than four entries. -/
theorem exists_not_works (h : calcLeafPageCapacity attrLength < 4) :
  ∃ calls : List (Call (Chars attrLength)),
    (∀ userKey rid, .insertEntry userKey rid ∈ calls → IsRecord rid)
    ∧ ¬ Works (.forAttr attrLength (Chars.empty attrLength)) attrLength (charColumn attrLength)
      Chars.toCString calls
  := by
  by_cases hpos : 1 ≤ calcLeafPageCapacity attrLength
  · refine ⟨fillAndEmpty attrLength ([0, 1, 2, 3].take (calcLeafPageCapacity attrLength + 1)),
      fun _ _ => records_fillAndEmpty, ?_⟩
    rintro ⟨rcs, t, hrun, -⟩
    have hfails := fillAndEmpty_fails attrLength (calcInternalPageCapacity attrLength) hpos h
    rw [Parameters.forAttr] at hrun
    rw [EStateM.run', EStateM.run, hrun] at hfails
    cases hfails
  · refine ⟨[.insertEntry (Chars.empty attrLength) ⟨1, 0⟩], ?_, ?_⟩
    · intro userKey rid hmem
      cases List.mem_singleton.mp hmem
      exact isRecord_of_page_one
    · rintro ⟨rcs, t, hrun, hwithin, -⟩
      apply first_fails attrLength _ _ _ hrun hwithin
      have hzero : calcLeafPageCapacity attrLength = 0 := by omega
      rw [calcLeafPageCapacity, Nat.div_eq_zero_iff] at hzero
      simp only [leafItemSize, leafHeaderSize, internalHeaderSize, Record.pageDataSize] at hzero ⊢
      omega

/-- Three entries of strings of at most 3000 bytes, of which two fit in a leaf, and the deletion
of the first. -/
def threeStrings : List (Call (Chars 3000)) :=
  [.insertEntry (Chars.empty 3000) ⟨1, 0⟩, .insertEntry (Chars.empty 3000) ⟨1, 1⟩,
    .insertEntry (Chars.empty 3000) ⟨1, 2⟩, .deleteEntry (Chars.empty 3000) ⟨1, 0⟩]

end Strings

end MiniOB.BplusTree
