import MiniOB.Index.ScanRange

/-!
# Range scans

Keys are ordered by the user key and then by the identifier of the record. Because the
identifiers that bounds are completed with lie below and above those of all records, a scan
gives the entries whose user keys are within its bounds, as the type of the column has fixed
them. For numbers these are the bounds themselves.
-/

namespace MiniOB.BplusTree

/-! ### The order of the keys -/

/-- `common::compare_int`. -/
def compareInt (v1 v2 : Int) : Int := if v1 > v2 then 1 else if v1 < v2 then -1 else 0

/-- `RID::compare`. The differences of numbers that are not negative fit into an `int`. -/
def ridCompare (rid1 rid2 : RID) : Int :=
  let pageDiff := rid1.pageNum - rid2.pageNum
  if pageDiff ≠ 0 then pageDiff else rid1.slotNum - rid2.slotNum

/-- `KeyComparator`, with the comparison of the user keys. -/
def keyComparator {U : Type} (attrComparator : U → U → Int) (v1 v2 : Key U) : Int :=
  let result := attrComparator v1.userKey v2.userKey
  if result ≠ 0 then result else ridCompare v1.rid v2.rid

/-- An identifier that a record can have: not on the first page, and below the greatest one. -/
structure IsRecord (rid : RID) : Prop where
  page : 1 ≤ rid.pageNum
  below : ridCompare rid ridMax < 0

/-- The records of the entries that calls leave. -/
theorem records_applyAll {U : Type} [LinearOrder (Key U)] {calls : List (Call U)}
    (h : ∀ userKey rid, .insertEntry userKey rid ∈ calls → IsRecord rid) :
  ∀ key ∈ (applyAll calls ∅).2, IsRecord key.rid
  := by
  intro key hkey
  obtain hmem | hmem := mem_applyAll hkey
  · exact absurd hmem (Finset.notMem_empty key)
  · exact h key.userKey key.rid hmem

section Order

variable {U : Type} [LinearOrder U]

local instance keyOrder : LinearOrder (Key U) := Key.lexOrder

theorem Key.lt_iff {key key' : Key U} :
  key < key' ↔ key.userKey < key'.userKey ∨ key.userKey = key'.userKey
    ∧ (key.rid.pageNum < key'.rid.pageNum
      ∨ key.rid.pageNum = key'.rid.pageNum ∧ key.rid.slotNum < key'.rid.slotNum)
  := by
  change toLex (key.userKey, toLex (key.rid.pageNum, key.rid.slotNum))
    < toLex (key'.userKey, toLex (key'.rid.pageNum, key'.rid.slotNum)) ↔ _
  rw [Prod.Lex.toLex_lt_toLex, Prod.Lex.toLex_lt_toLex]

/-- The keys are in the order that the comparator finds. -/
theorem keyComparator_neg_iff (attrComparator : U → U → Int)
    (hneg : ∀ v1 v2, attrComparator v1 v2 < 0 ↔ v1 < v2)
    (hzero : ∀ v1 v2, attrComparator v1 v2 = 0 ↔ v1 = v2) (key key' : Key U) :
  keyComparator attrComparator key key' < 0 ↔ key < key'
  := by
  rw [Key.lt_iff]
  by_cases heq : attrComparator key.userKey key'.userKey = 0
  · have hsame := (hzero _ _).mp heq
    have hcmp : keyComparator attrComparator key key' = ridCompare key.rid key'.rid := by
      rw [keyComparator]
      exact if_neg (not_not.mpr heq)
    rw [hcmp, hsame, ridCompare]
    simp only [lt_irrefl, false_or, true_and]
    split <;> omega
  · have hdiff : key.userKey ≠ key'.userKey := fun h => heq ((hzero _ _).mpr h)
    have hcmp : keyComparator attrComparator key key'
        = attrComparator key.userKey key'.userKey := by
      rw [keyComparator]
      exact if_pos heq
    rw [hcmp, hneg]
    simp [hdiff]

theorem isRecord_below {rid : RID} (h : ridCompare rid ridMax < 0) :
  rid.pageNum < ridMax.pageNum ∨ rid.pageNum = ridMax.pageNum ∧ rid.slotNum < ridMax.slotNum
  := by
  rw [ridCompare] at h
  split at h <;> omega

variable {userKey : U} {key : Key U}

theorem min_le_iff (h : IsRecord key.rid) :
  (⟨userKey, ridMin⟩ : Key U) ≤ key ↔ userKey ≤ key.userKey
  := by
  have hpage := h.page
  rw [← not_lt, Key.lt_iff, ← not_lt]
  simp only [ridMin]
  constructor
  · intro hnot hlt
    exact hnot (.inl hlt)
  · rintro hnot (hlt | ⟨_, hlt⟩)
    · exact hnot hlt
    · omega

theorem max_le_iff (h : IsRecord key.rid) :
  (⟨userKey, ridMax⟩ : Key U) ≤ key ↔ userKey < key.userKey
  := by
  rw [← not_lt, Key.lt_iff]
  constructor
  · intro hnot
    by_contra hle
    obtain hlt | heq := lt_or_eq_of_le (not_lt.mp hle)
    · exact hnot (.inl hlt)
    · exact hnot (.inr ⟨heq, isRecord_below h.below⟩)
  · rintro hlt (hgt | ⟨heq, _⟩)
    · exact lt_asymm hlt hgt
    · exact hlt.ne' heq

theorem le_max_iff (h : IsRecord key.rid) :
  key ≤ (⟨userKey, ridMax⟩ : Key U) ↔ key.userKey ≤ userKey
  := by
  rw [← not_lt, Key.lt_iff, ← not_lt]
  have hbelow := isRecord_below h.below
  constructor
  · intro hnot hlt
    exact hnot (.inl hlt)
  · rintro hnot (hlt | ⟨_, hlt⟩)
    · exact hnot hlt
    · simp only at hlt
      omega

theorem le_min_iff (h : IsRecord key.rid) :
  key ≤ (⟨userKey, ridMin⟩ : Key U) ↔ key.userKey < userKey
  := by
  have hpage := h.page
  rw [← not_lt, Key.lt_iff]
  simp only [ridMin]
  constructor
  · intro hnot
    by_contra hle
    obtain hlt | heq := lt_or_eq_of_le (not_lt.mp hle)
    · exact hnot (.inl hlt)
    · exact hnot (.inr ⟨heq, .inl (by omega)⟩)
  · rintro hlt (hgt | ⟨heq, _⟩)
    · exact lt_asymm hlt hgt
    · exact hlt.ne' heq

/-! ### Bounds -/

/-- A user key that a left bound lets in. -/
def Bound.admitsAbove (bound : Bound U) (userKey : U) : Bool :=
  if bound.inclusive then decide (bound.userKey ≤ userKey) else decide (bound.userKey < userKey)

/-- A user key that a right bound lets in. -/
def Bound.admitsBelow (bound : Bound U) (userKey : U) : Bool :=
  if bound.inclusive then decide (userKey ≤ bound.userKey) else decide (userKey < bound.userKey)

theorem Bound.admitsAbove_iff {bound : Bound U} :
  bound.admitsAbove userKey = true
    ↔ bound.userKey < userKey ∨ bound.inclusive = true ∧ bound.userKey = userKey
  := by
  rw [admitsAbove]
  cases bound.inclusive with
  | true => simp [le_iff_lt_or_eq]
  | false => simp

theorem Bound.admitsBelow_iff {bound : Bound U} :
  bound.admitsBelow userKey = true
    ↔ userKey < bound.userKey ∨ bound.inclusive = true ∧ userKey = bound.userKey
  := by
  rw [admitsBelow]
  cases bound.inclusive with
  | true => simp [le_iff_lt_or_eq]
  | false => simp

/-- A user key between bounds. -/
def within (left right : Option (Bound U)) (userKey : U) : Bool :=
  left.all (fun bound => bound.admitsAbove userKey)
    && right.all (fun bound => bound.admitsBelow userKey)

omit [LinearOrder U] in
/-- A bound as the column has fixed it. -/
def KeyColumn.fixed {B : Type} (column : KeyColumn B U) (wantGreater : Bool) (bound : Bound B) :
    Bound U :=
  let (userKey, inclusive) := column.fixUserKey wantGreater bound.userKey
  ⟨userKey, bound.inclusive || inclusive⟩

variable {B : Type} {column : KeyColumn B U}

theorem leftKey_le_iff (h : IsRecord key.rid) (bound : Bound B) :
  decide (column.leftKey bound ≤ key) = (column.fixed true bound).admitsAbove key.userKey
  := by
  rw [KeyColumn.leftKey, KeyColumn.fixed, Bound.admitsAbove]
  simp only
  split
  · rw [decide_eq_decide, min_le_iff h]
  · rw [decide_eq_decide, max_le_iff h]

theorem le_rightKey_iff (h : IsRecord key.rid) (bound : Bound B) :
  (!decide (column.rightKey bound < key)) = (column.fixed false bound).admitsBelow key.userKey
  := by
  rw [← decide_not, KeyColumn.rightKey, KeyColumn.fixed, Bound.admitsBelow]
  simp only [not_lt]
  split
  · rw [decide_eq_decide, le_max_iff h]
  · rw [decide_eq_decide, le_min_iff h]

/-- A key of a record is between the keys that bounds are made into if its user key is between
the bounds as the column has fixed them. -/
theorem inRange_eq (h : IsRecord key.rid) (left right : Option (Bound B)) (rid : RID) :
  inRange (left.map column.leftKey) (right.map column.rightKey) (key, rid)
    = within (left.map (column.fixed true)) (right.map (column.fixed false)) key.userKey
  := by
  have hleft : reached (left.map column.leftKey) key
      = (left.map (column.fixed true)).all fun bound => bound.admitsAbove key.userKey := by
    cases left with
    | none => rfl
    | some bound => exact leftKey_le_iff h bound
  have hright : wanted (right.map column.rightKey) (key, rid)
      = (right.map (column.fixed false)).all fun bound => bound.admitsBelow key.userKey := by
    cases right with
    | none => rfl
    | some bound => exact le_rightKey_iff h bound
  rw [inRange, hleft, hright, within]

/-! ### Scans -/

variable {c : Parameters (Key U)} {t : Tree (Key U) RID} {entries : Finset (Key U)}

/-- The identifiers of the entries whose user keys fulfil a condition, in the order of the
entries. -/
def ridsOf (p : U → Bool) (entries : Finset (Key U)) : List RID :=
  (entries.filter fun key => p key.userKey).sort.map Key.rid

theorem map_fst_listing (entries : Finset (Key U)) :
  (listing entries).map Prod.fst = entries.sort
  := by
  rw [listing, List.map_map]
  exact List.map_id _

theorem lists_listing (entries : Finset (Key U)) : Lists (listing entries) entries := by
  refine ⟨?_, ?_, ?_⟩
  · rw [map_fst_listing]
    exact (Finset.sortedLT_sort _).pairwise
  · intro key
    rw [map_fst_listing, Finset.mem_sort]
  · intro item hitem
    obtain ⟨key, _, rfl⟩ := List.mem_map.mp hitem
    rfl

theorem listing_filter (p : U → Bool) (entries : Finset (Key U)) :
  (listing entries).filter (fun item => p item.1.userKey)
    = listing (entries.filter fun key => p key.userKey)
  := by
  have hlists := lists_listing entries
  apply Lists.eq_listing
  refine ⟨?_, ?_, ?_⟩
  · apply List.Pairwise.sublist _ hlists.sorted
    apply List.Sublist.map
    apply List.filter_sublist
  · intro key
    rw [Finset.mem_filter, ← hlists.mem_iff, List.mem_map, List.mem_map]
    constructor
    · rintro ⟨item, hitem, rfl⟩
      obtain ⟨hmem, hp⟩ := List.mem_filter.mp hitem
      exact ⟨⟨item, hmem, rfl⟩, hp⟩
    · rintro ⟨⟨item, hmem, rfl⟩, hp⟩
      exact ⟨item, List.mem_filter.mpr ⟨hmem, hp⟩, rfl⟩
  · intro item hitem
    exact hlists.value item (List.mem_filter.mp hitem).1

theorem ridsOf_eq {items : List (Key U × RID)} (p : U → Bool) (h : Lists items entries) :
  ridsOf p entries = (items.filter fun item => p item.1.userKey).map Prod.snd
  := by
  rw [h.eq_listing, listing_filter, listing, List.map_map]
  rfl

/-- A scan gives the entries between the bounds, in their order, and then ends. -/
theorem Refines.rangeScan (h : Refines c t entries) (hrecords : ∀ key ∈ entries, IsRecord key.rid)
    (left right : Option (Bound B)) (haccepted : column.refuses left right = false) :
  ∃ scanner, openScanner column left right t = .ok (.ok scanner) t
    ∧ ∀ fuel, entries.card < fuel → drain fuel scanner [] t
      = .ok (ridsOf (within (left.map (column.fixed true)) (right.map (column.fixed false))) entries,
          .recordEof) t
  := by
  obtain ⟨scanner, chunks, hopen, -, -, hscan⟩ :=
    h.scan (left.map column.leftKey) (right.map column.rightKey)
  refine ⟨scanner, ?_, ?_⟩
  · rw [openScanner, haccepted]
    simp only [Bool.false_eq_true, if_false]
    rw [run_bind hopen]
    rfl
  · intro fuel hfuel
    obtain ⟨rids, hdrain, hiff⟩ := hscan [] fuel hfuel
    have hrids : rids = _ := hiff.mpr (by simp)
    have hfilter : (listing entries).filter
          (inRange (left.map column.leftKey) (right.map column.rightKey))
        = (listing entries).filter fun item => within (left.map (column.fixed true))
          (right.map (column.fixed false)) item.1.userKey := by
      apply List.filter_congr
      intro item hitem
      have hmem := ((lists_listing entries).mem_iff item.1).mp (List.mem_map_of_mem hitem)
      exact inRange_eq (hrecords item.1 hmem) left right item.2
    rw [hdrain, hrids, rangedRids, ranged, hfilter, ridsOf_eq _ (lists_listing entries)]

end Order


/-! ### Numbers -/

theorem compareInt_neg_iff (v1 v2 : Int) : compareInt v1 v2 < 0 ↔ v1 < v2 := by
  rw [compareInt]
  split <;> [skip; split] <;> omega

theorem compareInt_eq_zero_iff (v1 v2 : Int) : compareInt v1 v2 = 0 ↔ v1 = v2 := by
  rw [compareInt]
  split <;> [skip; split] <;> omega

section Numbers

local instance numberKeyOrder : LinearOrder (Key Int) := Key.lexOrder

/-- The bounds of a scan are in order: the left one is below the right one, or both are the same
number and inclusive. -/
def InOrder (left right : Option (Bound Int)) : Prop :=
  ∀ l ∈ left, ∀ r ∈ right, l.userKey < r.userKey
    ∨ l.userKey = r.userKey ∧ l.inclusive = true ∧ r.inclusive = true

theorem intColumn_accepts {left right : Option (Bound Int)} (h : InOrder left right) :
  intColumn.refuses left right = false
  := by
  cases left with
  | none => rfl
  | some l =>
    cases right with
    | none => rfl
    | some r =>
      obtain hlt | ⟨heq, hl, hr⟩ := h l rfl r rfl
      · simp only [KeyColumn.refuses, intColumn, hlt.cmp_eq_lt]
      · simp only [KeyColumn.refuses, intColumn, heq, cmp_self_eq_eq, hl, hr]
        rfl

theorem map_fixed_intColumn (wantGreater : Bool) (bound : Option (Bound Int)) :
  bound.map (intColumn.fixed wantGreater) = bound
  := by
  cases bound with
  | none => rfl
  | some bound =>
    rw [Option.map_some, KeyColumn.fixed, intColumn]
    simp only [Bool.or_false]

/-- After any calls on a new tree, a scan between bounds that are in order gives the identifiers
of the entries within the bounds, each once and in the order of the keys, and then ends; the
search for a key gives those of the entries with it. -/
theorem rangeScan_correct (c : Parameters (Key Int)) (hleafMax : 4 ≤ c.leafMaxSize)
    (hmax : 6 ≤ c.internalMaxSize) (calls : List (Call Int))
    (hrecords : ∀ userKey rid, .insertEntry userKey rid ∈ calls → IsRecord rid) :
  ∃ rcs t, execAll c calls Tree.create = .ok rcs t
    ∧ (∀ left right, InOrder left right →
      ∃ scanner, openScanner intColumn left right t = .ok (.ok scanner) t
        ∧ ∀ fuel, (applyAll calls ∅).2.card < fuel → drain fuel scanner [] t
          = .ok (ridsOf (within left right) (applyAll calls ∅).2, .recordEof) t)
    ∧ ∀ userKey fuel, (applyAll calls ∅).2.card < fuel → getEntry intColumn fuel userKey t
      = .ok (ridsOf (fun userKey' => decide (userKey' = userKey)) (applyAll calls ∅).2, .success) t
  := by
  obtain ⟨t, hrun, hrefines⟩ := (create_refines (c := c)).execAll hmax hleafMax calls
  have hscan : ∀ left right, InOrder left right →
      ∃ scanner, openScanner intColumn left right t = .ok (.ok scanner) t
        ∧ ∀ fuel, (applyAll calls ∅).2.card < fuel → drain fuel scanner [] t
          = .ok (ridsOf (within left right) (applyAll calls ∅).2, .recordEof) t := by
    intro left right horder
    have hresult := hrefines.rangeScan (records_applyAll hrecords) left right
      (intColumn_accepts horder)
    rwa [map_fixed_intColumn, map_fixed_intColumn] at hresult
  refine ⟨_, t, hrun, hscan, ?_⟩
  intro userKey fuel hfuel
  have horder : InOrder (some ⟨userKey, true⟩) (some ⟨userKey, true⟩) := by
    rintro l ⟨⟩ r ⟨⟩
    exact .inr ⟨rfl, rfl, rfl⟩
  have hwithin : within (some ⟨userKey, true⟩) (some ⟨userKey, true⟩)
      = fun userKey' => decide (userKey' = userKey) := by
    funext userKey'
    simp only [within, Option.all_some, Bound.admitsAbove, Bound.admitsBelow, if_true,
      ← Bool.decide_and, decide_eq_decide]
    omega
  obtain ⟨scanner, hopen, hdrain⟩ := hscan _ _ horder
  rw [getEntry, run_bind hopen]
  simp only
  rw [run_bind (hdrain fuel hfuel), hwithin]
  rfl

end Numbers

end MiniOB.BplusTree
