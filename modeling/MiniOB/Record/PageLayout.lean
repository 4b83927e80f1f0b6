import MiniOB.Lib.Rounding
import MiniOB.Record.RecordFile

/-!
# The layout of a record page

The header that `RecordPageHandler::init_empty_page` computes, with the integers and the floating
point numbers of the source. It leaves room on the page for the header, the slot bitmap and the
slots, whatever the size of the records is.
-/

namespace MiniOB.Record

open Rounding

/-- `PageHeader`. -/
structure PageHeader where
  recordNum : Int
  recordRealSize : Int
  recordSize : Int
  recordCapacity : Int
  firstRecordOffset : Int
  deriving DecidableEq, Repr

namespace PageHeader

/-- A number as a `double`. -/
def double (x : ℚ) : ℚ := roundTo 53 x

/-- A `double` cast to `int`. -/
def truncate (x : ℚ) : Int := if 0 ≤ x then ⌊x⌋ else ⌈x⌉

/-- `align8`. The sum wraps around at the largest `int`. -/
def align8 (size : Int) : Int := int32 (size + 7) / 8 * 8

/-- `page_record_capacity`. -/
def pageRecordCapacity (pageSize recordSize : Int) : Int :=
  let room : ℚ := double (pageSize - pageHeaderSize - 1 : Int)
  truncate (double (room / double (double recordSize + double (1 / 8))))

/-- `page_bitmap_size`. -/
def pageBitmapSize (recordCapacity : Int) : Int := (int32 (recordCapacity + 7)).tdiv 8

/-- The loop of `RecordPageHandler::fix_record_capacity`. -/
def fixLoop : Nat → PageHeader → Int → Option PageHeader
  | 0, _, _ => none
  | fuel + 1, header, lastRecordOffset =>
    if lastRecordOffset > pageDataSize then
      fixLoop fuel { header with recordCapacity := int32 (header.recordCapacity - 1) }
        (int32 (lastRecordOffset - header.recordSize))
    else some header

/-- The end of the last record. -/
def lastRecordOffset (header : PageHeader) : Int :=
  int32 (header.firstRecordOffset + int32 (header.recordCapacity * header.recordSize))

/-- `RecordPageHandler::fix_record_capacity`. -/
def fixRecordCapacity (fuel : Nat) (header : PageHeader) : Option PageHeader :=
  fixLoop fuel header header.lastRecordOffset

/-- The header that `RecordPageHandler::init_empty_page` computes. -/
def initEmptyPage (fuel : Nat) (recordSize : Int) : Option PageHeader :=
  let recordCapacity := pageRecordCapacity pageDataSize (align8 recordSize)
  fixRecordCapacity fuel {
    recordNum := 0
    recordRealSize := recordSize
    recordSize := align8 recordSize
    recordCapacity
    firstRecordOffset := align8 (pageHeaderSize + pageBitmapSize recordCapacity) }

/-- `RecordPageHandler::get_record_data`, from the beginning of the page. -/
def getRecordData (header : PageHeader) (slotNum : Int) : Int :=
  header.firstRecordOffset + int32 (header.recordSize * slotNum)

/-- The bytes of a page. -/
def pageRange : Set Int := Set.Ico 0 pageDataSize

/-- The bytes of the header. -/
def headerRange : Set Int := Set.Ico 0 pageHeaderSize

/-- The bytes of the slot bitmap. -/
def bitmapRange (header : PageHeader) : Set Int :=
  Set.Ico (pageHeaderSize : Int) (pageHeaderSize + pageBitmapSize header.recordCapacity)

/-- The bytes of a slot. -/
def slotRange (header : PageHeader) (slotNum : Int) : Set Int :=
  Set.Ico (header.getRecordData slotNum) (header.getRecordData slotNum + header.recordSize)

/-- The numbers of the slots. -/
def slots (header : PageHeader) : Set Int := Set.Ico 0 header.recordCapacity

/-- Header, slot bitmap and slots of a page for records of the size `recordSize`. -/
structure Layout (header : PageHeader) (recordSize : Int) : Prop where
  capacity : 0 ≤ header.recordCapacity
  bits : header.recordCapacity ≤ 8 * pageBitmapSize header.recordCapacity
  headerInside : headerRange ⊆ pageRange
  bitmapInside : header.bitmapRange ⊆ pageRange
  slotInside : ∀ slotNum ∈ header.slots, header.slotRange slotNum ⊆ pageRange
  headerBitmap : Disjoint headerRange header.bitmapRange
  headerSlot : ∀ slotNum ∈ header.slots, Disjoint headerRange (header.slotRange slotNum)
  bitmapSlot : ∀ slotNum ∈ header.slots, Disjoint header.bitmapRange (header.slotRange slotNum)
  slotSlot : header.slots.PairwiseDisjoint header.slotRange
  aligned : ∀ slotNum ∈ header.slots, 8 ∣ header.getRecordData slotNum
  long : ∀ slotNum ∈ header.slots, recordSize ≤ header.recordSize
  noOverflow : header.lastRecordOffset ≤ pageDataSize

/-! ### Floating point numbers -/

theorem double_intCast {n : Int} (hn : |n| < 2 ^ 53) : double n = n := roundTo_intCast hn

/-- The divisor of `page_record_capacity` is exact. -/
theorem double_divisor {n : Int} (hl : -2 ^ 31 ≤ n) (hu : n ≤ int32Max) :
  double (double n + double (1 / 8)) = ((8 * n + 1 : Int) : ℚ) / 8
  := by
  rw [int32Max] at hu
  have hn : |n| < 2 ^ 53 := abs_lt.mpr (by constructor <;> omega)
  have hsmall : |8 * n + 1| < 2 ^ 53 := abs_lt.mpr (by constructor <;> omega)
  have heighth : double (1 / 8) = 1 / 8 := by
    have hround := roundTo_of_significand (p := 53) (m := 1) (e := -3) (by norm_num)
    norm_num at hround
    rw [double]
    norm_num
    exact hround
  have hsum : (n : ℚ) + 1 / 8 = ((8 * n + 1 : Int) : ℚ) * 2 ^ (-3 : Int) := by
    push_cast
    norm_num
    ring
  rw [double_intCast hn, heighth, hsum, double, roundTo_of_significand hsmall]
  norm_num
  ring

theorem pageRecordCapacity_eq {recordSize : Int} (hl : -2 ^ 31 ≤ recordSize)
    (hu : recordSize ≤ int32Max) :
  pageRecordCapacity pageDataSize recordSize =
    truncate (double ((65240 : Int) / ((8 * recordSize + 1 : Int) : ℚ)))
  := by
  have hroom : double ((pageDataSize : Int) - (pageHeaderSize : Int) - 1 : Int) = 8155 := by
    rw [double_intCast (by decide)]
    rfl
  rw [pageRecordCapacity]
  simp only [hroom, double_divisor hl hu]
  congr 2
  rw [div_div_eq_mul_div]
  norm_num

/-- The capacity is that of exact division. -/
theorem pageRecordCapacity_natCast {recordSize : Nat} (hu : recordSize ≤ int32Max) :
  pageRecordCapacity pageDataSize recordSize = Record.pageRecordCapacity pageDataSize recordSize
  := by
  rw [int32Max] at hu
  have hfloor : ⌊double ((65240 : Int) / ((8 * recordSize + 1 : Int) : ℚ))⌋ =
      65240 / (8 * recordSize + 1) :=
    floor_roundTo_div (by decide) (by omega) (by decide)
  have hnonneg : 0 ≤ double ((65240 : Int) / ((8 * recordSize + 1 : Int) : ℚ)) := by
    rw [← Int.floor_nonneg, hfloor]
    exact Int.ediv_nonneg (by decide) (by omega)
  rw [pageRecordCapacity_eq (by omega) (by rw [int32Max]; exact hu), truncate, if_pos hnonneg,
    hfloor, Record.pageRecordCapacity]
  push_cast
  rfl

/-- A size that has wrapped around leaves no room for a record. -/
theorem pageRecordCapacity_wrapped : pageRecordCapacity pageDataSize (-2 ^ 31) = 0 := by
  rw [pageRecordCapacity_eq le_rfl (by decide), truncate]
  have herror := abs_roundTo_sub_le 53 ((65240 : Int) / ((8 * (-2 ^ 31) + 1 : Int) : ℚ))
  have habs : |((65240 : Int) : ℚ) / ((8 * (-2 ^ 31) + 1 : Int) : ℚ)| = 65240 / 17179869183 := by
    norm_num [abs_of_neg]
  rw [habs] at herror
  obtain ⟨hlower, hupper⟩ := abs_le.mp herror
  norm_num at hlower hupper
  have hneg : double ((65240 : Int) / ((8 * (-2 ^ 31) + 1 : Int) : ℚ)) < 0 := by
    rw [double]
    norm_num
    linarith
  rw [if_neg hneg.not_ge, Int.ceil_eq_zero_iff, Set.mem_Ioc]
  refine ⟨?_, hneg.le⟩
  rw [double]
  norm_num
  linarith

/-! ### The loop -/

/-- The loop of `RecordPageHandler::fix_record_capacity` ends, and nothing wraps around in it. -/
theorem fixLoop_eq {header : PageHeader} {first size capacity : Nat}
    (hcapacity : header.recordCapacity = capacity) (hsize : header.recordSize = size)
    (hfirst : first ≤ pageDataSize) (hsmall : capacity ≤ int32Max)
    (hbound : first + capacity * size ≤ int32Max) {fuel : Nat} (hfuel : capacity < fuel) :
  fixLoop fuel header (first + capacity * size) =
    some { header with recordCapacity := Record.fixRecordCapacity first size capacity }
  := by
  induction capacity generalizing fuel header with
  | zero =>
    obtain ⟨fuel, rfl⟩ := Nat.exists_eq_succ_of_ne_zero (by omega : fuel ≠ 0)
    rw [fixLoop, if_neg (by push_cast; omega), Record.fixRecordCapacity, ← hcapacity]
  | succ capacity ih =>
    obtain ⟨fuel, rfl⟩ := Nat.exists_eq_succ_of_ne_zero (by omega : fuel ≠ 0)
    have hprod : ((capacity + 1 : Nat) : Int) * size = capacity * size + size := by
      push_cast
      ring
    rw [hprod] at hbound ⊢
    have hnonneg : (0 : Int) ≤ capacity * size := by positivity
    have hless : int32 (header.recordCapacity - 1) = capacity := by
      rw [hcapacity, int32_of_mem] <;> push_cast at * <;> omega
    have hlast : int32 (first + (capacity * size + size) - header.recordSize) =
        first + capacity * size := by
      rw [hsize, int32_of_mem] <;> omega
    rw [fixLoop, Record.fixRecordCapacity]
    by_cases hover : first + (capacity + 1) * size > pageDataSize
    · have hover' : (first : Int) + (capacity * size + size) > pageDataSize := by
        rw [← hprod]
        exact_mod_cast hover
      rw [if_pos hover', if_pos hover, hlast, hless]
      exact @ih { header with recordCapacity := capacity } rfl hsize (by push_cast at hsmall; omega)
        (by omega) fuel (by omega)
    · have hover' : ¬ (first : Int) + (capacity * size + size) > pageDataSize := by
        rw [← hprod]
        exact_mod_cast hover
      rw [if_neg hover', if_neg hover, ← hcapacity]

theorem fixRecordCapacity_fits {first size : Nat} (hfirst : first ≤ pageDataSize) (capacity : Nat) :
  first + Record.fixRecordCapacity first size capacity * size ≤ pageDataSize
  := by
  induction capacity with
  | zero => simpa [Record.fixRecordCapacity] using hfirst
  | succ capacity ih =>
    rw [Record.fixRecordCapacity]
    split
    · exact ih
    · omega

/-! ### The layout -/

theorem pageBitmapSize_eq {recordCapacity : Int} (hpos : 0 ≤ recordCapacity)
    (hmax : recordCapacity ≤ 2 ^ 20) :
  pageBitmapSize recordCapacity = (recordCapacity + 7) / 8
  := by
  rw [pageBitmapSize, int32_of_mem (by omega) (by rw [int32Max]; omega),
    Int.tdiv_eq_ediv_of_nonneg (by omega)]

/-- The slots lie behind the bitmap and within the page, if there are any. -/
theorem layout_of_fits {header : PageHeader} {recordSize : Int}
    (hcapacity : 0 ≤ header.recordCapacity) (hmax : header.recordCapacity ≤ 2 ^ 20)
    (hfirst : pageHeaderSize + pageBitmapSize header.recordCapacity ≤ header.firstRecordOffset)
    (haligned : 8 ∣ header.firstRecordOffset)
    (hslots : 0 < header.recordCapacity → 0 < header.recordSize ∧ recordSize ≤ header.recordSize
      ∧ 8 ∣ header.recordSize)
    (hfits : header.firstRecordOffset + header.recordCapacity * header.recordSize ≤ pageDataSize) :
  Layout header recordSize
  := by
  have hbitmap := pageBitmapSize_eq hcapacity hmax
  have hheader : (pageHeaderSize : Int) = 20 := rfl
  have hpage : (pageDataSize : Int) = 8176 := rfl
  have hproduct : 0 ≤ header.recordCapacity * header.recordSize := by
    rcases hcapacity.eq_or_lt with hzero | hpos
    · rw [← hzero, zero_mul]
    · exact mul_nonneg hcapacity (hslots hpos).1.le
  -- where a slot lies
  have hslot : ∀ slotNum ∈ header.slots, header.getRecordData slotNum =
      header.firstRecordOffset + header.recordSize * slotNum
      ∧ 0 ≤ header.recordSize * slotNum
      ∧ header.recordSize * slotNum + header.recordSize ≤
        header.recordCapacity * header.recordSize := by
    intro slotNum hmem
    obtain ⟨hnonneg, hlt⟩ := hmem
    have hsize := (hslots (hnonneg.trans_lt hlt)).1
    have hlow : 0 ≤ header.recordSize * slotNum := mul_nonneg hsize.le hnonneg
    have hhigh : header.recordSize * (slotNum + 1) ≤ header.recordSize * header.recordCapacity :=
      mul_le_mul_of_nonneg_left (by omega) hsize.le
    rw [mul_add, mul_one, mul_comm header.recordSize header.recordCapacity] at hhigh
    refine ⟨?_, hlow, hhigh⟩
    rw [getRecordData, int32_of_mem (by omega) (by rw [int32Max]; omega)]
  constructor
  case capacity => exact hcapacity
  case bits => omega
  case headerInside => exact Set.Ico_subset_Ico_right (by omega)
  case bitmapInside => exact Set.Ico_subset_Ico (by omega) (by omega)
  case slotInside =>
    intro slotNum hmem
    obtain ⟨hdata, hlow, hhigh⟩ := hslot slotNum hmem
    rw [slotRange, hdata]
    exact Set.Ico_subset_Ico (by omega) (by omega)
  case headerBitmap => exact Set.Ico_disjoint_Ico_same
  case headerSlot =>
    intro slotNum hmem
    obtain ⟨hdata, hlow, -⟩ := hslot slotNum hmem
    rw [slotRange, hdata, Set.disjoint_left]
    rintro i ⟨-, hi⟩ ⟨hi', -⟩
    omega
  case bitmapSlot =>
    intro slotNum hmem
    obtain ⟨hdata, hlow, -⟩ := hslot slotNum hmem
    rw [slotRange, hdata, Set.disjoint_left]
    rintro i ⟨-, hi⟩ ⟨hi', -⟩
    omega
  case slotSlot =>
    -- of two slots, the first one ends where the second one begins or before it
    have hordered : ∀ slotNum ∈ header.slots, ∀ slotNum' ∈ header.slots, slotNum < slotNum' →
        Disjoint (header.slotRange slotNum) (header.slotRange slotNum') := by
      intro slotNum hmem slotNum' hmem' hlt
      have hsize := (hslots (hmem.1.trans_lt hmem.2)).1
      have hnext : header.recordSize * (slotNum + 1) ≤ header.recordSize * slotNum' :=
        mul_le_mul_of_nonneg_left (by omega) hsize.le
      rw [mul_add, mul_one] at hnext
      rw [slotRange, slotRange, (hslot slotNum hmem).1, (hslot slotNum' hmem').1,
        Set.disjoint_left]
      rintro i ⟨-, hi⟩ ⟨hi', -⟩
      omega
    intro slotNum hmem slotNum' hmem' hne
    rcases lt_or_gt_of_ne hne with hlt | hgt
    · exact hordered slotNum hmem slotNum' hmem' hlt
    · exact (hordered slotNum' hmem' slotNum hmem hgt).symm
  case aligned =>
    intro slotNum hmem
    rw [(hslot slotNum hmem).1]
    exact dvd_add haligned ((hslots (hmem.1.trans_lt hmem.2)).2.2.mul_right slotNum)
  case long => exact fun slotNum hmem => (hslots (hmem.1.trans_lt hmem.2)).2.1
  case noOverflow =>
    rw [lastRecordOffset, int32_of_mem (x := header.recordCapacity * header.recordSize) (by omega)
      (by rw [int32Max]; omega), int32_of_mem (by omega) (by rw [int32Max]; omega)]
    exact hfits

/-- The sizes for which the sum in `align8` does not wrap around. -/
theorem align8_natCast {size : Nat} (hsize : size ≤ 2 ^ 31 - 8) :
  align8 size = Record.align8 size
  := by
  rw [align8, int32_of_mem (by omega) (by rw [int32Max]; omega), Record.align8]
  push_cast
  rfl

theorem align8_bounds (size : Nat) :
  size ≤ Record.align8 size ∧ Record.align8 size ≤ size + 7 ∧ 8 ∣ Record.align8 size
  := by
  rw [Record.align8]
  omega

/-- What `RecordPage.initEmptyPage` reserves in front of the first record. -/
def firstRecord (recordSize : Nat) : Nat :=
  Record.align8 (pageHeaderSize
    + Record.pageBitmapSize (Record.pageRecordCapacity pageDataSize (Record.align8 recordSize)))

theorem pageRecordCapacity_bounds (size : Nat) :
  Record.pageRecordCapacity pageDataSize size ≤ 65240
    ∧ Record.pageRecordCapacity pageDataSize size * size ≤ 8155
  := by
  rw [Record.pageRecordCapacity]
  have hquotient : 8 * (pageDataSize - pageHeaderSize - 1) = 65240 := rfl
  rw [hquotient]
  have hdiv := Nat.div_mul_le_self 65240 (8 * size + 1)
  refine ⟨Nat.div_le_self _ _, ?_⟩
  generalize 65240 / (8 * size + 1) = capacity at hdiv ⊢
  rw [mul_add, mul_one, mul_left_comm] at hdiv
  omega

theorem firstRecord_le (recordSize : Nat) : firstRecord recordSize ≤ pageDataSize := by
  have hcapacity := (pageRecordCapacity_bounds (Record.align8 recordSize)).1
  rw [firstRecord]
  generalize Record.pageRecordCapacity pageDataSize (Record.align8 recordSize) = capacity
    at hcapacity ⊢
  rw [Record.align8, Record.pageBitmapSize, pageHeaderSize, pageDataSize]
  omega

theorem le_int32Max {n : Nat} (hn : n ≤ 8176 + 8155) : (n : Int) ≤ int32Max := by
  rw [int32Max]
  omega

theorem int32_natCast {n : Nat} (hn : n ≤ 8176 + 8155) : int32 n = n :=
  int32_of_mem (by omega) (le_int32Max hn)

/-- The header is that of `RecordPage.initEmptyPage`, as long as nothing wraps around. -/
theorem initEmptyPage_natCast {recordSize : Nat} (hsize : recordSize ≤ 2 ^ 31 - 8) {fuel : Nat}
    (hfuel : 65240 < fuel) :
  initEmptyPage fuel recordSize = some {
    recordNum := 0
    recordRealSize := recordSize
    recordSize := Record.align8 recordSize
    recordCapacity := capacityFor recordSize
    firstRecordOffset := firstRecord recordSize }
  := by
  have halign : Record.align8 recordSize ≤ 2 ^ 31 - 8 := by
    rw [Record.align8]
    omega
  obtain ⟨hcapacity, hproduct⟩ := pageRecordCapacity_bounds (Record.align8 recordSize)
  have hfirstRecord : firstRecord recordSize = Record.align8 (pageHeaderSize
      + Record.pageBitmapSize (Record.pageRecordCapacity pageDataSize (Record.align8 recordSize))) :=
    rfl
  have hcapacityFor : capacityFor recordSize =
      Record.fixRecordCapacity (firstRecord recordSize) (Record.align8 recordSize)
        (Record.pageRecordCapacity pageDataSize (Record.align8 recordSize)) := rfl
  have hle : firstRecord recordSize ≤ 8176 := firstRecord_le recordSize
  rw [initEmptyPage]
  simp only [align8_natCast hsize, pageRecordCapacity_natCast
    (show ((Record.align8 recordSize : Nat) : Int) ≤ int32Max by rw [int32Max]; omega)]
  generalize Record.pageRecordCapacity pageDataSize (Record.align8 recordSize) = capacity
    at hcapacity hproduct hfirstRecord hcapacityFor ⊢
  generalize Record.align8 recordSize = size at halign hproduct hcapacityFor ⊢
  have hbitmap : pageBitmapSize capacity = Record.pageBitmapSize capacity := by
    rw [pageBitmapSize_eq (by omega) (by omega), Record.pageBitmapSize]
    push_cast
    rfl
  have hfirst : align8 (pageHeaderSize + Record.pageBitmapSize capacity : Nat) =
      firstRecord recordSize := by
    rw [hfirstRecord]
    apply align8_natCast
    rw [Record.pageBitmapSize, pageHeaderSize]
    omega
  have hlast : int32 (firstRecord recordSize + int32 ((capacity : Int) * size)) =
      firstRecord recordSize + (capacity : Int) * size := by
    rw [← Nat.cast_mul, int32_natCast (hproduct.trans (by decide)), ← Nat.cast_add,
      int32_natCast (Nat.add_le_add hle hproduct)]
  have hsmall : (capacity : Int) ≤ int32Max := by
    rw [int32Max]
    omega
  have hbound : (firstRecord recordSize : Int) + capacity * size ≤ int32Max := by
    rw [← Nat.cast_mul, ← Nat.cast_add]
    exact le_int32Max (Nat.add_le_add hle hproduct)
  rw [hbitmap, ← Nat.cast_add, hfirst, fixRecordCapacity, lastRecordOffset]
  simp only
  rw [hlast, fixLoop_eq rfl rfl hle hsmall hbound (by omega), hcapacityFor]

/-- A size for which the sum in `align8` wraps around leaves a page without slots. -/
theorem initEmptyPage_wrapped {recordSize : Int} (hl : 2 ^ 31 - 8 < recordSize)
    (hu : recordSize ≤ int32Max) {fuel : Nat} (hfuel : 0 < fuel) :
  initEmptyPage fuel recordSize = some ⟨0, recordSize, -2 ^ 31, 0, 24⟩
  := by
  rw [int32Max] at hu
  have hwrapped : int32 (recordSize + 7) = recordSize + 7 - 2 ^ 32 := by
    rw [int32, Int.bmod_def]
    omega
  have halign : align8 recordSize = -2 ^ 31 := by
    rw [align8, hwrapped]
    omega
  obtain ⟨fuel, rfl⟩ := Nat.exists_eq_succ_of_ne_zero hfuel.ne'
  rw [initEmptyPage]
  simp only [halign, pageRecordCapacity_wrapped]
  have hlast : lastRecordOffset ⟨0, recordSize, -2 ^ 31, 0, 24⟩ = 24 := rfl
  change fixLoop (fuel + 1) ⟨0, recordSize, -2 ^ 31, 0, 24⟩
    (lastRecordOffset ⟨0, recordSize, -2 ^ 31, 0, 24⟩) = _
  rw [hlast, fixLoop, if_neg (by decide)]

/-- The header of a new page leaves room for all of its parts, and computing it ends. -/
theorem initEmptyPage_layout {recordSize : Int} (hpos : 1 ≤ recordSize)
    (hmax : recordSize ≤ int32Max) :
  ∃ header fuel, (∀ fuel' ≥ fuel, initEmptyPage fuel' recordSize = some header)
    ∧ header.recordRealSize = recordSize ∧ Layout header recordSize
  := by
  by_cases hsize : recordSize ≤ 2 ^ 31 - 8
  · obtain ⟨n, rfl⟩ := Int.eq_ofNat_of_zero_le (by omega : 0 ≤ recordSize)
    obtain ⟨hle, -, hdvd⟩ := align8_bounds n
    refine ⟨_, 65241, fun fuel hfuel => initEmptyPage_natCast (by omega) hfuel, rfl, ?_⟩
    have hcapacity : capacityFor n ≤ Record.pageRecordCapacity pageDataSize (Record.align8 n) :=
      RecordFile.Inv.fixRecordCapacity_le _ _ _
    have hbound := (pageRecordCapacity_bounds (Record.align8 n)).1
    apply layout_of_fits
    · exact Int.natCast_nonneg _
    · dsimp only
      omega
    · dsimp only
      rw [pageBitmapSize_eq (by omega) (by omega), firstRecord, Record.align8,
        Record.pageBitmapSize]
      omega
    · have haligned : 8 ∣ firstRecord n := (align8_bounds _).2.2
      dsimp only
      exact_mod_cast haligned
    · intro _
      dsimp only
      exact ⟨by omega, by exact_mod_cast hle, by exact_mod_cast hdvd⟩
    · have hfits : firstRecord n + capacityFor n * Record.align8 n ≤ pageDataSize :=
        fixRecordCapacity_fits (firstRecord_le n) _
      dsimp only
      exact_mod_cast hfits
  · refine ⟨_, 1, fun fuel hfuel => initEmptyPage_wrapped (by omega) hmax hfuel, rfl, ?_⟩
    apply layout_of_fits
    · exact le_rfl
    · change (0 : Int) ≤ 2 ^ 20
      decide
    · change (pageHeaderSize : Int) + pageBitmapSize 0 ≤ 24
      decide
    · change (8 : Int) ∣ 24
      decide
    · intro hpos
      exact absurd hpos (lt_irrefl 0)
    · change (24 : Int) + 0 * (-2 ^ 31) ≤ pageDataSize
      decide

/-- A page for records of the size `100`. -/
theorem initEmptyPage_layout_hundred :
  ∃ header fuel, (∀ fuel' ≥ fuel, initEmptyPage fuel' 100 = some header)
    ∧ header.recordRealSize = 100 ∧ Layout header 100
  := initEmptyPage_layout (by decide) (by decide)

end PageHeader

end MiniOB.Record
