import MiniOB.Lib.Run
import MiniOB.Record.RecordManager

/-!
# Record files as partial maps

A record file stands for the partial map from record identifiers to records that `live`
reads off its pages. The invariant `Inv` ties the page headers, the slot bitmaps, the page
bitmap of the buffer pool and the set of free pages together.
-/

set_option linter.unusedSectionVars false

namespace MiniOB.Record

variable {B : Type} [Inhabited B]

/-- The number of set bits among the first `size` bits. -/
def countBits (bitmap : Bytes) (size : Nat) : Nat :=
  ((Finset.range size).filter fun i => Bitmap.getBit bitmap i = true).card

/-- Pages for records of the size hold at least one record. -/
def Fits (recordSize : Nat) : Prop := 0 < recordSize ∧ 0 < capacityFor recordSize

instance (recordSize : Nat) : Decidable (Fits recordSize) :=
  inferInstanceAs (Decidable (_ ∧ _))

/-! ### Counting bits -/

theorem countBits_setBit {bitmap : Bytes} {size i : Nat} (hi : i < size)
    (hbit : Bitmap.getBit bitmap i = false) :
  countBits (Bitmap.setBit bitmap i) size = countBits bitmap size + 1
  := by
  have hinsert : (Finset.range size).filter (fun j => Bitmap.getBit (Bitmap.setBit bitmap i) j = true)
      = insert i ((Finset.range size).filter fun j => Bitmap.getBit bitmap j = true) := by
    apply Finset.ext
    intro j
    simp only [Finset.mem_filter, Finset.mem_range, Finset.mem_insert, Bitmap.getBit_setBit]
    by_cases hj : j = i <;> simp [hj, hi]
  rw [countBits, hinsert, Finset.card_insert_of_notMem (by simp [hbit]), countBits]

theorem countBits_clearBit {bitmap : Bytes} {size i : Nat} (hi : i < size)
    (hbit : Bitmap.getBit bitmap i = true) :
  countBits (Bitmap.clearBit bitmap i) size + 1 = countBits bitmap size
  := by
  have herase : (Finset.range size).filter
        (fun j => Bitmap.getBit (Bitmap.clearBit bitmap i) j = true)
      = ((Finset.range size).filter fun j => Bitmap.getBit bitmap j = true).erase i := by
    apply Finset.ext
    intro j
    simp only [Finset.mem_filter, Finset.mem_range, Finset.mem_erase, Bitmap.getBit_clearBit]
    by_cases hj : j = i <;> simp [hj]
  rw [countBits, herase, Finset.card_erase_add_one (by simp [hi, hbit]), countBits]

/-- A bitmap with a clear bit is found to have one. -/
theorem nextUnsettedBit_of_countBits_lt {bitmap : Bytes} {size : Nat}
    (h : countBits bitmap size < size) :
  ∃ i : Nat, Bitmap.nextUnsettedBit bitmap size 0 = i ∧ i < size
    ∧ Bitmap.getBit bitmap i = false
  := by
  obtain ⟨-, hnone⟩ | ⟨i, hret, -, hlt, hbit, -⟩ := Bitmap.nextBit_isFirst false bitmap size 0
  · have hall : (Finset.range size).filter (fun j => Bitmap.getBit bitmap j = true)
        = Finset.range size := by
      apply Finset.filter_true_of_mem
      intro j hj
      simpa using hnone j (Nat.zero_le _) (Finset.mem_range.mp hj)
    rw [countBits, hall, Finset.card_range] at h
    omega
  · use i, hret, hlt, hbit

namespace RecordFile

/-- The page is one of the record pages of the file. -/
def IsRecordPage (f : RecordFile B) (p : Int) : Prop := 1 ≤ p ∧ p < f.pageCount

instance (f : RecordFile B) (p : Int) : Decidable (f.IsRecordPage p) :=
  inferInstanceAs (Decidable (_ ∧ _))

/-- The slot of the identifier lies on a record page and holds a record. -/
def IsLive (f : RecordFile B) (rid : RID) : Prop :=
  f.IsRecordPage rid.pageNum ∧ 0 ≤ rid.slotNum
    ∧ rid.slotNum < (f.pages rid.pageNum).recordCapacity
    ∧ Bitmap.getBit (f.pages rid.pageNum).bitmap rid.slotNum.toNat = true

instance (f : RecordFile B) (rid : RID) : Decidable (f.IsLive rid) :=
  inferInstanceAs (Decidable (_ ∧ _ ∧ _ ∧ _))

/-- The partial map that the file stands for. -/
def live (f : RecordFile B) (rid : RID) : Option B :=
  if f.IsLive rid then some ((f.pages rid.pageNum).records rid.slotNum.toNat) else none

/-- The file after a record page and the set of free pages have been written. -/
def write (f : RecordFile B) (p : Int) (page : RecordPage B) (free : Finset Int) :
    RecordFile B :=
  { f with pages := Function.update f.pages p page, freePages := free }

theorem write_pages_self (f : RecordFile B) (p : Int) (page : RecordPage B)
    (free : Finset Int) :
  (f.write p page free).pages p = page
  := Function.update_self _ _ _

theorem write_pages_of_ne (f : RecordFile B) {p q : Int} (hne : q ≠ p) (page : RecordPage B)
    (free : Finset Int) :
  (f.write p page free).pages q = f.pages q
  := Function.update_of_ne hne _ _

/-- The invariant of a file of records of size `recordSize`. -/
structure Inv (recordSize : Nat) (f : RecordFile B) : Prop where
  pageCount_pos : 1 ≤ f.pageCount
  allocatedPages : f.allocatedPages = f.pageCount
  pageBits : ∀ i, Bitmap.getBit f.pageBits i = decide (i < f.pageCount)
  capacity : ∀ p, f.IsRecordPage p →
    (f.pages p).recordCapacity = capacityFor recordSize
  recordNum : ∀ p, f.IsRecordPage p →
    (f.pages p).recordNum = countBits (f.pages p).bitmap (capacityFor recordSize)
  free_mem : ∀ p ∈ f.freePages, f.IsRecordPage p
  mem_free : ∀ p, f.IsRecordPage p → (f.pages p).isFull = false → p ∈ f.freePages

theorem inv_create (recordSize : Nat) (bufferPoolId : Int) :
  Inv recordSize (create bufferPoolId : RecordFile B)
  := by
  have hpage : ∀ p, ¬ (create bufferPoolId : RecordFile B).IsRecordPage p := by
    rintro p ⟨h₁, h₂⟩
    simp only [create] at h₂
    omega
  constructor
  case pageCount_pos => simp [create]
  case allocatedPages => rfl
  case pageBits =>
    intro i
    have hfirst : ∀ k < 8, (1#8).getLsbD k = decide (k < 1) := by decide
    simp only [create, Bitmap.getBit]
    by_cases hbyte : i / 8 = 0
    · rw [if_pos hbyte, show i % 8 = i by omega]
      apply hfirst i (by omega)
    · have hi : ¬ i < 1 := by omega
      simp [hbyte, hi]
  case capacity =>
    intro p hp
    exact absurd hp (hpage p)
  case recordNum =>
    intro p hp
    exact absurd hp (hpage p)
  case free_mem => simp [create]
  case mem_free =>
    intro p hp
    exact absurd hp (hpage p)

theorem getThisPage_of_isRecordPage {f : RecordFile B} {p : Int} (hp : f.IsRecordPage p) :
  f.getThisPage p = .ok (f.pages p)
  := by
  obtain ⟨h₁, h₂⟩ := hp
  rw [getThisPage, if_neg (by omega), if_neg (by omega), if_neg (by omega)]

namespace Inv

variable {recordSize : Nat} {f : RecordFile B}

/-- Once the file has 32 pages, the header taken for a record page has the capacity `-1`. -/
theorem headerPage_capacity (h : Inv recordSize f) (hcount : 32 ≤ f.pageCount) :
  f.headerPage.recordCapacity = -1
  := by
  have hones : ∀ k < 8, (255#8).getLsbD k = true := by decide
  have hbyte : ∀ i < 4, f.pageBits i = 255#8 := by
    intro i hi
    apply BitVec.eq_of_getLsbD_eq
    intro k hk
    have hbit := h.pageBits (8 * i + k)
    rw [Bitmap.getBit, show (8 * i + k) / 8 = i by omega, show (8 * i + k) % 8 = k by omega]
      at hbit
    rw [hbit, decide_eq_true (by omega), hones k hk]
  simp [headerPage, pageBitsInt, hbyte, int32]

/-! ### Looking for a slot -/

/-- A slot that the code may look for: it is not negative and, when the page is the header
of the file, lies within it. -/
def Probe (rid : RID) : Prop :=
  0 ≤ rid.slotNum ∧ (rid.pageNum = 0 → rid.slotNum < 8 * (pageDataSize - pageHeaderSize : Nat))

instance (rid : RID) : Decidable (Probe rid) := inferInstanceAs (Decidable (_ ∧ _))

theorem fixRecordCapacity_le (firstRecordOffset recordSize capacity : Nat) :
  fixRecordCapacity firstRecordOffset recordSize capacity ≤ capacity
  := by
  induction capacity with
  | zero => simp [fixRecordCapacity]
  | succ capacity ih =>
    rw [fixRecordCapacity]
    split <;> omega

/-- The capacity of a page leaves its slot bitmap within the page. -/
theorem capacityFor_le (recordSize : Nat) :
  capacityFor recordSize ≤ 8 * (pageDataSize - pageHeaderSize)
  := by
  calc capacityFor recordSize
      ≤ pageRecordCapacity pageDataSize (align8 recordSize) := fixRecordCapacity_le _ _ _
    _ ≤ 8 * (pageDataSize - pageHeaderSize - 1) := Nat.div_le_self _ _
    _ ≤ 8 * (pageDataSize - pageHeaderSize) := by decide

theorem findSlot_live (h : Inv recordSize f) {rid : RID}
    (hlive : f.IsLive rid) (illegal : RC) :
  f.findSlot rid illegal = .ok (.ok rid.slotNum.toNat)
  := by
  obtain ⟨hpage, h0, hcap, hbit⟩ := hlive
  have hcapacity := h.capacity rid.pageNum hpage
  have hbound := capacityFor_le recordSize
  have hne : rid.pageNum ≠ 0 := by
    have := hpage.1
    omega
  simp only [findSlot, getThisPage_of_isRecordPage hpage, hbit, if_true, if_neg hne]
  rw [if_neg (by omega), if_neg]
  simp only [pageDataSize, pageHeaderSize] at hbound ⊢
  omega

theorem findSlot_not_live (h : Inv recordSize f) {rid : RID}
    (hprobe : Probe rid) (hlive : ¬ f.IsLive rid) {illegal : RC} (hillegal : illegal ≠ .success) :
  ∃ rc, rc ≠ .success ∧ f.findSlot rid illegal = .ok (.error rc)
  := by
  obtain ⟨h0, hheader⟩ := hprobe
  by_cases hneg : rid.pageNum < 0
  · use .ioerrSeek, by decide
    simp [findSlot, getThisPage, hneg]
  by_cases hcount : (f.pageCount : Int) ≤ rid.pageNum
  · use .ioerrRead, by decide
    simp [findSlot, getThisPage, hneg, hcount]
  by_cases hzero : rid.pageNum = 0
  · -- the header page: past 64 pages its capacity is -1, and before its bits are clear
    have hpage : f.getThisPage rid.pageNum = .ok f.headerPage := by
      simp [getThisPage, hzero]
      omega
    simp only [findSlot, hpage]
    by_cases hcap : f.headerPage.recordCapacity ≤ rid.slotNum
    · use illegal, hillegal
      rw [if_pos hcap]
    · have hsmall : f.pageCount < 32 := by
        by_contra hlarge
        have := h.headerPage_capacity (by omega)
        omega
      have hbit : Bitmap.getBit f.headerPage.bitmap rid.slotNum.toNat = false := by
        have := h.pageBits (64 + rid.slotNum.toNat)
        rw [decide_eq_false (by omega)] at this
        rw [Bitmap.getBit, show (64 + rid.slotNum.toNat) / 8 = 8 + rid.slotNum.toNat / 8 by omega,
          show (64 + rid.slotNum.toNat) % 8 = rid.slotNum.toNat % 8 by omega] at this
        apply this
      use .recordNotExist, by decide
      have hin := hheader hzero
      rw [if_neg hcap, if_neg, hbit]
      · simp
      · simp only [pageDataSize, pageHeaderSize] at hin ⊢
        omega
  · have hpage : f.IsRecordPage rid.pageNum := ⟨by omega, by omega⟩
    have hcapacity := h.capacity rid.pageNum hpage
    have hbound := capacityFor_le recordSize
    simp only [findSlot, getThisPage_of_isRecordPage hpage]
    by_cases hcap : (f.pages rid.pageNum).recordCapacity ≤ rid.slotNum
    · use illegal, hillegal
      rw [if_pos hcap]
    · have hbit : Bitmap.getBit (f.pages rid.pageNum).bitmap rid.slotNum.toNat = false := by
        by_contra hbit
        apply hlive ⟨hpage, h0, by omega, by simpa using hbit⟩
      use .recordNotExist, by decide
      rw [if_neg hcap, if_neg, hbit]
      · simp
      · simp only [pageDataSize, pageHeaderSize] at hbound ⊢
        omega

/-! ### Changing a page -/

/-- The invariant after a record page has been written and the set of free pages has
changed with it. -/
theorem update (h : Inv recordSize f) {p : Int} (hp : f.IsRecordPage p) (page : RecordPage B)
    (free : Finset Int) (hcap : page.recordCapacity = capacityFor recordSize)
    (hnum : page.recordNum = countBits page.bitmap (capacityFor recordSize))
    (hsub : ∀ q ∈ free, q = p ∨ q ∈ f.freePages) (hsup : ∀ q ∈ f.freePages, q ∈ free)
    (hfree : page.isFull = false → p ∈ free) :
  Inv recordSize (f.write p page free)
  := by
  constructor
  case pageCount_pos => apply h.pageCount_pos
  case allocatedPages => apply h.allocatedPages
  case pageBits => apply h.pageBits
  case capacity =>
    intro q hq
    by_cases hqp : q = p
    · rw [hqp, write_pages_self, hcap]
    · rw [write_pages_of_ne _ hqp, h.capacity q hq]
  case recordNum =>
    intro q hq
    by_cases hqp : q = p
    · rw [hqp, write_pages_self, hnum]
    · rw [write_pages_of_ne _ hqp, h.recordNum q hq]
  case free_mem =>
    intro q hq
    obtain rfl | hq := hsub q hq
    · apply hp
    · apply h.free_mem q hq
  case mem_free =>
    intro q hq hfull
    by_cases hqp : q = p
    · subst hqp
      rw [write_pages_self] at hfull
      apply hfree hfull
    · rw [write_pages_of_ne _ hqp] at hfull
      apply hsup q (h.mem_free q hq hfull)

end Inv

theorem live_eq_none {f : RecordFile B} {rid : RID} :
  f.live rid = none ↔ ¬ f.IsLive rid
  := by
  simp [live]

theorem live_eq_some {f : RecordFile B} {rid : RID} {b : B} :
  f.live rid = some b ↔ f.IsLive rid ∧ (f.pages rid.pageNum).records rid.slotNum.toNat = b
  := by
  simp [live]

theorem live_congr {f f' : RecordFile B} {rid : RID} (hlive : f'.IsLive rid ↔ f.IsLive rid)
    (hrecords : (f'.pages rid.pageNum).records rid.slotNum.toNat
      = (f.pages rid.pageNum).records rid.slotNum.toNat) :
  f'.live rid = f.live rid
  := by
  simp [live, hlive, hrecords]

theorem rid_ext {rid rid' : RID} (hpage : rid.pageNum = rid'.pageNum)
    (hslot : rid.slotNum = rid'.slotNum) :
  rid = rid'
  := by
  cases rid
  cases rid'
  simp_all

/-- The map after one slot of a record page has been written. -/
theorem live_write (f : RecordFile B) (rid : RID) (hpage : f.IsRecordPage rid.pageNum)
    (h0 : 0 ≤ rid.slotNum) (hlt : rid.slotNum < (f.pages rid.pageNum).recordCapacity)
    (page : RecordPage B) (free : Finset Int)
    (hcap : page.recordCapacity = (f.pages rid.pageNum).recordCapacity)
    (hbits : ∀ j, j ≠ rid.slotNum.toNat →
      Bitmap.getBit page.bitmap j = Bitmap.getBit (f.pages rid.pageNum).bitmap j)
    (hrecords : ∀ j, j ≠ rid.slotNum.toNat →
      page.records j = (f.pages rid.pageNum).records j) :
  (f.write rid.pageNum page free).live
    = Function.update f.live rid
        (if Bitmap.getBit page.bitmap rid.slotNum.toNat then
          some (page.records rid.slotNum.toNat) else none)
  := by
  funext rid'
  by_cases heq : rid' = rid
  · subst heq
    have hpage' : (f.write rid'.pageNum page free).IsRecordPage rid'.pageNum := hpage
    simp [live, IsLive, hpage', write_pages_self, h0, hcap, hlt]
  · rw [Function.update_of_ne heq]
    by_cases hp : rid'.pageNum = rid.pageNum
    · by_cases h0' : 0 ≤ rid'.slotNum
      · have hne : rid'.slotNum.toNat ≠ rid.slotNum.toNat := by
          intro hslot'
          apply heq (rid_ext hp (by omega))
        apply live_congr
        · rw [IsLive, IsLive, hp, write_pages_self, hbits _ hne, hcap]
          rfl
        · rw [hp, write_pages_self, hrecords _ hne]
      · simp [live, IsLive, h0']
    · apply live_congr
      · rw [IsLive, IsLive, write_pages_of_ne _ hp]
        rfl
      · rw [write_pages_of_ne _ hp]

/-! ### Deleting, reading and updating -/

variable {recordSize : Nat} {f : RecordFile B}

/-- Deleting a live record takes exactly this record away. -/
theorem deleteRecord_live (h : Inv recordSize f) {rid : RID} (hlive : f.IsLive rid) :
  ∃ f', f.deleteRecord rid = .ok (.success, f') ∧ Inv recordSize f'
    ∧ f'.live = Function.update f.live rid none
  := by
  have hslot := h.findSlot_live hlive .invalidArgument
  obtain ⟨hpage, h0, hlt, hbit⟩ := hlive
  have hcapacity := h.capacity rid.pageNum hpage
  simp only [deleteRecord, hslot]
  refine ⟨f.write rid.pageNum
    { f.pages rid.pageNum with
      recordNum := (f.pages rid.pageNum).recordNum - 1
      bitmap := Bitmap.clearBit (f.pages rid.pageNum).bitmap rid.slotNum.toNat }
    (insert rid.pageNum f.freePages), rfl, ?_, ?_⟩
  · apply h.update hpage
    · apply hcapacity
    · have hslotlt : rid.slotNum.toNat < capacityFor recordSize := by omega
      have hcount := countBits_clearBit hslotlt hbit
      have := h.recordNum rid.pageNum hpage
      dsimp only
      omega
    · intro q hq
      apply Finset.mem_insert.mp hq
    · intro q hq
      apply Finset.mem_insert_of_mem hq
    · intro _
      apply Finset.mem_insert_self
  · refine (live_write f rid hpage h0 hlt _ _ ?_ ?_ ?_).trans ?_
    · rfl
    · intro j hj
      simp [Bitmap.getBit_clearBit, hj]
    · intro j hj
      rfl
    · simp [Bitmap.getBit_clearBit]

/-- Deleting what is not live fails and changes nothing. -/
theorem deleteRecord_not_live (h : Inv recordSize f) {rid : RID} (hprobe : Inv.Probe rid)
    (hlive : ¬ f.IsLive rid) :
  ∃ rc, rc ≠ .success ∧ f.deleteRecord rid = .ok (rc, f)
  := by
  obtain ⟨rc, hrc, hslot⟩ := h.findSlot_not_live hprobe hlive
    (show RC.invalidArgument ≠ .success by decide)
  use rc, hrc
  simp only [deleteRecord, hslot]

theorem getRecord_live (h : Inv recordSize f) {rid : RID} (hlive : f.IsLive rid) :
  f.getRecord rid = .ok (.ok ((f.pages rid.pageNum).records rid.slotNum.toNat))
  := by
  simp only [getRecord, h.findSlot_live hlive .recordInvalidRid]

theorem getRecord_not_live (h : Inv recordSize f) {rid : RID} (hprobe : Inv.Probe rid)
    (hlive : ¬ f.IsLive rid) :
  ∃ rc, rc ≠ .success ∧ f.getRecord rid = .ok (.error rc)
  := by
  obtain ⟨rc, hrc, hslot⟩ := h.findSlot_not_live hprobe hlive
    (show RC.recordInvalidRid ≠ .success by decide)
  use rc, hrc
  simp only [getRecord, hslot]

/-- Updating a live record writes exactly this record. -/
theorem updateRecord_live (h : Inv recordSize f) {rid : RID} (hlive : f.IsLive rid) (data : B) :
  ∃ f', f.updateRecord rid data = .ok (.success, f') ∧ Inv recordSize f'
    ∧ f'.live = Function.update f.live rid (some data)
  := by
  have hslot := h.findSlot_live hlive .invalidArgument
  obtain ⟨hpage, h0, hlt, hbit⟩ := hlive
  simp only [updateRecord, hslot]
  refine ⟨f.write rid.pageNum
    { f.pages rid.pageNum with
      records := Function.update (f.pages rid.pageNum).records rid.slotNum.toNat data }
    f.freePages, rfl, ?_, ?_⟩
  · apply h.update hpage
    · apply h.capacity _ hpage
    · apply h.recordNum _ hpage
    · intro q hq
      apply Or.inr hq
    · intro q hq
      apply hq
    · intro hfull
      apply h.mem_free _ hpage hfull
  · refine (live_write f rid hpage h0 hlt _ _ ?_ ?_ ?_).trans ?_
    · rfl
    · intro j hj
      rfl
    · intro j hj
      simp [hj]
    · simp [hbit]

/-- Visiting a live record applies the updater to it, and visiting what is not live fails
and changes nothing. -/
theorem visitRecord_live (h : Inv recordSize f) {rid : RID} {b : B} (hb : f.live rid = some b)
    (updater : B → Bool × B) :
  ∃ f', f.visitRecord rid updater = .ok (.success, f') ∧ Inv recordSize f'
    ∧ f'.live = Function.update f.live rid
        (some (if (updater b).1 then (updater b).2 else b))
  := by
  obtain ⟨hlive, hdata⟩ := live_eq_some.mp hb
  have hget := getRecord_live h hlive
  rw [hdata] at hget
  simp only [visitRecord, hget]
  cases hup : (updater b).1 with
  | true => simpa using updateRecord_live h hlive (updater b).2
  | false =>
    refine ⟨f, rfl, h, ?_⟩
    simp [← hb]

theorem visitRecord_not_live (h : Inv recordSize f) {rid : RID} (hprobe : Inv.Probe rid)
    (hlive : ¬ f.IsLive rid) (updater : B → Bool × B) :
  ∃ rc, rc ≠ .success ∧ f.visitRecord rid updater = .ok (rc, f)
  := by
  obtain ⟨rc, hrc, hget⟩ := getRecord_not_live h hprobe hlive
  use rc, hrc
  simp only [visitRecord, hget]

/-! ### Inserting -/

/-- The search for a free page ends at a page with room, or finds that there is none. -/
theorem findFreePage_eq (pick : Finset Int → Int) (hpick : ∀ s, s.Nonempty → pick s ∈ s)
    (n : Nat) :
    ∀ {f : RecordFile B}, Inv recordSize f → f.freePages.card ≤ n →
      ∃ free, Inv recordSize { f with freePages := free }
        ∧ ((∃ p, findFreePage pick n f = (.ok (some p), { f with freePages := free })
            ∧ f.IsRecordPage p ∧ p ∈ free ∧ (f.pages p).isFull = false)
          ∨ findFreePage pick n f = (.ok none, { f with freePages := free })) := by
  induction n with
  | zero =>
    intro f h hcard
    use f.freePages, h
    right
    rfl
  | succ n ih =>
    intro f h hcard
    rw [findFreePage]
    split
    · use f.freePages, h
      right
      rfl
    · rename_i hne
      have hmem := hpick f.freePages (Finset.nonempty_iff_ne_empty.mpr hne)
      have hpage := h.free_mem _ hmem
      simp only [getThisPage_of_isRecordPage hpage]
      split
      · rename_i hfull
        use f.freePages, h
        left
        refine ⟨_, rfl, hpage, hmem, ?_⟩
        simpa using hfull
      · rename_i hfull
        have herase : Inv recordSize { f with freePages := f.freePages.erase (pick f.freePages) } := by
          constructor
          case pageCount_pos => apply h.pageCount_pos
          case allocatedPages => apply h.allocatedPages
          case pageBits => apply h.pageBits
          case capacity => apply h.capacity
          case recordNum => apply h.recordNum
          case free_mem =>
            intro q hq
            apply h.free_mem q (Finset.mem_of_mem_erase hq)
          case mem_free =>
            intro q hq hnot
            apply Finset.mem_erase_of_ne_of_mem
            · rintro rfl
              simp_all
            · apply h.mem_free q hq hnot
        have hcard' : (f.freePages.erase (pick f.freePages)).card ≤ n := by
          rw [Finset.card_erase_of_mem hmem]
          omega
        apply ih herase hcard'

/-- Inserting into a page with room binds a slot that was free. -/
theorem insertRecordInPage_eq (h : Inv recordSize f) {p : Int} (hpage : f.IsRecordPage p)
    (hroom : (f.pages p).isFull = false) (data : B) :
  ∃ rid f', f.insertRecordInPage p data = .ok (.ok rid, f') ∧ Inv recordSize f'
    ∧ f.live rid = none ∧ f'.live = Function.update f.live rid (some data)
  := by
  have hcap := h.capacity p hpage
  have hnum := h.recordNum p hpage
  have hlt : countBits (f.pages p).bitmap (capacityFor recordSize) < capacityFor recordSize := by
    simp only [RecordPage.isFull, decide_eq_false_iff_not] at hroom
    omega
  obtain ⟨i, hindex, hi, hbit⟩ := nextUnsettedBit_of_countBits_lt hlt
  simp only [insertRecordInPage]
  rw [if_neg (by omega), hcap, Int.toNat_natCast, hindex, if_neg (by omega)]
  refine ⟨⟨p, i⟩, f.write p
    { f.pages p with
      recordNum := (f.pages p).recordNum + 1
      recordCapacity := capacityFor recordSize
      bitmap := Bitmap.setBit (f.pages p).bitmap i
      records := Function.update (f.pages p).records i data }
    f.freePages, rfl, ?_, ?_, ?_⟩
  · apply h.update hpage
    · rfl
    · have := countBits_setBit hi hbit
      dsimp only
      omega
    · intro q hq
      apply Or.inr hq
    · intro q hq
      apply hq
    · intro _
      apply h.mem_free p hpage hroom
  · simp [live, IsLive, hbit]
  · have hlt' : ((i : Int)) < (f.pages p).recordCapacity := by omega
    refine (live_write f ⟨p, i⟩ hpage (Int.natCast_nonneg i) hlt' _ _ ?_ ?_ ?_).trans ?_
    · apply hcap.symm
    · intro j hj
      rw [Int.toNat_natCast] at hj
      simp [Bitmap.getBit_setBit, hj]
    · intro j hj
      rw [Int.toNat_natCast] at hj
      simp [hj]
    · simp [Bitmap.getBit_setBit]

/-- The file after a page has been added and made an empty record page. -/
def grow (f : RecordFile B) (recordSize : Nat) : RecordFile B :=
  { f with
    allocatedPages := f.allocatedPages + 1
    pageCount := f.pageCount + 1
    pageBits := Bitmap.setBit f.pageBits f.pageCount
    pages := Function.update f.pages f.pageCount (RecordPage.blank.initEmptyPage recordSize)
    freePages := insert (f.pageCount : Int) f.freePages }

theorem getBit_initEmptyPage (i : Nat) :
  Bitmap.getBit (RecordPage.initEmptyPage (RecordPage.blank : RecordPage B) recordSize).bitmap i
    = false
  := by
  simp [RecordPage.initEmptyPage, RecordPage.blank, Bitmap.getBit]

theorem grow_pages_of_ne (f : RecordFile B) {p : Int} (hne : p ≠ f.pageCount) :
  (f.grow recordSize).pages p = f.pages p
  := Function.update_of_ne hne _ _

theorem grow_pages_self (f : RecordFile B) :
  (f.grow recordSize).pages f.pageCount = RecordPage.blank.initEmptyPage recordSize
  := Function.update_self _ _ _

theorem grow_isRecordPage (f : RecordFile B) (p : Int) :
  (f.grow recordSize).IsRecordPage p ↔ (1 ≤ p ∧ p = f.pageCount) ∨ f.IsRecordPage p
  := by
  simp only [IsRecordPage, grow]
  omega

theorem Inv.grow (h : Inv recordSize f) :
  Inv recordSize (f.grow recordSize)
  := by
  have hpos := h.pageCount_pos
  constructor
  case pageCount_pos => simp [RecordFile.grow]
  case allocatedPages => simp [RecordFile.grow, h.allocatedPages]
  case pageBits =>
    intro i
    simp only [RecordFile.grow, Bitmap.getBit_setBit, h.pageBits]
    by_cases hi : i = f.pageCount
    · simp [hi]
    · rw [if_neg hi]
      congr 1
      simp only [eq_iff_iff]
      omega
  case capacity =>
    intro p hp
    obtain ⟨-, rfl⟩ | hp := (grow_isRecordPage f p).mp hp
    · rw [grow_pages_self]
      rfl
    · rw [grow_pages_of_ne f (by have := hp.2; omega), h.capacity p hp]
  case recordNum =>
    intro p hp
    obtain ⟨-, rfl⟩ | hp := (grow_isRecordPage f p).mp hp
    · rw [grow_pages_self, countBits, Finset.filter_false_of_mem]
      · rfl
      · intro i hi
        simp [getBit_initEmptyPage]
    · rw [grow_pages_of_ne f (by have := hp.2; omega), h.recordNum p hp]
  case free_mem =>
    intro p hp
    rw [grow_isRecordPage]
    obtain rfl | hp := Finset.mem_insert.mp hp
    · left
      omega
    · right
      apply h.free_mem p hp
  case mem_free =>
    intro p hp hfull
    obtain ⟨-, rfl⟩ | hp := (grow_isRecordPage f p).mp hp
    · apply Finset.mem_insert_self
    · rw [grow_pages_of_ne f (by have := hp.2; omega)] at hfull
      apply Finset.mem_insert_of_mem (h.mem_free p hp hfull)

theorem live_grow (f : RecordFile B) :
  (f.grow recordSize).live = f.live
  := by
  funext rid
  by_cases hp : rid.pageNum = f.pageCount
  · have hold : ¬ f.IsLive rid := by
      rintro ⟨⟨-, hlt⟩, -⟩
      omega
    have hnew : ¬ (f.grow recordSize).IsLive rid := by
      rintro ⟨-, -, -, hbit⟩
      rw [hp, grow_pages_self, getBit_initEmptyPage] at hbit
      cases hbit
    rw [live_eq_none.mpr hold, live_eq_none.mpr hnew]
  · apply live_congr
    · rw [IsLive, IsLive, grow_pages_of_ne f hp, grow_isRecordPage]
      simp [hp]
    · rw [grow_pages_of_ne f hp]

/-- Inserting a record binds an identifier that was not live, unless the file has no more
pages. -/
theorem insertRecord_eq (h : Inv recordSize f) (hfits : Fits recordSize)
    (pick : Finset Int → Int) (hpick : ∀ s, s.Nonempty → pick s ∈ s) (data : B) :
  ∃ res f', f.insertRecord pick data recordSize = .ok (res, f') ∧ Inv recordSize f'
    ∧ ((∃ rid, res = .ok rid ∧ f.live rid = none
          ∧ f'.live = Function.update f.live rid (some data))
      ∨ (res = .error .bufferpoolNobuf ∧ maxPageNum ≤ f.pageCount ∧ f'.live = f.live))
  := by
  obtain ⟨free, hfree, hfind⟩ := findFreePage_eq pick hpick _ h le_rfl
  have hlive : ({ f with freePages := free } : RecordFile B).live = f.live := rfl
  obtain ⟨p, hfind, hpage, hmem, hroom⟩ | hfind := hfind
  · have hne : p ≠ 0 := by
      have := hpage.1
      omega
    obtain ⟨rid, f', hinsert, hinv, hnone, hlive'⟩ := insertRecordInPage_eq hfree hpage hroom data
    use .ok rid, f'
    simp only [insertRecord, hfind, if_neg hne]
    use hinsert, hinv
    left
    use rid, rfl, hnone
    rw [hlive', hlive]
  · by_cases hmax : maxPageNum ≤ f.pageCount
    · refine ⟨.error .bufferpoolNobuf, { f with freePages := free }, ?_, hfree,
        Or.inr ⟨rfl, hmax, hlive⟩⟩
      simp only [insertRecord, hfind, allocatePage, h.allocatedPages, lt_irrefl, if_false,
        if_pos hmax]
    · have hgrow := hfree.grow
      have hpage : ({ f with freePages := free } : RecordFile B).grow recordSize
          |>.IsRecordPage f.pageCount := by
        have := h.pageCount_pos
        rw [grow_isRecordPage]
        left
        constructor
        · omega
        · rfl
      have hroom : ((({ f with freePages := free } : RecordFile B).grow recordSize).pages
          f.pageCount).isFull = false := by
        have hself : (({ f with freePages := free } : RecordFile B).grow recordSize).pages
            f.pageCount = RecordPage.blank.initEmptyPage recordSize :=
          grow_pages_self { f with freePages := free }
        rw [hself]
        simpa [RecordPage.isFull, RecordPage.initEmptyPage, Nat.pos_iff_ne_zero] using hfits.2
      obtain ⟨rid, f', hinsert, hinv, hnone, hlive'⟩ :=
        insertRecordInPage_eq hgrow hpage hroom data
      rw [live_grow, hlive] at hnone hlive'
      refine ⟨.ok rid, f', ?_, hinv, Or.inl ⟨rid, rfl, hnone, hlive'⟩⟩
      rw [← hinsert]
      simp [insertRecord, hfind, allocatePage, h.allocatedPages, hmax, RecordFile.grow, setPage]

end RecordFile

end MiniOB.Record
