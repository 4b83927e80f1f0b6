import MiniOB.Record.Bitmap

/-!
# Record files

`RecordPageHandler`, `RecordFileHandler` and `RecordFileScanner` of
`storage/record/record_manager.cpp`, with the page allocation of
`storage/buffer/disk_buffer_pool.cpp` that they rest on. A record page is its header, its
slot bitmap and its slots; the contents of a slot is the type `B`. The page `0` of the file
holds the header of the buffer pool.

Reading and writing pages and appending to the log does not fail. A call that touches
memory outside its page, or takes the page `0` for a record page, ends in a `Fault`.
-/

namespace MiniOB.Record

/-! ### Pages -/

/-- `BP_PAGE_DATA_SIZE`. -/
def pageDataSize : Nat := 8176

/-- `PAGE_HEADER_SIZE`. -/
def pageHeaderSize : Nat := 20

/-- `BPFileHeader::MAX_PAGE_NUM`. -/
def maxPageNum : Nat := (pageDataSize - 4 - 4) * 8

/-- `align8`. -/
def align8 (size : Nat) : Nat := (size + 7) / 8 * 8

/-- `page_record_capacity`: the quotient of `page_size - PAGE_HEADER_SIZE - 1` by
`record_size + 0.125`, cut down to an integer. -/
def pageRecordCapacity (pageSize recordSize : Nat) : Nat :=
  8 * (pageSize - pageHeaderSize - 1) / (8 * recordSize + 1)

/-- `page_bitmap_size`. -/
def pageBitmapSize (recordCapacity : Nat) : Nat := (recordCapacity + 7) / 8

/-- `RecordPageHandler::fix_record_capacity`. -/
def fixRecordCapacity (firstRecordOffset recordSize : Nat) : Nat → Nat
  | 0 => 0
  | capacity + 1 =>
    if firstRecordOffset + (capacity + 1) * recordSize > pageDataSize then
      fixRecordCapacity firstRecordOffset recordSize capacity
    else
      capacity + 1

/-- A record page. -/
structure RecordPage (B : Type) where
  recordNum : Int
  recordRealSize : Int
  recordSize : Int
  recordCapacity : Int
  firstRecordOffset : Int
  bitmap : Bytes
  records : Nat → B

variable {B : Type} [Inhabited B]

/-- A page that has been cleared. -/
def RecordPage.blank : RecordPage B where
  recordNum := 0
  recordRealSize := 0
  recordSize := 0
  recordCapacity := 0
  firstRecordOffset := 0
  bitmap := fun _ => 0
  records := fun _ => default

/-- The capacity of a page for records of size `recordSize`. -/
def capacityFor (recordSize : Nat) : Nat :=
  let capacity := pageRecordCapacity pageDataSize (align8 recordSize)
  let firstRecordOffset := align8 (pageHeaderSize + pageBitmapSize capacity)
  fixRecordCapacity firstRecordOffset (align8 recordSize) capacity

/-- `RecordPageHandler::init_empty_page`. -/
def RecordPage.initEmptyPage (page : RecordPage B) (recordSize : Nat) : RecordPage B :=
  let capacity := pageRecordCapacity pageDataSize (align8 recordSize)
  { page with
    recordNum := 0
    recordRealSize := recordSize
    recordSize := align8 recordSize
    recordCapacity := capacityFor recordSize
    firstRecordOffset := align8 (pageHeaderSize + pageBitmapSize capacity)
    bitmap := fun i =>
      if i < pageBitmapSize (capacityFor recordSize) then 0 else page.bitmap i }

/-- `RecordPageHandler::is_full`. -/
def RecordPage.isFull (page : RecordPage B) : Bool := page.recordCapacity ≤ page.recordNum

/-! ### Files -/

/-- A record file: the header of its buffer pool, its pages, and `free_pages_`. -/
structure RecordFile (B : Type) where
  bufferPoolId : Int
  pageCount : Nat
  allocatedPages : Nat
  pageBits : Bytes
  pages : Int → RecordPage B
  freePages : Finset Int

/-- What makes a call leave the memory of its page. -/
inductive Fault where
  | outOfPage
  | headerPage
  deriving DecidableEq, Repr

namespace RecordFile

/-- `BufferPoolManager::create_file`, opened by `RecordFileHandler::init`. -/
def create (bufferPoolId : Int) : RecordFile B where
  bufferPoolId := bufferPoolId
  pageCount := 1
  allocatedPages := 1
  pageBits := fun i => if i = 0 then 1 else 0
  pages := fun _ => RecordPage.blank
  freePages := ∅

/-- Four bytes of the page bitmap as an `int32_t`. -/
def pageBitsInt (f : RecordFile B) (offset : Nat) : Int :=
  int32 ((f.pageBits offset).toNat + 2 ^ 8 * (f.pageBits (offset + 1)).toNat
    + 2 ^ 16 * (f.pageBits (offset + 2)).toNat + 2 ^ 24 * (f.pageBits (offset + 3)).toNat)

/-- The page `0` taken for a record page. -/
def headerPage (f : RecordFile B) : RecordPage B where
  recordNum := f.bufferPoolId
  recordRealSize := f.pageCount
  recordSize := f.allocatedPages
  recordCapacity := f.pageBitsInt 0
  firstRecordOffset := f.pageBitsInt 4
  bitmap := fun i => f.pageBits (8 + i)
  records := fun _ => default

/-- `DiskBufferPool::get_this_page`, as `RecordPageHandler::init` uses it. -/
def getThisPage (f : RecordFile B) (pageNum : Int) : Except RC (RecordPage B) :=
  if pageNum < 0 then .error .ioerrSeek
  else if f.pageCount ≤ pageNum then .error .ioerrRead
  else if pageNum = 0 then .ok f.headerPage
  else .ok (f.pages pageNum)

/-- Write a record page back. -/
def setPage (f : RecordFile B) (pageNum : Int) (page : RecordPage B) : RecordFile B :=
  { f with pages := Function.update f.pages pageNum page }

/-- `DiskBufferPool::allocate_page`: a page that is marked as free, or one more page. -/
def allocatePage (f : RecordFile B) : Except RC (Int × RecordFile B) :=
  let free := if f.allocatedPages < f.pageCount
    then (List.range f.pageCount).find? fun i => !Bitmap.getBit f.pageBits i else none
  match free with
  | some i =>
    .ok (i, { f with
      allocatedPages := f.allocatedPages + 1
      pageBits := Bitmap.setBit f.pageBits i })
  | none =>
    if maxPageNum ≤ f.pageCount then .error .bufferpoolNobuf
    else
      .ok (f.pageCount, { f with
        allocatedPages := f.allocatedPages + 1
        pageCount := f.pageCount + 1
        pageBits := Bitmap.setBit f.pageBits f.pageCount
        pages := Function.update f.pages f.pageCount RecordPage.blank })

/-- The first loop of `RecordFileHandler::insert_record`: `pick` is the page at which the
iteration over `free_pages_` begins, and full pages are taken out. -/
def findFreePage (pick : Finset Int → Int) :
    Nat → RecordFile B → Except RC (Option Int) × RecordFile B
  | 0, f => (.ok none, f)
  | n + 1, f =>
    if f.freePages = ∅ then (.ok none, f)
    else
      match f.getThisPage (pick f.freePages) with
      | .error rc => (.error rc, f)
      | .ok page =>
        if !page.isFull then (.ok (some (pick f.freePages)), f)
        else
          findFreePage pick n { f with freePages := f.freePages.erase (pick f.freePages) }

/-- `RecordPageHandler::insert_record` on the page `pageNum`. -/
def insertRecordInPage (f : RecordFile B) (pageNum : Int) (data : B) :
    Except Fault (Except RC RID × RecordFile B) :=
  let page := f.pages pageNum
  if page.recordNum = page.recordCapacity then .ok (.error .recordNomem, f)
  else
    let index := Bitmap.nextUnsettedBit page.bitmap page.recordCapacity.toNat 0
    if index < 0 then .error .outOfPage
    else
      .ok (.ok ⟨pageNum, index⟩, f.setPage pageNum { page with
        recordNum := page.recordNum + 1
        bitmap := Bitmap.setBit page.bitmap index.toNat
        records := Function.update page.records index.toNat data })

/-- `RecordFileHandler::insert_record`. -/
def insertRecord (pick : Finset Int → Int) (data : B) (recordSize : Nat)
    (f : RecordFile B) : Except Fault (Except RC RID × RecordFile B) :=
  match findFreePage pick f.freePages.card f with
  | (.error rc, f) => .ok (.error rc, f)
  | (.ok (some pageNum), f) =>
    if pageNum = 0 then .error .headerPage else f.insertRecordInPage pageNum data
  | (.ok none, f) =>
    match f.allocatePage with
    | .error rc => .ok (.error rc, f)
    | .ok (pageNum, f) =>
      let f := f.setPage pageNum ((f.pages pageNum).initEmptyPage recordSize)
      let f := { f with freePages := insert pageNum f.freePages }
      f.insertRecordInPage pageNum data

/-- The slot of a record, as `RecordPageHandler::get_record`, `update_record` and
`delete_record` look for it; `illegal` is the code for a slot past the capacity. -/
def findSlot (f : RecordFile B) (rid : RID) (illegal : RC) : Except Fault (Except RC Nat) :=
  match f.getThisPage rid.pageNum with
  | .error rc => .ok (.error rc)
  | .ok page =>
    let slot := rid.slotNum.toNat
    if page.recordCapacity ≤ rid.slotNum then .ok (.error illegal)
    else if rid.slotNum < 0 ∨ pageDataSize ≤ pageHeaderSize + slot / 8 then .error .outOfPage
    else if Bitmap.getBit page.bitmap slot then
      if rid.pageNum = 0 then .error .headerPage else .ok (.ok slot)
    else .ok (.error .recordNotExist)

/-- `RecordFileHandler::delete_record`. -/
def deleteRecord (rid : RID) (f : RecordFile B) : Except Fault (RC × RecordFile B) :=
  match f.findSlot rid .invalidArgument with
  | .error fault => .error fault
  | .ok (.error rc) => .ok (rc, f)
  | .ok (.ok slot) =>
    let page := f.pages rid.pageNum
    let f := f.setPage rid.pageNum { page with
      recordNum := page.recordNum - 1
      bitmap := Bitmap.clearBit page.bitmap slot }
    .ok (.success, { f with freePages := insert rid.pageNum f.freePages })

/-- `RecordFileHandler::get_record`. -/
def getRecord (rid : RID) (f : RecordFile B) : Except Fault (Except RC B) :=
  match f.findSlot rid .recordInvalidRid with
  | .error fault => .error fault
  | .ok (.error rc) => .ok (.error rc)
  | .ok (.ok slot) => .ok (.ok ((f.pages rid.pageNum).records slot))

/-- `RecordPageHandler::update_record`. -/
def updateRecord (rid : RID) (data : B) (f : RecordFile B) : Except Fault (RC × RecordFile B) :=
  match f.findSlot rid .invalidArgument with
  | .error fault => .error fault
  | .ok (.error rc) => .ok (rc, f)
  | .ok (.ok slot) =>
    let page := f.pages rid.pageNum
    .ok (.success, f.setPage rid.pageNum { page with
      records := Function.update page.records slot data })

/-- `RecordFileHandler::visit_record`: the updater gets a copy of the record and says
whether it has changed it. -/
def visitRecord (rid : RID) (updater : B → Bool × B) (f : RecordFile B) :
    Except Fault (RC × RecordFile B) :=
  match f.getRecord rid with
  | .error fault => .error fault
  | .ok (.error rc) => .ok (rc, f)
  | .ok (.ok data) =>
    let (updated, data) := updater data
    if updated then f.updateRecord rid data else .ok (.success, f)

/-! ### Scanners -/

/-- `BufferPoolIterator::next`: the next page after `current` that is marked as allocated,
or `-1`. -/
def nextPage (f : RecordFile B) (current : Int) : Int :=
  Bitmap.nextSettedBit f.pageBits f.pageCount (current + 1).toNat

/-- `RecordFileHandler::init_free_pages`: the pages after `current` that are not full. -/
def initFreePages (f : RecordFile B) : Nat → Int → Finset Int → Finset Int
  | 0, _, free => free
  | n + 1, current, free =>
    let pageNum := f.nextPage current
    if pageNum = -1 then free
    else
      match f.getThisPage pageNum with
      | .error _ => free
      | .ok page =>
        initFreePages f n pageNum (if !page.isFull then insert pageNum free else free)

/-- `RecordFileHandler::close` and `RecordFileHandler::init`. -/
def reopen (f : RecordFile B) : RecordFile B :=
  { f with freePages := f.initFreePages f.pageCount 0 ∅ }

end RecordFile

/-- `RecordPageIterator`: its page, and the slot it returns next. -/
structure RecordPageIterator where
  pageNum : Int
  nextSlotNum : Int
  deriving DecidableEq, Repr

/-- `RecordFileScanner`: the page its `BufferPoolIterator` is at, and the iterator over a
record page, once there is one. -/
structure RecordFileScanner where
  currentPageNum : Int
  recordPageIterator : Option RecordPageIterator
  deriving DecidableEq, Repr

namespace RecordFileScanner

/-- A new scanner after `open_scan`. -/
def fresh : RecordFileScanner where
  currentPageNum := 0
  recordPageIterator := none

/-- `RecordPageIterator::init`. -/
def iteratorOf (f : RecordFile B) (pageNum : Int) : RecordPageIterator where
  pageNum := pageNum
  nextSlotNum :=
    Bitmap.nextSettedBit (f.pages pageNum).bitmap (f.pages pageNum).recordCapacity.toNat 0

/-- `RecordFileScanner::fetch_next_record_in_page` without a filter: the record of the
iterator and the iterator after it, or `none` at the end of the page. -/
def fetchNextRecordInPage (f : RecordFile B) (it : RecordPageIterator) :
    Option ((RID × B) × RecordPageIterator) :=
  if it.nextSlotNum = -1 then none
  else
    let page := f.pages it.pageNum
    some ((⟨it.pageNum, it.nextSlotNum⟩, page.records it.nextSlotNum.toNat),
      { it with nextSlotNum :=
        Bitmap.nextSettedBit page.bitmap page.recordCapacity.toNat (it.nextSlotNum + 1).toNat })

/-- The loop of `RecordFileScanner::fetch_next_record` over the pages after the current
one. -/
def fetchNextPage (f : RecordFile B) :
    Nat → RecordFileScanner → Except RC (RID × B) × RecordFileScanner
  | 0, scanner => (.error .recordEof, scanner)
  | n + 1, scanner =>
    let pageNum := f.nextPage scanner.currentPageNum
    if pageNum = -1 then (.error .recordEof, scanner)
    else
      match f.getThisPage pageNum with
      | .error rc => (.error rc, { scanner with currentPageNum := pageNum })
      | .ok _ =>
        let it := iteratorOf f pageNum
        match fetchNextRecordInPage f it with
        | some (record, it) => (.ok record, ⟨pageNum, some it⟩)
        | none => fetchNextPage f n ⟨pageNum, some it⟩

/-- `RecordFileScanner::next`. -/
def next (f : RecordFile B) (scanner : RecordFileScanner) :
    Except RC (RID × B) × RecordFileScanner :=
  match scanner.recordPageIterator.bind (fetchNextRecordInPage f) with
  | some (record, it) => (.ok record, { scanner with recordPageIterator := some it })
  | none => fetchNextPage f f.pageCount scanner

/-- Call `next` until it answers `RECORD_EOF`, at most `n` times. -/
def scan (f : RecordFile B) : Nat → RecordFileScanner → Option (List (RID × B))
  | 0, _ => none
  | n + 1, scanner =>
    match next f scanner with
    | (.ok record, scanner) => (scan f n scanner).map (record :: ·)
    | (.error .recordEof, _) => some []
    | (.error _, _) => none

end RecordFileScanner

end MiniOB.Record
