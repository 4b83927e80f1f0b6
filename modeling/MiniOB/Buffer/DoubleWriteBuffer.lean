import MiniOB.Common

/-!
# The double write buffer

`DiskDoubleWriteBuffer` of `storage/buffer/double_write_buffer.cpp`, with the data files it
writes to. A page that is flushed goes to the file of the double write buffer, and to its data
file when the buffer is full. The file has a header with the number of its slots, and the slots.
A call that violates an assertion of the source has no result.
-/

namespace MiniOB.Buffer

/-- `FrameId`, and `DoubleWritePageKey`: a page of a buffer pool. -/
structure FrameId where
  bufferPoolId : Int
  pageNum : Int
  deriving DecidableEq, Repr

/-- `Page`. -/
structure Page where
  lsn : Int
  checkSum : UInt32
  data : List UInt8
  deriving DecidableEq, Repr

/-- What a page says, leaving out its check sum. -/
def Page.content (page : Page) : Int × List UInt8 := (page.lsn, page.data)

/-- `DoubleWritePage`. -/
structure DoubleWritePage where
  key : FrameId
  pageIndex : Nat
  page : Page
  deriving DecidableEq, Repr

/-- The pools that are open, the double write buffer in memory, its file, and the data files.
Every write takes the next one of the outcomes, and succeeds when there is none left. A flush
that fails leaves pages in the buffer that have been `freed`; what a later call makes of them is
undefined, and it has no result. -/
structure Storage where
  pools : List Int := []
  maxPages : Nat := 16
  pageCnt : Nat := 0
  dblwrPages : List DoubleWritePage := []
  freed : Bool := false
  filePageCnt : Nat := 0
  fileSlots : Nat → Option DoubleWritePage := fun _ => none
  disk : FrameId → Option Page
  outcomes : List Bool := []

namespace Storage

/-- A write to a file, which leaves the file as it is if it fails. -/
def write (s : Storage) (change : Storage → Storage) : RC × Storage :=
  if s.outcomes.head? = some false then (.ioerrWrite, { s with outcomes := s.outcomes.tail })
  else (.success, change { s with outcomes := s.outcomes.tail })

/-- `DiskBufferPool::write_page`. -/
def writePage (s : Storage) (key : FrameId) (page : Page) : RC × Storage :=
  s.write fun s => { s with disk := Function.update s.disk key (some page) }

/-- `DiskDoubleWriteBuffer::write_page_internal`. -/
def writePageInternal (s : Storage) (page : DoubleWritePage) : RC × Storage :=
  s.write fun s => { s with fileSlots := Function.update s.fileSlots page.pageIndex (some page) }

/-- Write the header of the file. -/
def writeHeader (s : Storage) : RC × Storage :=
  s.write fun s => { s with filePageCnt := s.pageCnt }

/-- The loop of `DiskDoubleWriteBuffer::flush_page`. `DiskDoubleWriteBuffer::write_page` asserts
that the pool is open. -/
def flushLoop : List DoubleWritePage → Storage → Option (RC × Storage)
  | [], s => some (.success, s)
  | page :: pages, s =>
    if page.key.bufferPoolId ∈ s.pools then
      match s.writePage page.key page.page with
      | (.success, s) => flushLoop pages { s with freed := true }
      | (rc, s) => some (rc, s)
    else none

/-- `DiskDoubleWriteBuffer::flush_page`. -/
def flushPage (s : Storage) : Option (RC × Storage) :=
  if s.freed then none
  else
    match flushLoop s.dblwrPages s with
    | some (.success, s) => some (.success, { s with dblwrPages := [], pageCnt := 0, freed := false })
    | result => result

/-- The page of the buffer with a key. -/
def find (s : Storage) (key : FrameId) : Option DoubleWritePage :=
  s.dblwrPages.find? (·.key = key)

/-- `DiskDoubleWriteBuffer::add_page` for a page that is in the buffer. -/
def replacePage (s : Storage) (old : DoubleWritePage) (page : Page) : RC × Storage :=
  let new := { old with page }
  writePageInternal
    { s with dblwrPages := s.dblwrPages.map fun old => if old.key = new.key then new else old } new

/-- The header follows when the page is the last one of the file. -/
def growHeader (s : Storage) (size : Nat) : RC × Storage :=
  if s.pageCnt < size then writeHeader { s with pageCnt := size } else (.success, s)

/-- `DiskDoubleWriteBuffer::add_page` for a page that is not in the buffer. -/
def insertPage (s : Storage) (key : FrameId) (page : Page) : Option (RC × Storage) :=
  let new : DoubleWritePage := ⟨key, s.dblwrPages.length, page⟩
  match writePageInternal { s with dblwrPages := s.dblwrPages ++ [new] } new with
  | (.success, s) =>
    match s.growHeader s.dblwrPages.length with
    | (.success, s) => if s.maxPages ≤ s.dblwrPages.length then s.flushPage else some (.success, s)
    | result => some result
  | result => some result

/-- `DiskDoubleWriteBuffer::add_page`. -/
def addPage (s : Storage) (key : FrameId) (page : Page) : Option (RC × Storage) :=
  if s.freed then none
  else
    match s.find key with
    | some old => some (s.replacePage old page)
    | none => s.insertPage key page

/-- `DiskDoubleWriteBuffer::read_page`. -/
def readPage (s : Storage) (key : FrameId) : Option (RC × Option Page) :=
  if s.freed then none
  else
    match s.find key with
    | some page => some (.success, some page.page)
    | none => some (.bufferpoolInvalidPageNum, none)

/-- The loop of `DiskDoubleWriteBuffer::clear_pages`. -/
def clearLoop : List DoubleWritePage → Storage → RC × Storage
  | [], s => (.success, s)
  | page :: pages, s =>
    match s.writePage page.key page.page with
    | (.success, s) => clearLoop pages s
    | result => result

/-- `DiskDoubleWriteBuffer::clear_pages`, which ignores what its writes return. -/
def clearPages (s : Storage) (bufferPoolId : Int) : Option (RC × Storage) :=
  let pages := s.dblwrPages.filter (·.key.bufferPoolId = bufferPoolId)
  let sorted := pages.insertionSort fun page page' => page.key.pageNum ≤ page'.key.pageNum
  let rest := s.dblwrPages.filter (·.key.bufferPoolId ≠ bufferPoolId)
  if s.freed then none
  else some (.success, (clearLoop sorted { s with dblwrPages := rest }).2)

section Load

variable (crc32 : List UInt8 → UInt32)

/-- The loop of `DiskDoubleWriteBuffer::load_pages` over the slots. A page with a key that has
been met before is not inserted. -/
def loadLoop : List Nat → Storage → RC × Storage
  | [], s => (.success, s)
  | pageNum :: pageNums, s =>
    match s.fileSlots pageNum with
    | none => (.ioerrRead, s)
    | some page =>
      if crc32 page.page.data = page.page.checkSum ∧ s.find page.key = none then
        loadLoop pageNums { s with dblwrPages := s.dblwrPages ++ [page] }
      else loadLoop pageNums s

/-- `DiskDoubleWriteBuffer::load_pages`, called when the process starts. -/
def loadPages (s : Storage) : RC × Storage :=
  loadLoop crc32 (List.range s.filePageCnt)
    { s with dblwrPages := [], pageCnt := s.filePageCnt, freed := false }

end Load

/-- `DiskDoubleWriteBuffer::recover`. -/
def recover (s : Storage) : Option (RC × Storage) := s.flushPage

end Storage

end MiniOB.Buffer
