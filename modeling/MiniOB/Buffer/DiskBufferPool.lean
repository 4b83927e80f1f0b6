import MiniOB.Buffer.DoubleWriteBuffer

/-!
# Buffer pools

`BPFrameManager` and `DiskBufferPool` of `storage/buffer/disk_buffer_pool.cpp`. All pools share
the frames, which are found by the page they hold and are kept in the order of their last use.
A frame that is needed when there is no free one is taken from the page that has not been used
for longest among those that nobody has pinned; its page is flushed to the double write buffer
if it is dirty. A call that violates an assertion of the source, or does not return, has no
result.
-/

namespace MiniOB.Buffer

/-- `Frame`. -/
structure Frame where
  frameId : FrameId := ⟨-1, -1⟩
  dirty : Bool := false
  pinCount : Nat := 0
  page : Page := ⟨0, 0, []⟩
  deriving DecidableEq, Repr

/-- `BPFrameManager` over the storage of the pools: the frames by their numbers, those that
hold a page, the last one used first, and the free ones. -/
structure BPFrameManager where
  storage : Storage
  frames : List (FrameId × Nat) := []
  frees : List Nat
  memory : Nat → Frame := fun _ => {}

/-- `BP_PAGE_DATA_SIZE`. -/
def pageDataSize : Nat := 2 ^ 13 - 4 - 8 - 4

/-- The page that `Frame::clear_page` leaves behind. -/
def zeroPage : Page := ⟨0, 0, List.replicate pageDataSize 0⟩

namespace BPFrameManager

/-! ### Frames -/

/-- Change a frame. -/
def setFrame (s : BPFrameManager) (n : Nat) (frame : Frame) : BPFrameManager :=
  { s with memory := Function.update s.memory n frame }

/-- `Frame::pin`. -/
def pin (s : BPFrameManager) (n : Nat) : BPFrameManager :=
  s.setFrame n { s.memory n with pinCount := (s.memory n).pinCount + 1 }

/-- `Frame::unpin`. -/
def unpin (s : BPFrameManager) (n : Nat) : BPFrameManager :=
  s.setFrame n { s.memory n with pinCount := (s.memory n).pinCount - 1 }

/-- The frame that holds a page. -/
def find (s : BPFrameManager) (key : FrameId) : Option (FrameId × Nat) :=
  s.frames.find? (·.1 = key)

/-- `BPFrameManager::get_internal`. -/
def getInternal (s : BPFrameManager) (key : FrameId) : Option (Nat × BPFrameManager) :=
  match s.find key with
  | some (_, n) => some (n, pin { s with frames := (key, n) :: s.frames.filter (·.1 ≠ key) } n)
  | none => none

/-- `BPFrameManager::alloc`, which asserts that nobody has pinned the free frame. -/
def alloc (s : BPFrameManager) (key : FrameId) : Option (Option Nat × BPFrameManager) :=
  match s.getInternal key with
  | some (n, s) => some (some n, s)
  | none =>
    match s.frees with
    | [] => some (none, s)
    | n :: frees =>
      if (s.memory n).pinCount = 0 then
        some (some n, { s with
          frames := (key, n) :: s.frames
          frees
          memory := Function.update s.memory n { s.memory n with frameId := key, pinCount := 1 } })
      else none

/-- `BPFrameManager::free_internal`, which asserts that the frame holds the page and that only
the caller has pinned it. -/
def freeInternal (s : BPFrameManager) (key : FrameId) (n : Nat) : Option BPFrameManager :=
  match s.find key with
  | some (_, m) =>
    if m = n ∧ (s.memory n).pinCount = 1 then
      let frameId := { (s.memory n).frameId with pageNum := -1 }
      some { s with
        frames := s.frames.filter (·.1 ≠ key)
        frees := s.frees ++ [n]
        memory := Function.update s.memory n { s.memory n with frameId, pinCount := 0 } }
    else none
  | none => none

/-- `BPFrameManager::find_list`, which pins the frames. -/
def findList (s : BPFrameManager) (bufferPoolId : Int) : List (FrameId × Nat) × BPFrameManager :=
  let frames := s.frames.filter (·.1.bufferPoolId = bufferPoolId)
  (frames, frames.foldl (fun s frame => s.pin frame.2) s)

section Flush

variable (crc32 : List UInt8 → UInt32)

/-! ### Flushing and purging -/

/-- `DiskBufferPool::flush_page_internal` of the pool `bufferPoolId`. -/
def flushPageInternal (s : BPFrameManager) (bufferPoolId : Int) (n : Nat) :
    Option (RC × BPFrameManager) :=
  let frame := s.memory n
  let page := { frame.page with checkSum := crc32 frame.page.data }
  match s.storage.addPage ⟨bufferPoolId, frame.frameId.pageNum⟩ page with
  | some (.success, storage) =>
    some (.success, setFrame { s with storage } n { frame with page, dirty := false })
  | some (rc, storage) => some (rc, setFrame { s with storage } n { frame with page })
  | none => none

/-- The purger of `DiskBufferPool::allocate_frame`. -/
def purger (s : BPFrameManager) (bufferPoolId : Int) (n : Nat) : Option (RC × BPFrameManager) :=
  let frame := s.memory n
  if frame.dirty = false then some (.success, s)
  else if frame.frameId.bufferPoolId = bufferPoolId then s.flushPageInternal crc32 bufferPoolId n
  else if frame.frameId.bufferPoolId ∈ s.storage.pools then
    s.flushPageInternal crc32 frame.frameId.bufferPoolId n
  else some (.internal, s)

/-- `BPFrameManager::purge_frames` for one frame, the last one used longest ago. -/
def purgeFrames (s : BPFrameManager) (bufferPoolId : Int) : Option BPFrameManager :=
  match s.frames.reverse.find? fun frame => (s.memory frame.2).pinCount = 0 with
  | none => some s
  | some (_, n) =>
    match (s.pin n).purger crc32 bufferPoolId n with
    | some (.success, s) => s.freeInternal (s.memory n).frameId n
    | some (_, s) => some (s.unpin n)
    | none => none

/-- `DiskBufferPool::allocate_frame`. -/
def allocateFrame (key : FrameId) : Nat → BPFrameManager → Option (Nat × BPFrameManager)
  | 0, _ => none
  | fuel + 1, s =>
    match s.alloc key with
    | some (some n, s) => some (n, s)
    | some (none, s) =>
      match s.purgeFrames crc32 key.bufferPoolId with
      | some s => allocateFrame key fuel s
      | none => none
    | none => none

/-- `DiskBufferPool::purge_frame`. -/
def purgeFrame (s : BPFrameManager) (key : FrameId) (n : Nat) : Option (RC × BPFrameManager) :=
  if (s.memory n).pinCount ≠ 1 then some (.lockedUnlock, s)
  else if (s.memory n).dirty then
    match s.flushPageInternal crc32 key.bufferPoolId n with
    | some (.success, s) => (s.freeInternal key n).map (.success, ·)
    | result => result
  else (s.freeInternal key n).map (.success, ·)

/-- `DiskBufferPool::purge_page`. -/
def purgePage (s : BPFrameManager) (key : FrameId) : Option (RC × BPFrameManager) :=
  match s.getInternal key with
  | some (n, s) => s.purgeFrame crc32 key n
  | none => some (.success, s)

/-- The loop of `DiskBufferPool::purge_all_pages`, which ignores what its calls return. -/
def purgeLoop (bufferPoolId : Int) : List (FrameId × Nat) → BPFrameManager → Option BPFrameManager
  | [], s => some s
  | (_, n) :: frames, s =>
    match s.purgeFrame crc32 ⟨bufferPoolId, (s.memory n).frameId.pageNum⟩ n with
    | some (_, s) => purgeLoop bufferPoolId frames s
    | none => none

/-- `DiskBufferPool::purge_all_pages`. -/
def purgeAllPages (s : BPFrameManager) (bufferPoolId : Int) : Option BPFrameManager :=
  let (frames, s) := s.findList bufferPoolId
  purgeLoop crc32 bufferPoolId frames s

/-- The loop of `DiskBufferPool::flush_all_pages`. -/
def flushAllLoop (bufferPoolId : Int) :
    List (FrameId × Nat) → BPFrameManager → Option (RC × BPFrameManager)
  | [], s => some (.success, s)
  | (_, n) :: frames, s =>
    match s.flushPageInternal crc32 bufferPoolId n with
    | some (.success, s) => flushAllLoop bufferPoolId frames (s.unpin n)
    | some (rc, s) => some (rc, s.unpin n)
    | none => none

/-- `DiskBufferPool::flush_all_pages`. -/
def flushAllPages (s : BPFrameManager) (bufferPoolId : Int) : Option (RC × BPFrameManager) :=
  let (frames, s) := s.findList bufferPoolId
  flushAllLoop crc32 bufferPoolId frames s

/-! ### Fetching pages -/

/-- `DiskBufferPool::load_page`. -/
def loadPage (s : BPFrameManager) (key : FrameId) (n : Nat) : Option (RC × BPFrameManager) :=
  match s.storage.readPage key with
  | none => none
  | some (.success, some page) => some (.success, s.setFrame n { s.memory n with page })
  | some _ =>
    match s.storage.disk key with
    | some page =>
      let frameId := { (s.memory n).frameId with pageNum := key.pageNum }
      some (.success, s.setFrame n { s.memory n with page, frameId })
    | none => some (.ioerrRead, s)

/-- `DiskBufferPool::get_this_page`. -/
def getThisPage (fuel : Nat) (s : BPFrameManager) (key : FrameId) :
    Option (RC × Option Nat × BPFrameManager) :=
  match s.getInternal key with
  | some (n, s) => some (.success, some n, s)
  | none =>
    match allocateFrame crc32 key fuel s with
    | none => none
    | some (n, s) =>
      let frameId := { (s.memory n).frameId with bufferPoolId := key.bufferPoolId }
      match (s.setFrame n { s.memory n with frameId }).loadPage key n with
      | some (.success, s) => some (.success, some n, s)
      | some (rc, s) => (s.purgeFrame crc32 key n).map fun (_, s) => (rc, none, s)
      | none => none

/-- The end of `DiskBufferPool::allocate_page`, which extends the file by the page `key`. What
flushing the page returns is ignored. -/
def extendPage (fuel : Nat) (s : BPFrameManager) (key : FrameId) : Option (Nat × BPFrameManager) :=
  match allocateFrame crc32 key fuel s with
  | none => none
  | some (n, s) =>
    (flushPageInternal crc32 (s.setFrame n { s.memory n with frameId := key, page := zeroPage })
      key.bufferPoolId n).map fun (_, s) => (n, s)

end Flush

/-- `DiskBufferPool::check_all_pages_unpinned`, without its warnings. -/
def checkAllPagesUnpinned (s : BPFrameManager) (bufferPoolId : Int) : BPFrameManager :=
  let (frames, s) := s.findList bufferPoolId
  frames.foldl (fun s frame => s.unpin frame.2) s

/-- A page is modified by whoever has pinned its frame, and marked dirty. -/
def modify (s : BPFrameManager) (n : Nat) (content : Int × List UInt8) : BPFrameManager :=
  let frame := s.memory n
  let page := { frame.page with lsn := content.1, data := content.2 }
  s.setFrame n { frame with page, dirty := true }

/-- A manager with free frames only. -/
def start (storage : Storage) (size : Nat) : BPFrameManager where
  storage
  frees := List.range size

end BPFrameManager

end MiniOB.Buffer
