import MiniOB.Buffer.DiskBufferPool

/-!
# Tables and their buffer pools

The part of `Db` in `storage/db/db.cpp`, `Table` and `BplusTreeHandler` that creates, opens,
closes and syncs the buffer pools. The data of a table and each of its indexes have a file and a
buffer pool of their own.
-/

namespace MiniOB.Buffer

/-! ### Opening and closing a buffer pool -/

/-- `BP_HEADER_PAGE`. -/
def bpHeaderPage : Int := 0

/-- `FIRST_INDEX_PAGE`. -/
def firstIndexPage : Int := 1

/-- `sizeof(IndexFileHeader)`. -/
def indexFileHeaderSize : Nat := 24

namespace BPFrameManager

section

variable (crc32 : List UInt8 → UInt32)

/-- The files of buffer pools are removed. -/
def removeFiles (s : BPFrameManager) (bufferPoolIds : List Int) : BPFrameManager :=
  let disk := fun (key : FrameId) =>
    if key.bufferPoolId ∈ bufferPoolIds then none else s.storage.disk key
  { s with storage := { s.storage with disk } }

/-- `BufferPoolManager::create_file`, which writes the header page into a new file. A number may
have been that of a file which nobody opens any more. -/
def createFile (s : BPFrameManager) (bufferPoolId : Int) (header : Page) : RC × BPFrameManager :=
  let (rc, storage) :=
    (s.removeFiles [bufferPoolId]).storage.writePage ⟨bufferPoolId, bpHeaderPage⟩ header
  (rc, { s with storage })

/-- `BufferPoolManager::open_file` and `DiskBufferPool::open_file`, which keep the header page in
a frame. -/
def openFile (fuel : Nat) (s : BPFrameManager) (bufferPoolId : Int) :
    Option (RC × Option Nat × BPFrameManager) :=
  let key : FrameId := ⟨bufferPoolId, bpHeaderPage⟩
  match s.storage.disk key with
  | none => some (.ioerrRead, none, s)
  | some _ =>
    match allocateFrame crc32 key fuel s with
    | none => none
    | some (n, s) =>
      let frameId := { (s.memory n).frameId with bufferPoolId }
      match (s.setFrame n { s.memory n with frameId }).loadPage key n with
      | some (.success, s) =>
        let storage := { s.storage with pools := bufferPoolId :: s.storage.pools }
        some (.success, some n, { s with storage })
      | some (rc, s) => (s.purgeFrame crc32 key n).map fun (_, s) => (rc, none, s)
      | none => none

/-- `DiskBufferPool::close_file` of the pool with the header frame `n`, and
`BufferPoolManager::close_file`. -/
def closeFile (s : BPFrameManager) (bufferPoolId : Int) (n : Nat) : Option BPFrameManager :=
  if bufferPoolId ∈ s.storage.pools then
    match (s.unpin n).purgeAllPages crc32 bufferPoolId with
    | none => none
    | some s =>
      match s.storage.clearPages bufferPoolId with
      | none => none
      | some (_, storage) =>
        some { s with storage := { storage with pools := storage.pools.filter (· ≠ bufferPoolId) } }
  else some s

end

end BPFrameManager

/-! ### Tables -/

/-- `BplusTreeHandler`: its buffer pool, and its copy of the header of the file. -/
structure BplusTreeHandler where
  diskBufferPool : Int
  fileHeader : List UInt8 := []
  headerDirty : Bool := false
  deriving DecidableEq, Repr

/-- `Table`: the buffer pool of its data, and its indexes. -/
structure Table where
  dataBufferPool : Int
  indexes : List BplusTreeHandler := []
  deriving DecidableEq, Repr

/-- The buffer pools of a table in the order in which it is closed. -/
def Table.pools (table : Table) : List Int :=
  table.dataBufferPool :: table.indexes.map BplusTreeHandler.diskBufferPool

section

variable (crc32 : List UInt8 → UInt32) (fuel : Nat)

/-- Put the header of the file into its page, and leave the rest of the page as it is. -/
def putHeader (fileHeader : List UInt8) (content : Int × List UInt8) : Int × List UInt8 :=
  (content.1, fileHeader ++ content.2.drop fileHeader.length)

/-- `BplusTreeHandler::sync`, which ignores that the header page cannot be fetched. -/
def BplusTreeHandler.sync (handler : BplusTreeHandler) (s : BPFrameManager) :
    Option (RC × BplusTreeHandler × BPFrameManager) :=
  let flush (handler : BplusTreeHandler) (s : BPFrameManager) :=
    (s.flushAllPages crc32 handler.diskBufferPool).map fun (rc, s) => (rc, handler, s)
  if handler.headerDirty then
    match s.getThisPage crc32 fuel ⟨handler.diskBufferPool, firstIndexPage⟩ with
    | some (.success, some n, s) =>
      let content := putHeader handler.fileHeader (s.memory n).page.content
      flush { handler with headerDirty := false } ((s.modify n content).unpin n)
    | some (_, _, s) => flush handler s
    | none => none
  else flush handler s

/-- The loop of `Table::sync` over the indexes. -/
def syncIndexes : List BplusTreeHandler → BPFrameManager →
    Option (RC × List BplusTreeHandler × BPFrameManager)
  | [], s => some (.success, [], s)
  | handler :: handlers, s =>
    match handler.sync crc32 fuel s with
    | some (.success, handler, s) =>
      (syncIndexes handlers s).map fun (rc, handlers, s) => (rc, handler :: handlers, s)
    | some (rc, handler, s) => some (rc, handler :: handlers, s)
    | none => none

/-- `Table::sync`. -/
def Table.sync (table : Table) (s : BPFrameManager) : Option (RC × Table × BPFrameManager) :=
  match syncIndexes crc32 fuel table.indexes s with
  | some (.success, indexes, s) =>
    (s.flushAllPages crc32 table.dataBufferPool).map fun (rc, s) => (rc, { table with indexes }, s)
  | some (rc, indexes, s) => some (rc, { table with indexes }, s)
  | none => none

/-- `BplusTreeHandler::open`, which reads the header of the file. The frame of the header of the
pool is returned as well. -/
def BplusTreeHandler.open (bufferPoolId : Int) (s : BPFrameManager) :
    Option (RC × List (Int × Nat) × BplusTreeHandler × BPFrameManager) :=
  let closed : BplusTreeHandler := ⟨bufferPoolId, [], false⟩
  match s.openFile crc32 fuel bufferPoolId with
  | some (.success, some hdrFrame, s) =>
    match s.getThisPage crc32 fuel ⟨bufferPoolId, firstIndexPage⟩ with
    | some (.success, some n, s) =>
      let fileHeader := (s.memory n).page.data.take indexFileHeaderSize
      some (.success, [(bufferPoolId, hdrFrame)], ⟨bufferPoolId, fileHeader, false⟩, s.unpin n)
    | some (rc, _, s) => some (rc, [(bufferPoolId, hdrFrame)], closed, s)
    | none => none
  | some (rc, _, s) => some (rc, [], closed, s)
  | none => none

/-- The loop of `Table::open` over the indexes. -/
def openIndexes : List BplusTreeHandler → BPFrameManager →
    Option (RC × List (Int × Nat) × List BplusTreeHandler × BPFrameManager)
  | [], s => some (.success, [], [], s)
  | handler :: handlers, s =>
    match BplusTreeHandler.open crc32 fuel handler.diskBufferPool s with
    | some (.success, hdrFrames, handler, s) =>
      (openIndexes handlers s).map fun (rc, hdrFrames', handlers, s) =>
        (rc, hdrFrames ++ hdrFrames', handler :: handlers, s)
    | some (rc, hdrFrames, handler, s) => some (rc, hdrFrames, handler :: handlers, s)
    | none => none

/-- `Table::open`. -/
def Table.open (table : Table) (s : BPFrameManager) :
    Option (RC × List (Int × Nat) × Table × BPFrameManager) :=
  match s.openFile crc32 fuel table.dataBufferPool with
  | some (.success, some hdrFrame, s) =>
    (openIndexes crc32 fuel table.indexes s).map fun (rc, hdrFrames, indexes, s) =>
      (rc, (table.dataBufferPool, hdrFrame) :: hdrFrames, { table with indexes }, s)
  | some (rc, _, s) => some (rc, [], table, s)
  | none => none

/-- `Db::open_all_tables`. -/
def openAllTables : List Table → BPFrameManager →
    Option (RC × List (Int × Nat) × List Table × BPFrameManager)
  | [], s => some (.success, [], [], s)
  | table :: tables, s =>
    match table.open crc32 fuel s with
    | some (.success, hdrFrames, table, s) =>
      (openAllTables tables s).map fun (rc, hdrFrames', tables, s) =>
        (rc, hdrFrames ++ hdrFrames', table :: tables, s)
    | some (rc, hdrFrames, table, s) => some (rc, hdrFrames, table :: tables, s)
    | none => none

/-- Close buffer pools, which are given with their header frames. -/
def closeAll : List (Int × Nat) → BPFrameManager → Option BPFrameManager
  | [], s => some s
  | (bufferPoolId, n) :: hdrFrames, s =>
    match s.closeFile crc32 bufferPoolId n with
    | some s => closeAll hdrFrames s
    | none => none

end

/-! ### The database -/

/-- `Db`: the frames and the storage, the frames that are pinned by those who fetched their
pages, the header frames of the pools that are open, and the tables. The tables are found in the
directory of the database after a restart. `building` are the pools of the indexes whose
`Table::create_index` has not come to its end, and `metaLsn` is the check point in the file of the
database. -/
structure Db where
  manager : BPFrameManager
  held : List (FrameId × Nat) := []
  hdrFrames : List (Int × Nat) := []
  openedTables : List Table := []
  building : List Int := []
  nextBufferPoolId : Int := 1
  checkPointLsn : Int := 0
  metaLsn : Int := 0
  running : Bool := false

namespace Db

section

variable (crc32 : List UInt8 → UInt32)

/-- The loop of `Db::sync` over the tables. -/
def syncTables (fuel : Nat) : List Table → BPFrameManager →
    Option (RC × List Table × BPFrameManager)
  | [], s => some (.success, [], s)
  | table :: tables, s =>
    match table.sync crc32 fuel s with
    | some (.success, table, s) =>
      (syncTables fuel tables s).map fun (rc, tables, s) => (rc, table :: tables, s)
    | some (rc, table, s) => some (rc, table :: tables, s)
    | none => none

/-- `DiskLogHandler::wait_lsn`, where `flushedLsn` has been flushed at the end of the wait. -/
def waitLsn (flushedLsn lsn : Int) : RC :=
  if lsn ≤ flushedLsn then .success else .internal

/-- `Db::flush_meta`, which succeeds if the file is written and renamed. -/
def flushMeta (db : Db) (renamed : Bool) : RC × Db :=
  if renamed then (.success, { db with metaLsn := db.checkPointLsn }) else (.ioerrWrite, db)

/-- `Db::sync`, which ignores what flushing the double write buffer returns. -/
def sync (fuel : Nat) (currentLsn flushedLsn : Int) (renamed : Bool) (db : Db) :
    Option (RC × Db) :=
  match syncTables crc32 fuel db.openedTables db.manager with
  | none => none
  | some (.success, openedTables, manager) =>
    match manager.storage.flushPage with
    | none => none
    | some (_, storage) =>
      let db := { db with openedTables, manager := { manager with storage } }
      match waitLsn flushedLsn currentLsn with
      | .success => some (flushMeta { db with checkPointLsn := currentLsn } renamed)
      | rc => some (rc, db)
  | some (rc, openedTables, manager) => some (rc, { db with openedTables, manager })

/-- The frames and the storage when a process starts: `DiskDoubleWriteBuffer::open_file` has
loaded the pages of the file. -/
def load (size : Nat) (db : Db) : RC × BPFrameManager :=
  let (rc, storage) := { db.manager.storage with pools := [] }.loadPages crc32
  (rc, .start storage size)

end

end Db

end MiniOB.Buffer
