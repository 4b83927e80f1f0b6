import MiniOB.Db.Opening

/-!
# Restarting the database

Tables and indexes are created, written, synced and dropped, and the process is stopped and
started again. At a start the pages in the file of the double write buffer are loaded, the tables
are opened, and the loaded pages are written to the data files, which asserts that their pools
are open.
-/

namespace MiniOB.Buffer

open Transition

namespace Db

/-! ### Steps -/

/-- What happens in a step. -/
inductive Event where
  | createTable
  | createIndex (table : Table)
  | registerIndex (table : Table) (handler : BplusTreeHandler)
  | write (e : Client.Event)
  | allocatePage (key : FrameId)
  | disposePage (key : FrameId)
  | sync
  | dropTable (table : Table)
  | shutdown
  | start

/-- The frames and those who have pinned them. -/
def client (db : Db) : Client := ⟨db.manager, db.held⟩

/-- The header frames of the pools of a table that are open, in the order in which they are
closed. -/
def hdrFramesOf (db : Db) (table : Table) : List (Int × Nat) :=
  table.pools.flatMap fun bufferPoolId => db.hdrFrames.filter (·.1 = bufferPoolId)

/-- The next number of a buffer pool, after pools have been opened. -/
def nextAfter (hdrFrames : List (Int × Nat)) : Int :=
  hdrFrames.foldl (fun next hdrFrame => if next ≤ hdrFrame.1 then hdrFrame.1 + 1 else next) 1

variable (crc32 : List UInt8 → UInt32) (size : Nat)

/-- One step of the database. A page is written, and a pool flushed, by the steps of a client.
`Table::create_index` opens a pool for the index, writes its pages, and registers it with its
table at its end. -/
inductive Step : Db → Event → Db → Prop where
  | createTable {db : Db} {manager n} (header : Page) (fuel : Nat) (hrunning : db.running = true)
      (h : (db.manager.createFile db.nextBufferPoolId header).2.openFile crc32 fuel
        db.nextBufferPoolId = some (.success, some n, manager)) :
      Step db .createTable { db with
        manager
        hdrFrames := (db.nextBufferPoolId, n) :: db.hdrFrames
        openedTables := ⟨db.nextBufferPoolId, []⟩ :: db.openedTables
        nextBufferPoolId := db.nextBufferPoolId + 1 }
  | createIndex {db : Db} {table manager n} (header : Page) (fuel : Nat)
      (hrunning : db.running = true) (htable : table ∈ db.openedTables)
      (h : (db.manager.createFile db.nextBufferPoolId header).2.openFile crc32 fuel
        db.nextBufferPoolId = some (.success, some n, manager)) :
      Step db (.createIndex table) { db with
        manager
        hdrFrames := (db.nextBufferPoolId, n) :: db.hdrFrames
        building := db.nextBufferPoolId :: db.building
        nextBufferPoolId := db.nextBufferPoolId + 1 }
  | registerIndex {db : Db} {table handler} (hrunning : db.running = true)
      (htable : table ∈ db.openedTables) (hbuilt : handler.diskBufferPool ∈ db.building) :
      Step db (.registerIndex table handler) { db with
        openedTables := { table with indexes := table.indexes ++ [handler] }
          :: db.openedTables.erase table
        building := db.building.erase handler.diskBufferPool }
  | write {db : Db} {e c} (hrunning : db.running = true) (h : Client.Step crc32 db.client e c) :
      Step db (.write e) { db with manager := c.manager, held := c.held }
  | allocatePage {db : Db} {key n manager} (hdrFrame : Nat) (content : Int × List UInt8)
      (fuel : Nat) (hrunning : db.running = true)
      (hheader : (key.bufferPoolId, hdrFrame) ∈ db.hdrFrames)
      (hopen : key.bufferPoolId ∈ db.manager.storage.pools)
      (h : (db.manager.modify hdrFrame content).extendPage crc32 fuel key = some (n, manager)) :
      Step db (.allocatePage key) { db with manager, held := (key, n) :: db.held }
  | disposePage {db : Db} {key n manager manager'} (hdrFrame : Nat) (content : Int × List UInt8)
      (hrunning : db.running = true) (hheader : (key.bufferPoolId, hdrFrame) ∈ db.hdrFrames)
      (hget : db.manager.getInternal key = some (n, manager))
      (hfree : manager.freeInternal key n = some manager') :
      Step db (.disposePage key) { db with manager := manager'.modify hdrFrame content }
  | sync {db db' : Db} {currentLsn flushedLsn renamed rc} (fuel : Nat)
      (hrunning : db.running = true)
      (h : db.sync crc32 fuel currentLsn flushedLsn renamed = some (rc, db')) :
      Step db .sync db'
  | dropTable {db : Db} {table manager} (hrunning : db.running = true)
      (htable : table ∈ db.openedTables)
      (h : closeAll crc32 (db.hdrFramesOf table) db.manager = some manager) :
      Step db (.dropTable table) { db with
        manager := manager.removeFiles table.pools
        hdrFrames := db.hdrFrames.filter (·.1 ∉ table.pools)
        openedTables := db.openedTables.erase table }
  | shutdown {db : Db} {manager} (hrunning : db.running = true)
      (h : closeAll crc32 (db.openedTables.flatMap db.hdrFramesOf
        ++ db.hdrFrames.filter (·.1 ∈ db.building)) db.manager = some manager) :
      Step db .shutdown { db with manager, running := false }
  | start {db : Db} {manager hdrFrames openedTables manager' storage} (fuel : Nat)
      (hload : db.load crc32 size = (.success, manager))
      (hopen : openAllTables crc32 fuel db.openedTables manager
        = some (.success, hdrFrames, openedTables, manager'))
      (hrecover : manager'.storage.recover = some (.success, storage)) :
      Step db .start
        { manager := { manager' with storage }
          hdrFrames
          openedTables
          nextBufferPoolId := nextAfter hdrFrames
          checkPointLsn := db.metaLsn
          metaLsn := db.metaLsn
          running := true }

/-- A directory with no table, and no process. -/
def empty (maxPages : Nat) : Db where
  manager := .start { maxPages, disk := fun _ => none } size

/-- If the pages are loaded and all tables are opened at the next start, the pages are written to
the data files, and no assertion fails. -/
def Recovers (db : Db) : Prop :=
  ∀ fuel manager hdrFrames openedTables manager',
    db.load crc32 size = (.success, manager) →
    openAllTables crc32 fuel db.openedTables manager
      = some (.success, hdrFrames, openedTables, manager') →
    ∃ storage, manager'.storage.recover = some (.success, storage)

/-- The file of the double write buffer has no page of an index that is not registered. -/
def Registered (db : Db) : Prop :=
  ∀ pageNum < db.manager.storage.filePageCnt, ∀ page,
    db.manager.storage.fileSlots pageNum = some page → page.key.bufferPoolId ∉ db.building

/-- Dropping the table leaves no page behind: the file of the double write buffer has no page of
its pools, and no frame has one that would be written there when the pools are closed. -/
def LeavesNoPage (db : Db) (table : Table) : Prop :=
  (∀ pageNum < db.manager.storage.filePageCnt, ∀ page,
      db.manager.storage.fileSlots pageNum = some page → page.key.bufferPoolId ∉ table.pools)
    ∧ ∀ x ∈ db.manager.frames, x.1.bufferPoolId ∈ table.pools →
      (db.manager.memory x.2).dirty = false

/-- A table is dropped that leaves no page behind, and the process stops when there is no page of
an index that is not registered. -/
def Orderly (db : Db) : Event → Prop
  | .dropTable table => LeavesNoPage db table
  | .start => Registered db
  | _ => True

end Db

/-! ### The file of the double write buffer -/

/-- The pools that are open, and those of the pages in the file, are `owned`. -/
structure Filed (owned : Int → Prop) (s : Storage) : Prop where
  sound : s.Sound
  length_le : s.dblwrPages.length ≤ s.pageCnt
  pageCnt_le : s.pageCnt ≤ s.filePageCnt
  pools : ∀ bufferPoolId ∈ s.pools, owned bufferPoolId
  slots : ∀ pageNum < s.filePageCnt, ∀ page, s.fileSlots pageNum = some page →
    owned page.key.bufferPoolId

section

variable {owned owned' : Int → Prop} {storage : Storage} {key : FrameId}

theorem Filed.flushed (h : Filed owned storage) : Filed owned storage.flushed where
  sound := h.sound.flushed
  length_le := Nat.zero_le _
  pageCnt_le := Nat.zero_le _
  pools := h.pools
  slots := h.slots

theorem Filed.cleared (h : Filed owned storage) (bufferPoolId : Int) :
  Filed owned (storage.cleared bufferPoolId)
  where
  sound := h.sound.cleared bufferPoolId
  length_le := Nat.le_trans (List.length_filter_le _ _) h.length_le
  pageCnt_le := h.pageCnt_le
  pools := h.pools
  slots := h.slots

theorem Filed.replaced (h : Filed owned storage) {old : DoubleWritePage}
    (hold : owned old.key.bufferPoolId) (page : Page) :
  Filed owned (storage.replaced old page)
  where
  sound := h.sound.replaced old page
  length_le := by
    rw [Storage.replaced, List.length_map]
    apply h.length_le
  pageCnt_le := h.pageCnt_le
  pools := h.pools
  slots := by
    intro pageNum hlt page' hslot
    rw [Storage.fileSlots_replaced] at hslot
    by_cases heq : pageNum = old.pageIndex
    · rw [heq, Function.update_self] at hslot
      cases hslot
      apply hold
    · rw [Function.update_of_ne heq] at hslot
      apply h.slots pageNum hlt page' hslot

theorem Filed.inserted (h : Filed owned storage) (hnew : storage.find key = none)
    (hopen : key.bufferPoolId ∈ storage.pools) (page : Page) :
  Filed owned (storage.inserted key page)
  where
  sound := h.sound.inserted hnew hopen page
  length_le := by
    have hlength := h.length_le
    rw [Storage.inserted, List.length_append, List.length_singleton]
    simp only
    split <;> omega
  pageCnt_le := by
    have hle := h.pageCnt_le
    rw [Storage.inserted]
    simp only
    split <;> omega
  pools := h.pools
  slots := by
    intro pageNum hlt page' hslot
    rw [Storage.fileSlots_inserted] at hslot
    by_cases heq : pageNum = storage.dblwrPages.length
    · rw [heq, Function.update_self] at hslot
      cases hslot
      apply h.pools _ hopen
    · -- the file has no more slots than before, or one more
      rw [Function.update_of_ne heq] at hslot
      refine h.slots pageNum ?_ page' hslot
      have hlength := h.length_le
      have hle := h.pageCnt_le
      rw [Storage.inserted] at hlt
      simp only at hlt
      split at hlt <;> omega

theorem kept_filed : Kept (Filed owned) where
  tidy := fun h => h.sound.toTidy
  addPage := by
    intro storage storage' key page rc h hopen hadd
    rw [h.sound.addPage hopen, Storage.added] at hadd
    cases hfind : storage.find key with
    | some old =>
      rw [hfind] at hadd
      cases hadd
      obtain ⟨hold, rfl⟩ := Storage.mem_of_find hfind
      apply h.replaced (h.pools _ hopen)
    | none =>
      rw [hfind] at hadd
      have hinserted := h.inserted hfind hopen page
      simp only [Option.some_inj, Prod.mk.injEq] at hadd
      obtain ⟨-, rfl⟩ := hadd
      split
      · apply hinserted.flushed
      · apply hinserted
  flushPage := by
    intro storage storage' rc h hflush
    rw [h.sound.flushPage] at hflush
    cases hflush
    apply h.flushed

theorem Filed.mono (h : Filed owned storage)
    (hmono : ∀ bufferPoolId, owned bufferPoolId → owned' bufferPoolId) :
  Filed owned' storage
  := ⟨h.sound, h.length_le, h.pageCnt_le, fun id hid => hmono id (h.pools id hid),
    fun pageNum hlt page hslot => hmono _ (h.slots pageNum hlt page hslot)⟩

/-- A pool is opened that is owned. -/
theorem Filed.open (h : Filed owned storage) {bufferPoolId : Int} (howned : owned bufferPoolId) :
  Filed owned { storage with pools := bufferPoolId :: storage.pools }
  where
  sound := by
    refine ⟨⟨h.sound.keys, ?_⟩, h.sound.outcomes, h.sound.freed⟩
    intro page hpage
    apply List.mem_cons_of_mem _ (h.sound.opened page hpage)
  length_le := h.length_le
  pageCnt_le := h.pageCnt_le
  pools := by
    intro bufferPoolId' hmem
    rcases List.mem_cons.mp hmem with rfl | hmem
    · apply howned
    · apply h.pools _ hmem
  slots := h.slots

theorem Filed.disk (h : Filed owned storage) (disk : FrameId → Option Page) :
  Filed owned { storage with disk }
  := ⟨⟨⟨h.sound.keys, h.sound.opened⟩, h.sound.outcomes, h.sound.freed⟩, h.length_le, h.pageCnt_le,
    h.pools, h.slots⟩

/-- A pool is closed whose pages have been cleared. -/
theorem Filed.close (h : Filed owned storage) (bufferPoolId : Int) :
  Filed owned { storage.cleared bufferPoolId with
    pools := storage.pools.filter (· ≠ bufferPoolId) }
  where
  sound := by
    refine ⟨⟨(h.sound.cleared bufferPoolId).keys, ?_⟩, h.sound.outcomes, h.sound.freed⟩
    intro page hpage
    obtain ⟨hpage, hpool⟩ := List.mem_filter.mp hpage
    exact List.mem_filter.mpr ⟨h.sound.opened page hpage, hpool⟩
  length_le := (h.cleared bufferPoolId).length_le
  pageCnt_le := h.pageCnt_le
  pools := by
    intro bufferPoolId' hmem
    apply h.pools _ (List.mem_of_mem_filter hmem)
  slots := h.slots

/-- What `DiskDoubleWriteBuffer::load_pages` loads are pages of the file. -/
theorem loadLoop_cases {crc32 : List UInt8 → UInt32} {rc : RC} {pageNums : List Nat}
    {s s' : Storage} (hkeys : (s.dblwrPages.map DoubleWritePage.key).Nodup)
    (h : Storage.loadLoop crc32 pageNums s = (rc, s')) :
  ∃ pages, s' = { s with dblwrPages := s.dblwrPages ++ pages } ∧ pages.length ≤ pageNums.length
    ∧ ((s.dblwrPages ++ pages).map DoubleWritePage.key).Nodup
    ∧ ∀ page ∈ pages, ∃ pageNum ∈ pageNums, s.fileSlots pageNum = some page
  := by
  induction pageNums generalizing s with
  | nil =>
    cases h
    refine ⟨[], by rw [List.append_nil], Nat.le_refl _, ?_, ?_⟩
    · rw [List.append_nil]
      apply hkeys
    · intro page hpage
      contradiction
  | cons pageNum pageNums ih =>
    rw [Storage.loadLoop] at h
    split at h
    · cases h
      refine ⟨[], by rw [List.append_nil], Nat.zero_le _, ?_, ?_⟩
      · rw [List.append_nil]
        apply hkeys
      · intro page hpage
        contradiction
    · rename_i page hslot
      split at h
      · rename_i hload
        have hnew := Storage.find_eq_none.mp hload.2
        have hnodup : ((s.dblwrPages ++ [page]).map DoubleWritePage.key).Nodup := by
          rw [List.map_append, List.nodup_append]
          refine ⟨hkeys, List.nodup_singleton _, ?_⟩
          intro key hkey key' hkey'
          obtain ⟨page', hpage', rfl⟩ := List.mem_map.mp hkey
          rw [List.map_singleton, List.mem_singleton] at hkey'
          rw [hkey']
          apply hnew page' hpage'
        obtain ⟨pages, hs', hlength, hnodup, hpages⟩ := ih (by exact hnodup) h
        refine ⟨page :: pages, ?_, ?_, ?_, ?_⟩
        · rw [hs', List.append_assoc]
          rfl
        · rw [List.length_cons, List.length_cons]
          omega
        · rw [List.append_assoc] at hnodup
          apply hnodup
        · intro page' hpage'
          rcases List.mem_cons.mp hpage' with rfl | hpage'
          · exact ⟨pageNum, List.mem_cons_self, hslot⟩
          · obtain ⟨pageNum', hmem, hslot'⟩ := hpages page' hpage'
            exact ⟨pageNum', List.mem_cons_of_mem _ hmem, hslot'⟩
      · obtain ⟨pages, hs', hlength, hnodup, hpages⟩ := ih hkeys h
        refine ⟨pages, hs', Nat.le_succ_of_le hlength, hnodup, ?_⟩
        intro page' hpage'
        obtain ⟨pageNum', hmem, hslot'⟩ := hpages page' hpage'
        exact ⟨pageNum', List.mem_cons_of_mem _ hmem, hslot'⟩

/-- When the pools of the pages in the file have been opened, the loaded pages are pages of open
pools. -/
theorem Filed.load {crc32 : List UInt8 → UInt32} {loaded storage' : Storage}
    (h : Filed owned storage)
    (hslots : ∀ pageNum < storage.filePageCnt, ∀ page, storage.fileSlots pageNum = some page →
      owned' page.key.bufferPoolId)
    (hload : Storage.loadPages crc32 { storage with pools := [] } = (.success, loaded))
    (hstorage : storage' = { loaded with pools := storage'.pools })
    (hpools : ∀ bufferPoolId, bufferPoolId ∈ storage'.pools ↔ owned' bufferPoolId) :
  Filed owned' storage'
  := by
  rw [Storage.loadPages] at hload
  obtain ⟨pages, rfl, hlength, hnodup, hpages⟩ := loadLoop_cases (by exact List.nodup_nil) hload
  rw [List.length_range] at hlength
  rw [hstorage]
  refine ⟨⟨⟨hnodup, ?_⟩, h.sound.outcomes, rfl⟩, hlength, Nat.le_refl _, ?_, hslots⟩
  · intro page hpage
    obtain ⟨pageNum, hlt, hslot⟩ := hpages page hpage
    change _ ∈ storage'.pools
    rw [hpools]
    apply hslots pageNum (List.mem_range.mp hlt) page hslot
  · intro bufferPoolId hmem
    apply (hpools bufferPoolId).mp hmem

end

/-! ### The invariant -/

namespace Db

/-- The pools of the tables, and of the indexes that are being created. -/
def knownPools (db : Db) : List Int := db.building ++ db.openedTables.flatMap Table.pools

/-- A pool of a table, or of an index that is being created. -/
def Owned (db : Db) (bufferPoolId : Int) : Prop := bufferPoolId ∈ db.knownPools

/-- The invariant of the database. Each pool belongs to one table or to an index that is being
created, and while the process runs its pools are open. -/
structure Inv (db : Db) : Prop where
  filed : Filed (Owned db) db.manager.storage
  nodup : db.knownPools.Nodup
  owned_lt : ∀ bufferPoolId ∈ db.knownPools, bufferPoolId < db.nextBufferPoolId
  numbered : ∀ n, (db.manager.memory n).frameId.bufferPoolId < db.nextBufferPoolId
  covered : ∀ bufferPoolId ∈ db.manager.storage.pools, bufferPoolId ∈ db.hdrFrames.map Prod.fst
  opened : db.running = true → ∀ bufferPoolId ∈ db.knownPools,
    bufferPoolId ∈ db.manager.storage.pools

variable {crc32 : List UInt8 → UInt32} {size fuel : Nat} {db : Db}

theorem Inv.pool_lt (h : Inv db) {bufferPoolId : Int}
    (hopen : bufferPoolId ∈ db.manager.storage.pools) :
  bufferPoolId < db.nextBufferPoolId
  := h.owned_lt _ (h.filed.pools _ hopen)

/-- The calls on the frames keep the invariant. -/
theorem Inv.stays (h : Inv db) {manager : BPFrameManager}
    (hstays : Stays (Filed (Owned db)) db.manager.storage.pools db.manager manager)
    (held : List (FrameId × Nat)) :
  Inv { db with manager, held }
  where
  filed := hstays.storage
  nodup := h.nodup
  owned_lt := h.owned_lt
  numbered := by
    intro n
    rcases hstays.frameId n with heq | hmem
    · change (manager.memory n).frameId.bufferPoolId < _
      rw [heq]
      apply h.numbered
    · apply h.pool_lt hmem
  covered := by
    intro bufferPoolId hmem
    change bufferPoolId ∈ manager.storage.pools at hmem
    rw [hstays.pools] at hmem
    apply h.covered bufferPoolId hmem
  opened := by
    intro hrunning bufferPoolId howned
    change bufferPoolId ∈ manager.storage.pools
    rw [hstays.pools]
    apply h.opened hrunning bufferPoolId howned

/-! ### Clients -/

theorem stays_client {P : Storage → Prop} (hP : Kept P) {s s' : Client} {e : Client.Event}
    (h : P s.manager.storage) (hstep : Client.Step crc32 s e s') :
  Stays P s.manager.storage.pools s.manager s'.manager
  := by
  cases hstep with
  | fetch fuel hopen hget => apply Stays.getThisPage hP h hopen hopen hget
  | fetchFailed fuel hopen hget => apply Stays.getThisPage hP h hopen hopen hget
  | modify hheld => apply Stays.modify h
  | unpin hheld => apply Stays.unpin h
  | flushFrame hheld hopen hflush => apply Stays.flushPageInternal hP h hopen hflush
  | flushAllPages hopen hflush => apply Stays.flushAllPages hP h hopen hflush
  | purgeFrames hopen hpurge => apply Stays.purgeFrames hP h (Or.inl hopen) hpurge
  | purgeAllPages hopen hpurge => apply Stays.purgeAllPages hP h hopen hpurge
  | flushBuffer hflush =>
    obtain ⟨-, -, hpools⟩ := (hP.tidy h).flushPage_cases hflush
    exact ⟨hP.flushPage h hflush, hpools, fun _ => Or.inl rfl⟩

/-! ### Creating tables and indexes -/

/-- A pool is created and opened that no frame and no page knows. -/
theorem stays_openFile {P : Storage → Prop} (hP : Kept P) {s s' : BPFrameManager}
    {bufferPoolId : Int} {n : Nat}
    (hopen : s.openFile crc32 fuel bufferPoolId = some (.success, some n, s')) (h : P s.storage)
    (hnew : ∀ n, (s.memory n).frameId.bufferPoolId ≠ bufferPoolId) :
  ∃ s₁, Stays P [bufferPoolId] s s₁
    ∧ s' = { s₁ with storage := { s₁.storage with pools := bufferPoolId :: s₁.storage.pools } }
  := by
  rw [BPFrameManager.openFile] at hopen
  simp only at hopen
  split at hopen
  · cases hopen
  · split at hopen
    · contradiction
    · rename_i n' s₁ halloc
      split at hopen
      · rename_i s₂ hload
        cases hopen
        have hframe : Stays P [bufferPoolId] s s₁ :=
          Stays.allocateFrame hP h (List.mem_singleton_self _) (Or.inr hnew) halloc
        have hset : Stays P [bufferPoolId] s (s₁.setFrame n { s₁.memory n with
            frameId := { (s₁.memory n).frameId with bufferPoolId } }) :=
          hframe.trans (Stays.setFrame hframe.storage (Or.inr (List.mem_singleton_self _)))
        exact ⟨s₂, hset.trans (Stays.loadPage hset.storage hload), rfl⟩
      · obtain ⟨⟨rc₃, s₃⟩, hpurge, heq⟩ := Option.map_eq_some_iff.mp hopen
        cases heq
      · contradiction

/-- The tables, or the indexes that are being created, get one more pool. -/
theorem Inv.create (h : Inv db) {header : Page} {n : Nat} {manager : BPFrameManager}
    (hopen : (db.manager.createFile db.nextBufferPoolId header).2.openFile crc32 fuel
      db.nextBufferPoolId = some (.success, some n, manager)) {tables : List Table}
    {building : List Int} (hpools : (building ++ tables.flatMap Table.pools).Perm
      (db.nextBufferPoolId :: db.knownPools)) :
  Inv { db with
    manager
    hdrFrames := (db.nextBufferPoolId, n) :: db.hdrFrames
    openedTables := tables
    building
    nextBufferPoolId := db.nextBufferPoolId + 1 }
  := by
  have hmem : ∀ bufferPoolId, bufferPoolId ∈ building ++ tables.flatMap Table.pools
      ↔ bufferPoolId = db.nextBufferPoolId ∨ bufferPoolId ∈ db.knownPools := by
    intro bufferPoolId
    rw [hpools.mem_iff, List.mem_cons]
  obtain ⟨disk, hcreated⟩ : ∃ disk, (db.manager.createFile db.nextBufferPoolId header).2
      = { db.manager with storage := { db.manager.storage with disk } } := by
    rw [BPFrameManager.createFile, BPFrameManager.removeFiles, Storage.writePage,
      Storage.write_nil (by exact h.filed.sound.outcomes)]
    exact ⟨_, rfl⟩
  rw [hcreated] at hopen
  have hfiled : Filed (Owned db) { db.manager.storage with disk } := h.filed.disk _
  obtain ⟨s₁, hstays, rfl⟩ := stays_openFile kept_filed hopen hfiled
    (fun n => Int.ne_of_lt (h.numbered n))
  have hsame : s₁.storage.pools = db.manager.storage.pools := hstays.pools
  refine ⟨?_, ?_, ?_, ?_, ?_, ?_⟩
  · apply Filed.open
    · apply hstays.storage.mono
      intro bufferPoolId howned
      exact (hmem bufferPoolId).mpr (.inr howned)
    · exact (hmem _).mpr (.inl rfl)
  · apply hpools.nodup_iff.mpr
    rw [List.nodup_cons]
    refine ⟨?_, h.nodup⟩
    intro howned
    have hlt := h.owned_lt _ howned
    omega
  · intro bufferPoolId howned
    change bufferPoolId < db.nextBufferPoolId + 1
    rcases (hmem bufferPoolId).mp howned with rfl | howned
    · omega
    · have hlt := h.owned_lt _ howned
      omega
  · intro m
    change (s₁.memory m).frameId.bufferPoolId < db.nextBufferPoolId + 1
    have hlt := h.numbered m
    rcases hstays.frameId m with heq | hself
    · change _ = (db.manager.memory m).frameId.bufferPoolId at heq
      omega
    · rw [List.mem_singleton] at hself
      omega
  · intro bufferPoolId hopen
    rw [List.map_cons, List.mem_cons]
    change bufferPoolId ∈ db.nextBufferPoolId :: s₁.storage.pools at hopen
    rw [hsame] at hopen
    rcases List.mem_cons.mp hopen with rfl | hopen
    · left
      rfl
    · right
      apply h.covered _ hopen
  · intro hrunning bufferPoolId howned
    change bufferPoolId ∈ db.nextBufferPoolId :: s₁.storage.pools
    rw [hsame, List.mem_cons]
    apply ((hmem bufferPoolId).mp howned).imp_right
    apply h.opened hrunning

/-! ### Closing pools -/

/-- The pools of `hdrFrames` have been closed. -/
structure Closes (owned : Int → Prop) (hdrFrames : List (Int × Nat)) (s s' : BPFrameManager) :
    Prop where
  filed : Filed owned s'.storage
  pools : ∀ bufferPoolId, bufferPoolId ∈ s'.storage.pools
    ↔ bufferPoolId ∈ s.storage.pools ∧ bufferPoolId ∉ hdrFrames.map Prod.fst
  frameId : ∀ n, (s'.memory n).frameId.bufferPoolId = (s.memory n).frameId.bufferPoolId

theorem Closes.closeFile {owned : Int → Prop} {s s' : BPFrameManager} {bufferPoolId : Int} {n : Nat}
    (h : Filed owned s.storage) (hclose : s.closeFile crc32 bufferPoolId n = some s') :
  Closes owned [(bufferPoolId, n)] s s'
  := by
  have hsame : ∀ {s₁ : BPFrameManager}, Stays (Filed owned) [] s s₁ → ∀ m,
      (s₁.memory m).frameId.bufferPoolId = (s.memory m).frameId.bufferPoolId := by
    intro s₁ hstays m
    rcases hstays.frameId m with heq | hmem
    · apply heq
    · contradiction
  rw [BPFrameManager.closeFile] at hclose
  split at hclose
  · rename_i hopen
    split at hclose
    · contradiction
    · rename_i s₁ hpurge
      have hunpin : Stays (Filed owned) [] s (s.unpin n) := Stays.unpin h n
      have hpurged := hunpin.trans
        (Stays.purgeAllPages kept_filed hunpin.storage (by exact hopen) hpurge)
      have hframeId := hsame hpurged
      rw [hpurged.storage.sound.clearPages] at hclose
      cases hclose
      refine ⟨hpurged.storage.close bufferPoolId, ?_, hframeId⟩
      intro bufferPoolId'
      change bufferPoolId' ∈ s₁.storage.pools.filter (· ≠ bufferPoolId) ↔ _
      rw [hpurged.pools, List.mem_filter, decide_eq_true_eq, List.map_singleton,
        List.mem_singleton]
  · rename_i hclosed
    cases hclose
    refine ⟨h, ?_, fun _ => rfl⟩
    intro bufferPoolId'
    rw [List.map_singleton, List.mem_singleton]
    constructor
    · intro hmem
      refine ⟨hmem, ?_⟩
      rintro rfl
      contradiction
    · intro hmem
      apply hmem.1

theorem Closes.closeAll {owned : Int → Prop} {hdrFrames : List (Int × Nat)}
    {s s' : BPFrameManager} (h : Filed owned s.storage)
    (hclose : closeAll crc32 hdrFrames s = some s') :
  Closes owned hdrFrames s s'
  := by
  induction hdrFrames generalizing s with
  | nil =>
    cases hclose
    refine ⟨h, ?_, fun _ => rfl⟩
    simp
  | cons hdrFrame hdrFrames ih =>
    rw [Buffer.closeAll] at hclose
    split at hclose
    · rename_i s₁ hfile
      have hclosed := Closes.closeFile h hfile
      have hrest := ih hclosed.filed hclose
      refine ⟨hrest.filed, ?_, fun n => (hrest.frameId n).trans (hclosed.frameId n)⟩
      intro bufferPoolId
      rw [hrest.pools, hclosed.pools, List.map_singleton, List.mem_singleton, List.map_cons,
        List.mem_cons]
      tauto
    · contradiction

/-- Closing pools that have no dirty page writes nothing to the file of the double write buffer. -/
theorem fileSlots_closeAll {owned : Int → Prop} {hdrFrames : List (Int × Nat)}
    {s s' : BPFrameManager} (h : Filed owned s.storage)
    (hclean : ∀ x ∈ s.frames, x.1.bufferPoolId ∈ hdrFrames.map Prod.fst →
      (s.memory x.2).dirty = false)
    (hclose : closeAll crc32 hdrFrames s = some s') :
  s'.storage.fileSlots = s.storage.fileSlots ∧ s'.storage.filePageCnt = s.storage.filePageCnt
  := by
  induction hdrFrames generalizing s with
  | nil =>
    cases hclose
    exact ⟨rfl, rfl⟩
  | cons hdrFrame hdrFrames ih =>
    obtain ⟨bufferPoolId, n⟩ := hdrFrame
    rw [Buffer.closeAll] at hclose
    split at hclose
    · rename_i s₁ hfile
      have hclosed := Closes.closeFile h hfile
      -- the frames of the other pools are as they were
      have hidle : (∀ x ∈ s₁.frames, x ∈ s.frames)
          ∧ (∀ m, (s₁.memory m).dirty = (s.memory m).dirty)
          ∧ s₁.storage.fileSlots = s.storage.fileSlots
          ∧ s₁.storage.filePageCnt = s.storage.filePageCnt := by
        rw [BPFrameManager.closeFile] at hfile
        split at hfile
        · split at hfile
          · contradiction
          · rename_i s₂ hpurge
            have hunpin : Idle s (s.unpin n) := Idle.setFrame rfl rfl
            have hpurged := hunpin.trans (Idle.purgeAllPages (by
              intro x hx hpool
              rw [hunpin.dirty]
              apply hclean x hx
              rw [List.map_cons, hpool]
              apply List.mem_cons_self) hpurge)
            have hsound : s₂.storage.Sound := by
              rw [hpurged.storage]
              apply h.sound
            rw [hsound.clearPages] at hfile
            cases hfile
            refine ⟨hpurged.frames, hpurged.dirty, ?_, ?_⟩
            · change s₂.storage.fileSlots = _
              rw [hpurged.storage]
            · change s₂.storage.filePageCnt = _
              rw [hpurged.storage]
        · cases hfile
          exact ⟨fun _ => id, fun _ => rfl, rfl, rfl⟩
      obtain ⟨hframes, hdirty, hslots, hcnt⟩ := hidle
      obtain ⟨hslots', hcnt'⟩ := ih hclosed.filed (by
        intro x hx hpool
        rw [hdirty]
        apply hclean x (hframes x hx)
        apply List.mem_cons_of_mem _ hpool) hclose
      exact ⟨hslots'.trans hslots, hcnt'.trans hcnt⟩
    · contradiction

theorem mem_hdrFramesOf {table : Table} {bufferPoolId : Int} :
  bufferPoolId ∈ (db.hdrFramesOf table).map Prod.fst
    ↔ bufferPoolId ∈ table.pools ∧ bufferPoolId ∈ db.hdrFrames.map Prod.fst
  := by
  simp only [hdrFramesOf, List.mem_map, List.mem_flatMap, List.mem_filter, decide_eq_true_eq]
  constructor
  · rintro ⟨hdrFrame, ⟨bufferPoolId', hpool, hmem, rfl⟩, rfl⟩
    exact ⟨hpool, hdrFrame, hmem, rfl⟩
  · rintro ⟨hpool, hdrFrame, hmem, rfl⟩
    exact ⟨hdrFrame, ⟨hdrFrame.1, hpool, hmem, rfl⟩, rfl⟩

/-- Dropping a table that leaves no page behind. -/
theorem Inv.dropTable (h : Inv db) {table : Table} (htable : table ∈ db.openedTables)
    (hleaves : LeavesNoPage db table) (hrunning : db.running = true) {manager : BPFrameManager}
    (hclose : closeAll crc32 (db.hdrFramesOf table) db.manager = some manager) :
  Inv { db with
    manager := manager.removeFiles table.pools
    hdrFrames := db.hdrFrames.filter (·.1 ∉ table.pools)
    openedTables := db.openedTables.erase table }
  := by
  have hclosed := Closes.closeAll h.filed hclose
  let kept : List Int := db.building ++ (db.openedTables.erase table).flatMap Table.pools
  have hperm : db.knownPools.Perm (table.pools ++ kept) := by
    have hflat := (List.perm_cons_erase htable).flatMap_right Table.pools
    rw [List.flatMap_cons] at hflat
    exact (hflat.append_left db.building).trans (List.perm_append_comm_assoc _ _ _)
  have hnodup := hperm.nodup_iff.mp h.nodup
  rw [List.nodup_append] at hnodup
  have hknown : ∀ bufferPoolId ∈ kept, bufferPoolId ∈ db.knownPools := by
    intro bufferPoolId hmem
    apply hperm.mem_iff.mpr
    apply List.mem_append_right _ hmem
  have hkept : ∀ bufferPoolId ∈ db.knownPools, bufferPoolId ∉ table.pools →
      bufferPoolId ∈ kept := by
    intro bufferPoolId hmem hpool
    exact (List.mem_append.mp (hperm.mem_iff.mp hmem)).resolve_left hpool
  have hpools : ∀ bufferPoolId, bufferPoolId ∈ manager.storage.pools
      ↔ bufferPoolId ∈ db.manager.storage.pools ∧ bufferPoolId ∉ table.pools := by
    intro bufferPoolId
    rw [hclosed.pools, mem_hdrFramesOf]
    constructor
    · rintro ⟨hmem, hnot⟩
      exact ⟨hmem, fun hpool => hnot ⟨hpool, h.covered _ hmem⟩⟩
    · rintro ⟨hmem, hnot⟩
      exact ⟨hmem, fun hpool => hnot hpool.1⟩
  obtain ⟨hslots, hcnt⟩ := fileSlots_closeAll h.filed (by
    intro x hx hpool
    apply hleaves.2 x hx (mem_hdrFramesOf.mp hpool).1) hclose
  refine ⟨?_, hnodup.2.1, ?_, ?_, ?_, ?_⟩
  · apply Filed.disk
    refine ⟨hclosed.filed.sound, hclosed.filed.length_le, hclosed.filed.pageCnt_le, ?_, ?_⟩
    · intro bufferPoolId hmem
      obtain ⟨hopen, hpool⟩ := (hpools bufferPoolId).mp hmem
      apply hkept _ (h.filed.pools _ hopen) hpool
    · intro pageNum hlt page hslot
      rw [hcnt] at hlt
      rw [hslots] at hslot
      apply hkept _ (h.filed.slots pageNum hlt page hslot)
      apply hleaves.1 pageNum hlt page hslot
  · intro bufferPoolId hmem
    apply h.owned_lt _ (hknown _ hmem)
  · intro n
    change (manager.memory n).frameId.bufferPoolId < _
    rw [hclosed.frameId]
    apply h.numbered
  · intro bufferPoolId hmem
    obtain ⟨hopen, hpool⟩ := (hpools bufferPoolId).mp hmem
    obtain ⟨hdrFrame, hmem', rfl⟩ := List.mem_map.mp (h.covered _ hopen)
    apply List.mem_map.mpr
    refine ⟨hdrFrame, ?_, rfl⟩
    rw [List.mem_filter, decide_eq_true_eq]
    exact ⟨hmem', hpool⟩
  · intro _ bufferPoolId hmem
    apply (hpools bufferPoolId).mpr
    refine ⟨h.opened hrunning _ (hknown _ hmem), ?_⟩
    intro hpool
    apply hnodup.2.2 _ hpool _ hmem rfl

theorem Inv.shutdown (h : Inv db) {hdrFrames : List (Int × Nat)} {manager : BPFrameManager}
    (hclose : closeAll crc32 hdrFrames db.manager = some manager) :
  Inv { db with manager, running := false }
  := by
  have hclosed := Closes.closeAll h.filed hclose
  refine ⟨hclosed.filed, h.nodup, h.owned_lt, ?_, ?_, ?_⟩
  · intro n
    change (manager.memory n).frameId.bufferPoolId < _
    rw [hclosed.frameId]
    apply h.numbered
  · intro bufferPoolId hmem
    apply h.covered _ ((hclosed.pools bufferPoolId).mp hmem).1
  · intro hrunning
    contradiction

/-! ### Syncing -/

theorem diskBufferPool_sync {handler handler' : BplusTreeHandler} {s s' : BPFrameManager} {rc : RC}
    (hsync : handler.sync crc32 fuel s = some (rc, handler', s')) :
  handler'.diskBufferPool = handler.diskBufferPool
  := by
  rw [BplusTreeHandler.sync] at hsync
  split at hsync
  · split at hsync
    · obtain ⟨result, -, heq⟩ := Option.map_eq_some_iff.mp hsync
      cases heq
      rfl
    · obtain ⟨result, -, heq⟩ := Option.map_eq_some_iff.mp hsync
      cases heq
      rfl
    · contradiction
  · obtain ⟨result, -, heq⟩ := Option.map_eq_some_iff.mp hsync
    cases heq
    rfl

theorem diskBufferPools_syncIndexes {handlers handlers' : List BplusTreeHandler}
    {s s' : BPFrameManager} {rc : RC}
    (hsync : syncIndexes crc32 fuel handlers s = some (rc, handlers', s')) :
  handlers'.map BplusTreeHandler.diskBufferPool = handlers.map BplusTreeHandler.diskBufferPool
  := by
  induction handlers generalizing s handlers' with
  | nil =>
    cases hsync
    rfl
  | cons handler handlers ih =>
    rw [syncIndexes] at hsync
    split at hsync
    · rename_i handler₁ s₁ hindex
      obtain ⟨⟨rc', handlers₁, s₂⟩, hrest, heq⟩ := Option.map_eq_some_iff.mp hsync
      cases heq
      rw [List.map_cons, List.map_cons, diskBufferPool_sync hindex, ih hrest]
    · rename_i rc' handler₁ s₁ hne hindex
      cases hsync
      rw [List.map_cons, List.map_cons, diskBufferPool_sync hindex]
    · contradiction

theorem pools_syncTables {tables tables' : List Table} {s s' : BPFrameManager} {rc : RC}
    (hsync : syncTables crc32 fuel tables s = some (rc, tables', s')) :
  tables'.map Table.pools = tables.map Table.pools
  := by
  have htable : ∀ {table table' : Table} {s s' : BPFrameManager} {rc},
      table.sync crc32 fuel s = some (rc, table', s') → table'.pools = table.pools := by
    intro table table' s s' rc hsync
    rw [Table.sync] at hsync
    split at hsync
    · rename_i indexes s₁ hloop
      obtain ⟨result, -, heq⟩ := Option.map_eq_some_iff.mp hsync
      cases heq
      rw [Table.pools, Table.pools, diskBufferPools_syncIndexes hloop]
    · rename_i rc' indexes s₁ hne hloop
      cases hsync
      rw [Table.pools, Table.pools, diskBufferPools_syncIndexes hloop]
    · contradiction
  induction tables generalizing s tables' with
  | nil =>
    cases hsync
    rfl
  | cons table tables ih =>
    rw [syncTables] at hsync
    split at hsync
    · rename_i table₁ s₁ hfirst
      obtain ⟨⟨rc', tables₁, s₂⟩, hrest, heq⟩ := Option.map_eq_some_iff.mp hsync
      cases heq
      rw [List.map_cons, List.map_cons, htable hfirst, ih hrest]
    · rename_i rc' table₁ s₁ hne hfirst
      cases hsync
      rw [List.map_cons, List.map_cons, htable hfirst]
    · contradiction

/-- The tables and the indexes that are being created are replaced by others that have the same
pools. -/
theorem Inv.tables (h : Inv db) {tables : List Table} {building : List Int}
    (hpools : (building ++ tables.flatMap Table.pools).Perm db.knownPools)
    (checkPointLsn metaLsn : Int) :
  Inv { db with openedTables := tables, building, checkPointLsn, metaLsn }
  := by
  refine ⟨?_, hpools.nodup_iff.mpr h.nodup, ?_, h.numbered, h.covered, ?_⟩
  · apply h.filed.mono
    intro bufferPoolId howned
    exact hpools.mem_iff.mpr howned
  · intro bufferPoolId hmem
    exact h.owned_lt _ (hpools.mem_iff.mp hmem)
  · intro hrunning bufferPoolId hmem
    exact h.opened hrunning _ (hpools.mem_iff.mp hmem)

/-- An index has been created and is registered with its table. -/
theorem Inv.registerIndex (h : Inv db) {table : Table} {handler : BplusTreeHandler}
    (htable : table ∈ db.openedTables) (hbuilt : handler.diskBufferPool ∈ db.building) :
  Inv { db with
    openedTables := { table with indexes := table.indexes ++ [handler] }
      :: db.openedTables.erase table
    building := db.building.erase handler.diskBufferPool }
  := by
  refine h.tables ?_ db.checkPointLsn db.metaLsn
  have hpools : Table.pools { table with indexes := table.indexes ++ [handler] }
      = table.pools ++ [handler.diskBufferPool] := by
    simp [Table.pools]
  have hflat := (List.perm_cons_erase htable).flatMap_right Table.pools
  rw [List.flatMap_cons] at hflat
  rw [List.flatMap_cons, hpools, List.append_assoc, List.singleton_append]
  refine (List.perm_middle.append_left _).trans ?_
  refine List.perm_middle.trans ?_
  rw [knownPools, ← List.cons_append]
  exact (List.perm_cons_erase hbuilt).symm.append hflat.symm

theorem Inv.sync (h : Inv db) (hrunning : db.running = true) {currentLsn flushedLsn : Int}
    {renamed : Bool} {rc : RC} {db' : Db}
    (hsync : db.sync crc32 fuel currentLsn flushedLsn renamed = some (rc, db')) :
  Inv db'
  := by
  have hopen : ∀ table ∈ db.openedTables, ∀ bufferPoolId ∈ table.pools,
      bufferPoolId ∈ db.manager.storage.pools := by
    intro table htable bufferPoolId hmem
    apply h.opened hrunning
    exact List.mem_append_right _ (List.mem_flatMap.mpr ⟨table, htable, hmem⟩)
  have hstays : ∀ {rc tables manager},
      syncTables crc32 fuel db.openedTables db.manager = some (rc, tables, manager) →
      Stays (Filed (Owned db)) db.manager.storage.pools db.manager manager := by
    intro rc tables manager htables
    apply Stays.syncTables kept_filed h.filed hopen hopen htables
  have hinv : ∀ {rc tables manager},
      syncTables crc32 fuel db.openedTables db.manager = some (rc, tables, manager) →
      ∀ checkPointLsn metaLsn,
        Inv { db with openedTables := tables, manager, checkPointLsn, metaLsn } := by
    intro rc tables manager htables checkPointLsn metaLsn
    apply (h.stays (hstays htables) db.held).tables
    apply List.Perm.append_left
    rw [List.flatMap_def, pools_syncTables htables, ← List.flatMap_def]
  rw [Db.sync] at hsync
  split at hsync
  · contradiction
  · rename_i tables manager htables
    split at hsync
    · contradiction
    · rename_i rc' storage hflush
      have hsound := (hstays htables).storage.sound
      have hflushed : ∀ checkPointLsn metaLsn, Inv { db with
          openedTables := tables
          manager := { manager with storage }
          checkPointLsn
          metaLsn } := by
        intro checkPointLsn metaLsn
        rw [hsound.flushPage] at hflush
        cases hflush
        have hinv := hinv htables checkPointLsn metaLsn
        exact ⟨hinv.filed.flushed, hinv.nodup, hinv.owned_lt, hinv.numbered, hinv.covered,
          hinv.opened⟩
      simp only [waitLsn, flushMeta] at hsync
      by_cases hwait : currentLsn ≤ flushedLsn
      · rw [if_pos hwait] at hsync
        cases renamed with
        | true =>
          cases hsync
          apply hflushed
        | false =>
          cases hsync
          apply hflushed
      · rw [if_neg hwait] at hsync
        cases hsync
        apply hflushed
  · rename_i rc' tables manager hne htables
    cases hsync
    apply hinv htables

/-! ### Starting -/

theorem lt_nextAfter (hdrFrames : List (Int × Nat)) :
  1 ≤ nextAfter hdrFrames ∧ ∀ hdrFrame ∈ hdrFrames, hdrFrame.1 < nextAfter hdrFrames
  := by
  have hfold : ∀ next : Int,
      let result := hdrFrames.foldl
        (fun next hdrFrame => if next ≤ hdrFrame.1 then hdrFrame.1 + 1 else next) next
      next ≤ result ∧ ∀ hdrFrame ∈ hdrFrames, hdrFrame.1 < result := by
    induction hdrFrames with
    | nil =>
      intro next
      refine ⟨Int.le_refl _, ?_⟩
      intro hdrFrame hmem
      contradiction
    | cons hdrFrame hdrFrames ih =>
      intro next
      obtain ⟨hle, hlt⟩ := ih (if next ≤ hdrFrame.1 then hdrFrame.1 + 1 else next)
      rw [List.foldl_cons]
      refine ⟨?_, ?_⟩
      · refine Int.le_trans ?_ hle
        split <;> omega
      · intro hdrFrame' hmem
        rcases List.mem_cons.mp hmem with rfl | hmem
        · refine Int.lt_of_lt_of_le ?_ hle
          split <;> omega
        · apply hlt hdrFrame' hmem
  apply hfold 1

/-- The tables have been opened after the pages have been loaded. -/
theorem Inv.load (h : Inv db) (hregistered : Registered db) {manager manager' : BPFrameManager}
    {hdrFrames : List (Int × Nat)} {tables : List Table}
    (hload : db.load crc32 size = (.success, manager))
    (hopen : openAllTables crc32 fuel db.openedTables manager
      = some (.success, hdrFrames, tables, manager')) :
  Filed (· ∈ db.openedTables.flatMap Table.pools) manager'.storage
    ∧ Opens (db.openedTables.flatMap Table.pools) hdrFrames manager manager'
    ∧ tables.map Table.pools = db.openedTables.map Table.pools
    ∧ manager.storage.pools = [] ∧ ∀ n, manager.memory n = {}
  := by
  rw [Db.load] at hload
  cases hpages : Storage.loadPages crc32 { db.manager.storage with pools := [] } with
  | mk rc loaded =>
    rw [hpages] at hload
    cases hload
    obtain ⟨hopens, htables⟩ := Opens.openAllTables (fun _ => rfl) hopen
    have hnone : loaded.pools = [] := by
      rw [Storage.loadPages] at hpages
      obtain ⟨pages, rfl, -⟩ := loadLoop_cases (by exact List.nodup_nil) hpages
      rfl
    have hpools : ∀ bufferPoolId, bufferPoolId ∈ manager'.storage.pools
        ↔ bufferPoolId ∈ db.openedTables.flatMap Table.pools := by
      intro bufferPoolId
      rw [hopens.pools]
      change _ ∨ bufferPoolId ∈ loaded.pools ↔ _
      rw [hnone]
      simp
    have hslots : ∀ pageNum < db.manager.storage.filePageCnt, ∀ page,
        db.manager.storage.fileSlots pageNum = some page →
        page.key.bufferPoolId ∈ db.openedTables.flatMap Table.pools := by
      intro pageNum hlt page hslot
      exact (List.mem_append.mp (h.filed.slots pageNum hlt page hslot)).resolve_left
        (hregistered pageNum hlt page hslot)
    exact ⟨h.filed.load hslots hpages hopens.storage hpools, hopens, htables, hnone,
      fun _ => rfl⟩

/-- All pages that have been loaded belong to pools that have been opened. -/
theorem Inv.recovers (h : Inv db) (hregistered : Registered db) : Recovers crc32 size db := by
  intro fuel manager hdrFrames tables manager' hload hopen
  obtain ⟨hfiled, -⟩ := h.load hregistered hload hopen
  exact ⟨_, hfiled.sound.flushPage⟩

theorem Inv.start (h : Inv db) (hregistered : Registered db) {manager manager' : BPFrameManager}
    {hdrFrames : List (Int × Nat)} {tables : List Table} {storage : Storage}
    (hload : db.load crc32 size = (.success, manager))
    (hopen : openAllTables crc32 fuel db.openedTables manager
      = some (.success, hdrFrames, tables, manager'))
    (hrecover : manager'.storage.recover = some (.success, storage)) :
  Inv
    { manager := { manager' with storage }
      hdrFrames
      openedTables := tables
      nextBufferPoolId := nextAfter hdrFrames
      checkPointLsn := db.metaLsn
      metaLsn := db.metaLsn
      running := true }
  := by
  obtain ⟨hfiled, hopens, htables, hnone, hmemory⟩ := h.load hregistered hload hopen
  rw [Storage.recover, hfiled.sound.flushPage] at hrecover
  cases hrecover
  obtain ⟨hle, hlt⟩ := lt_nextAfter hdrFrames
  have hids : ∀ bufferPoolId ∈ db.openedTables.flatMap Table.pools,
      bufferPoolId < nextAfter hdrFrames := by
    intro bufferPoolId howned
    rw [← hopens.hdrFrames] at howned
    obtain ⟨hdrFrame, hmem, rfl⟩ := List.mem_map.mp howned
    apply hlt hdrFrame hmem
  have hpools : ∀ bufferPoolId, bufferPoolId ∈ manager'.storage.pools
      ↔ bufferPoolId ∈ db.openedTables.flatMap Table.pools := by
    intro bufferPoolId
    rw [hopens.pools, hnone]
    simp
  have hinv : Inv
      { manager := { manager' with storage := manager'.storage.flushed }
        hdrFrames
        openedTables := db.openedTables
        nextBufferPoolId := nextAfter hdrFrames
        running := true } := by
    refine ⟨hfiled.flushed, (List.nodup_append.mp h.nodup).2.1, hids, ?_, ?_, ?_⟩
    · intro n
      change (manager'.memory n).frameId.bufferPoolId < nextAfter hdrFrames
      rcases hopens.frameId n with heq | hmem
      · rw [heq, hmemory]
        change (-1 : Int) < _
        omega
      · apply hids _ hmem
    · intro bufferPoolId hmem
      rw [hopens.hdrFrames]
      apply (hpools bufferPoolId).mp hmem
    · intro _ bufferPoolId howned
      apply (hpools bufferPoolId).mpr howned
  apply hinv.tables
  rw [List.nil_append, List.flatMap_def, htables, ← List.flatMap_def]
  rfl

/-! ### Runs -/

theorem inv_empty (maxPages : Nat) : Inv (empty size maxPages) where
  filed := by
    refine ⟨⟨⟨List.nodup_nil, ?_⟩, rfl, rfl⟩, Nat.le_refl _, Nat.le_refl _, ?_, ?_⟩
    · intro page hpage
      contradiction
    · intro bufferPoolId hmem
      contradiction
    · intro pageNum hlt
      contradiction
  nodup := List.nodup_nil
  owned_lt := by
    intro bufferPoolId hmem
    contradiction
  numbered := by
    intro n
    change (-1 : Int) < 1
    decide
  covered := by
    intro bufferPoolId hmem
    contradiction
  opened := by
    intro hrunning
    contradiction

theorem inv_step {db' : Db} {e : Event} (h : Inv db) (hstep : Step crc32 size db e db')
    (horderly : Orderly db e) :
  Inv db'
  := by
  cases hstep with
  | createTable header fuel hrunning hopen =>
    apply h.create hopen
    exact List.perm_middle
  | createIndex header fuel hrunning htable hopen => apply h.create hopen (List.Perm.refl _)
  | registerIndex hrunning htable hbuilt => apply h.registerIndex htable hbuilt
  | write hrunning hclient =>
    apply h.stays (stays_client kept_filed (by exact h.filed) hclient)
  | allocatePage hdrFrame content fuel hrunning hheader hopen hextend =>
    have hmodified : Stays (Filed (Owned db)) db.manager.storage.pools db.manager
        (db.manager.modify hdrFrame content) := Stays.modify h.filed _ _
    apply h.stays (hmodified.trans (Stays.extendPage kept_filed hmodified.storage hopen
      (by exact hopen) hextend))
  | disposePage hdrFrame content hrunning hheader hget hfree =>
    rename_i key n manager manager'
    have hgot : Stays (Filed (Owned db)) db.manager.storage.pools db.manager manager :=
      Stays.getInternal h.filed hget
    have hfreed := hgot.trans (Stays.freeInternal hgot.storage hfree)
    apply h.stays (hfreed.trans (Stays.modify hfreed.storage hdrFrame content)) db.held
  | sync fuel hrunning hsync => apply h.sync hrunning hsync
  | dropTable hrunning htable hclose => apply h.dropTable htable horderly hrunning hclose
  | shutdown hrunning hclose => apply h.shutdown hclose
  | start fuel hload hopen hrecover => apply h.start horderly hload hopen hrecover

/-- In every run that drops no table that leaves a page behind, and stops only when there is no
page of an index that is not registered, the next start recovers. -/
theorem recovers_run {maxPages : Nat} {h : List (Db × Event)} {db : Db}
    (hrun : Run (Step crc32 size) (empty size maxPages) h db)
    (horderly : ∀ x ∈ h, Orderly x.1 x.2) (hregistered : Registered db) :
  Recovers crc32 size db
  := by
  have hinv : Inv db := by
    clear hregistered
    induction hrun with
    | refl => apply inv_empty
    | tail _ hlast ih =>
      obtain ⟨hevent, horderly⟩ := List.forall_mem_cons.mp horderly
      apply inv_step (ih horderly) hlast hevent
  apply hinv.recovers hregistered

/-- The frames after a file has been opened. -/
def afterOpen (result : Option (RC × Option Nat × BPFrameManager)) (s : BPFrameManager) :
    BPFrameManager :=
  (result.map fun result => result.2.2).getD s

/-- A database that has started, in a new directory. -/
def started : Db :=
  let manager := (Db.load (fun _ => 0) 8 (empty 8 16)).2
  { manager := { manager with storage := manager.storage.flushed }, running := true }

theorem step_started : Step (fun _ => 0) 8 (empty 8 16) .start started := .start 2 rfl rfl rfl

/-- A database with one table, whose buffer pool has the number 1. -/
def withTable : Db :=
  let created := (started.manager.createFile 1 ⟨0, 0, [1]⟩).2
  { started with
    manager := afterOpen (created.openFile (fun _ => 0) 2 1) started.manager
    hdrFrames := [(1, 0)]
    openedTables := [⟨1, []⟩]
    nextBufferPoolId := 2 }

theorem step_withTable : Step (fun _ => 0) 8 started .createTable withTable :=
  .createTable ⟨0, 0, [1]⟩ 2 rfl rfl

/-- A database with two tables. -/
def withTables : Db :=
  let created := (withTable.manager.createFile 2 ⟨0, 0, [2]⟩).2
  { withTable with
    manager := afterOpen (created.openFile (fun _ => 0) 2 2) withTable.manager
    hdrFrames := [(2, 1), (1, 0)]
    openedTables := [⟨2, []⟩, ⟨1, []⟩]
    nextBufferPoolId := 3 }

/-- The second table has got a page. -/
def withTablesAndPage : Db :=
  let extended := (withTables.manager.modify 1 (1, [2])).extendPage (fun _ => 0) 2 ⟨2, 1⟩
  { withTables with
    manager := (extended.map fun result => result.2).getD withTables.manager
    held := [(⟨2, 1⟩, 2)] }

/-- An index of the second table has got a file. -/
def withIndex : Db :=
  let created := (withTablesAndPage.manager.createFile 3 ⟨0, 0, [3]⟩).2
  { withTablesAndPage with
    manager := afterOpen (created.openFile (fun _ => 0) 2 3) withTablesAndPage.manager
    hdrFrames := [(3, 3), (2, 1), (1, 0)]
    building := [3]
    nextBufferPoolId := 4 }

/-- The index has got a page. -/
def withIndexPage : Db :=
  let extended := (withIndex.manager.modify 3 (1, [3])).extendPage (fun _ => 0) 2 ⟨3, 1⟩
  { withIndex with
    manager := (extended.map fun result => result.2).getD withIndex.manager
    held := [(⟨3, 1⟩, 4), (⟨2, 1⟩, 2)] }

/-- The index has been registered. -/
def indexRegistered : Db :=
  { withIndexPage with openedTables := [⟨2, [⟨3, [], true⟩]⟩, ⟨1, []⟩], building := [] }

/-- The first table has been dropped. -/
def firstDropped : Db :=
  let closed := closeAll (fun _ => 0) [(1, 0)] indexRegistered.manager
  { indexRegistered with
    manager := (closed.getD indexRegistered.manager).removeFiles [1]
    hdrFrames := [(3, 3), (2, 1)]
    openedTables := [⟨2, [⟨3, [], true⟩]⟩] }

theorem leavesNoPage_first : LeavesNoPage indexRegistered ⟨1, []⟩ := by
  have hcnt : indexRegistered.manager.storage.filePageCnt = 2 := rfl
  have hslot : ∀ pageNum < 2, (indexRegistered.manager.storage.fileSlots pageNum).all
      fun page => page.key.bufferPoolId ≠ 1 := by decide
  refine ⟨?_, by decide⟩
  intro pageNum hlt page hpage
  rw [hcnt] at hlt
  have hother := hslot pageNum hlt
  rw [hpage] at hother
  simpa [Table.pools] using hother

/-- A second table has got a page, and an index with a page, when the first one is dropped. -/
theorem recovers_run_two_tables :
  ∃ h, (Run (Step (fun _ => 0) 8) (empty 8 16) h firstDropped
      ∧ (∀ x ∈ h, Orderly x.1 x.2) ∧ Registered firstDropped)
    ∧ (∃ x ∈ h, x.2 = .dropTable ⟨1, []⟩) ∧ firstDropped.manager.storage.filePageCnt = 2
    ∧ Recovers (fun _ => 0) 8 firstDropped
  := by
  have h₁ : Step (fun _ => 0) 8 withTable .createTable withTables :=
    .createTable ⟨0, 0, [2]⟩ 2 rfl rfl
  have h₂ : Step (fun _ => 0) 8 withTables (.allocatePage ⟨2, 1⟩) withTablesAndPage :=
    .allocatePage 1 (1, [2]) 2 rfl (by decide) (by decide) rfl
  have h₃ : Step (fun _ => 0) 8 withTablesAndPage (.createIndex ⟨2, []⟩) withIndex :=
    .createIndex ⟨0, 0, [3]⟩ 2 rfl (by decide) rfl
  have h₄ : Step (fun _ => 0) 8 withIndex (.allocatePage ⟨3, 1⟩) withIndexPage :=
    .allocatePage 3 (1, [3]) 2 rfl (by decide) (by decide) rfl
  have h₅ : Step (fun _ => 0) 8 withIndexPage (.registerIndex ⟨2, []⟩ ⟨3, [], true⟩)
      indexRegistered := .registerIndex rfl (by decide) (by decide)
  have h₆ : Step (fun _ => 0) 8 indexRegistered (.dropTable ⟨1, []⟩) firstDropped :=
    .dropTable rfl (by decide) rfl
  have hrun := (((((((Run.refl.tail step_started).tail step_withTable).tail h₁).tail h₂).tail
    h₃).tail h₄).tail h₅).tail h₆
  have hregistered : Registered firstDropped := by
    intro pageNum _ page _ hmem
    contradiction
  have horderly : ∀ x ∈ [(indexRegistered, Event.dropTable ⟨1, []⟩),
      (withIndexPage, .registerIndex ⟨2, []⟩ ⟨3, [], true⟩), (withIndex, .allocatePage ⟨3, 1⟩),
      (withTablesAndPage, .createIndex ⟨2, []⟩), (withTables, .allocatePage ⟨2, 1⟩),
      (withTable, .createTable), (started, .createTable), (empty 8 16, .start)],
      Orderly x.1 x.2 := by
    intro x hx
    simp only [List.mem_cons, List.not_mem_nil, or_false] at hx
    rcases hx with rfl | rfl | rfl | rfl | rfl | rfl | rfl | rfl
    · exact leavesNoPage_first
    all_goals try trivial
    intro pageNum hlt
    contradiction
  exact ⟨_, ⟨hrun, horderly, hregistered⟩, ⟨_, List.mem_cons_self, rfl⟩, rfl,
    recovers_run hrun horderly hregistered⟩

/-- The table has got a page. -/
def withPage : Db :=
  let extended := (withTable.manager.modify 0 (1, [2])).extendPage (fun _ => 0) 2 ⟨1, 1⟩
  { withTable with
    manager := (extended.map fun result => result.2).getD withTable.manager
    held := [(⟨1, 1⟩, 1)] }

/-- The page has been given back. -/
def withPageUnpinned : Db := { withPage with manager := withPage.manager.unpin 1, held := [] }

/-- The table has been dropped. -/
def dropped : Db :=
  let closed := closeAll (fun _ => 0) [(1, 0)] withPageUnpinned.manager
  { withPageUnpinned with
    manager := (closed.getD withPageUnpinned.manager).removeFiles [1]
    hdrFrames := []
    openedTables := [] }

/-- The process stops where recovering aborts. -/
theorem not_recovers_of_abort (fuel : Nat) {manager manager' : BPFrameManager}
    {hdrFrames : List (Int × Nat)} {tables : List Table}
    (hload : db.load crc32 size = (.success, manager))
    (hopen : openAllTables crc32 fuel db.openedTables manager
      = some (.success, hdrFrames, tables, manager'))
    (habort : manager'.storage.recover = none) :
  ¬ Recovers crc32 size db
  := by
  intro hrecovers
  obtain ⟨storage, hrecover⟩ := hrecovers fuel manager hdrFrames tables manager' hload hopen
  rw [habort] at hrecover
  contradiction

/-- A table gets a page and is dropped. The page stays in the file of the double write buffer. -/
theorem not_recovers_dropped :
  (∃ h, Run (Step (fun _ => 0) 8) (empty 8 16) h dropped) ∧ dropped.openedTables = []
    ∧ ¬ Recovers (fun _ => 0) 8 dropped
  := by
  have h₁ : Step (fun _ => 0) 8 withTable (.allocatePage ⟨1, 1⟩) withPage :=
    .allocatePage 0 (1, [2]) 2 rfl (by decide) (by decide) rfl
  have h₂ : Step (fun _ => 0) 8 withPage (.write (.unpin ⟨1, 1⟩)) withPageUnpinned :=
    .write rfl (Client.Step.unpin (x := (⟨1, 1⟩, 1)) (List.mem_singleton_self _))
  have h₃ : Step (fun _ => 0) 8 withPageUnpinned (.dropTable ⟨1, []⟩) dropped :=
    .dropTable rfl (by decide) rfl
  have hrun := ((((Run.refl.tail step_started).tail step_withTable).tail h₁).tail h₂).tail h₃
  exact ⟨⟨_, hrun⟩, rfl, not_recovers_of_abort 2 rfl rfl rfl⟩

/-- An index of the table is being created. -/
def buildingIndex : Db :=
  let created := (withTable.manager.createFile 2 ⟨0, 0, [2]⟩).2
  { withTable with
    manager := afterOpen (created.openFile (fun _ => 0) 2 2) withTable.manager
    hdrFrames := [(2, 1), (1, 0)]
    building := [2]
    nextBufferPoolId := 3 }

/-- The index has got its first page. -/
def buildingPage : Db :=
  let extended := (buildingIndex.manager.modify 1 (1, [2])).extendPage (fun _ => 0) 2 ⟨2, 1⟩
  { buildingIndex with
    manager := (extended.map fun result => result.2).getD buildingIndex.manager
    held := [(⟨2, 1⟩, 2)] }

/-- The process stops before an index that has got a page is registered. No table was dropped. -/
theorem not_recovers_unregistered :
  (∃ h, Run (Step (fun _ => 0) 8) (empty 8 16) h buildingPage)
    ∧ ¬ Recovers (fun _ => 0) 8 buildingPage
  := by
  have h₁ : Step (fun _ => 0) 8 withTable (.createIndex ⟨1, []⟩) buildingIndex :=
    .createIndex ⟨0, 0, [2]⟩ 2 rfl (by decide) rfl
  have h₂ : Step (fun _ => 0) 8 buildingIndex (.allocatePage ⟨2, 1⟩) buildingPage :=
    .allocatePage 1 (1, [2]) 2 rfl (by decide) (by decide) rfl
  have hrun := (((Run.refl.tail step_started).tail step_withTable).tail h₁).tail h₂
  exact ⟨⟨_, hrun⟩, not_recovers_of_abort 2 rfl rfl rfl⟩

end Db

end MiniOB.Buffer
