import MiniOB.Buffer.Client
import MiniOB.Db.Db

/-!
# The check point of a sync

A sync flushes the pages of all tables to the double write buffer, and that buffer to the data
files. If both succeed, the data files have the newest content of every page, and no log entry up
to the check point is needed any more. The result of the second flush is not looked at.
-/

namespace MiniOB.Buffer

/-- The contents of the data files. -/
def Storage.fileContents (storage : Storage) : Contents :=
  fun key => (storage.disk key).map Page.content

/-- What a log entry has done to a page: a property of the content of the page. -/
structure PageEffect where
  lsn : Int
  key : FrameId
  shows : Int × List UInt8 → Prop

/-- The contents of the pages show an effect. -/
def Contents.Has (contents : Contents) (effect : PageEffect) : Prop :=
  ∃ content, contents effect.key = some content ∧ effect.shows content

/-- No page of the pool is dirty. -/
def CleanPool (bufferPoolId : Int) (s : BPFrameManager) : Prop :=
  ∀ x ∈ s.frames, x.1.bufferPoolId = bufferPoolId → (s.memory x.2).dirty = false

/-- The header page says what the handler says if the handler has changed it. -/
def HeaderWritten (newest : Contents) (handler : BplusTreeHandler) : Prop :=
  handler.headerDirty = true →
    ∀ content, newest ⟨handler.diskBufferPool, firstIndexPage⟩ = some content →
      putHeader handler.fileHeader content = content

/-- No call is under way: the newest contents of the pages show the effects of all log entries,
and every open pool belongs to a table. -/
structure Quiescent (newest : Contents) (effects : List PageEffect) (db : Db) : Prop where
  coherent : Coherent Storage.Tidy newest db.manager
  pools : ∀ bufferPoolId, bufferPoolId ∈ db.manager.storage.pools
    ↔ ∃ table ∈ db.openedTables, bufferPoolId ∈ table.pools
  headers : ∀ table ∈ db.openedTables, ∀ handler ∈ table.indexes, HeaderWritten newest handler
  effects : ∀ effect ∈ effects, effect.key.bufferPoolId ∈ db.manager.storage.pools →
    newest.Has effect

section

variable {crc32 : List UInt8 → UInt32} {P : Storage → Prop} {pools : List Int} {newest : Contents}
  {s s' : BPFrameManager} {held : List (FrameId × Nat)} {rc : RC} {fuel : Nat}
  {bufferPoolId : Int}

/-! ### Syncing the tables -/

theorem CleanPool.mono (h : CleanPool bufferPoolId s) (hcleaner : Cleaner s s') :
  CleanPool bufferPoolId s'
  := by
  intro x hx hpool
  by_contra hdirty
  obtain ⟨hx, hdirty⟩ := hcleaner x hx (by simpa using hdirty)
  rw [h x hx hpool] at hdirty
  contradiction

/-- The pools stay coherent, and if the sync succeeds, `bufferPoolIds` have no dirty page. -/
def Syncs (P : Storage → Prop) (pools : List Int) (newest : Contents)
    (held : List (FrameId × Nat)) (bufferPoolIds : List Int) (rc : RC) (s s' : BPFrameManager) :
    Prop :=
  Serves P pools newest held s' ∧
    (rc = .success → Cleaner s s' ∧ ∀ bufferPoolId ∈ bufferPoolIds, CleanPool bufferPoolId s')

theorem Syncs.append {s₁ : BPFrameManager} {ids ids' : List Int}
    (h : Syncs P pools newest held ids .success s s₁) (h' : Syncs P pools newest held ids' rc s₁ s') :
  Syncs P pools newest held (ids ++ ids') rc s s'
  := by
  refine ⟨h'.1, ?_⟩
  intro hrc
  obtain ⟨hcleaner, hclean⟩ := h.2 rfl
  obtain ⟨hcleaner', hclean'⟩ := h'.2 hrc
  refine ⟨hcleaner.trans hcleaner', ?_⟩
  intro bufferPoolId hmem
  rcases List.mem_append.mp hmem with hmem | hmem
  · apply (hclean bufferPoolId hmem).mono hcleaner'
  · apply hclean' bufferPoolId hmem

theorem Syncs.fail {ids ids' : List Int} (h : Syncs P pools newest held ids rc s s')
    (hrc : rc ≠ .success) :
  Syncs P pools newest held ids' rc s s'
  := ⟨h.1, fun hsuccess => absurd hsuccess hrc⟩

theorem Serves.flushAllPages_syncs (hP : Kept P) (h : Serves P pools newest held s)
    (hflush : s.flushAllPages crc32 bufferPoolId = some (rc, s')) :
  Syncs P pools newest held [bufferPoolId] rc s s'
  := by
  obtain ⟨hserves, hcleaner, hclean⟩ := h.flushAllPages hP hflush
  refine ⟨hserves, ?_⟩
  intro hrc
  refine ⟨hcleaner, ?_⟩
  intro bufferPoolId' hmem
  rw [List.mem_singleton] at hmem
  subst hmem
  apply hclean hrc

/-- Writing the header page once more does not change it. -/
theorem Serves.writeHeader {n : Nat} {handler : BplusTreeHandler}
    (h : Serves P pools newest ((⟨handler.diskBufferPool, firstIndexPage⟩, n) :: held) s)
    (hheader : HeaderWritten newest handler) (hdirty : handler.headerDirty = true) :
  Serves P pools newest held
    ((s.modify n (putHeader handler.fileHeader (s.memory n).page.content)).unpin n)
  := by
  have hcontent := h.coherent.content _ h.mem
  rw [hheader hdirty _ hcontent]
  have hmodified := Client.serves_modify h List.mem_cons_self (s.memory n).page.content
  rw [← hcontent, Function.update_eq_self] at hmodified
  apply hmodified.unpin

/-- Only the frame of the header page may be dirty now that was not before. -/
theorem dirty_writeHeader {n : Nat} {content : Int × List UInt8} {x : FrameId × Nat}
    (hne : x.2 ≠ n) (hx : x ∈ s.frames)
    (hdirty : (((s.modify n content).unpin n).memory x.2).dirty = true) :
  x ∈ s.frames ∧ (s.memory x.2).dirty = true
  := by
  refine ⟨hx, ?_⟩
  have hmemory : ((s.modify n content).unpin n).memory x.2 = s.memory x.2 := by
    apply (Function.update_of_ne hne _ _).trans
    apply Function.update_of_ne hne
  rw [← hmemory]
  apply hdirty

theorem Serves.syncIndex (hP : Kept P) (h : Serves P pools newest held s)
    {handler handler' : BplusTreeHandler} (hopen : handler.diskBufferPool ∈ pools)
    (hheader : HeaderWritten newest handler)
    (hsync : handler.sync crc32 fuel s = some (rc, handler', s')) :
  Syncs P pools newest held [handler.diskBufferPool] rc s s'
  := by
  rw [BplusTreeHandler.sync] at hsync
  split at hsync
  · rename_i hdirty
    split at hsync
    · rename_i n s₁ hget
      obtain ⟨⟨rc', s₂⟩, hflush, heq⟩ := Option.map_eq_some_iff.mp hsync
      cases heq
      obtain ⟨hcleaner, ⟨n', -, hn, hserves⟩ | ⟨-, hn, -⟩⟩ := h.getThisPage hP (by exact hopen) hget
      · cases hn
        obtain ⟨hserves', hsynced⟩ :=
          (hserves.writeHeader hheader hdirty).flushAllPages_syncs hP hflush
        refine ⟨hserves', ?_⟩
        intro hrc
        obtain ⟨hcleaner', hclean⟩ := hsynced hrc
        refine ⟨?_, hclean⟩
        intro x hx hx'
        obtain ⟨hx₁, hdirty₁⟩ := hcleaner' x hx hx'
        by_cases hne : x.2 = n
        · -- the header page belongs to the pool that has been flushed
          have heq := (hserves.coherent.inj (by exact hx₁) hserves.mem).mp hne
          rw [hclean _ (List.mem_singleton_self _) x hx (by rw [heq])] at hx'
          contradiction
        · obtain ⟨hx₁, hdirty₁⟩ := dirty_writeHeader hne (by exact hx₁) hdirty₁
          apply hcleaner x hx₁ hdirty₁
      · contradiction
    · rename_i rc' result s₁ hne hget
      obtain ⟨⟨rc'', s₂⟩, hflush, heq⟩ := Option.map_eq_some_iff.mp hsync
      cases heq
      obtain ⟨hcleaner, ⟨n', hrc, hn, hserves⟩ | ⟨-, -, -, hserves⟩⟩ :=
        h.getThisPage hP (by exact hopen) hget
      · cases hrc
        cases hn
        exact (hne n' rfl rfl).elim
      · have hfetched : Syncs P pools newest held [] .success s s₁ :=
          ⟨hserves, fun _ => ⟨hcleaner, fun _ hmem => by contradiction⟩⟩
        apply hfetched.append (hserves.flushAllPages_syncs hP hflush)
    · contradiction
  · obtain ⟨⟨rc', s₁⟩, hflush, heq⟩ := Option.map_eq_some_iff.mp hsync
    cases heq
    apply h.flushAllPages_syncs hP hflush

theorem Serves.syncs_nil (h : Serves P pools newest held s) :
  Syncs P pools newest held [] .success s s
  := ⟨h, fun _ => ⟨Cleaner.refl s, fun _ hmem => by contradiction⟩⟩

theorem Serves.syncIndexes (hP : Kept P) {handlers handlers' : List BplusTreeHandler}
    (h : Serves P pools newest held s)
    (hopen : ∀ handler ∈ handlers, handler.diskBufferPool ∈ pools)
    (hheaders : ∀ handler ∈ handlers, HeaderWritten newest handler)
    (hsync : syncIndexes crc32 fuel handlers s = some (rc, handlers', s')) :
  Syncs P pools newest held (handlers.map BplusTreeHandler.diskBufferPool) rc s s'
  := by
  induction handlers generalizing s handlers' with
  | nil =>
    cases hsync
    apply h.syncs_nil
  | cons handler handlers ih =>
    obtain ⟨hopen₁, hopen⟩ := List.forall_mem_cons.mp hopen
    obtain ⟨hheader, hheaders⟩ := List.forall_mem_cons.mp hheaders
    rw [Buffer.syncIndexes] at hsync
    split at hsync
    · rename_i handler₁ s₁ hindex
      obtain ⟨⟨rc', handlers₁, s₂⟩, hrest, heq⟩ := Option.map_eq_some_iff.mp hsync
      cases heq
      have hsyncs := h.syncIndex hP hopen₁ hheader hindex
      apply hsyncs.append (ih hsyncs.1 hopen hheaders hrest)
    · rename_i rc' handler₁ s₁ hne hindex
      cases hsync
      apply (h.syncIndex hP hopen₁ hheader hindex).fail
      rintro rfl
      contradiction
    · contradiction

theorem Serves.syncTable (hP : Kept P) {table table' : Table} (h : Serves P pools newest held s)
    (hopen : ∀ bufferPoolId ∈ table.pools, bufferPoolId ∈ pools)
    (hheaders : ∀ handler ∈ table.indexes, HeaderWritten newest handler)
    (hsync : table.sync crc32 fuel s = some (rc, table', s')) :
  Syncs P pools newest held table.pools rc s s'
  := by
  have hindexes : ∀ handler ∈ table.indexes, handler.diskBufferPool ∈ pools := by
    intro handler hmem
    apply hopen
    apply List.mem_cons_of_mem
    apply List.mem_map_of_mem hmem
  rw [Table.sync] at hsync
  split at hsync
  · rename_i indexes s₁ hloop
    obtain ⟨⟨rc', s₂⟩, hflush, heq⟩ := Option.map_eq_some_iff.mp hsync
    cases heq
    have hsyncs := h.syncIndexes hP hindexes hheaders hloop
    obtain ⟨hserves, hall⟩ := hsyncs.append (hsyncs.1.flushAllPages_syncs hP hflush)
    refine ⟨hserves, ?_⟩
    intro hrc
    obtain ⟨hcleaner, hclean⟩ := hall hrc
    refine ⟨hcleaner, ?_⟩
    intro bufferPoolId hmem
    apply hclean
    rw [Table.pools, List.mem_cons] at hmem
    rw [List.mem_append, List.mem_singleton]
    apply hmem.symm
  · rename_i rc' indexes s₁ hne hloop
    cases hsync
    apply (h.syncIndexes hP hindexes hheaders hloop).fail
    rintro rfl
    contradiction
  · contradiction

theorem Serves.syncTables (hP : Kept P) {tables tables' : List Table}
    (h : Serves P pools newest held s)
    (hopen : ∀ table ∈ tables, ∀ bufferPoolId ∈ table.pools, bufferPoolId ∈ pools)
    (hheaders : ∀ table ∈ tables, ∀ handler ∈ table.indexes, HeaderWritten newest handler)
    (hsync : Db.syncTables crc32 fuel tables s = some (rc, tables', s')) :
  Syncs P pools newest held (tables.flatMap Table.pools) rc s s'
  := by
  induction tables generalizing s tables' with
  | nil =>
    cases hsync
    apply h.syncs_nil
  | cons table tables ih =>
    obtain ⟨hopen₁, hopen⟩ := List.forall_mem_cons.mp hopen
    obtain ⟨hheaders₁, hheaders⟩ := List.forall_mem_cons.mp hheaders
    rw [Db.syncTables] at hsync
    split at hsync
    · rename_i table₁ s₁ htable
      obtain ⟨⟨rc', tables₁, s₂⟩, hrest, heq⟩ := Option.map_eq_some_iff.mp hsync
      cases heq
      have hsyncs := h.syncTable hP hopen₁ hheaders₁ htable
      rw [List.flatMap_cons]
      apply hsyncs.append (ih hsyncs.1 hopen hheaders hrest)
    · rename_i rc' table₁ s₁ hne htable
      cases hsync
      apply (h.syncTable hP hopen₁ hheaders₁ htable).fail
      rintro rfl
      contradiction
    · contradiction

end

section

variable {crc32 : List UInt8 → UInt32} {fuel : Nat} {currentLsn flushedLsn : Int} {renamed : Bool}
  {newest : Contents} {effects : List PageEffect} {db db' : Db} {rc : RC}

/-- A table or the double write buffer could not be flushed. -/
def FlushFails (crc32 : List UInt8 → UInt32) (fuel : Nat) (db : Db) : Prop :=
  ∃ rc tables manager, Db.syncTables crc32 fuel db.openedTables db.manager = some (rc, tables, manager)
    ∧ (rc ≠ .success ∨
      ∃ rc storage, manager.storage.flushPage = some (rc, storage) ∧ rc ≠ .success)

/-- If the sync persists a check point, the data files show all effects before it; if a flush
fails, the sync returns an error and the old check point stays. -/
structure SafeCheckPoint (crc32 : List UInt8 → UInt32) (fuel : Nat) (currentLsn : Int)
    (effects : List PageEffect) (db : Db) (rc : RC) (db' : Db) : Prop where
  persisted : rc = .success → db'.metaLsn = currentLsn ∧
    ∀ effect ∈ effects, effect.lsn < currentLsn →
      effect.key.bufferPoolId ∈ db'.manager.storage.pools →
      db'.manager.storage.fileContents.Has effect
  kept : rc ≠ .success → db'.metaLsn = db.metaLsn
  failed : FlushFails crc32 fuel db → rc ≠ .success ∧ db'.metaLsn = db.metaLsn

/-- If the tables can be flushed, and the log and the file of the database be written, the writes
of the double write buffer to the data files succeed. -/
def DrainSucceeds (crc32 : List UInt8 → UInt32) (fuel : Nat) (currentLsn flushedLsn : Int)
    (renamed : Bool) (db : Db) : Prop :=
  ∀ tables manager, Db.syncTables crc32 fuel db.openedTables db.manager
      = some (.success, tables, manager) →
    currentLsn ≤ flushedLsn → renamed = true →
    ∀ outcome ∈ manager.storage.outcomes.take manager.storage.dblwrPages.length, outcome = true

theorem Quiescent.serves (h : Quiescent newest effects db) :
  Serves Storage.Tidy db.manager.storage.pools newest [] db.manager
  := by
  refine ⟨h.coherent, ⟨?_, ?_⟩, rfl⟩
  · intro x hx
    contradiction
  · intro n
    apply Nat.zero_le

/-- Where no frame is dirty and the buffer is empty, the files have the newest contents. -/
theorem fileContents_eq {s : BPFrameManager} (h : Coherent Storage.Tidy newest s)
    (hclean : ∀ x ∈ s.frames, (s.memory x.2).dirty = false) {storage : Storage}
    (hflush : s.storage.flushPage = some (.success, storage)) :
  storage.fileContents = newest
  := by
  obtain ⟨-, himage, -⟩ := h.storage.flushPage_cases hflush
  have hpages := Storage.dblwrPages_of_flushPage hflush
  funext key
  have hnone : ∀ page ∈ storage.dblwrPages, page.key ≠ key := by
    rw [hpages]
    intro page hpage
    contradiction
  rw [Storage.fileContents, ← Storage.image_of_not_mem hnone, himage]
  change s.storage.contents key = newest key
  by_cases hframe : ∃ x ∈ s.frames, x.1 = key
  · obtain ⟨x, hx, rfl⟩ := hframe
    apply h.clean x hx (hclean x hx)
  · push Not at hframe
    apply h.below key hframe

/-- After all tables have been synced no frame is dirty. -/
theorem Quiescent.clean (h : Quiescent newest effects db) {tables : List Table}
    {manager : BPFrameManager}
    (hsync : Db.syncTables crc32 fuel db.openedTables db.manager = some (rc, tables, manager)) :
  Serves Storage.Tidy db.manager.storage.pools newest [] manager
    ∧ (rc = .success → ∀ x ∈ manager.frames, (manager.memory x.2).dirty = false)
  := by
  have hopen : ∀ table ∈ db.openedTables, ∀ bufferPoolId ∈ table.pools,
      bufferPoolId ∈ db.manager.storage.pools := by
    intro table htable bufferPoolId hmem
    rw [h.pools]
    exact ⟨table, htable, hmem⟩
  obtain ⟨hserves, hsynced⟩ := h.serves.syncTables kept_tidy hopen h.headers hsync
  refine ⟨hserves, ?_⟩
  intro hrc x hx
  obtain ⟨-, hclean⟩ := hsynced hrc
  apply hclean x.1.bufferPoolId _ x hx rfl
  have hopened := hserves.coherent.opened x hx
  rw [hserves.pools, h.pools] at hopened
  obtain ⟨table, htable, hmem⟩ := hopened
  rw [List.mem_flatMap]
  exact ⟨table, htable, hmem⟩

theorem sync_cases (hsync : Db.sync crc32 fuel currentLsn flushedLsn renamed db = some (rc, db')) :
  (∃ tables manager, Db.syncTables crc32 fuel db.openedTables db.manager = some (rc, tables, manager)
      ∧ rc ≠ .success ∧ db'.metaLsn = db.metaLsn)
    ∨ ∃ tables manager rc' storage,
      Db.syncTables crc32 fuel db.openedTables db.manager = some (.success, tables, manager)
        ∧ manager.storage.flushPage = some (rc', storage) ∧ db'.manager.storage = storage
        ∧ ((currentLsn ≤ flushedLsn ∧ renamed = true ∧ rc = .success ∧ db'.metaLsn = currentLsn)
          ∨ (¬ (currentLsn ≤ flushedLsn ∧ renamed = true) ∧ rc ≠ .success
            ∧ db'.metaLsn = db.metaLsn))
  := by
  rw [Db.sync] at hsync
  split at hsync
  · contradiction
  · rename_i tables manager htables
    right
    split at hsync
    · contradiction
    · rename_i rc' storage hflush
      simp only [Db.waitLsn, Db.flushMeta] at hsync
      by_cases hwait : currentLsn ≤ flushedLsn
      · rw [if_pos hwait] at hsync
        cases renamed with
        | true =>
          cases hsync
          refine ⟨tables, manager, rc', storage, htables, hflush, rfl, ?_⟩
          left
          exact ⟨hwait, rfl, rfl, rfl⟩
        | false =>
          cases hsync
          refine ⟨tables, manager, rc', storage, htables, hflush, rfl, ?_⟩
          right
          refine ⟨?_, ?_, rfl⟩
          · rintro ⟨-, hrenamed⟩
            contradiction
          · intro hrc
            contradiction
      · rw [if_neg hwait] at hsync
        cases hsync
        refine ⟨tables, manager, rc', storage, htables, hflush, rfl, ?_⟩
        right
        refine ⟨?_, ?_, rfl⟩
        · rintro ⟨hle, -⟩
          contradiction
        · intro hrc
          contradiction
  · rename_i rc' tables manager hne htables
    cases hsync
    left
    refine ⟨tables, manager, htables, ?_, rfl⟩
    rintro rfl
    contradiction

/-- A table with one page, whose frame is dirty. The log entry with the number 5 has written it. -/
def dirtyPage (outcomes : List Bool) : Db where
  manager := {
    storage := { pools := [1], disk := fun _ => some ⟨0, 0, [0]⟩, outcomes }
    frames := [(⟨1, 1⟩, 0)]
    frees := []
    memory := fun _ => ⟨⟨1, 1⟩, true, 0, ⟨5, 0, [7]⟩⟩ }
  openedTables := [⟨1, []⟩]

/-- What the log entry has done to the page. -/
def dirtyPageEffect : PageEffect := ⟨5, ⟨1, 1⟩, fun content => content = (5, [7])⟩

theorem quiescent_dirtyPage (outcomes : List Bool) :
  Quiescent (Function.update (fun _ => some (0, [0])) ⟨1, 1⟩ (some (5, [7]))) [dirtyPageEffect]
    (dirtyPage outcomes)
  where
  coherent := by
    constructor
    · refine ⟨List.nodup_nil, ?_⟩
      intro page hpage
      contradiction
    · apply List.nodup_singleton
    · apply List.nodup_singleton
    · intro x hx
      rw [List.mem_singleton.mp hx]
      rfl
    · intro x hx
      rw [List.mem_singleton.mp hx]
      apply List.mem_singleton_self
    · intro x hx
      rw [List.mem_singleton.mp hx]
      rfl
    · intro x hx hdirty
      contradiction
    · intro key hkey
      rw [Function.update_of_ne]
      · rfl
      · intro heq
        apply hkey _ (List.mem_singleton_self _) heq.symm
    · intro n hn
      contradiction
  pools := by
    intro bufferPoolId
    simp [dirtyPage, Table.pools]
  headers := by
    intro table htable handler hhandler
    rw [List.mem_singleton.mp htable] at hhandler
    contradiction
  effects := by
    intro effect heffect _
    rw [List.mem_singleton.mp heffect]
    exact ⟨(5, [7]), rfl, rfl⟩

/-- The check point of a sync is safe exactly if the double write buffer is drained whenever the
rest of the sync succeeds. -/
theorem safeCheckPoint_iff (h : Quiescent newest effects db)
    (hsync : Db.sync crc32 fuel currentLsn flushedLsn renamed db = some (rc, db')) :
  SafeCheckPoint crc32 fuel currentLsn effects db rc db'
    ↔ DrainSucceeds crc32 fuel currentLsn flushedLsn renamed db
  := by
  rcases sync_cases hsync with ⟨tables, manager, htables, hrc, hmeta⟩
    | ⟨tables, manager, rc', storage, htables, hflush, hstorage, hcases⟩
  · -- a table could not be flushed
    constructor
    · intro _ tables' manager' htables'
      rw [htables] at htables'
      cases htables'
      contradiction
    · intro _
      exact ⟨fun hsuccess => absurd hsuccess hrc, fun _ => hmeta, fun _ => ⟨hrc, hmeta⟩⟩
  · have hsuccess := Storage.flushPage_success_iff hflush
    have hfails : FlushFails crc32 fuel db ↔ rc' ≠ .success := by
      constructor
      · rintro ⟨rc₁, tables₁, manager₁, htables₁, hfail⟩
        rw [htables] at htables₁
        cases htables₁
        rcases hfail with hne | ⟨rc₂, storage₂, hflush₂, hne⟩
        · contradiction
        · rw [hflush] at hflush₂
          cases hflush₂
          apply hne
      · intro hne
        exact ⟨.success, tables, manager, htables, Or.inr ⟨rc', storage, hflush, hne⟩⟩
    rcases hcases with ⟨hwait, hrenamed, rfl, hmeta⟩ | ⟨hfail, hrc, hmeta⟩
    · -- the check point is persisted
      have hdrain : DrainSucceeds crc32 fuel currentLsn flushedLsn renamed db ↔ rc' = .success := by
        rw [hsuccess]
        constructor
        · intro hall
          apply hall tables manager htables hwait hrenamed
        · intro hall tables' manager' htables' _ _
          rw [htables] at htables'
          cases htables'
          apply hall
      rw [hdrain]
      constructor
      · intro hsafe
        by_contra hne
        exact (hsafe.failed (hfails.mpr hne)).1 rfl
      · rintro rfl
        obtain ⟨hserves, hclean⟩ := h.clean htables
        have hcontents := fileContents_eq hserves.coherent (hclean rfl) hflush
        have hpools : storage.pools = db.manager.storage.pools := by
          obtain ⟨-, -, hpools⟩ := hserves.coherent.storage.flushPage_cases hflush
          rw [hpools, hserves.pools]
        refine ⟨?_, ?_, ?_⟩
        · intro _
          refine ⟨hmeta, ?_⟩
          intro effect heffect _ hopen
          rw [hstorage, hcontents]
          apply h.effects effect heffect
          rw [← hpools, ← hstorage]
          apply hopen
        · intro hne
          contradiction
        · intro hfailed
          exact absurd rfl (hfails.mp hfailed)
    · -- the log or the file of the database could not be written
      constructor
      · intro _ _ _ _ hwait hrenamed
        exact absurd ⟨hwait, hrenamed⟩ hfail
      · intro _
        exact ⟨fun hsuccess => absurd hsuccess hrc, fun _ => hmeta, fun _ => ⟨hrc, hmeta⟩⟩

theorem safeCheckPoint_iff_dirtyPage :
  ∃ rc db', Db.sync (fun _ => 0) 2 7 7 true (dirtyPage []) = some (rc, db')
    ∧ DrainSucceeds (fun _ => 0) 2 7 7 true (dirtyPage [])
    ∧ SafeCheckPoint (fun _ => 0) 2 7 [dirtyPageEffect] (dirtyPage []) rc db'
  := by
  have hsync : ∃ rc db', Db.sync (fun _ => 0) 2 7 7 true (dirtyPage []) = some (rc, db') :=
    ⟨_, _, rfl⟩
  have htables : ∃ tables manager, Db.syncTables (fun _ => 0) 2 (dirtyPage []).openedTables
      (dirtyPage []).manager = some (.success, tables, manager) ∧ manager.storage.outcomes = [] :=
    ⟨_, _, rfl, rfl⟩
  obtain ⟨rc, db', hsync⟩ := hsync
  obtain ⟨tables, manager, htables, houtcomes⟩ := htables
  have hdrain : DrainSucceeds (fun _ => 0) 2 7 7 true (dirtyPage []) := by
    intro tables' manager' htables' _ _ outcome houtcome
    rw [htables] at htables'
    cases htables'
    rw [houtcomes] at houtcome
    simp at houtcome
  exact ⟨rc, db', hsync, hdrain, (safeCheckPoint_iff (quiescent_dirtyPage []) hsync).mpr hdrain⟩

/-- The write to the data file fails, and the sync moves the check point past the page. -/
theorem not_safeCheckPoint_dirtyPage :
  ∃ db', Db.sync (fun _ => 0) 2 7 7 true (dirtyPage [true, true, false]) = some (.success, db')
    ∧ db'.metaLsn = 7 ∧ db'.manager.storage.fileContents ⟨1, 1⟩ = some (0, [0])
    ∧ ¬ SafeCheckPoint (fun _ => 0) 2 7 [dirtyPageEffect] (dirtyPage [true, true, false])
      .success db'
  := by
  have hsync : ∃ db', Db.sync (fun _ => 0) 2 7 7 true (dirtyPage [true, true, false])
        = some (.success, db') ∧ db'.metaLsn = 7
      ∧ db'.manager.storage.fileContents ⟨1, 1⟩ = some (0, [0])
      ∧ db'.manager.storage.pools = [1] := ⟨_, rfl, rfl, rfl, rfl⟩
  obtain ⟨db', hsync, hmeta, hfile, hpools⟩ := hsync
  refine ⟨db', hsync, hmeta, hfile, ?_⟩
  intro hsafe
  obtain ⟨-, hhas⟩ := hsafe.persisted rfl
  have hopen : (1 : Int) ∈ db'.manager.storage.pools := by
    rw [hpools]
    apply List.mem_singleton_self
  obtain ⟨content, hcontent, hshows⟩ :=
    hhas dirtyPageEffect (List.mem_singleton_self _) (by decide) hopen
  change content = (5, [7]) at hshows
  subst hshows
  change db'.manager.storage.fileContents ⟨1, 1⟩ = _ at hcontent
  rw [hfile] at hcontent
  simp at hcontent

end

end MiniOB.Buffer
