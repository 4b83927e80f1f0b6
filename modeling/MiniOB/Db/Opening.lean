import MiniOB.Db.Stays

/-!
# Closing and opening buffer pools

A pool with no dirty page is closed without any write. When a process starts no page is dirty, so
that no frame is flushed while the tables are opened, and the double write buffer keeps the pages
that have been loaded.
-/

namespace MiniOB.Buffer

/-- No page is written: the frames that hold pages held them before, and no frame changes its
pool or becomes dirty. -/
structure Idle (s s' : BPFrameManager) : Prop where
  storage : s'.storage = s.storage
  frames : ∀ x ∈ s'.frames, x ∈ s.frames
  dirty : ∀ n, (s'.memory n).dirty = (s.memory n).dirty
  frameId : ∀ n, (s'.memory n).frameId.bufferPoolId = (s.memory n).frameId.bufferPoolId

/-- Pages of the pools `ids` are loaded, and none is written or dirty. -/
structure Loads (ids : List Int) (s s' : BPFrameManager) : Prop where
  storage : s'.storage = s.storage
  clean : ∀ n, (s'.memory n).dirty = false
  frameId : ∀ n, (s'.memory n).frameId.bufferPoolId = (s.memory n).frameId.bufferPoolId
    ∨ (s'.memory n).frameId.bufferPoolId ∈ ids

section

variable {crc32 : List UInt8 → UInt32} {ids ids' : List Int} {s s₁ s' : BPFrameManager} {rc : RC}
  {fuel n : Nat} {bufferPoolId : Int} {key : FrameId}

/-! ### Purging pages that are not dirty -/

theorem Idle.refl (s : BPFrameManager) : Idle s s :=
  ⟨rfl, fun _ => id, fun _ => rfl, fun _ => rfl⟩

theorem Idle.trans (h : Idle s s₁) (h' : Idle s₁ s') : Idle s s' where
  storage := h'.storage.trans h.storage
  frames := fun x hx => h.frames x (h'.frames x hx)
  dirty := fun n => (h'.dirty n).trans (h.dirty n)
  frameId := fun n => (h'.frameId n).trans (h.frameId n)

theorem Idle.setFrame {frame : Frame} (hdirty : frame.dirty = (s.memory n).dirty)
    (hframe : frame.frameId.bufferPoolId = (s.memory n).frameId.bufferPoolId) :
  Idle s (s.setFrame n frame)
  := by
  have hmemory : ∀ m, (s.setFrame n frame).memory m = if m = n then frame else s.memory m :=
    fun m => Function.update_apply _ _ _ _
  refine ⟨rfl, fun _ => id, ?_, ?_⟩
  · intro m
    rw [hmemory]
    split
    · rename_i heq
      rw [heq, hdirty]
    · rfl
  · intro m
    rw [hmemory]
    split
    · rename_i heq
      rw [heq, hframe]
    · rfl

theorem Idle.freeInternal (hfree : s.freeInternal key n = some s') : Idle s s' := by
  rw [BPFrameManager.freeInternal] at hfree
  split at hfree
  · split at hfree
    · cases hfree
      have hset : Idle s (s.setFrame n { s.memory n with
          frameId := { (s.memory n).frameId with pageNum := -1 }, pinCount := 0 }) :=
        Idle.setFrame rfl rfl
      refine ⟨rfl, ?_, hset.dirty, hset.frameId⟩
      intro x hx
      apply List.mem_of_mem_filter hx
    · contradiction
  · contradiction

theorem Idle.purgeFrame (hclean : (s.memory n).dirty = false)
    (hpurge : s.purgeFrame crc32 key n = some (rc, s')) :
  Idle s s'
  := by
  rw [BPFrameManager.purgeFrame, hclean] at hpurge
  split at hpurge
  · cases hpurge
    apply Idle.refl
  · obtain ⟨s₁, hfree, heq⟩ := Option.map_eq_some_iff.mp hpurge
    cases heq
    apply Idle.freeInternal hfree

theorem Idle.pins (frames : List (FrameId × Nat)) :
  Idle s (frames.foldl (fun s frame => s.pin frame.2) s)
  := by
  induction frames generalizing s with
  | nil => apply Idle.refl
  | cons x frames ih =>
    have hpin : Idle s (s.pin x.2) := Idle.setFrame rfl rfl
    apply hpin.trans ih

theorem Idle.purgeLoop {frames : List (FrameId × Nat)}
    (hclean : ∀ x ∈ frames, (s.memory x.2).dirty = false)
    (hpurge : BPFrameManager.purgeLoop crc32 bufferPoolId frames s = some s') :
  Idle s s'
  := by
  induction frames generalizing s with
  | nil =>
    cases hpurge
    apply Idle.refl
  | cons x frames ih =>
    obtain ⟨hx, hframes⟩ := List.forall_mem_cons.mp hclean
    rw [BPFrameManager.purgeLoop] at hpurge
    split at hpurge
    · rename_i rc' s₁ hframe
      have hidle := Idle.purgeFrame (by exact hx) hframe
      apply hidle.trans
      apply ih _ hpurge
      intro x' hx'
      rw [hidle.dirty]
      apply hframes x' hx'
    · contradiction

theorem Idle.purgeAllPages
    (hclean : ∀ x ∈ s.frames, x.1.bufferPoolId = bufferPoolId → (s.memory x.2).dirty = false)
    (hpurge : s.purgeAllPages crc32 bufferPoolId = some s') :
  Idle s s'
  := by
  have hpins : Idle s (s.findList bufferPoolId).2 := Idle.pins _
  apply hpins.trans
  apply Idle.purgeLoop _ hpurge
  intro x hx
  obtain ⟨hx, hpool⟩ := mem_findList.mp hx
  apply (hpins.dirty x.2).trans (hclean x hx hpool)

/-! ### Loading pages when no page is dirty -/

theorem Loads.refl (hclean : ∀ n, (s.memory n).dirty = false) : Loads ids s s :=
  ⟨rfl, hclean, fun _ => Or.inl rfl⟩

theorem Loads.trans (h : Loads ids s s₁) (h' : Loads ids s₁ s') : Loads ids s s' where
  storage := h'.storage.trans h.storage
  clean := h'.clean
  frameId := by
    intro n
    rcases h'.frameId n with heq | hmem
    · rw [heq]
      apply h.frameId
    · right
      apply hmem

theorem Idle.loads (h : Idle s s') (hclean : ∀ n, (s.memory n).dirty = false) :
  Loads ids s s'
  := by
  refine ⟨h.storage, ?_, fun n => Or.inl (h.frameId n)⟩
  intro n
  rw [h.dirty]
  apply hclean

theorem Loads.setFrame (hclean : ∀ n, (s.memory n).dirty = false) {frame : Frame}
    (hdirty : frame.dirty = false)
    (hframe : frame.frameId.bufferPoolId = (s.memory n).frameId.bufferPoolId
      ∨ frame.frameId.bufferPoolId ∈ ids) :
  Loads ids s (s.setFrame n frame)
  := by
  have hmemory : ∀ m, (s.setFrame n frame).memory m = if m = n then frame else s.memory m :=
    fun m => Function.update_apply _ _ _ _
  refine ⟨rfl, ?_, ?_⟩
  · intro m
    rw [hmemory]
    split
    · apply hdirty
    · apply hclean
  · intro m
    rw [hmemory]
    split
    · rename_i heq
      rw [heq]
      apply hframe
    · left
      rfl

theorem Loads.getInternal (hclean : ∀ n, (s.memory n).dirty = false)
    (hget : s.getInternal key = some (n, s')) :
  Loads ids s s'
  := by
  rw [BPFrameManager.getInternal] at hget
  split at hget
  · cases hget
    have hpin : Loads ids s (s.pin n) := Loads.setFrame hclean (hclean n) (Or.inl rfl)
    exact ⟨rfl, hpin.clean, hpin.frameId⟩
  · contradiction

theorem Loads.purgeFrames (hclean : ∀ n, (s.memory n).dirty = false)
    (hpurge : s.purgeFrames crc32 bufferPoolId = some s') :
  Loads ids s s'
  := by
  rw [BPFrameManager.purgeFrames] at hpurge
  split at hpurge
  · cases hpurge
    apply Loads.refl hclean
  · rename_i key n hfind
    have hpin : Idle s (s.pin n) := Idle.setFrame rfl rfl
    have hpurger : (s.pin n).purger crc32 bufferPoolId n = some (.success, s.pin n) := by
      rw [BPFrameManager.purger, if_pos]
      rw [hpin.dirty]
      apply hclean
    rw [hpurger] at hpurge
    apply (hpin.trans (Idle.freeInternal hpurge)).loads hclean

theorem Loads.alloc {result : Option Nat} (hclean : ∀ n, (s.memory n).dirty = false)
    (hkey : key.bufferPoolId ∈ ids) (halloc : s.alloc key = some (result, s')) :
  Loads ids s s'
  := by
  rw [BPFrameManager.alloc] at halloc
  split at halloc
  · rename_i n s₁ hget
    cases halloc
    apply Loads.getInternal hclean hget
  · split at halloc
    · cases halloc
      apply Loads.refl hclean
    · rename_i n frees hfrees
      split at halloc
      · cases halloc
        have hset : Loads ids s (s.setFrame n { s.memory n with frameId := key, pinCount := 1 }) :=
          Loads.setFrame hclean (hclean n) (Or.inr hkey)
        exact ⟨rfl, hset.clean, hset.frameId⟩
      · contradiction

theorem Loads.allocateFrame (hclean : ∀ n, (s.memory n).dirty = false)
    (hkey : key.bufferPoolId ∈ ids)
    (halloc : BPFrameManager.allocateFrame crc32 key fuel s = some (n, s')) :
  Loads ids s s'
  := by
  induction fuel generalizing s with
  | zero => contradiction
  | succ fuel ih =>
    rw [BPFrameManager.allocateFrame] at halloc
    split at halloc
    · rename_i n' s₁ hframe
      cases halloc
      apply Loads.alloc hclean hkey hframe
    · rename_i s₁ hframe
      have hloads : Loads ids s s₁ := Loads.alloc hclean hkey hframe
      split at halloc
      · rename_i s₂ hpurge
        have hpurged := hloads.trans (Loads.purgeFrames hloads.clean hpurge)
        apply hpurged.trans (ih hpurged.clean halloc)
      · contradiction
    · contradiction

theorem Loads.loadPage (hclean : ∀ n, (s.memory n).dirty = false)
    (hload : s.loadPage key n = some (rc, s')) :
  Loads ids s s'
  := by
  rw [BPFrameManager.loadPage] at hload
  split at hload
  · contradiction
  · cases hload
    exact Loads.setFrame hclean (hclean n) (Or.inl rfl)
  · split at hload
    · cases hload
      exact Loads.setFrame hclean (hclean n) (Or.inl rfl)
    · cases hload
      apply Loads.refl hclean

/-- Fetch a page into a frame that has been taken for it. -/
theorem Loads.fetch (hclean : ∀ n, (s.memory n).dirty = false) (hkey : key.bufferPoolId ∈ ids)
    (halloc : BPFrameManager.allocateFrame crc32 key fuel s = some (n, s₁))
    (hload : (s₁.setFrame n { s₁.memory n with
      frameId := { (s₁.memory n).frameId with bufferPoolId := key.bufferPoolId } }).loadPage key n
        = some (rc, s')) :
  Loads ids s s'
  := by
  have hframe : Loads ids s s₁ := Loads.allocateFrame hclean hkey halloc
  have hset : Loads ids s (s₁.setFrame n { s₁.memory n with
      frameId := { (s₁.memory n).frameId with bufferPoolId := key.bufferPoolId } }) :=
    hframe.trans (Loads.setFrame hframe.clean (hframe.clean n) (Or.inr hkey))
  apply hset.trans (Loads.loadPage hset.clean hload)

theorem Loads.getThisPage {result : Option Nat} (hclean : ∀ n, (s.memory n).dirty = false)
    (hkey : key.bufferPoolId ∈ ids)
    (hget : BPFrameManager.getThisPage crc32 fuel s key = some (rc, result, s')) :
  Loads ids s s'
  := by
  rw [BPFrameManager.getThisPage] at hget
  split at hget
  · rename_i n s₁ hinternal
    cases hget
    apply Loads.getInternal hclean hinternal
  · split at hget
    · contradiction
    · rename_i n s₁ halloc
      simp only at hget
      split at hget
      · rename_i s₂ hload
        cases hget
        apply Loads.fetch hclean hkey halloc hload
      · rename_i rc' s₂ hne hload
        obtain ⟨⟨rc₃, s₃⟩, hpurge, heq⟩ := Option.map_eq_some_iff.mp hget
        cases heq
        have hloaded := Loads.fetch hclean hkey halloc hload
        apply hloaded.trans
        apply (Idle.purgeFrame (hloaded.clean n) hpurge).loads hloaded.clean
      · contradiction

/-! ### Opening pools -/

/-- The pools `ids` are opened, with the header frames `hdrFrames`. -/
structure Opens (ids : List Int) (hdrFrames : List (Int × Nat)) (s s' : BPFrameManager) : Prop where
  storage : s'.storage = { s.storage with pools := s'.storage.pools }
  pools : ∀ bufferPoolId, bufferPoolId ∈ s'.storage.pools
    ↔ bufferPoolId ∈ ids ∨ bufferPoolId ∈ s.storage.pools
  clean : ∀ n, (s'.memory n).dirty = false
  frameId : ∀ n, (s'.memory n).frameId.bufferPoolId = (s.memory n).frameId.bufferPoolId
    ∨ (s'.memory n).frameId.bufferPoolId ∈ ids
  hdrFrames : hdrFrames.map Prod.fst = ids

variable {hdrFrames hdrFrames' : List (Int × Nat)}

theorem Opens.nil (hclean : ∀ n, (s.memory n).dirty = false) : Opens [] [] s s :=
  ⟨rfl, fun _ => by simp, hclean, fun _ => Or.inl rfl, rfl⟩

theorem Opens.append (h : Opens ids hdrFrames s s₁) (h' : Opens ids' hdrFrames' s₁ s') :
  Opens (ids ++ ids') (hdrFrames ++ hdrFrames') s s'
  where
  storage := by
    rw [h'.storage, h.storage]
  pools := by
    intro bufferPoolId
    rw [h'.pools, h.pools, List.mem_append]
    tauto
  clean := h'.clean
  frameId := by
    intro n
    rw [List.mem_append]
    rcases h'.frameId n with heq | hmem
    · rw [heq]
      rcases h.frameId n with heq | hmem
      · left
        apply heq
      · right
        left
        apply hmem
    · right
      right
      apply hmem
  hdrFrames := by rw [List.map_append, h.hdrFrames, h'.hdrFrames]

theorem Opens.loads (h : Opens ids hdrFrames s s₁) (h' : Loads ids s₁ s') :
  Opens ids hdrFrames s s'
  where
  storage := by
    rw [h'.storage]
    apply h.storage
  pools := by
    rw [h'.storage]
    apply h.pools
  clean := h'.clean
  frameId := by
    intro n
    rcases h'.frameId n with heq | hmem
    · rw [heq]
      apply h.frameId
    · right
      apply hmem
  hdrFrames := h.hdrFrames

theorem Opens.openFile (hclean : ∀ n, (s.memory n).dirty = false)
    (hopen : s.openFile crc32 fuel bufferPoolId = some (.success, some n, s')) :
  Opens [bufferPoolId] [(bufferPoolId, n)] s s'
  := by
  rw [BPFrameManager.openFile] at hopen
  simp only at hopen
  split at hopen
  · cases hopen
  · split at hopen
    · contradiction
    · rename_i n' s₁ halloc
      split at hopen
      · rename_i s₂ hload
        cases hopen
        have hloads : Loads [bufferPoolId] s s₂ :=
          Loads.fetch hclean (List.mem_singleton_self _) halloc hload
        refine ⟨?_, ?_, hloads.clean, hloads.frameId, rfl⟩
        · change { s₂.storage with pools := bufferPoolId :: s₂.storage.pools } = _
          rw [hloads.storage]
        · intro bufferPoolId'
          change bufferPoolId' ∈ bufferPoolId :: s₂.storage.pools ↔ _
          rw [hloads.storage, List.mem_cons, List.mem_singleton]
      · obtain ⟨⟨rc₃, s₃⟩, hpurge, heq⟩ := Option.map_eq_some_iff.mp hopen
        cases heq
      · contradiction

/-- Fetching a page succeeds with a frame. -/
theorem getThisPage_ne_none (s : BPFrameManager) (key : FrameId) (s' : BPFrameManager) :
  s.getThisPage crc32 fuel key ≠ some (.success, none, s')
  := by
  intro hget
  rw [BPFrameManager.getThisPage] at hget
  split at hget
  · cases hget
  · split at hget
    · contradiction
    · simp only at hget
      split at hget
      · cases hget
      · rename_i rc' s₂ hne hload
        obtain ⟨⟨rc₃, s₃⟩, hpurge, heq⟩ := Option.map_eq_some_iff.mp hget
        cases heq
        apply hne rfl
      · contradiction

/-- Opening a file succeeds with a header frame. -/
theorem openFile_ne_none (s : BPFrameManager) (bufferPoolId : Int) (s' : BPFrameManager) :
  s.openFile crc32 fuel bufferPoolId ≠ some (.success, none, s')
  := by
  intro hopen
  rw [BPFrameManager.openFile] at hopen
  simp only at hopen
  split at hopen
  · cases hopen
  · split at hopen
    · contradiction
    · split at hopen
      · cases hopen
      · rename_i rc' s₂ hne hload
        obtain ⟨⟨rc₃, s₃⟩, hpurge, heq⟩ := Option.map_eq_some_iff.mp hopen
        cases heq
        apply hne rfl
      · contradiction

theorem Opens.openIndex {handler : BplusTreeHandler} (hclean : ∀ n, (s.memory n).dirty = false)
    (hopen : BplusTreeHandler.open crc32 fuel bufferPoolId s
      = some (.success, hdrFrames, handler, s')) :
  Opens [bufferPoolId] hdrFrames s s' ∧ handler.diskBufferPool = bufferPoolId
  := by
  rw [BplusTreeHandler.open] at hopen
  split at hopen
  · rename_i hdrFrame s₁ hfile
    have hopened := Opens.openFile hclean hfile
    split at hopen
    · rename_i n s₂ hget
      cases hopen
      refine ⟨?_, rfl⟩
      have hfetched := hopened.loads
        (Loads.getThisPage hopened.clean (List.mem_singleton_self _) hget)
      apply hfetched.loads
      exact Loads.setFrame hfetched.clean (hfetched.clean n) (Or.inl rfl)
    · rename_i rc' result s₂ hne hget
      cases hopen
      cases result with
      | none => exact (getThisPage_ne_none _ _ _ hget).elim
      | some n => exact (hne n rfl rfl).elim
    · contradiction
  · rename_i rc' result s₁ hne hfile
    cases hopen
    cases result with
    | none => exact (openFile_ne_none _ _ _ hfile).elim
    | some n => exact (hne n rfl rfl).elim
  · contradiction

theorem Opens.openIndexes {handlers handlers' : List BplusTreeHandler}
    (hclean : ∀ n, (s.memory n).dirty = false)
    (hopen : openIndexes crc32 fuel handlers s = some (.success, hdrFrames, handlers', s')) :
  Opens (handlers.map BplusTreeHandler.diskBufferPool) hdrFrames s s'
    ∧ handlers'.map BplusTreeHandler.diskBufferPool = handlers.map BplusTreeHandler.diskBufferPool
  := by
  induction handlers generalizing s hdrFrames handlers' with
  | nil =>
    cases hopen
    exact ⟨Opens.nil hclean, rfl⟩
  | cons handler handlers ih =>
    rw [Buffer.openIndexes] at hopen
    split at hopen
    · rename_i hdrFrames₁ handler₁ s₁ hindex
      obtain ⟨⟨rc', hdrFrames₂, handlers₁, s₂⟩, hrest, heq⟩ := Option.map_eq_some_iff.mp hopen
      cases heq
      obtain ⟨hopened, hhandler⟩ := Opens.openIndex hclean hindex
      obtain ⟨hopened', hhandlers⟩ := ih hopened.clean hrest
      refine ⟨hopened.append hopened', ?_⟩
      rw [List.map_cons, List.map_cons, hhandler, hhandlers]
    · rename_i rc' hdrFrames₁ handler₁ s₁ hne hindex
      cases hopen
      contradiction
    · contradiction

theorem Opens.openTable {table table' : Table} (hclean : ∀ n, (s.memory n).dirty = false)
    (hopen : table.open crc32 fuel s = some (.success, hdrFrames, table', s')) :
  Opens table.pools hdrFrames s s' ∧ table'.pools = table.pools
  := by
  rw [Table.open] at hopen
  split at hopen
  · rename_i hdrFrame s₁ hfile
    obtain ⟨⟨rc', hdrFrames₁, indexes, s₂⟩, hindexes, heq⟩ := Option.map_eq_some_iff.mp hopen
    cases heq
    have hopened := Opens.openFile hclean hfile
    obtain ⟨hopened', hpools⟩ := Opens.openIndexes hopened.clean hindexes
    refine ⟨hopened.append hopened', ?_⟩
    rw [Table.pools, Table.pools, hpools]
  · rename_i rc' result s₁ hne hfile
    cases hopen
    cases result with
    | none => exact (openFile_ne_none _ _ _ hfile).elim
    | some n => exact (hne n rfl rfl).elim
  · contradiction

theorem Opens.openAllTables {tables tables' : List Table}
    (hclean : ∀ n, (s.memory n).dirty = false)
    (hopen : openAllTables crc32 fuel tables s = some (.success, hdrFrames, tables', s')) :
  Opens (tables.flatMap Table.pools) hdrFrames s s'
    ∧ tables'.map Table.pools = tables.map Table.pools
  := by
  induction tables generalizing s hdrFrames tables' with
  | nil =>
    cases hopen
    exact ⟨Opens.nil hclean, rfl⟩
  | cons table tables ih =>
    rw [Buffer.openAllTables] at hopen
    split at hopen
    · rename_i hdrFrames₁ table₁ s₁ htable
      obtain ⟨⟨rc', hdrFrames₂, tables₁, s₂⟩, hrest, heq⟩ := Option.map_eq_some_iff.mp hopen
      cases heq
      obtain ⟨hopened, hpools⟩ := Opens.openTable hclean htable
      obtain ⟨hopened', htables⟩ := ih hopened.clean hrest
      refine ⟨hopened.append hopened', ?_⟩
      rw [List.map_cons, List.map_cons, hpools, htables]
    · rename_i rc' hdrFrames₁ table₁ s₁ hne htable
      cases hopen
      contradiction
    · contradiction

end

end MiniOB.Buffer
