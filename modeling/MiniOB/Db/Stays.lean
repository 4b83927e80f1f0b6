import MiniOB.Buffer.Client
import MiniOB.Db.Db

/-!
# What the calls leave as it is

The calls on the frames add pages of open pools to the double write buffer, and do nothing else
to the storage. So they keep each property of the storage that is kept when such a page is added,
whatever the frames hold.
-/

namespace MiniOB.Buffer

/-- The storage keeps a property, the same pools are open, and a frame keeps the pool of its page
or gets one of `ids`. -/
structure Stays (P : Storage → Prop) (ids : List Int) (s s' : BPFrameManager) : Prop where
  storage : P s'.storage
  pools : s'.storage.pools = s.storage.pools
  frameId : ∀ n, (s'.memory n).frameId.bufferPoolId = (s.memory n).frameId.bufferPoolId
    ∨ (s'.memory n).frameId.bufferPoolId ∈ ids

section

variable {crc32 : List UInt8 → UInt32} {P : Storage → Prop} {ids : List Int}
  {s s₁ s' : BPFrameManager} {rc : RC} {fuel n : Nat} {bufferPoolId : Int} {key : FrameId}

theorem Stays.refl (h : P s.storage) : Stays P ids s s := ⟨h, rfl, fun _ => Or.inl rfl⟩

theorem Stays.trans (h : Stays P ids s s₁) (h' : Stays P ids s₁ s') : Stays P ids s s' where
  storage := h'.storage
  pools := h'.pools.trans h.pools
  frameId := by
    intro n
    rcases h'.frameId n with heq | hmem
    · rw [heq]
      apply h.frameId
    · right
      apply hmem

/-- One frame changes, and keeps the pool of its page or gets one of `ids`. -/
theorem Stays.setFrame (h : P s.storage) {frame : Frame}
    (hframe : frame.frameId.bufferPoolId = (s.memory n).frameId.bufferPoolId
      ∨ frame.frameId.bufferPoolId ∈ ids) :
  Stays P ids s (s.setFrame n frame)
  where
  storage := h
  pools := rfl
  frameId := by
    intro m
    change (Function.update s.memory n frame m).frameId.bufferPoolId = _
      ∨ (Function.update s.memory n frame m).frameId.bufferPoolId ∈ ids
    by_cases heq : m = n
    · rw [heq, Function.update_self]
      apply hframe
    · rw [Function.update_of_ne heq]
      left
      rfl

/-- The frames that hold pages, or the free ones, do not matter. -/
theorem Stays.frames (h : Stays P ids s s') (frames : List (FrameId × Nat)) (frees : List Nat) :
  Stays P ids s { s' with frames, frees }
  := ⟨h.storage, h.pools, h.frameId⟩

theorem Stays.pin (h : P s.storage) (n : Nat) : Stays P ids s (s.pin n) :=
  Stays.setFrame h (Or.inl rfl)

theorem Stays.unpin (h : P s.storage) (n : Nat) : Stays P ids s (s.unpin n) :=
  Stays.setFrame h (Or.inl rfl)

theorem Stays.modify (h : P s.storage) (n : Nat) (content : Int × List UInt8) :
  Stays P ids s (s.modify n content)
  := Stays.setFrame h (Or.inl rfl)

theorem Stays.freeInternal (h : P s.storage) (hfree : s.freeInternal key n = some s') :
  Stays P ids s s'
  := by
  rw [BPFrameManager.freeInternal] at hfree
  split at hfree
  · split at hfree
    · cases hfree
      have hset : Stays P ids s (s.setFrame n { s.memory n with
          frameId := { (s.memory n).frameId with pageNum := -1 }, pinCount := 0 }) :=
        Stays.setFrame h (Or.inl rfl)
      apply hset.frames
    · contradiction
  · contradiction

theorem Stays.getInternal (h : P s.storage) (hget : s.getInternal key = some (n, s')) :
  Stays P ids s s'
  := by
  rw [BPFrameManager.getInternal] at hget
  split at hget
  · cases hget
    refine (Stays.frames (Stays.refl h) ((key, n) :: s.frames.filter (·.1 ≠ key)) s.frees).trans ?_
    refine Stays.pin ?_ n
    apply h
  · contradiction

/-! ### Flushing and purging -/

section Kept

variable (hP : Kept P)
include hP

theorem Stays.flushPageInternal (h : P s.storage) (hopen : bufferPoolId ∈ s.storage.pools)
    (hflush : s.flushPageInternal crc32 bufferPoolId n = some (rc, s')) :
  Stays P ids s s'
  := by
  have hstorage : ∀ key page rc storage, key.bufferPoolId ∈ s.storage.pools →
      s.storage.addPage key page = some (rc, storage) → ∀ frame : Frame,
      frame.frameId = (s.memory n).frameId →
      Stays P ids s (BPFrameManager.setFrame { s with storage } n frame) := by
    intro key page rc storage hkey hadd frame hframe
    have hset : Stays P ids { s with storage } (BPFrameManager.setFrame { s with storage } n frame) :=
      Stays.setFrame (hP.addPage h hkey hadd) (Or.inl (by rw [hframe]))
    refine ⟨hset.storage, ?_, hset.frameId⟩
    apply ((hP.tidy h).addPage_cases hkey hadd).pools
  rw [BPFrameManager.flushPageInternal] at hflush
  split at hflush
  · rename_i storage hadd
    cases hflush
    apply hstorage _ _ _ storage (by exact hopen) hadd
    rfl
  · rename_i rc' storage hne hadd
    cases hflush
    apply hstorage _ _ _ storage (by exact hopen) hadd
    rfl
  · contradiction

/-- The pool itself is open, or no frame holds one of its pages. -/
theorem Stays.purger (h : P s.storage)
    (hopen : bufferPoolId ∈ s.storage.pools
      ∨ (s.memory n).frameId.bufferPoolId ≠ bufferPoolId)
    (hpurger : s.purger crc32 bufferPoolId n = some (rc, s')) :
  Stays P ids s s'
  := by
  rw [BPFrameManager.purger] at hpurger
  split at hpurger
  · cases hpurger
    apply Stays.refl h
  · split at hpurger
    · rename_i hpool
      rcases hopen with hopen | hne
      · apply Stays.flushPageInternal hP h hopen hpurger
      · contradiction
    · split at hpurger
      · rename_i hmem
        apply Stays.flushPageInternal hP h hmem hpurger
      · cases hpurger
        apply Stays.refl h

theorem Stays.purgeFrames (h : P s.storage)
    (hopen : bufferPoolId ∈ s.storage.pools
      ∨ ∀ n, (s.memory n).frameId.bufferPoolId ≠ bufferPoolId)
    (hpurge : s.purgeFrames crc32 bufferPoolId = some s') :
  Stays P ids s s'
  := by
  rw [BPFrameManager.purgeFrames] at hpurge
  split at hpurge
  · cases hpurge
    apply Stays.refl h
  · rename_i key n hfind
    have hpin : Stays P ids s (s.pin n) := Stays.pin h n
    have hopened : bufferPoolId ∈ (s.pin n).storage.pools
        ∨ ((s.pin n).memory n).frameId.bufferPoolId ≠ bufferPoolId := by
      rw [memory_pin_self]
      apply hopen.imp_right
      intro hne
      apply hne n
    split at hpurge
    · rename_i s₁ hpurger
      have hpurged := hpin.trans (Stays.purger hP hpin.storage hopened hpurger)
      apply hpurged.trans
      apply Stays.freeInternal hpurged.storage hpurge
    · rename_i rc' s₁ hne hpurger
      cases hpurge
      have hpurged := hpin.trans (Stays.purger hP hpin.storage hopened hpurger)
      apply hpurged.trans
      apply Stays.unpin hpurged.storage
    · contradiction

theorem Stays.purgeFrame (h : P s.storage) (hopen : key.bufferPoolId ∈ s.storage.pools)
    (hpurge : s.purgeFrame crc32 key n = some (rc, s')) :
  Stays P ids s s'
  := by
  rw [BPFrameManager.purgeFrame] at hpurge
  split at hpurge
  · cases hpurge
    apply Stays.refl h
  split at hpurge
  · split at hpurge
    · rename_i s₁ hflush
      obtain ⟨s₂, hfree, heq⟩ := Option.map_eq_some_iff.mp hpurge
      cases heq
      have hflushed : Stays P ids s s₁ := Stays.flushPageInternal hP h hopen hflush
      apply hflushed.trans
      apply Stays.freeInternal hflushed.storage hfree
    · apply Stays.flushPageInternal hP h hopen hpurge
  · obtain ⟨s₁, hfree, heq⟩ := Option.map_eq_some_iff.mp hpurge
    cases heq
    apply Stays.freeInternal h hfree

omit hP in
theorem Stays.pins (h : P s.storage) (frames : List (FrameId × Nat)) :
  Stays P ids s (frames.foldl (fun s frame => s.pin frame.2) s)
  := by
  induction frames generalizing s with
  | nil => apply Stays.refl h
  | cons x frames ih =>
    have hpin : Stays P ids s (s.pin x.2) := Stays.pin h x.2
    apply hpin.trans (ih hpin.storage)

theorem Stays.purgeLoop {frames : List (FrameId × Nat)} (h : P s.storage)
    (hopen : bufferPoolId ∈ s.storage.pools)
    (hpurge : BPFrameManager.purgeLoop crc32 bufferPoolId frames s = some s') :
  Stays P ids s s'
  := by
  induction frames generalizing s with
  | nil =>
    cases hpurge
    apply Stays.refl h
  | cons x frames ih =>
    rw [BPFrameManager.purgeLoop] at hpurge
    split at hpurge
    · rename_i rc' s₁ hframe
      have hpurged : Stays P ids s s₁ := Stays.purgeFrame hP h (by exact hopen) hframe
      apply hpurged.trans
      apply ih hpurged.storage _ hpurge
      rw [hpurged.pools]
      apply hopen
    · contradiction

theorem Stays.purgeAllPages (h : P s.storage) (hopen : bufferPoolId ∈ s.storage.pools)
    (hpurge : s.purgeAllPages crc32 bufferPoolId = some s') :
  Stays P ids s s'
  := by
  have hpins : Stays P ids s (s.findList bufferPoolId).2 := Stays.pins h _
  apply hpins.trans
  apply Stays.purgeLoop hP hpins.storage _ hpurge
  rw [hpins.pools]
  apply hopen

theorem Stays.flushAllLoop {frames : List (FrameId × Nat)} (h : P s.storage)
    (hopen : bufferPoolId ∈ s.storage.pools)
    (hflush : BPFrameManager.flushAllLoop crc32 bufferPoolId frames s = some (rc, s')) :
  Stays P ids s s'
  := by
  induction frames generalizing s with
  | nil =>
    cases hflush
    apply Stays.refl h
  | cons x frames ih =>
    rw [BPFrameManager.flushAllLoop] at hflush
    split at hflush
    · rename_i s₁ hframe
      have hflushed : Stays P ids s s₁ := Stays.flushPageInternal hP h hopen hframe
      have hunpin := hflushed.trans (Stays.unpin hflushed.storage x.2)
      apply hunpin.trans
      apply ih hunpin.storage _ hflush
      rw [hunpin.pools]
      apply hopen
    · rename_i rc' s₁ hne hframe
      cases hflush
      have hflushed : Stays P ids s s₁ := Stays.flushPageInternal hP h hopen hframe
      apply hflushed.trans
      apply Stays.unpin hflushed.storage
    · contradiction

theorem Stays.flushAllPages (h : P s.storage) (hopen : bufferPoolId ∈ s.storage.pools)
    (hflush : s.flushAllPages crc32 bufferPoolId = some (rc, s')) :
  Stays P ids s s'
  := by
  have hpins : Stays P ids s (s.findList bufferPoolId).2 := Stays.pins h _
  apply hpins.trans
  apply Stays.flushAllLoop hP hpins.storage _ hflush
  rw [hpins.pools]
  apply hopen

/-! ### Fetching and extending -/

omit hP in
theorem Stays.alloc {result : Option Nat} (h : P s.storage) (hkey : key.bufferPoolId ∈ ids)
    (halloc : s.alloc key = some (result, s')) :
  Stays P ids s s'
  := by
  rw [BPFrameManager.alloc] at halloc
  split at halloc
  · rename_i n s₁ hget
    cases halloc
    apply Stays.getInternal h hget
  · split at halloc
    · cases halloc
      apply Stays.refl h
    · rename_i n frees hfrees
      split at halloc
      · cases halloc
        have hset : Stays P ids s (s.setFrame n { s.memory n with frameId := key, pinCount := 1 }) :=
          Stays.setFrame h (Or.inr hkey)
        apply hset.frames
      · contradiction

theorem Stays.allocateFrame (h : P s.storage) (hkey : key.bufferPoolId ∈ ids)
    (hopen : key.bufferPoolId ∈ s.storage.pools
      ∨ ∀ n, (s.memory n).frameId.bufferPoolId ≠ key.bufferPoolId)
    (halloc : BPFrameManager.allocateFrame crc32 key fuel s = some (n, s')) :
  Stays P ids s s'
  := by
  induction fuel generalizing s with
  | zero => contradiction
  | succ fuel ih =>
    rw [BPFrameManager.allocateFrame] at halloc
    split at halloc
    · rename_i n' s₁ hframe
      cases halloc
      apply Stays.alloc h hkey hframe
    · rename_i s₁ hframe
      have hs₁ : s₁ = s := by
        rw [BPFrameManager.alloc] at hframe
        split at hframe
        · cases hframe
        · split at hframe
          · cases hframe
            rfl
          · split at hframe <;> cases hframe
      subst hs₁
      split at halloc
      · rename_i s₂ hpurge
        have hpurged : Stays P [] s₁ s₂ := Stays.purgeFrames hP h hopen hpurge
        have hsame : ∀ m, (s₂.memory m).frameId.bufferPoolId
            = (s₁.memory m).frameId.bufferPoolId := by
          intro m
          rcases hpurged.frameId m with heq | hmem
          · apply heq
          · contradiction
        have hrest := ih hpurged.storage (by
          rw [hpurged.pools]
          apply hopen.imp_right
          intro hne m
          rw [hsame]
          apply hne) halloc
        refine ⟨hrest.storage, hrest.pools.trans hpurged.pools, ?_⟩
        intro m
        rw [← hsame]
        apply hrest.frameId
      · contradiction
    · contradiction

omit hP in
theorem Stays.loadPage (h : P s.storage) (hload : s.loadPage key n = some (rc, s')) :
  Stays P ids s s'
  := by
  rw [BPFrameManager.loadPage] at hload
  split at hload
  · contradiction
  · cases hload
    exact Stays.setFrame h (Or.inl rfl)
  · split at hload
    · cases hload
      exact Stays.setFrame h (Or.inl rfl)
    · cases hload
      apply Stays.refl h

theorem Stays.getThisPage {result : Option Nat} (h : P s.storage) (hkey : key.bufferPoolId ∈ ids)
    (hopen : key.bufferPoolId ∈ s.storage.pools)
    (hget : BPFrameManager.getThisPage crc32 fuel s key = some (rc, result, s')) :
  Stays P ids s s'
  := by
  rw [BPFrameManager.getThisPage] at hget
  split at hget
  · rename_i n s₁ hinternal
    cases hget
    apply Stays.getInternal h hinternal
  · split at hget
    · contradiction
    · rename_i n s₁ halloc
      have hframe : Stays P ids s s₁ := Stays.allocateFrame hP h hkey (Or.inl hopen) halloc
      have hset : Stays P ids s (s₁.setFrame n { s₁.memory n with
          frameId := { (s₁.memory n).frameId with bufferPoolId := key.bufferPoolId } }) :=
        hframe.trans (Stays.setFrame hframe.storage (Or.inr hkey))
      simp only at hget
      split at hget
      · rename_i s₂ hload
        cases hget
        apply hset.trans (Stays.loadPage hset.storage hload)
      · rename_i rc' s₂ hne hload
        obtain ⟨⟨rc₃, s₃⟩, hpurge, heq⟩ := Option.map_eq_some_iff.mp hget
        cases heq
        have hloaded := hset.trans (Stays.loadPage hset.storage hload)
        apply hloaded.trans
        apply Stays.purgeFrame hP hloaded.storage _ hpurge
        rw [hloaded.pools]
        apply hopen
      · contradiction

theorem Stays.extendPage (h : P s.storage) (hkey : key.bufferPoolId ∈ ids)
    (hopen : key.bufferPoolId ∈ s.storage.pools)
    (hextend : BPFrameManager.extendPage crc32 fuel s key = some (n, s')) :
  Stays P ids s s'
  := by
  rw [BPFrameManager.extendPage] at hextend
  split at hextend
  · contradiction
  · rename_i n' s₁ halloc
    obtain ⟨⟨rc', s₂⟩, hflush, heq⟩ := Option.map_eq_some_iff.mp hextend
    cases heq
    have hframe : Stays P ids s s₁ := Stays.allocateFrame hP h hkey (Or.inl hopen) halloc
    have hset : Stays P ids s (s₁.setFrame n { s₁.memory n with frameId := key, page := zeroPage }) :=
      hframe.trans (Stays.setFrame hframe.storage (Or.inr hkey))
    apply hset.trans
    apply Stays.flushPageInternal hP hset.storage _ hflush
    rw [hset.pools]
    apply hopen

/-! ### Syncing -/

theorem Stays.syncIndex {handler handler' : BplusTreeHandler} (h : P s.storage)
    (hkey : handler.diskBufferPool ∈ ids) (hopen : handler.diskBufferPool ∈ s.storage.pools)
    (hsync : handler.sync crc32 fuel s = some (rc, handler', s')) :
  Stays P ids s s'
  := by
  have hflushed : ∀ {s₁ s' : BPFrameManager} {rc}, Stays P ids s s₁ →
      s₁.flushAllPages crc32 handler.diskBufferPool = some (rc, s') → Stays P ids s s' := by
    intro s₁ s' rc hs₁ hflush
    apply hs₁.trans
    apply Stays.flushAllPages hP hs₁.storage _ hflush
    rw [hs₁.pools]
    apply hopen
  rw [BplusTreeHandler.sync] at hsync
  split at hsync
  · split at hsync
    · rename_i n s₁ hget
      obtain ⟨⟨rc', s₂⟩, hflush, heq⟩ := Option.map_eq_some_iff.mp hsync
      cases heq
      have hfetched : Stays P ids s s₁ :=
        Stays.getThisPage hP h (by exact hkey) (by exact hopen) hget
      have hmodified := hfetched.trans (Stays.modify hfetched.storage n
        (putHeader handler.fileHeader (s₁.memory n).page.content))
      apply hflushed (hmodified.trans (Stays.unpin hmodified.storage n)) hflush
    · rename_i rc' result s₁ hne hget
      obtain ⟨⟨rc'', s₂⟩, hflush, heq⟩ := Option.map_eq_some_iff.mp hsync
      cases heq
      apply hflushed (Stays.getThisPage hP h (by exact hkey) (by exact hopen) hget) hflush
    · contradiction
  · obtain ⟨⟨rc', s₁⟩, hflush, heq⟩ := Option.map_eq_some_iff.mp hsync
    cases heq
    apply hflushed (Stays.refl h) hflush

theorem Stays.syncIndexes {handlers handlers' : List BplusTreeHandler} (h : P s.storage)
    (hkey : ∀ handler ∈ handlers, handler.diskBufferPool ∈ ids)
    (hopen : ∀ handler ∈ handlers, handler.diskBufferPool ∈ s.storage.pools)
    (hsync : syncIndexes crc32 fuel handlers s = some (rc, handlers', s')) :
  Stays P ids s s'
  := by
  induction handlers generalizing s handlers' with
  | nil =>
    cases hsync
    apply Stays.refl h
  | cons handler handlers ih =>
    obtain ⟨hkey₁, hkey⟩ := List.forall_mem_cons.mp hkey
    obtain ⟨hopen₁, hopen⟩ := List.forall_mem_cons.mp hopen
    rw [Buffer.syncIndexes] at hsync
    split at hsync
    · rename_i handler₁ s₁ hindex
      obtain ⟨⟨rc', handlers₁, s₂⟩, hrest, heq⟩ := Option.map_eq_some_iff.mp hsync
      cases heq
      have hsynced := Stays.syncIndex hP h hkey₁ hopen₁ hindex
      apply hsynced.trans
      apply ih hsynced.storage hkey _ hrest
      rw [hsynced.pools]
      apply hopen
    · rename_i rc' handler₁ s₁ hne hindex
      cases hsync
      apply Stays.syncIndex hP h hkey₁ hopen₁ hindex
    · contradiction

theorem Stays.syncTable {table table' : Table} (h : P s.storage)
    (hkey : ∀ bufferPoolId ∈ table.pools, bufferPoolId ∈ ids)
    (hopen : ∀ bufferPoolId ∈ table.pools, bufferPoolId ∈ s.storage.pools)
    (hsync : table.sync crc32 fuel s = some (rc, table', s')) :
  Stays P ids s s'
  := by
  have hindexes : ∀ handler ∈ table.indexes, handler.diskBufferPool ∈ table.pools := by
    intro handler hmem
    apply List.mem_cons_of_mem
    apply List.mem_map_of_mem hmem
  rw [Table.sync] at hsync
  split at hsync
  · rename_i indexes s₁ hloop
    obtain ⟨⟨rc', s₂⟩, hflush, heq⟩ := Option.map_eq_some_iff.mp hsync
    cases heq
    have hsynced := Stays.syncIndexes hP h (fun handler hmem => hkey _ (hindexes handler hmem))
      (fun handler hmem => hopen _ (hindexes handler hmem)) hloop
    apply hsynced.trans
    apply Stays.flushAllPages hP hsynced.storage _ hflush
    rw [hsynced.pools]
    apply hopen _ List.mem_cons_self
  · rename_i rc' indexes s₁ hne hloop
    cases hsync
    apply Stays.syncIndexes hP h (fun handler hmem => hkey _ (hindexes handler hmem))
      (fun handler hmem => hopen _ (hindexes handler hmem)) hloop
  · contradiction

theorem Stays.syncTables {tables tables' : List Table} (h : P s.storage)
    (hkey : ∀ table ∈ tables, ∀ bufferPoolId ∈ table.pools, bufferPoolId ∈ ids)
    (hopen : ∀ table ∈ tables, ∀ bufferPoolId ∈ table.pools, bufferPoolId ∈ s.storage.pools)
    (hsync : Db.syncTables crc32 fuel tables s = some (rc, tables', s')) :
  Stays P ids s s'
  := by
  induction tables generalizing s tables' with
  | nil =>
    cases hsync
    apply Stays.refl h
  | cons table tables ih =>
    obtain ⟨hkey₁, hkey⟩ := List.forall_mem_cons.mp hkey
    obtain ⟨hopen₁, hopen⟩ := List.forall_mem_cons.mp hopen
    rw [Db.syncTables] at hsync
    split at hsync
    · rename_i table₁ s₁ htable
      obtain ⟨⟨rc', tables₁, s₂⟩, hrest, heq⟩ := Option.map_eq_some_iff.mp hsync
      cases heq
      have hsynced := Stays.syncTable hP h hkey₁ hopen₁ htable
      apply hsynced.trans
      apply ih hsynced.storage hkey _ hrest
      rw [hsynced.pools]
      apply hopen
    · rename_i rc' table₁ s₁ hne htable
      cases hsync
      apply Stays.syncTable hP h hkey₁ hopen₁ htable
    · contradiction

end Kept

end

end MiniOB.Buffer
