import MiniOB.Buffer.Coherence

/-!
# Purging and fetching keep the pools coherent

Whatever is flushed, purged or fetched, and whether writes fail or not, frames and storage
agree with the newest contents of the pages, and nobody loses a frame he has pinned.
-/

namespace MiniOB.Buffer

/-- The pools are coherent, `pools` are open and the frames of `held` are pinned. -/
structure Serves (P : Storage → Prop) (pools : List Int) (newest : Contents)
    (held : List (FrameId × Nat)) (s : BPFrameManager) : Prop where
  coherent : Coherent P newest s
  holds : Holds held s
  pools : s.storage.pools = pools

variable {crc32 : List UInt8 → UInt32} {P : Storage → Prop} {pools : List Int} {newest : Contents}
  {s s' : BPFrameManager} {held : List (FrameId × Nat)} {x : FrameId × Nat} {key : FrameId}
  {n fuel : Nat} {rc : RC} {bufferPoolId : Int}

theorem Serves.mem (h : Serves P pools newest (x :: held) s) : x ∈ s.frames :=
  h.holds.mem x List.mem_cons_self

theorem Serves.tail (h : Serves P pools newest (x :: held) s) : Serves P pools newest held s :=
  ⟨h.coherent, h.holds.tail, h.pools⟩

theorem Serves.pin (h : Serves P pools newest held s) (hx : x ∈ s.frames) :
  Serves P pools newest (x :: held) (s.pin x.2)
  := ⟨h.coherent.pin hx, h.holds.pin hx, h.pools⟩

theorem Serves.unpin (h : Serves P pools newest (x :: held) s) :
  Serves P pools newest held (s.unpin x.2)
  := ⟨h.coherent.unpin h.mem, h.holds.unpin, h.pools⟩

theorem Serves.flush (hP : Kept P) (h : Serves P pools newest held s) (hx : x ∈ s.frames)
    (hflush : s.flushPageInternal crc32 x.1.bufferPoolId x.2 = some (rc, s')) :
  Serves P pools newest held s' ∧ Flushes x.2 rc s s'
  := by
  obtain ⟨hcoherent, hflushes⟩ := flushes_of_flushPageInternal hP h.coherent hx hflush
  refine ⟨⟨hcoherent, hflushes.holds h.holds, ?_⟩, hflushes⟩
  rw [hflushes.pools, h.pools]

theorem Serves.free (h : Serves P pools newest (x :: held) s)
    (hclean : (s.memory x.2).dirty = false) (hfree : s.freeInternal x.1 x.2 = some s') :
  Serves P pools newest held s' ∧ Cleaner s s'
  := by
  obtain ⟨hcoherent, hstorage, -, -, hcleaner, hholds⟩ :=
    freeInternal_cases h.coherent h.mem hclean hfree
  refine ⟨⟨hcoherent, hholds held h.holds, ?_⟩, hcleaner⟩
  rw [hstorage, h.pools]

/-! ### Purging -/

theorem Serves.purger (hP : Kept P) (h : Serves P pools newest held s) (hx : x ∈ s.frames)
    (hpurger : s.purger crc32 bufferPoolId x.2 = some (rc, s')) :
  Serves P pools newest held s' ∧ s'.frames = s.frames ∧ Cleaner s s'
    ∧ (rc = .success → (s'.memory x.2).dirty = false)
  := by
  have hframeId := h.coherent.frameId x hx
  have hflushed : s.flushPageInternal crc32 x.1.bufferPoolId x.2 = some (rc, s') →
      Serves P pools newest held s' ∧ s'.frames = s.frames ∧ Cleaner s s'
        ∧ (rc = .success → (s'.memory x.2).dirty = false) := by
    intro hflush
    obtain ⟨hserves, hflushes⟩ := h.flush hP hx hflush
    exact ⟨hserves, hflushes.frames, hflushes.cleaner, hflushes.dirty⟩
  rw [BPFrameManager.purger] at hpurger
  simp only [hframeId] at hpurger
  split at hpurger
  · rename_i hclean
    cases hpurger
    exact ⟨h, rfl, Cleaner.refl s, fun _ => hclean⟩
  · split at hpurger
    · rename_i hpool
      rw [← hpool] at hpurger
      apply hflushed hpurger
    · split at hpurger
      · apply hflushed hpurger
      · cases hpurger
        refine ⟨h, rfl, Cleaner.refl s, ?_⟩
        intro hrc
        contradiction

theorem find_flushed (hframes : s'.frames = s.frames) : s'.find key = s.find key := by
  rw [BPFrameManager.find, hframes, ← BPFrameManager.find]

/-- Purging takes frames away from pages, and gives none to a page. -/
theorem Serves.purgeFrames (hP : Kept P) (h : Serves P pools newest held s)
    (hpurge : s.purgeFrames crc32 bufferPoolId = some s') :
  Serves P pools newest held s' ∧ Cleaner s s'
    ∧ ∀ key, s.find key = none → s'.find key = none
  := by
  rw [BPFrameManager.purgeFrames] at hpurge
  split at hpurge
  · cases hpurge
    exact ⟨h, Cleaner.refl s, fun _ hkey => hkey⟩
  · rename_i key n hfind
    have hx : (key, n) ∈ s.frames := by
      rw [← List.mem_reverse]
      apply List.mem_of_find?_eq_some hfind
    have hpinned := h.pin hx
    have hpin := cleaner_pin s n
    split at hpurge
    · rename_i s₁ hpurger
      obtain ⟨hserves, hframes, hcleaner, hclean⟩ := hpinned.purger hP (by exact hx) hpurger
      rw [hserves.coherent.frameId (key, n) hserves.mem] at hpurge
      obtain ⟨hfreed, hfree⟩ := hserves.free (hclean rfl) hpurge
      refine ⟨hfreed, (hpin.trans hcleaner).trans hfree, ?_⟩
      intro key' hkey'
      obtain ⟨-, -, -, hnone, -⟩ :=
        freeInternal_cases hserves.coherent hserves.mem (hclean rfl) hpurge
      apply hnone
      rw [find_flushed hframes]
      apply hkey'
    · rename_i rc s₁ hne hpurger
      cases hpurge
      obtain ⟨hserves, hframes, hcleaner, -⟩ := hpinned.purger hP (by exact hx) hpurger
      refine ⟨hserves.unpin, (hpin.trans hcleaner).trans (cleaner_unpin s₁ n), ?_⟩
      intro key' hkey'
      have hfind : s₁.find key' = none := by
        rw [find_flushed hframes]
        apply hkey'
      apply hfind
    · contradiction

theorem Serves.purgeFrame (hP : Kept P) (h : Serves P pools newest (x :: held) s)
    (hpurge : s.purgeFrame crc32 x.1 x.2 = some (rc, s')) :
  Serves P pools newest held s'
  := by
  rw [BPFrameManager.purgeFrame] at hpurge
  split at hpurge
  · -- somebody else has pinned the frame
    cases hpurge
    apply h.tail
  split at hpurge
  · split at hpurge
    · rename_i s₁ hflush
      obtain ⟨hserves, hflushes⟩ := h.flush hP h.mem hflush
      obtain ⟨s₂, hfree, heq⟩ := Option.map_eq_some_iff.mp hpurge
      cases heq
      apply (hserves.free (hflushes.dirty rfl) hfree).1
    · obtain ⟨hserves, -⟩ := h.flush hP h.mem hpurge
      apply hserves.tail
  · rename_i hdirty
    obtain ⟨s₁, hfree, heq⟩ := Option.map_eq_some_iff.mp hpurge
    cases heq
    apply (h.free (by simpa using hdirty) hfree).1

/-! ### All pages of a pool -/

theorem mem_findList : x ∈ (s.findList bufferPoolId).1
    ↔ x ∈ s.frames ∧ x.1.bufferPoolId = bufferPoolId
  := by
  rw [BPFrameManager.findList, List.mem_filter, decide_eq_true_eq]

theorem Serves.pins {frames : List (FrameId × Nat)} (h : Serves P pools newest held s)
    (hframes : ∀ x ∈ frames, x ∈ s.frames) :
  Serves P pools newest (frames ++ held) (frames.foldl (fun s frame => s.pin frame.2) s)
  := by
  induction frames generalizing held s with
  | nil => apply h
  | cons x frames ih =>
    obtain ⟨hx, hframes⟩ := List.forall_mem_cons.mp hframes
    have hpins := ih (h.pin hx) hframes
    refine ⟨hpins.coherent, hpins.holds.perm ?_, hpins.pools⟩
    apply List.perm_middle.symm

theorem cleaner_pins (s : BPFrameManager) (frames : List (FrameId × Nat)) :
  let s' := frames.foldl (fun s frame => s.pin frame.2) s
  s'.frames = s.frames ∧ Cleaner s s'
  := by
  induction frames generalizing s with
  | nil => exact ⟨rfl, Cleaner.refl s⟩
  | cons x frames ih =>
    obtain ⟨hframes, hcleaner⟩ := ih (s.pin x.2)
    exact ⟨hframes, (cleaner_pin s x.2).trans hcleaner⟩

theorem Serves.findList (h : Serves P pools newest held s) (bufferPoolId : Int) :
  Serves P pools newest ((s.findList bufferPoolId).1 ++ held) (s.findList bufferPoolId).2
  := by
  apply h.pins
  intro x hx
  apply (mem_findList.mp hx).1

theorem Serves.purgeLoop (hP : Kept P) {frames : List (FrameId × Nat)}
    (h : Serves P pools newest (frames ++ held) s)
    (hpool : ∀ x ∈ frames, x.1.bufferPoolId = bufferPoolId)
    (hpurge : BPFrameManager.purgeLoop crc32 bufferPoolId frames s = some s') :
  Serves P pools newest held s'
  := by
  induction frames generalizing s with
  | nil =>
    cases hpurge
    apply h
  | cons x frames ih =>
    obtain ⟨hx, hpool⟩ := List.forall_mem_cons.mp hpool
    have hkey : (⟨bufferPoolId, (s.memory x.2).frameId.pageNum⟩ : FrameId) = x.1 := by
      rw [h.coherent.frameId x h.mem, ← hx]
    rw [BPFrameManager.purgeLoop, hkey] at hpurge
    split at hpurge
    · rename_i rc s₁ hframe
      have hserves := Serves.purgeFrame hP (by exact h) hframe
      apply ih hserves hpool hpurge
    · contradiction

theorem Serves.purgeAllPages (hP : Kept P) (h : Serves P pools newest held s)
    (hpurge : s.purgeAllPages crc32 bufferPoolId = some s') :
  Serves P pools newest held s'
  := by
  apply (h.findList bufferPoolId).purgeLoop hP _ hpurge
  intro x hx
  apply (mem_findList.mp hx).2

theorem Serves.flushAllLoop (hP : Kept P) {frames : List (FrameId × Nat)}
    (h : Serves P pools newest (frames ++ held) s)
    (hpool : ∀ x ∈ frames, x.1.bufferPoolId = bufferPoolId)
    (hflush : BPFrameManager.flushAllLoop crc32 bufferPoolId frames s = some (rc, s')) :
  Serves P pools newest held s' ∧ s'.frames = s.frames
    ∧ (∀ n, (s'.memory n).dirty = true → (s.memory n).dirty = true)
    ∧ (rc = .success → ∀ x ∈ frames, (s'.memory x.2).dirty = false)
  := by
  induction frames generalizing s with
  | nil =>
    cases hflush
    refine ⟨h, rfl, fun _ => id, ?_⟩
    intro _ x hx
    contradiction
  | cons x frames ih =>
    obtain ⟨rfl, hpool⟩ := List.forall_mem_cons.mp hpool
    have hdrop : ∀ {held' : List (FrameId × Nat)} {s}, Serves P pools newest (held' ++ held) s →
        Serves P pools newest held s := by
      intro held' s h
      induction held' with
      | nil => apply h
      | cons x held' ih => apply ih h.tail
    have hunpin : ∀ (s : BPFrameManager) n m, ((s.unpin n).memory m).dirty = (s.memory m).dirty := by
      intro s n m
      by_cases heq : m = n
      · rw [heq, memory_unpin_self]
      · apply congrArg Frame.dirty
        apply Function.update_of_ne heq
    rw [BPFrameManager.flushAllLoop] at hflush
    split at hflush
    · rename_i s₁ hframe
      obtain ⟨hserves, hflushes⟩ := h.flush hP h.mem hframe
      obtain ⟨hrest, hframes, hdirty, hclean⟩ := ih hserves.unpin hpool hflush
      refine ⟨hrest, hframes.trans hflushes.frames, ?_, ?_⟩
      · intro n hn
        apply hflushes.clean
        rw [← hunpin s₁ x.2]
        apply hdirty n hn
      · intro hrc x' hx'
        rcases List.mem_cons.mp hx' with rfl | hx'
        · by_contra hn
          have hn := hdirty x'.2 (by simpa using hn)
          rw [hunpin, hflushes.dirty rfl] at hn
          contradiction
        · apply hclean hrc x' hx'
    · rename_i rc' s₁ hne hframe
      cases hflush
      obtain ⟨hserves, hflushes⟩ := h.flush hP h.mem hframe
      refine ⟨hdrop hserves.unpin, hflushes.frames, ?_, ?_⟩
      · intro n
        rw [hunpin]
        apply hflushes.clean
      · rintro rfl
        contradiction
    · contradiction

theorem Serves.flushAllPages (hP : Kept P) (h : Serves P pools newest held s)
    (hflush : s.flushAllPages crc32 bufferPoolId = some (rc, s')) :
  Serves P pools newest held s' ∧ Cleaner s s'
    ∧ (rc = .success → ∀ x ∈ s'.frames, x.1.bufferPoolId = bufferPoolId →
      (s'.memory x.2).dirty = false)
  := by
  have hpool : ∀ x ∈ (s.findList bufferPoolId).1, x.1.bufferPoolId = bufferPoolId := by
    intro x hx
    apply (mem_findList.mp hx).2
  obtain ⟨hserves, hframes, hdirty, hclean⟩ :=
    (h.findList bufferPoolId).flushAllLoop hP hpool hflush
  obtain ⟨hsame, hcleaner⟩ := cleaner_pins s (s.findList bufferPoolId).1
  have hframes : s'.frames = s.frames := hframes.trans hsame
  refine ⟨hserves, ?_, ?_⟩
  · intro x hx hx'
    apply hcleaner x _ (hdirty x.2 hx')
    rw [hsame, ← hframes]
    apply hx
  · intro hrc x hx hx'
    apply hclean hrc x
    rw [mem_findList, ← hframes]
    exact ⟨hx, hx'⟩

/-! ### Fetching a page -/

/-- A free frame has been taken for a page, which has not been loaded yet. -/
def taken (s : BPFrameManager) (key : FrameId) (n : Nat) (frees : List Nat) : BPFrameManager :=
  { s with
    frames := (key, n) :: s.frames
    frees
    memory := Function.update s.memory n { s.memory n with frameId := key, pinCount := 1 } }

theorem alloc_cases {result : Option Nat} (hnew : s.find key = none)
    (halloc : s.alloc key = some (result, s')) :
  (∃ n frees, result = some n ∧ s.frees = n :: frees ∧ s' = taken s key n frees)
    ∨ (result = none ∧ s' = s)
  := by
  rw [BPFrameManager.alloc, BPFrameManager.getInternal, hnew] at halloc
  simp only at halloc
  split at halloc
  · cases halloc
    right
    exact ⟨rfl, rfl⟩
  · rename_i n frees hfrees
    split at halloc
    · cases halloc
      left
      exact ⟨n, frees, rfl, hfrees, rfl⟩
    · contradiction

theorem Serves.allocateFrame (hP : Kept P) (h : Serves P pools newest held s)
    (hnew : s.find key = none)
    (halloc : BPFrameManager.allocateFrame crc32 key fuel s = some (n, s')) :
  ∃ s₀ frees, Serves P pools newest held s₀ ∧ Cleaner s s₀ ∧ s₀.find key = none
    ∧ s₀.frees = n :: frees ∧ s' = taken s₀ key n frees
  := by
  induction fuel generalizing s with
  | zero => contradiction
  | succ fuel ih =>
    rw [BPFrameManager.allocateFrame] at halloc
    split at halloc
    · rename_i n' s₁ hframe
      cases halloc
      rcases alloc_cases hnew hframe with ⟨n', frees, heq, hfrees, htaken⟩ | ⟨hnone, -⟩
      · cases heq
        exact ⟨s, frees, h, Cleaner.refl s, hnew, hfrees, htaken⟩
      · contradiction
    · rename_i s₁ hframe
      rcases alloc_cases hnew hframe with ⟨n', frees, heq, -⟩ | ⟨-, rfl⟩
      · contradiction
      · split at halloc
        · rename_i s₂ hpurge
          obtain ⟨hserves, hcleaner, hnone⟩ := h.purgeFrames hP hpurge
          obtain ⟨s₀, frees, hserves₀, hcleaner₀, hrest⟩ := ih hserves (hnone key hnew) halloc
          exact ⟨s₀, frees, hserves₀, hcleaner.trans hcleaner₀, hrest⟩
        · contradiction
    · contradiction

theorem loadPage_cases (hframeId : (s.memory n).frameId = key)
    (hload : s.loadPage key n = some (rc, s')) :
  (∃ page, s.storage.image key = some page ∧ rc = .success
      ∧ s' = s.setFrame n { s.memory n with page })
    ∨ (s.storage.image key = none ∧ rc = .ioerrRead ∧ s' = s)
  := by
  have himage : s.storage.readPage key = none
      ∨ (∃ page, s.storage.image key = some page
          ∧ s.storage.readPage key = some (.success, some page))
      ∨ (s.storage.image key = s.storage.disk key
          ∧ s.storage.readPage key = some (.bufferpoolInvalidPageNum, none)) := by
    rw [Storage.readPage, Storage.image]
    split
    · left
      rfl
    · right
      cases s.storage.find key with
      | some page =>
        left
        exact ⟨page.page, rfl, rfl⟩
      | none =>
        right
        exact ⟨rfl, rfl⟩
  rw [BPFrameManager.loadPage] at hload
  rcases himage with hread | ⟨page, himage, hread⟩ | ⟨himage, hread⟩
  · rw [hread] at hload
    contradiction
  · rw [hread] at hload
    cases hload
    left
    exact ⟨page, himage, rfl, rfl⟩
  · rw [hread] at hload
    simp only at hload
    split at hload
    · rename_i page hdisk
      cases hload
      left
      refine ⟨page, by rw [himage, hdisk], rfl, ?_⟩
      subst hframeId
      rfl
    · rename_i hdisk
      cases hload
      right
      exact ⟨by rw [himage, hdisk], rfl, rfl⟩

theorem setFrame_taken (s : BPFrameManager) (key : FrameId) (n : Nat) (frees : List Nat)
    (frame : Frame) :
  (taken s key n frees).setFrame n frame
    = { s with frames := (key, n) :: s.frames, frees, memory := Function.update s.memory n frame }
  := by
  rw [BPFrameManager.setFrame, taken]
  simp only [Function.update_idem]

/-- The page has been loaded into the frame. -/
theorem Serves.load (h : Serves P pools newest held s) (hnew : s.find key = none)
    (hopen : key.bufferPoolId ∈ pools) {frees : List Nat} (hfrees : s.frees = n :: frees)
    {page : Page} (himage : s.storage.image key = some page) :
  let s' := taken s key n frees
  let s' := s'.setFrame n { s'.memory n with page }
  Serves P pools newest ((key, n) :: held) s' ∧ Cleaner s s'
  := by
  have hfree : n ∈ s.frees := by
    rw [hfrees]
    apply List.mem_cons_self
  let frame : Frame := { s.memory n with frameId := key, pinCount := 1, page }
  have hframe : (taken s key n frees).setFrame n { (taken s key n frees).memory n with page }
      = (taken s key n frees).setFrame n frame := by
    rw [show (taken s key n frees).memory n = { s.memory n with frameId := key, pinCount := 1 }
      from Function.update_self _ _ _]
  have hcontent : s.storage.contents key = some frame.page.content := by
    rw [Storage.contents, himage]
    rfl
  have hne : ∀ x ∈ held, x.2 ≠ n := fun x hx => h.coherent.ne_free (h.holds.mem x hx) hfree
  simp only
  rw [hframe, setFrame_taken]
  refine ⟨⟨?_, ⟨?_, ?_⟩, h.pools⟩, ?_⟩
  · apply h.coherent.take hfrees hnew _ rfl hcontent
    rw [h.pools]
    apply hopen
  · intro x hx
    rcases List.mem_cons.mp hx with rfl | hx
    · apply List.mem_cons_self
    · apply List.mem_cons_of_mem _ (h.holds.mem x hx)
  · intro m
    change _ ≤ (Function.update s.memory n frame m).pinCount
    rw [List.countP_cons]
    by_cases heq : m = n
    · subst heq
      have hzero : held.countP (·.2 = m) = 0 := by
        rw [List.countP_eq_zero]
        intro x hx
        simpa using hne x hx
      rw [Function.update_self, hzero, if_pos (by simp)]
    · rw [Function.update_of_ne heq, if_neg (by simpa using Ne.symm heq)]
      apply h.holds.pins
  · intro x hx hdirty
    change (Function.update s.memory n frame x.2).dirty = true at hdirty
    rcases List.mem_cons.mp hx with rfl | hx
    · rw [Function.update_self] at hdirty
      change (s.memory n).dirty = true at hdirty
      rw [(h.coherent.free n hfree).1] at hdirty
      contradiction
    · rw [Function.update_of_ne (h.coherent.ne_free hx hfree)] at hdirty
      exact ⟨hx, hdirty⟩

theorem purgeFrame_taken (hnew : s.find key = none) (hdirty : (s.memory n).dirty = false)
    (frees : List Nat) :
  (taken s key n frees).purgeFrame crc32 key n = some (.success, { s with
    frees := frees ++ [n]
    memory := Function.update s.memory n
      { s.memory n with frameId := ⟨key.bufferPoolId, -1⟩, pinCount := 0 } })
  := by
  have hself : (taken s key n frees).memory n
      = { s.memory n with frameId := key, pinCount := 1 } := Function.update_self _ _ _
  have hfind : (taken s key n frees).find key = some (key, n) := by
    rw [BPFrameManager.find, taken, List.find?_cons_of_pos]
    simp
  have hkeep : ((key, n) :: s.frames).filter (·.1 ≠ key) = s.frames := by
    rw [List.filter_cons_of_neg (by simp), List.filter_eq_self]
    intro x hx
    simpa using frames_find_eq_none.mp hnew x hx
  rw [BPFrameManager.purgeFrame, BPFrameManager.freeInternal, hfind]
  simp only [hself, hdirty, ne_eq, not_true_eq_false, if_false, and_self, if_true,
    Bool.false_eq_true, Option.map_some, Option.some_inj, Prod.mk.injEq, true_and]
  simp only [taken, Function.update_idem, BPFrameManager.mk.injEq, true_and, and_true]
  apply hkeep

/-- The frame of a page that could not be loaded is free again. -/
theorem Serves.discard (h : Serves P pools newest held s) (hnew : s.find key = none)
    {frees : List Nat} (hfrees : s.frees = n :: frees)
    (hpurge : (taken s key n frees).purgeFrame crc32 key n = some (rc, s')) :
  Serves P pools newest held s' ∧ Cleaner s s'
  := by
  have hfree : n ∈ s.frees := by
    rw [hfrees]
    apply List.mem_cons_self
  obtain ⟨hdirty, -⟩ := h.coherent.free n hfree
  rw [purgeFrame_taken hnew hdirty, Option.some_inj, Prod.mk.injEq] at hpurge
  obtain ⟨-, rfl⟩ := hpurge
  set frame : Frame := { s.memory n with frameId := ⟨key.bufferPoolId, -1⟩, pinCount := 0 }
  have hmemory : ∀ m ≠ n, Function.update s.memory n frame m = s.memory m :=
    fun m hm => Function.update_of_ne hm _ _
  refine ⟨⟨?_, ?_, h.pools⟩, ?_⟩
  · refine h.coherent.congr ?_ ?_ ?_ ?_ ?_
    · rfl
    · apply List.Perm.refl
    · change List.Perm (frees ++ [n]) _
      rw [hfrees]
      apply List.perm_append_singleton
    · intro x hx
      have heq := hmemory x.2 (h.coherent.ne_free hx hfree)
      exact ⟨congrArg Frame.frameId heq, congrArg Frame.dirty heq, congrArg Frame.page heq⟩
    · intro m hm
      change (Function.update s.memory n frame m).dirty = _ ∧
        (Function.update s.memory n frame m).pinCount = _
      by_cases heq : m = n
      · rw [heq, Function.update_self]
        exact ⟨hdirty, rfl⟩
      · rw [hmemory m heq]
        apply h.coherent.free m hm
  · apply h.holds.congr
    · intro x _ hx
      apply hx
    · intro x hx
      apply congrArg Frame.pinCount (hmemory x.2 _)
      apply h.coherent.ne_free (h.holds.mem x hx) hfree
  · intro x hx hdirty
    refine ⟨hx, ?_⟩
    rw [← hmemory x.2 (h.coherent.ne_free hx hfree)]
    apply hdirty

theorem Serves.getInternal (h : Serves P pools newest held s)
    (hget : s.getInternal key = some (n, s')) :
  Serves P pools newest ((key, n) :: held) s' ∧ Cleaner s s'
  := by
  rw [BPFrameManager.getInternal] at hget
  split at hget
  · rename_i key' m hfind
    cases hget
    obtain ⟨hx, rfl⟩ := mem_frames_of_find hfind
    have hperm := frames_perm h.coherent.keys hx
    have hserves : Serves P pools newest held
        { s with frames := (key', n) :: s.frames.filter (·.1 ≠ key') } := by
      refine ⟨?_, ?_, h.pools⟩
      · refine h.coherent.congr ?_ ?_ ?_ ?_ ?_
        · rfl
        · apply hperm.symm
        · apply List.Perm.refl
        · intro x _
          exact ⟨rfl, rfl, rfl⟩
        · apply h.coherent.free
      · apply h.holds.congr
        · intro x _ hx
          apply hperm.mem_iff.mp hx
        · intro x _
          rfl
    refine ⟨hserves.pin List.mem_cons_self, ?_⟩
    intro x hx hdirty
    obtain ⟨hx, hdirty⟩ := cleaner_pin _ n x hx hdirty
    exact ⟨hperm.mem_iff.mpr hx, hdirty⟩
  · contradiction

/-- The pool of the frame that is taken for a page is the pool of the page already. -/
theorem setFrameId_taken (s : BPFrameManager) (key : FrameId) (n : Nat) (frees : List Nat) :
  let s' := taken s key n frees
  s'.setFrame n { s'.memory n with
    frameId := { (s'.memory n).frameId with bufferPoolId := key.bufferPoolId } } = s'
  := by
  intro s'
  have hself : s'.memory n = { s.memory n with frameId := key, pinCount := 1 } :=
    Function.update_self _ _ _
  rw [hself]
  apply (setFrame_taken s key n frees _).trans
  rfl

theorem getInternal_eq_none (h : s.getInternal key = none) : s.find key = none := by
  rw [BPFrameManager.getInternal] at h
  split at h
  · contradiction
  · rename_i hfind
    apply hfind

/-- Fetching a page pins a frame with its newest content, or it fails and pins none. -/
theorem Serves.getThisPage (hP : Kept P) (h : Serves P pools newest held s)
    (hopen : key.bufferPoolId ∈ pools) {result : Option Nat}
    (hget : BPFrameManager.getThisPage crc32 fuel s key = some (rc, result, s')) :
  Cleaner s s'
    ∧ ((∃ n, rc = .success ∧ result = some n ∧ Serves P pools newest ((key, n) :: held) s')
      ∨ (rc = .ioerrRead ∧ result = none ∧ newest key = none ∧ Serves P pools newest held s'))
  := by
  rw [BPFrameManager.getThisPage] at hget
  split at hget
  · rename_i n s₁ hinternal
    cases hget
    obtain ⟨hserves, hcleaner⟩ := h.getInternal hinternal
    refine ⟨hcleaner, ?_⟩
    left
    exact ⟨n, rfl, rfl, hserves⟩
  · rename_i hinternal
    have hnew := getInternal_eq_none hinternal
    split at hget
    · contradiction
    · rename_i n s₁ halloc
      obtain ⟨s₀, frees, hserves, hcleaner, hnew, hfrees, rfl⟩ := h.allocateFrame hP hnew halloc
      have hself : (taken s₀ key n frees).memory n
          = { s₀.memory n with frameId := key, pinCount := 1 } := Function.update_self _ _ _
      simp only [setFrameId_taken] at hget
      have hframeId : ((taken s₀ key n frees).memory n).frameId = key := by rw [hself]
      split at hget
      · rename_i s₂ hload
        cases hget
        rcases loadPage_cases hframeId hload with ⟨page, himage, -, rfl⟩ | ⟨-, hrc, -⟩
        · obtain ⟨hloaded, hload⟩ := hserves.load hnew hopen hfrees himage
          refine ⟨hcleaner.trans hload, ?_⟩
          left
          exact ⟨n, rfl, rfl, hloaded⟩
        · contradiction
      · rename_i rc' s₂ hne hload
        obtain ⟨⟨rc₃, s₃⟩, hpurge, heq⟩ := Option.map_eq_some_iff.mp hget
        cases heq
        rcases loadPage_cases hframeId hload with ⟨page, -, hrc, -⟩ | ⟨himage, hrc, rfl⟩
        · contradiction
        · obtain ⟨hdiscarded, hdiscard⟩ := hserves.discard hnew hfrees hpurge
          refine ⟨hcleaner.trans hdiscard, ?_⟩
          right
          refine ⟨hrc, rfl, ?_, hdiscarded⟩
          rw [← hserves.coherent.below key (frames_find_eq_none.mp hnew), Storage.contents]
          rw [show s₀.storage.image key = none from himage]
          rfl
      · contradiction

/-! ### Fetching succeeds -/

section Sound

variable (crc32) (h : Serves Storage.Sound pools newest held s)
include h

theorem Serves.flush_success (hx : x ∈ s.frames) :
  ∃ s', s.flushPageInternal crc32 x.1.bufferPoolId x.2 = some (.success, s')
  := by
  have hkey : ⟨x.1.bufferPoolId, (s.memory x.2).frameId.pageNum⟩ = x.1 := by
    rw [h.coherent.frameId x hx]
  rw [BPFrameManager.flushPageInternal, hkey, h.coherent.storage.addPage (h.coherent.opened x hx)]
  exact ⟨_, rfl⟩

theorem Serves.purger_success (hx : x ∈ s.frames) (bufferPoolId : Int) :
  ∃ s', s.purger crc32 bufferPoolId x.2 = some (.success, s')
    ∧ (s'.memory x.2).pinCount = (s.memory x.2).pinCount
  := by
  obtain ⟨s', hflush⟩ := h.flush_success crc32 hx
  obtain ⟨-, hflushes⟩ := h.flush kept_sound hx hflush
  have hopen := h.coherent.opened x hx
  rw [BPFrameManager.purger, h.coherent.frameId x hx]
  split
  · exact ⟨s, rfl, rfl⟩
  · split
    · rename_i hpool
      rw [← hpool, hflush]
      exact ⟨s', rfl, hflushes.pinCount x.2⟩
    · rw [hflush]
      exact ⟨s', rfl, hflushes.pinCount x.2⟩

/-- A frame that nobody has pinned is freed. -/
theorem Serves.purgeFrames_room (hunpinned : ∃ x ∈ s.frames, (s.memory x.2).pinCount = 0)
    (bufferPoolId : Int) :
  ∃ s', s.purgeFrames crc32 bufferPoolId = some s' ∧ s'.frees ≠ []
  := by
  obtain ⟨x₀, hx₀, hpin₀⟩ := hunpinned
  have hsome : (s.frames.reverse.find? fun frame => (s.memory frame.2).pinCount = 0).isSome := by
    rw [List.find?_isSome]
    exact ⟨x₀, List.mem_reverse.mpr hx₀, by simpa using hpin₀⟩
  obtain ⟨x, hfind⟩ := Option.isSome_iff_exists.mp hsome
  have hx : x ∈ s.frames := by
    rw [← List.mem_reverse]
    apply List.mem_of_find?_eq_some hfind
  have hpin : (s.memory x.2).pinCount = 0 := by simpa using List.find?_some hfind
  have hpinned := h.pin hx
  obtain ⟨s₁, hpurger, hpins⟩ := hpinned.purger_success crc32 (by exact hx) bufferPoolId
  obtain ⟨hserves, -⟩ := hpinned.purger kept_sound (by exact hx) hpurger
  rw [memory_pin_self, hpin] at hpins
  rw [BPFrameManager.purgeFrames, hfind]
  simp only [hpurger, hserves.coherent.frameId x hserves.mem]
  rw [BPFrameManager.freeInternal, hserves.coherent.find hserves.mem]
  simp only [hpins, and_self, if_true]
  refine ⟨_, rfl, ?_⟩
  simp

omit h in
theorem alloc_success (hP : Coherent P newest s) (hnew : s.find key = none) (hfrees : s.frees ≠ []) :
  ∃ n s', s.alloc key = some (some n, s')
  := by
  obtain ⟨n, frees, heq⟩ := List.exists_cons_of_ne_nil hfrees
  have hfree := hP.free n (by rw [heq]; apply List.mem_cons_self)
  rw [BPFrameManager.alloc, BPFrameManager.getInternal, hnew, heq]
  simp only [hfree.2, if_true]
  exact ⟨n, _, rfl⟩

/-- Some frame holds no page, or one that nobody has pinned. -/
def Room (s : BPFrameManager) : Prop :=
  (s.frames.countP fun x => (s.memory x.2).pinCount ≠ 0) + 1 ≤ s.frames.length + s.frees.length

theorem Serves.allocateFrame_success (hroom : Room s) (hnew : s.find key = none)
    (hfuel : 2 ≤ fuel) :
  ∃ n s', BPFrameManager.allocateFrame crc32 key fuel s = some (n, s')
  := by
  obtain ⟨fuel, rfl⟩ := Nat.exists_eq_add_of_le' hfuel
  rw [BPFrameManager.allocateFrame]
  by_cases hfrees : s.frees = []
  · have hunpinned : ∃ x ∈ s.frames, (s.memory x.2).pinCount = 0 := by
      by_contra hall
      push Not at hall
      have hcount : (s.frames.countP fun x => (s.memory x.2).pinCount ≠ 0) = s.frames.length := by
        rw [List.countP_eq_length]
        intro x hx
        simpa using hall x hx
      rw [Room, hcount, hfrees, List.length_nil] at hroom
      omega
    have halloc : s.alloc key = some (none, s) := by
      rw [BPFrameManager.alloc, BPFrameManager.getInternal, hnew, hfrees]
    obtain ⟨s₁, hpurge, hfrees₁⟩ :=
      h.purgeFrames_room crc32 hunpinned key.bufferPoolId
    obtain ⟨hserves, -, hnone⟩ := h.purgeFrames kept_sound hpurge
    obtain ⟨n, s₂, halloc₁⟩ := alloc_success hserves.coherent (hnone key hnew) hfrees₁
    simp only [halloc, hpurge]
    rw [BPFrameManager.allocateFrame, halloc₁]
    exact ⟨n, s₂, rfl⟩
  · obtain ⟨n, s₁, halloc⟩ := alloc_success h.coherent hnew hfrees
    rw [halloc]
    exact ⟨n, s₁, rfl⟩

omit h in
theorem loadPage_success (hfreed : s.storage.freed = false) {page : Page}
    (himage : s.storage.image key = some page) (n : Nat) :
  ∃ s', s.loadPage key n = some (.success, s')
  := by
  rw [Storage.image] at himage
  rw [BPFrameManager.loadPage, Storage.readPage, hfreed]
  cases hfind : s.storage.find key with
  | some page =>
    simp only [Bool.false_eq_true, if_false]
    exact ⟨_, rfl⟩
  | none =>
    rw [hfind] at himage
    simp only [Bool.false_eq_true, if_false, himage]
    exact ⟨_, rfl⟩

/-- A page that exists is fetched as long as there is room for it. -/
theorem Serves.getThisPage_success (hroom : Room s)
    (hpage : newest key ≠ none) (hfuel : 2 ≤ fuel) :
  ∃ n s', BPFrameManager.getThisPage crc32 fuel s key = some (.success, some n, s')
  := by
  rw [BPFrameManager.getThisPage]
  cases hinternal : s.getInternal key with
  | some result =>
    obtain ⟨n, s₁⟩ := result
    exact ⟨n, s₁, rfl⟩
  | none =>
    have hnew := getInternal_eq_none hinternal
    obtain ⟨n, s₁, halloc⟩ := h.allocateFrame_success crc32 hroom hnew hfuel
    obtain ⟨s₀, frees, hserves, -, hnew, -, rfl⟩ := h.allocateFrame kept_sound hnew halloc
    have hcontents := hserves.coherent.below key (frames_find_eq_none.mp hnew)
    rw [← hcontents, Storage.contents, Ne, Option.map_eq_none_iff] at hpage
    obtain ⟨page, himage⟩ := Option.ne_none_iff_exists'.mp hpage
    obtain ⟨s₂, hload⟩ :=
      loadPage_success (s := taken s₀ key n frees) hserves.coherent.storage.freed himage n
    simp only [halloc, setFrameId_taken, hload]
    exact ⟨n, s₂, rfl⟩

end Sound

end MiniOB.Buffer
