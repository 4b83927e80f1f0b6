import MiniOB.Buffer.Coherence

/-!
# The balance of pins

`BPFrameManager::get` and `BPFrameManager::find_list` pin the frames that they return. A call that
purges or flushes pages gives a pin back only where it frees the frame or comes to the end of
flushing it.
-/

namespace MiniOB.Buffer

/-- The pages are added to the double write buffer one after the other, up to the first failure. -/
def Storage.addAll : List (FrameId × Page) → Storage → Option (RC × Storage)
  | [], s => some (.success, s)
  | (key, page) :: pages, s =>
    match s.addPage key page with
    | some (.success, s) => addAll pages s
    | result => result

/-- All pages are added. -/
def Storage.AddsAll (pages : List (FrameId × Page)) (s : Storage) : Prop :=
  ∃ s', Storage.addAll pages s = some (.success, s')

/-- The page of a frame with its check sum, as `DiskBufferPool::flush_page_internal` adds it to
the double write buffer. -/
def Frame.stamped (crc32 : List UInt8 → UInt32) (frame : Frame) : Page :=
  { frame.page with checkSum := crc32 frame.page.data }

/-- The calls that pin frames for themselves. -/
inductive PinCall where
  | purgePage (key : FrameId)
  | purgeAllPages (bufferPoolId : Int)
  | flushAllPages (bufferPoolId : Int)
  | checkAllPagesUnpinned (bufferPoolId : Int)
  deriving DecidableEq, Repr

namespace BPFrameManager

/-- The frames of the pages of a pool. -/
def poolFrames (s : BPFrameManager) (bufferPoolId : Int) : List (FrameId × Nat) :=
  s.frames.filter (·.1.bufferPoolId = bufferPoolId)

/-- The pages that flushing the frames adds to the double write buffer. -/
def stamped (crc32 : List UInt8 → UInt32) (s : BPFrameManager) (frames : List (FrameId × Nat)) :
    List (FrameId × Page) :=
  frames.map fun x => (x.1, (s.memory x.2).stamped crc32)

/-- The pages that purging the frames adds to the double write buffer. -/
def stampedDirty (crc32 : List UInt8 → UInt32) (s : BPFrameManager)
    (frames : List (FrameId × Nat)) : List (FrameId × Page) :=
  s.stamped crc32 (frames.filter fun x => (s.memory x.2).dirty)

/-- A page has one frame, a frame holds one page, and it knows which. -/
structure Framed (s : BPFrameManager) : Prop where
  keys : (s.frames.map Prod.fst).Nodup
  numbers : (s.frames.map Prod.snd).Nodup
  frameId : ∀ x ∈ s.frames, (s.memory x.2).frameId = x.1

/-- Each frame that holds a page after a call has the pin count that it had before the call. -/
def PinsKept (s s' : BPFrameManager) : Prop :=
  ∀ x ∈ s'.frames, x ∈ s.frames ∧ (s'.memory x.2).pinCount = (s.memory x.2).pinCount

/-- The frames can be purged: nobody has pinned them, and the dirty ones can be flushed. -/
def Purgeable (crc32 : List UInt8 → UInt32) (s : BPFrameManager) (frames : List (FrameId × Nat)) :
    Prop :=
  (∀ x ∈ frames, (s.memory x.2).pinCount = 0) ∧ s.storage.AddsAll (s.stampedDirty crc32 frames)

/-- A call, without what it returns. -/
def run (crc32 : List UInt8 → UInt32) (s : BPFrameManager) : PinCall → Option BPFrameManager
  | .purgePage key => (s.purgePage crc32 key).map Prod.snd
  | .purgeAllPages bufferPoolId => s.purgeAllPages crc32 bufferPoolId
  | .flushAllPages bufferPoolId => (s.flushAllPages crc32 bufferPoolId).map Prod.snd
  | .checkAllPagesUnpinned bufferPoolId => some (s.checkAllPagesUnpinned bufferPoolId)

/-- When a call gives back the pins that it takes. Purging has to succeed for all frames, and
flushing for all frames but the last one. -/
def Balanced (crc32 : List UInt8 → UInt32) (s : BPFrameManager) : PinCall → Prop
  | .purgePage key => s.Purgeable crc32 (s.frames.filter (·.1 = key))
  | .purgeAllPages bufferPoolId => s.Purgeable crc32 (s.poolFrames bufferPoolId)
  | .flushAllPages bufferPoolId =>
    s.storage.AddsAll (s.stamped crc32 (s.poolFrames bufferPoolId).dropLast)
  | .checkAllPagesUnpinned _ => True

end BPFrameManager

open BPFrameManager

variable {crc32 : List UInt8 → UInt32} {s s' : BPFrameManager} {frames : List (FrameId × Nat)}
  {x : FrameId × Nat} {key : FrameId} {n : Nat} {rc : RC} {bufferPoolId : Int}

/-! ### Frames -/

theorem Coherent.framed {P : Storage → Prop} {newest : Contents} (h : Coherent P newest s) :
  s.Framed
  where
  keys := h.keys
  numbers := (List.nodup_append.mp h.numbers).1
  frameId := h.frameId

/-- Frames and memory may change in what the frames do not say about their pages. -/
theorem BPFrameManager.Framed.congr (h : s.Framed) (hframes : s'.frames.Sublist s.frames)
    (hframeId : ∀ x ∈ s'.frames, (s'.memory x.2).frameId = (s.memory x.2).frameId) :
  s'.Framed
  where
  keys := h.keys.sublist (hframes.map _)
  numbers := h.numbers.sublist (hframes.map _)
  frameId := by
    intro x hx
    rw [hframeId x hx, h.frameId x (hframes.subset hx)]

theorem BPFrameManager.Framed.find (h : s.Framed) (hx : x ∈ s.frames) : s.find x.1 = some x :=
  frames_find_of_mem h.keys hx

theorem BPFrameManager.Framed.inj (h : s.Framed) {x' : FrameId × Nat} (hx : x ∈ s.frames)
    (hx' : x' ∈ s.frames) (heq : x.2 = x'.2) :
  x = x'
  := List.inj_on_of_nodup_map h.numbers hx hx' heq

/-! ### Pinning the frames of a list -/

theorem memory_pins (frames : List (FrameId × Nat)) (s : BPFrameManager) (n : Nat) :
  (frames.foldl (fun s frame => s.pin frame.2) s).memory n =
    { s.memory n with pinCount := (s.memory n).pinCount + (frames.map Prod.snd).count n }
  := by
  induction frames generalizing s with
  | nil => rfl
  | cons x frames ih =>
    rw [List.foldl_cons, ih, List.map_cons, List.count_cons]
    by_cases heq : n = x.2
    · subst heq
      rw [memory_pin_self, if_pos (by simp)]
      simp only [Frame.mk.injEq, true_and, and_true]
      omega
    · rw [memory_pin_of_ne s heq, if_neg (by simpa using Ne.symm heq)]
      simp

theorem memory_unpins (frames : List (FrameId × Nat)) (s : BPFrameManager) (n : Nat) :
  (frames.foldl (fun s frame => s.unpin frame.2) s).memory n =
    { s.memory n with pinCount := (s.memory n).pinCount - (frames.map Prod.snd).count n }
  := by
  induction frames generalizing s with
  | nil => rfl
  | cons x frames ih =>
    rw [List.foldl_cons, ih, List.map_cons, List.count_cons]
    by_cases heq : n = x.2
    · subst heq
      rw [memory_unpin_self, if_pos (by simp)]
      simp only [Frame.mk.injEq, true_and, and_true]
      omega
    · rw [memory_unpin_of_ne s heq, if_neg (by simpa using Ne.symm heq)]
      simp

theorem BPFrameManager.Framed.count_number (h : s.Framed) (hframes : frames.Sublist s.frames)
    (hx : x ∈ s.frames) :
  (frames.map Prod.snd).count x.2 = if x ∈ frames then 1 else 0
  := by
  have hnodup : (frames.map Prod.snd).Nodup := h.numbers.sublist (hframes.map _)
  split_ifs with hmem
  · exact List.count_eq_one_of_mem hnodup (List.mem_map_of_mem hmem)
  · rw [List.count_eq_zero, List.mem_map]
    rintro ⟨x', hx', heq⟩
    rw [h.inj (hframes.subset hx') hx heq] at hx'
    exact hmem hx'

/-! ### Adding pages -/

theorem addAll_append (pages pages' : List (FrameId × Page)) (storage : Storage) :
  Storage.addAll (pages ++ pages') storage =
    match Storage.addAll pages storage with
    | some (.success, storage) => Storage.addAll pages' storage
    | result => result
  := by
  induction pages generalizing storage with
  | nil => rfl
  | cons page pages ih =>
    rw [List.cons_append, Storage.addAll, Storage.addAll]
    split
    · rw [ih]
    · rename_i hne
      split
      · rename_i storage' heq
        exact absurd heq (hne storage')
      · rfl

theorem addsAll_nil (storage : Storage) : storage.AddsAll [] := ⟨storage, rfl⟩

/-- The pages that are added depend on the pages and the marks of the frames. -/
theorem stampedDirty_congr (hsame : ∀ x ∈ frames,
    (s'.memory x.2).dirty = (s.memory x.2).dirty ∧ (s'.memory x.2).page = (s.memory x.2).page) :
  s'.stampedDirty crc32 frames = s.stampedDirty crc32 frames
  := by
  rw [BPFrameManager.stampedDirty, BPFrameManager.stampedDirty,
    List.filter_congr fun x hx => (hsame x hx).1]
  apply List.map_congr_left
  intro x hx
  rw [Frame.stamped, Frame.stamped, (hsame x (List.mem_of_mem_filter hx)).2]

theorem stampedDirty_cons (x : FrameId × Nat) (frames : List (FrameId × Nat)) :
  s.stampedDirty crc32 (x :: frames) = s.stampedDirty crc32 [x] ++ s.stampedDirty crc32 frames
  := by
  rw [BPFrameManager.stampedDirty, BPFrameManager.stampedDirty, BPFrameManager.stampedDirty,
    BPFrameManager.stamped, BPFrameManager.stamped, BPFrameManager.stamped, ← List.map_append,
    ← List.filter_append, List.singleton_append]

theorem stampedDirty_of_dirty (hdirty : (s.memory x.2).dirty = true) :
  s.stampedDirty crc32 [x] = [(x.1, (s.memory x.2).stamped crc32)]
  := by
  simp [BPFrameManager.stampedDirty, BPFrameManager.stamped, hdirty]

theorem stampedDirty_of_clean (hclean : (s.memory x.2).dirty = false) :
  s.stampedDirty crc32 [x] = []
  := by
  simp [BPFrameManager.stampedDirty, BPFrameManager.stamped, hclean]

/-! ### Flushing and purging one frame -/

/-- What flushing the frame of `x` leaves as it is. -/
structure KeepsFrame (crc32 : List UInt8 → UInt32) (x : FrameId × Nat) (rc : RC)
    (s s' : BPFrameManager) : Prop where
  frames : s'.frames = s.frames
  frees : s'.frees = s.frees
  memory : ∀ m ≠ x.2, s'.memory m = s.memory m
  pinCount : (s'.memory x.2).pinCount = (s.memory x.2).pinCount
  frameId : (s'.memory x.2).frameId = (s.memory x.2).frameId
  stamped : (s'.memory x.2).stamped crc32 = (s.memory x.2).stamped crc32
  dirty : rc ≠ .success → (s'.memory x.2).dirty = (s.memory x.2).dirty

/-- What flushing the frame of `x` does. -/
structure AddsFrame (crc32 : List UInt8 → UInt32) (x : FrameId × Nat) (rc : RC)
    (s s' : BPFrameManager) : Prop extends KeepsFrame crc32 x rc s s' where
  added : s.storage.addPage x.1 ((s.memory x.2).stamped crc32) = some (rc, s'.storage)

theorem KeepsFrame.refl (crc32 : List UInt8 → UInt32) (x : FrameId × Nat) (rc : RC)
    (s : BPFrameManager) :
  KeepsFrame crc32 x rc s s
  := ⟨rfl, rfl, fun _ _ => rfl, rfl, rfl, rfl, fun _ => rfl⟩

theorem KeepsFrame.framed (hkeeps : KeepsFrame crc32 x rc s s') (h : s.Framed) : s'.Framed := by
  apply h.congr (by rw [hkeeps.frames])
  intro x' _
  by_cases heq : x'.2 = x.2
  · rw [heq, hkeeps.frameId]
  · rw [hkeeps.memory _ heq]

/-- What is left of the pins when the frame is given back. -/
theorem KeepsFrame.pinCount_unpin (hkeeps : KeepsFrame crc32 x rc s s') (n : Nat) :
  ((s'.unpin x.2).memory n).pinCount = (s.memory n).pinCount - if x.2 == n then 1 else 0
  := by
  by_cases heq : n = x.2
  · subst heq
    rw [memory_unpin_self, if_pos (by simp)]
    change (s'.memory x.2).pinCount - 1 = _
    rw [hkeeps.pinCount]
  · rw [memory_unpin_of_ne s' heq, hkeeps.memory n heq, if_neg (by simpa using Ne.symm heq),
      Nat.sub_zero]

theorem flushPageInternal_addsFrame (hframeId : (s.memory x.2).frameId = x.1)
    (hflush : s.flushPageInternal crc32 x.1.bufferPoolId x.2 = some (rc, s')) :
  AddsFrame crc32 x rc s s'
  := by
  have hkey : (⟨x.1.bufferPoolId, (s.memory x.2).frameId.pageNum⟩ : FrameId) = x.1 := by
    rw [hframeId]
  have hkeeps : ∀ storage dirty rc, (rc ≠ .success → dirty = (s.memory x.2).dirty) →
      KeepsFrame crc32 x rc s (BPFrameManager.setFrame { s with storage } x.2
        { s.memory x.2 with page := (s.memory x.2).stamped crc32, dirty }) := by
    intro storage dirty rc hdirty
    refine ⟨rfl, rfl, fun m hm => Function.update_of_ne hm _ _, ?_, ?_, ?_, ?_⟩
    · change (Function.update s.memory x.2 _ x.2).pinCount = _
      rw [Function.update_self]
    · change (Function.update s.memory x.2 _ x.2).frameId = _
      rw [Function.update_self]
    · change (Function.update s.memory x.2 _ x.2).stamped crc32 = _
      rw [Function.update_self]
      rfl
    · intro hrc
      change (Function.update s.memory x.2 _ x.2).dirty = _
      rw [Function.update_self]
      exact hdirty hrc
  rw [BPFrameManager.flushPageInternal, hkey] at hflush
  split at hflush
  · rename_i storage hadd
    cases hflush
    exact ⟨hkeeps storage false .success fun hrc => absurd rfl hrc, hadd⟩
  · rename_i storage hne hadd
    cases hflush
    exact ⟨hkeeps storage (s.memory x.2).dirty rc fun _ => rfl, hadd⟩
  · contradiction

theorem flushPageInternal_cases (hframeId : (s.memory x.2).frameId = x.1) :
  (s.storage.addPage x.1 ((s.memory x.2).stamped crc32) = none
      ∧ s.flushPageInternal crc32 x.1.bufferPoolId x.2 = none)
    ∨ ∃ rc s', s.flushPageInternal crc32 x.1.bufferPoolId x.2 = some (rc, s')
      ∧ AddsFrame crc32 x rc s s'
  := by
  cases hflush : s.flushPageInternal crc32 x.1.bufferPoolId x.2 with
  | some result => exact .inr ⟨result.1, result.2, rfl, flushPageInternal_addsFrame hframeId hflush⟩
  | none =>
    refine .inl ⟨?_, rfl⟩
    have hkey : (⟨x.1.bufferPoolId, (s.memory x.2).frameId.pageNum⟩ : FrameId) = x.1 := by
      rw [hframeId]
    rw [BPFrameManager.flushPageInternal, hkey] at hflush
    split at hflush
    · contradiction
    · contradiction
    · assumption

/-- The frame of `x` is free after the call. -/
structure Frees (x : FrameId × Nat) (s s' : BPFrameManager) : Prop where
  frames : s'.frames = s.frames.filter (·.1 ≠ x.1)
  memory : ∀ m ≠ x.2, s'.memory m = s.memory m

/-- The frame of `x` is as it was, but for its check sum and its mark. -/
structure Remains (x : FrameId × Nat) (s s' : BPFrameManager) : Prop where
  frames : s'.frames = s.frames
  memory : ∀ m ≠ x.2, s'.memory m = s.memory m
  pinCount : (s'.memory x.2).pinCount = (s.memory x.2).pinCount
  frameId : (s'.memory x.2).frameId = (s.memory x.2).frameId

theorem freeInternal_frees (h : s.Framed) (hx : x ∈ s.frames)
    (hfree : s.freeInternal x.1 x.2 = some s') :
  Frees x s s' ∧ s'.storage = s.storage
  := by
  rw [BPFrameManager.freeInternal, h.find hx] at hfree
  simp only at hfree
  split at hfree
  · cases hfree
    exact ⟨⟨rfl, fun m hm => Function.update_of_ne hm _ _⟩, rfl⟩
  · contradiction

/-- A frame is freed if nobody else has pinned it and its page can be flushed, if need be. Else
it stays, with all its pins. -/
theorem purgeFrame_cases (h : s.Framed) (hx : x ∈ s.frames)
    (hpurge : s.purgeFrame crc32 x.1 x.2 = some (rc, s')) :
  (Frees x s s' ∧ (s.memory x.2).pinCount = 1
      ∧ s.storage.addAll (s.stampedDirty crc32 [x]) = some (.success, s'.storage))
    ∨ Remains x s s' ∧ ((s.memory x.2).pinCount = 1 →
      ∃ rc ≠ RC.success, s.storage.addAll (s.stampedDirty crc32 [x]) = some (rc, s'.storage))
  := by
  rw [BPFrameManager.purgeFrame] at hpurge
  split at hpurge
  · rename_i hpin
    cases hpurge
    exact .inr ⟨⟨rfl, fun _ _ => rfl, rfl, rfl⟩, fun hone => absurd hone hpin⟩
  · rename_i hpin
    have hone : (s.memory x.2).pinCount = 1 := by simpa using hpin
    split at hpurge
    · rename_i hdirty
      rw [stampedDirty_of_dirty hdirty, Storage.addAll]
      split at hpurge
      · rename_i s₁ hflush
        have hadds := flushPageInternal_addsFrame (h.frameId x hx) hflush
        have hframed := hadds.toKeepsFrame.framed h
        obtain ⟨s₂, hfree, heq⟩ := Option.map_eq_some_iff.mp hpurge
        cases heq
        obtain ⟨hfrees, hstorage⟩ := freeInternal_frees hframed (by rwa [hadds.frames]) hfree
        rw [hadds.added, hstorage]
        refine .inl ⟨⟨?_, ?_⟩, hone, rfl⟩
        · rw [hfrees.frames, hadds.frames]
        · intro m hm
          rw [hfrees.memory m hm, hadds.memory m hm]
      · rename_i hne
        have hadds := flushPageInternal_addsFrame (h.frameId x hx) hpurge
        have hrc : rc ≠ .success := by
          rintro rfl
          exact hne s' hpurge
        rw [hadds.added]
        refine .inr ⟨⟨hadds.frames, hadds.memory, hadds.pinCount, hadds.frameId⟩, fun _ => ?_⟩
        exact ⟨rc, hrc, by split <;> simp_all⟩
    · rename_i hdirty
      obtain ⟨s₁, hfree, heq⟩ := Option.map_eq_some_iff.mp hpurge
      cases heq
      obtain ⟨hfrees, hstorage⟩ := freeInternal_frees h hx hfree
      rw [stampedDirty_of_clean (by simpa using hdirty), hstorage]
      exact .inl ⟨hfrees, hone, rfl⟩

/-! ### Purging the frames of a list -/

theorem Frees.framed (hfrees : Frees x s s') (h : s.Framed) (hx : x ∈ s.frames) : s'.Framed := by
  have hsub : s'.frames.Sublist s.frames := by
    rw [hfrees.frames]
    exact List.filter_sublist
  apply h.congr hsub
  intro x' hx'
  rw [hfrees.memory]
  intro heq
  rw [h.inj (hsub.subset hx') hx heq, hfrees.frames] at hx'
  simpa using (List.mem_filter.mp hx').2

theorem Remains.framed (hremains : Remains x s s') (h : s.Framed) : s'.Framed := by
  apply h.congr (by rw [hremains.frames])
  intro x' _
  by_cases heq : x'.2 = x.2
  · rw [heq, hremains.frameId]
  · rw [hremains.memory _ heq]

/-- What purging frames does: those that hold a page afterwards have their pins, and all of
`frames` are free if and only if each is pinned once and can be flushed. -/
structure Purged (crc32 : List UInt8 → UInt32) (frames : List (FrameId × Nat))
    (s s' : BPFrameManager) : Prop where
  kept : PinsKept s s'
  others : ∀ x ∈ s.frames, x ∉ frames → x ∈ s'.frames
  all : (∀ x ∈ frames, x ∉ s'.frames) ↔
    (∀ x ∈ frames, (s.memory x.2).pinCount = 1) ∧ s.storage.AddsAll (s.stampedDirty crc32 frames)

theorem purged_nil (s : BPFrameManager) : Purged crc32 [] s s where
  kept := fun x hx => ⟨hx, rfl⟩
  others := fun x hx _ => hx
  all := ⟨fun _ => ⟨by simp, addsAll_nil _⟩, fun _ => by simp⟩

theorem Purged.freed {s₁ : BPFrameManager} (h : s.Framed) (hx : x ∈ s.frames)
    (hsub : ∀ x' ∈ frames, x' ∈ s.frames) (hnew : x ∉ frames) (hfrees : Frees x s s₁)
    (hpin : (s.memory x.2).pinCount = 1)
    (hadd : s.storage.addAll (s.stampedDirty crc32 [x]) = some (.success, s₁.storage))
    (hrest : Purged crc32 frames s₁ s') :
  Purged crc32 (x :: frames) s s'
  := by
  have hmem : ∀ x', x' ∈ s₁.frames ↔ x' ∈ s.frames ∧ x'.1 ≠ x.1 := by
    intro x'
    rw [hfrees.frames, List.mem_filter, decide_eq_true_eq]
  have hmemory : ∀ x' ∈ frames, s₁.memory x'.2 = s.memory x'.2 := by
    intro x' hx'
    apply hfrees.memory
    intro heq
    rw [h.inj (hsub x' hx') hx heq] at hx'
    exact hnew hx'
  refine ⟨?_, ?_, ?_⟩
  · intro x' hx'
    obtain ⟨hx₁, hpins⟩ := hrest.kept x' hx'
    obtain ⟨hx₀, hne⟩ := (hmem x').mp hx₁
    refine ⟨hx₀, ?_⟩
    rw [hpins, hfrees.memory]
    intro heq
    rw [h.inj hx₀ hx heq] at hne
    exact hne rfl
  · intro x' hx' hother
    rw [List.mem_cons, not_or] at hother
    apply hrest.others x' _ hother.2
    rw [hmem]
    exact ⟨hx', fun heq => hother.1 (List.inj_on_of_nodup_map h.keys hx' hx heq)⟩
  · have hgone : x ∉ s'.frames := fun hx' => ((hmem x).mp (hrest.kept x hx').1).2 rfl
    have hpages : s₁.stampedDirty crc32 frames = s.stampedDirty crc32 frames := by
      apply stampedDirty_congr
      intro x' hx'
      rw [hmemory x' hx']
      exact ⟨rfl, rfl⟩
    have hpins : (∀ x' ∈ frames, (s₁.memory x'.2).pinCount = 1) ↔
        ∀ x' ∈ frames, (s.memory x'.2).pinCount = 1 := by
      apply forall₂_congr
      intro x' hx'
      rw [hmemory x' hx']
    rw [List.forall_mem_cons, List.forall_mem_cons, hrest.all, hpages, hpins, stampedDirty_cons,
      Storage.AddsAll, Storage.AddsAll, addAll_append, hadd]
    simp only [hgone, hpin, not_false_eq_true, true_and]

theorem Purged.remained {s₁ : BPFrameManager} (hx : x ∈ s.frames) (hnew : x ∉ frames)
    (hremains : Remains x s s₁)
    (hfails : (s.memory x.2).pinCount = 1 →
      ∃ rc ≠ RC.success, s.storage.addAll (s.stampedDirty crc32 [x]) = some (rc, s₁.storage))
    (hrest : Purged crc32 frames s₁ s') :
  Purged crc32 (x :: frames) s s'
  := by
  refine ⟨?_, ?_, ?_⟩
  · intro x' hx'
    obtain ⟨hx₁, hpins⟩ := hrest.kept x' hx'
    rw [hremains.frames] at hx₁
    refine ⟨hx₁, ?_⟩
    by_cases heq : x'.2 = x.2
    · rw [hpins, heq, hremains.pinCount]
    · rw [hpins, hremains.memory _ heq]
  · intro x' hx' hother
    apply hrest.others x' (by rwa [hremains.frames])
    exact fun hmem => hother (List.mem_cons_of_mem x hmem)
  · have hstay : x ∈ s'.frames := hrest.others x (by rwa [hremains.frames]) hnew
    constructor
    · intro hgone
      exact absurd hstay (hgone x List.mem_cons_self)
    · rintro ⟨hpins, storage, hadd⟩
      obtain ⟨rc, hrc, hfail⟩ := hfails (hpins x List.mem_cons_self)
      rw [stampedDirty_cons, addAll_append, hfail] at hadd
      cases rc <;> first | contradiction | cases hadd

theorem purgeLoop_purged (h : s.Framed) (hsub : ∀ x ∈ frames, x ∈ s.frames)
    (hpool : ∀ x ∈ frames, x.1.bufferPoolId = bufferPoolId) (hnodup : frames.Nodup)
    (hpurge : s.purgeLoop crc32 bufferPoolId frames = some s') :
  Purged crc32 frames s s'
  := by
  induction frames generalizing s with
  | nil =>
    cases hpurge
    exact purged_nil _
  | cons x frames ih =>
    obtain ⟨hx, hsub⟩ := List.forall_mem_cons.mp hsub
    obtain ⟨hkey, hpool⟩ := List.forall_mem_cons.mp hpool
    obtain ⟨hnew, hnodup⟩ := List.nodup_cons.mp hnodup
    have hkey : (⟨bufferPoolId, (s.memory x.2).frameId.pageNum⟩ : FrameId) = x.1 := by
      rw [h.frameId x hx, ← hkey]
    rw [BPFrameManager.purgeLoop, hkey] at hpurge
    split at hpurge
    · rename_i rc s₁ hframe
      rcases purgeFrame_cases h hx hframe with ⟨hfrees, hpin, hadd⟩ | ⟨hremains, hfails⟩
      · apply Purged.freed h hx hsub hnew hfrees hpin hadd
        apply ih (hfrees.framed h hx) _ hpool hnodup hpurge
        intro x' hx'
        rw [hfrees.frames, List.mem_filter, decide_eq_true_eq]
        refine ⟨hsub x' hx', fun heq => hnew ?_⟩
        rwa [← List.inj_on_of_nodup_map h.keys (hsub x' hx') hx heq]
      · apply Purged.remained hx hnew hremains hfails
        apply ih (hremains.framed h) _ hpool hnodup hpurge
        intro x' hx'
        rw [hremains.frames]
        exact hsub x' hx'
    · contradiction

/-! ### Flushing the frames of a list -/

/-- The loop gives back the pins of the frames that it reaches. It reaches all of them if and only
if all pages but the last one can be added. -/
theorem flushAllLoop_cases (hframeId : ∀ x ∈ frames, (s.memory x.2).frameId = x.1)
    (hpool : ∀ x ∈ frames, x.1.bufferPoolId = bufferPoolId)
    (hnodup : (frames.map Prod.snd).Nodup)
    (hflush : s.flushAllLoop crc32 bufferPoolId frames = some (rc, s')) :
  ∃ done rest, frames = done ++ rest ∧ s'.frames = s.frames
    ∧ (∀ n, (s'.memory n).pinCount = (s.memory n).pinCount - (done.map Prod.snd).count n)
    ∧ (rest = [] ↔ s.storage.AddsAll (s.stamped crc32 frames.dropLast))
  := by
  induction frames generalizing s with
  | nil =>
    cases hflush
    exact ⟨[], [], rfl, rfl, fun _ => rfl, fun _ => addsAll_nil _, fun _ => rfl⟩
  | cons x frames ih =>
    obtain ⟨hx, hframeId⟩ := List.forall_mem_cons.mp hframeId
    obtain ⟨rfl, hpool⟩ := List.forall_mem_cons.mp hpool
    obtain ⟨hnew, hnodup⟩ := List.nodup_cons.mp hnodup
    have hne : ∀ x' ∈ frames, x'.2 ≠ x.2 := by
      intro x' hx' heq
      apply hnew
      rw [← heq]
      exact List.mem_map_of_mem hx'
    rw [BPFrameManager.flushAllLoop] at hflush
    split at hflush
    · rename_i s₁ hframe
      have hadds := flushPageInternal_addsFrame hx hframe
      have hmemory : ∀ m ≠ x.2, (s₁.unpin x.2).memory m = s.memory m := by
        intro m hm
        rw [memory_unpin_of_ne s₁ hm, hadds.memory m hm]
      obtain ⟨done, rest, rfl, hframes, hpins, hall⟩ := ih
        (fun x' hx' => by rw [hmemory _ (hne x' hx'), hframeId x' hx']) hpool hnodup hflush
      refine ⟨x :: done, rest, rfl, hframes.trans hadds.frames, ?_, ?_⟩
      · intro n
        rw [hpins n, hadds.pinCount_unpin, List.map_cons, List.count_cons, Nat.sub_sub,
          Nat.add_comm]
      · rw [hall]
        cases hcase : done ++ rest with
        | nil => exact ⟨fun _ => addsAll_nil _, fun _ => addsAll_nil _⟩
        | cons x' frames =>
          have hpages : (s₁.unpin x.2).stamped crc32 (x' :: frames).dropLast =
              s.stamped crc32 (x' :: frames).dropLast := by
            apply List.map_congr_left
            intro x'' hx''
            rw [hmemory _ (hne x'' (by rw [hcase]; exact List.mem_of_mem_dropLast hx''))]
          rw [hpages, List.dropLast_cons_cons, BPFrameManager.stamped, BPFrameManager.stamped,
            List.map_cons, Storage.AddsAll, Storage.AddsAll, Storage.addAll, hadds.added]
          rfl
    · rename_i rc' s₁ hrc hframe
      cases hflush
      have hadds := flushPageInternal_addsFrame hx hframe
      refine ⟨[x], frames, rfl, hadds.frames, ?_, ?_⟩
      · intro n
        rw [hadds.pinCount_unpin, List.map_cons, List.map_nil, List.count_singleton]
      · cases frames with
        | nil => exact ⟨fun _ => addsAll_nil _, fun _ => rfl⟩
        | cons x' frames =>
          rw [List.dropLast_cons_cons, BPFrameManager.stamped, List.map_cons, Storage.AddsAll,
            Storage.addAll, hadds.added]
          constructor
          · intro hnil
            contradiction
          · rintro ⟨storage, hadd⟩
            cases rc <;> first | contradiction | cases hadd
    · contradiction

/-! ### The calls -/

theorem findList_frames (s : BPFrameManager) (frames : List (FrameId × Nat)) :
  (frames.foldl (fun s frame => s.pin frame.2) s).frames = s.frames
    ∧ (frames.foldl (fun s frame => s.pin frame.2) s).storage = s.storage
  := by
  induction frames generalizing s with
  | nil => exact ⟨rfl, rfl⟩
  | cons x frames ih => exact ih (s.pin x.2)

/-- The frames are pinned once more, and nothing else has changed. -/
structure PinsAll (frames : List (FrameId × Nat)) (s s₁ : BPFrameManager) : Prop where
  framed : s₁.Framed
  storage : s₁.storage = s.storage
  mem : ∀ x, x ∈ s₁.frames ↔ x ∈ s.frames
  pinned : ∀ x ∈ s.frames,
    (s₁.memory x.2).pinCount = (s.memory x.2).pinCount + if x ∈ frames then 1 else 0
  same : ∀ n, (s₁.memory n).dirty = (s.memory n).dirty ∧ (s₁.memory n).page = (s.memory n).page

theorem BPFrameManager.Framed.pinsAll (h : s.Framed) {s₁ : BPFrameManager}
    (hsub : frames.Sublist s.frames) (hperm : s₁.frames.Perm s.frames)
    (hstorage : s₁.storage = s.storage)
    (hmemory : ∀ n, s₁.memory n =
      { s.memory n with pinCount := (s.memory n).pinCount + (frames.map Prod.snd).count n }) :
  PinsAll frames s s₁
  where
  framed := {
    keys := (hperm.map _).nodup_iff.mpr h.keys
    numbers := (hperm.map _).nodup_iff.mpr h.numbers
    frameId := by
      intro x hx
      rw [hmemory]
      exact h.frameId x (hperm.mem_iff.mp hx) }
  storage := hstorage
  mem := fun x => hperm.mem_iff
  pinned := by
    intro x hx
    rw [hmemory, h.count_number hsub hx]
  same := by
    intro n
    rw [hmemory]
    exact ⟨rfl, rfl⟩

theorem poolFrames_sublist (s : BPFrameManager) (bufferPoolId : Int) :
  (s.poolFrames bufferPoolId).Sublist s.frames
  := List.filter_sublist

theorem BPFrameManager.Framed.findList (h : s.Framed) (bufferPoolId : Int) :
  PinsAll (s.poolFrames bufferPoolId) s (s.findList bufferPoolId).2
  := by
  obtain ⟨hframes, hstorage⟩ := findList_frames s (s.poolFrames bufferPoolId)
  apply h.pinsAll (poolFrames_sublist s bufferPoolId) (List.Perm.of_eq hframes) hstorage
  exact memory_pins (s.poolFrames bufferPoolId) s

/-- A call that pins frames and purges them keeps the pins of the others if and only if it frees
all of them. -/
theorem PinsAll.purged_iff {s₁ : BPFrameManager} (hpins : PinsAll frames s s₁)
    (hsub : ∀ x ∈ frames, x ∈ s.frames) (hpurged : Purged crc32 frames s₁ s') :
  PinsKept s s' ↔ s.Purgeable crc32 frames
  := by
  have hcond : s.Purgeable crc32 frames ↔ ∀ x ∈ frames, x ∉ s'.frames := by
    rw [hpurged.all, BPFrameManager.Purgeable, hpins.storage,
      stampedDirty_congr fun x _ => hpins.same x.2]
    apply and_congr_left
    intro _
    apply forall₂_congr
    intro x hx
    rw [hpins.pinned x (hsub x hx), if_pos hx]
    omega
  rw [hcond]
  constructor
  · intro hkept x hx hmem
    have hpin := (hkept x hmem).2
    rw [(hpurged.kept x hmem).2, hpins.pinned x (hsub x hx), if_pos hx] at hpin
    omega
  · intro hgone x hmem
    obtain ⟨hx₁, hpin⟩ := hpurged.kept x hmem
    have hx := (hpins.mem x).mp hx₁
    refine ⟨hx, ?_⟩
    rw [hpin, hpins.pinned x hx, if_neg fun hin => hgone x hin hmem, Nat.add_zero]

theorem BPFrameManager.Framed.filter_key (h : s.Framed) (hx : x ∈ s.frames) :
  s.frames.filter (·.1 = x.1) = [x]
  := by
  have hperm := (frames_perm h.keys hx).filter (·.1 = x.1)
  have hnone : (s.frames.filter (·.1 ≠ x.1)).filter (·.1 = x.1) = [] := by
    rw [List.filter_eq_nil_iff]
    intro x' hx'
    simpa using (List.mem_filter.mp hx').2
  rw [List.filter_cons_of_pos (by simp), hnone] at hperm
  exact List.perm_singleton.mp hperm

/-- The frame of a page that is looked up is pinned. -/
theorem BPFrameManager.Framed.getInternal (h : s.Framed) (hx : x ∈ s.frames) :
  ∃ s₁, s.getInternal x.1 = some (x.2, s₁) ∧ PinsAll [x] s s₁
  := by
  rw [BPFrameManager.getInternal, h.find hx]
  refine ⟨_, rfl, h.pinsAll (List.singleton_sublist.mpr hx) (frames_perm h.keys hx).symm rfl ?_⟩
  exact memory_pins [x] s

theorem purgePage_iff (h : s.Framed) (hpurge : s.purgePage crc32 key = some (rc, s')) :
  PinsKept s s' ↔ s.Purgeable crc32 (s.frames.filter (·.1 = key))
  := by
  rw [BPFrameManager.purgePage] at hpurge
  cases hfind : s.find key with
  | none =>
    rw [BPFrameManager.getInternal, hfind] at hpurge
    cases hpurge
    have hnone : s.frames.filter (·.1 = key) = [] := by
      rw [List.filter_eq_nil_iff]
      intro x hx
      simpa using frames_find_eq_none.mp hfind x hx
    rw [hnone]
    exact ⟨fun _ => ⟨by simp, addsAll_nil _⟩, fun _ x hx => ⟨hx, rfl⟩⟩
  | some x =>
    obtain ⟨hx, rfl⟩ := mem_frames_of_find hfind
    obtain ⟨s₁, hget, hpins⟩ := h.getInternal hx
    rw [hget] at hpurge
    rw [h.filter_key hx]
    apply hpins.purged_iff (by simpa using hx)
    have hx₁ := (hpins.mem x).mpr hx
    rcases purgeFrame_cases hpins.framed hx₁ hpurge with ⟨hfrees, hpin, hadd⟩ | ⟨hremains, hfails⟩
    · exact Purged.freed hpins.framed hx₁ (by simp) (by simp) hfrees hpin hadd (purged_nil _)
    · exact Purged.remained hx₁ (by simp) hremains hfails (purged_nil _)

theorem purgeAllPages_iff (h : s.Framed)
    (hpurge : s.purgeAllPages crc32 bufferPoolId = some s') :
  PinsKept s s' ↔ s.Purgeable crc32 (s.poolFrames bufferPoolId)
  := by
  have hpins := h.findList bufferPoolId
  apply hpins.purged_iff fun x hx => List.mem_of_mem_filter hx
  apply purgeLoop_purged hpins.framed _ _ _ hpurge
  · intro x hx
    exact (hpins.mem x).mpr (List.mem_of_mem_filter hx)
  · intro x hx
    simpa using (List.mem_filter.mp hx).2
  · exact (List.Nodup.of_map _ h.keys).filter _

theorem flushAllPages_iff (h : s.Framed)
    (hflush : s.flushAllPages crc32 bufferPoolId = some (rc, s')) :
  PinsKept s s' ↔ s.storage.AddsAll (s.stamped crc32 (s.poolFrames bufferPoolId).dropLast)
  := by
  have hpins := h.findList bufferPoolId
  have hsub := poolFrames_sublist s bufferPoolId
  have hnodup : ((s.poolFrames bufferPoolId).map Prod.snd).Nodup :=
    h.numbers.sublist (hsub.map _)
  have hpool : ∀ x ∈ s.poolFrames bufferPoolId, x.1.bufferPoolId = bufferPoolId := by
    intro x hx
    simpa using (List.mem_filter.mp hx).2
  obtain ⟨done, rest, heq, hframes, hcount, hall⟩ := flushAllLoop_cases
    (fun x hx => hpins.framed.frameId x ((hpins.mem x).mpr (hsub.subset hx))) hpool hnodup hflush
  have hpages : (s.findList bufferPoolId).2.stamped crc32 (s.poolFrames bufferPoolId).dropLast =
      s.stamped crc32 (s.poolFrames bufferPoolId).dropLast := by
    apply List.map_congr_left
    intro x _
    rw [Frame.stamped, Frame.stamped, (hpins.same x.2).2]
  change rest = [] ↔ Storage.AddsAll (stamped crc32 _ (s.poolFrames bufferPoolId).dropLast) _ at hall
  rw [hpages, hpins.storage] at hall
  rw [← hall]
  have hdone : done.Sublist s.frames := (heq ▸ List.sublist_append_left done rest).trans hsub
  have hpin : ∀ x ∈ s.frames, (s'.memory x.2).pinCount =
      (s.memory x.2).pinCount + (if x ∈ done ++ rest then 1 else 0) - if x ∈ done then 1 else 0 := by
    intro x hx
    rw [hcount, hpins.pinned x hx, h.count_number hdone hx, ← heq]
  have hmem : ∀ x, x ∈ s'.frames ↔ x ∈ s.frames := by
    intro x
    rw [hframes]
    exact hpins.mem x
  constructor
  · intro hkept
    rw [List.eq_nil_iff_forall_not_mem]
    intro x hrest
    have hx : x ∈ s.frames := hsub.subset (heq ▸ List.mem_append_right done hrest)
    have hnew : x ∉ done := by
      rw [heq, List.map_append, List.nodup_append] at hnodup
      intro hx'
      exact hnodup.2.2 x.2 (List.mem_map_of_mem hx') x.2 (List.mem_map_of_mem hrest) rfl
    have hkeptPin := (hkept x ((hmem x).mpr hx)).2
    rw [hpin x hx, if_pos (List.mem_append_right done hrest), if_neg hnew] at hkeptPin
    omega
  · rintro rfl x hx
    have hx' := (hmem x).mp hx
    refine ⟨hx', ?_⟩
    rw [hpin x hx', List.append_nil, Nat.add_sub_cancel]

theorem checkAllPagesUnpinned_kept (h : s.Framed) (bufferPoolId : Int) :
  PinsKept s (s.checkAllPagesUnpinned bufferPoolId)
  := by
  have hpins := h.findList bufferPoolId
  have hframes : ∀ (frames : List (FrameId × Nat)) (s : BPFrameManager),
      (frames.foldl (fun s frame => s.unpin frame.2) s).frames = s.frames := by
    intro frames
    induction frames with
    | nil => exact fun _ => rfl
    | cons x frames ih => exact fun s => ih (s.unpin x.2)
  intro x hx
  have hx' : x ∈ s.frames := by
    rw [← hpins.mem x]
    exact hframes _ _ ▸ hx
  refine ⟨hx', ?_⟩
  refine (congrArg Frame.pinCount (memory_unpins (s.poolFrames bufferPoolId) _ x.2)).trans ?_
  change ((s.findList bufferPoolId).2.memory x.2).pinCount - _ = _
  rw [hpins.pinned x hx', h.count_number (poolFrames_sublist s bufferPoolId) hx',
    Nat.add_sub_cancel]

/-- A call keeps the pins of the frames that still hold a page if and only if it is balanced. -/
theorem pinsKept_iff (h : s.Framed) {call : PinCall} (hrun : s.run crc32 call = some s') :
  PinsKept s s' ↔ s.Balanced crc32 call
  := by
  cases call with
  | purgePage key =>
    obtain ⟨⟨rc, s''⟩, hpurge, rfl⟩ := Option.map_eq_some_iff.mp hrun
    exact purgePage_iff h hpurge
  | purgeAllPages bufferPoolId => exact purgeAllPages_iff h hrun
  | flushAllPages bufferPoolId =>
    obtain ⟨⟨rc, s''⟩, hflush, rfl⟩ := Option.map_eq_some_iff.mp hrun
    exact flushAllPages_iff h hflush
  | checkAllPagesUnpinned bufferPoolId =>
    cases hrun
    exact iff_of_true (checkAllPagesUnpinned_kept h bufferPoolId) trivial

/-- A page with a frame that is pinned `pinCount` times. -/
def onePage (pinCount : Nat) : BPFrameManager where
  storage := { pools := [1], disk := fun _ => none }
  frames := [(⟨1, 1⟩, 0)]
  frees := []
  memory := fun _ => { frameId := ⟨1, 1⟩, pinCount }

theorem onePage_framed (pinCount : Nat) : (onePage pinCount).Framed where
  keys := List.nodup_singleton _
  numbers := List.nodup_singleton _
  frameId := by
    intro x hx
    rw [List.mem_singleton.mp hx]
    rfl

/-- Nobody has pinned the frame, and the page is purged. -/
theorem pinsKept_iff_unpinned :
  ∃ s', (onePage 0).run (fun _ => 0) (.purgePage ⟨1, 1⟩) = some s' ∧ PinsKept (onePage 0) s'
  := by
  obtain ⟨s', hrun⟩ : ∃ s', (onePage 0).run (fun _ => 0) (.purgePage ⟨1, 1⟩) = some s' := ⟨_, rfl⟩
  refine ⟨s', hrun, (pinsKept_iff (onePage_framed 0) hrun).mpr ⟨?_, ?_⟩⟩
  · intro x _
    rfl
  · exact ⟨_, rfl⟩

/-- Somebody has pinned the frame: the page is not purged, and its frame has one pin more. -/
theorem pinsKept_fails :
  ∃ s', (onePage 1).run (fun _ => 0) (.purgePage ⟨1, 1⟩) = some s' ∧ ¬ PinsKept (onePage 1) s'
  := by
  refine ⟨_, rfl, ?_⟩
  intro hkept
  have hpin := (hkept (⟨1, 1⟩, 0) (by decide)).2
  contradiction

end MiniOB.Buffer
