import MiniOB.Lib.Run
import MiniOB.Buffer.Image
import MiniOB.Buffer.DiskBufferPool

/-!
# Coherence of the buffer pools

The newest content of a page is that of its frame, if it has one; else it is that of its image
in the double write buffer or in its data file. The frame of a page that is not dirty says the
same as the image below it, so that it can be given to another page.
-/

namespace MiniOB.Buffer

open Transition

/-- The content of pages, by their numbers. -/
abbrev Contents := FrameId → Option (Int × List UInt8)

/-- The contents of the images below the frames. -/
def Storage.contents (storage : Storage) : Contents :=
  fun key => (storage.image key).map Page.content

/-- The calls on the storage keep a property, which says that the storage is tidy. -/
structure Kept (P : Storage → Prop) : Prop where
  tidy : ∀ {storage}, P storage → storage.Tidy
  addPage : ∀ {storage storage' key page rc}, P storage → key.bufferPoolId ∈ storage.pools →
    storage.addPage key page = some (rc, storage') → P storage'
  flushPage : ∀ {storage storage' rc}, P storage → storage.flushPage = some (rc, storage') →
    P storage'

/-- Frames and storage agree with the newest contents of the pages. The storage has the
property `P`, which says whether writes may fail. -/
structure Coherent (P : Storage → Prop) (newest : Contents) (s : BPFrameManager) : Prop where
  storage : P s.storage
  keys : (s.frames.map Prod.fst).Nodup
  numbers : (s.frames.map Prod.snd ++ s.frees).Nodup
  frameId : ∀ x ∈ s.frames, (s.memory x.2).frameId = x.1
  opened : ∀ x ∈ s.frames, x.1.bufferPoolId ∈ s.storage.pools
  content : ∀ x ∈ s.frames, newest x.1 = some (s.memory x.2).page.content
  clean : ∀ x ∈ s.frames, (s.memory x.2).dirty = false → s.storage.contents x.1 = newest x.1
  below : ∀ key, (∀ x ∈ s.frames, x.1 ≠ key) → s.storage.contents key = newest key
  free : ∀ n ∈ s.frees, (s.memory n).dirty = false ∧ (s.memory n).pinCount = 0

/-- The frames of `held` are pinned, each as often as it occurs there. -/
structure Holds (held : List (FrameId × Nat)) (s : BPFrameManager) : Prop where
  mem : ∀ x ∈ held, x ∈ s.frames
  pins : ∀ n, held.countP (·.2 = n) ≤ (s.memory n).pinCount

variable {P : Storage → Prop} {newest newest' : Contents} {s s' : BPFrameManager} {held : List (FrameId × Nat)}
  {x : FrameId × Nat} {key : FrameId} {n : Nat}

/-! ### The storage -/

theorem kept_tidy : Kept Storage.Tidy where
  tidy := id
  addPage := fun h hopen hadd => (h.addPage_cases hopen hadd).tidy
  flushPage := fun h hflush => (h.flushPage_cases hflush).1

theorem kept_sound : Kept Storage.Sound where
  tidy := Storage.Sound.toTidy
  addPage := by
    intro storage storage' key page rc h hopen hadd
    rw [h.addPage hopen] at hadd
    cases hadd
    apply h.added hopen
  flushPage := by
    intro storage storage' rc h hflush
    rw [h.flushPage] at hflush
    cases hflush
    apply h.flushed

theorem Storage.Adds.contents {storage storage' : Storage} {key : FrameId} {page : Page}
    (h : Storage.Adds key page storage storage') :
  storage'.contents = Function.update storage.contents key (some page.content)
  := by
  funext key'
  rw [Storage.contents, h.image]
  by_cases hkey : key' = key
  · subst hkey
    rw [Function.update_self, Function.update_self]
    rfl
  · rw [Function.update_of_ne hkey, Function.update_of_ne hkey]
    rfl

/-! ### Finding frames -/

theorem frames_find_eq_none : s.find key = none ↔ ∀ x ∈ s.frames, x.1 ≠ key := by
  simp [BPFrameManager.find]

theorem mem_frames_of_find (h : s.find key = some x) : x ∈ s.frames ∧ x.1 = key := by
  refine ⟨List.mem_of_find?_eq_some h, ?_⟩
  have hkey := List.find?_some h
  simpa using hkey

/-- A page with one frame is found there. -/
theorem frames_find_of_mem (hkeys : (s.frames.map Prod.fst).Nodup) (hx : x ∈ s.frames) :
  s.find x.1 = some x
  := by
  cases hfind : s.find x.1 with
  | none => exact absurd rfl (frames_find_eq_none.mp hfind x hx)
  | some x' =>
    obtain ⟨hx', hkey⟩ := mem_frames_of_find hfind
    rw [List.inj_on_of_nodup_map hkeys hx' hx hkey]

theorem Coherent.find (h : Coherent P newest s) (hx : x ∈ s.frames) : s.find x.1 = some x :=
  frames_find_of_mem h.keys hx

/-- A page has one frame, and a frame holds one page. -/
theorem Coherent.inj (h : Coherent P newest s) {x' : FrameId × Nat} (hx : x ∈ s.frames)
    (hx' : x' ∈ s.frames) :
  x.2 = x'.2 ↔ x = x'
  := by
  have hnumbers := (List.nodup_append.mp h.numbers).1
  constructor
  · intro heq
    apply List.inj_on_of_nodup_map hnumbers hx hx' heq
  · rintro rfl
    rfl

theorem Coherent.ne_free (h : Coherent P newest s) (hx : x ∈ s.frames) (hn : n ∈ s.frees) :
  x.2 ≠ n
  := (List.nodup_append.mp h.numbers).2.2 x.2 (List.mem_map_of_mem hx) n hn

/-! ### Changing a frame -/

/-- A frame and the storage change, and with them the content of the page of the frame. -/
theorem Coherent.update (h : Coherent P newest s) (hx : x ∈ s.frames) {storage : Storage}
    (hstorage : P storage) (hpools : storage.pools = s.storage.pools) {frame : Frame}
    (hframeId : frame.frameId = x.1)
    (hother : ∀ key ≠ x.1, newest' key = newest key
      ∧ storage.contents key = s.storage.contents key)
    (hcontent : newest' x.1 = some frame.page.content)
    (hclean : frame.dirty = false → storage.contents x.1 = newest' x.1) :
  Coherent P newest' (BPFrameManager.setFrame { s with storage } x.2 frame)
  := by
  have hself : Function.update s.memory x.2 frame x.2 = frame := Function.update_self _ _ _
  have hne : ∀ x' ∈ s.frames, x' ≠ x → Function.update s.memory x.2 frame x'.2 = s.memory x'.2
      ∧ x'.1 ≠ x.1 := by
    intro x' hx' hne
    constructor
    · rw [Function.update_of_ne]
      rw [Ne, h.inj hx' hx]
      apply hne
    · intro heq
      apply hne
      apply List.inj_on_of_nodup_map h.keys hx' hx heq
  constructor
  · apply hstorage
  · apply h.keys
  · apply h.numbers
  · intro x' hx'
    change (Function.update s.memory x.2 frame x'.2).frameId = x'.1
    by_cases heq : x' = x
    · subst heq
      rw [hself, hframeId]
    · rw [(hne x' hx' heq).1]
      apply h.frameId x' hx'
  · intro x' hx'
    change _ ∈ storage.pools
    rw [hpools]
    apply h.opened x' hx'
  · intro x' hx'
    change newest' x'.1 = some (Function.update s.memory x.2 frame x'.2).page.content
    by_cases heq : x' = x
    · subst heq
      rw [hself, hcontent]
    · obtain ⟨hmemory, hkey⟩ := hne x' hx' heq
      rw [hmemory, (hother _ hkey).1]
      apply h.content x' hx'
  · intro x' hx' hdirty
    change (Function.update s.memory x.2 frame x'.2).dirty = false at hdirty
    change storage.contents x'.1 = newest' x'.1
    by_cases heq : x' = x
    · subst heq
      rw [hself] at hdirty
      apply hclean hdirty
    · obtain ⟨hmemory, hkey⟩ := hne x' hx' heq
      rw [hmemory] at hdirty
      rw [(hother _ hkey).1, (hother _ hkey).2]
      apply h.clean x' hx' hdirty
  · intro key hkey
    change storage.contents key = newest' key
    rw [(hother key (hkey x hx).symm).1, (hother key (hkey x hx).symm).2]
    apply h.below key hkey
  · intro m hm
    change (Function.update s.memory x.2 frame m).dirty = false
      ∧ (Function.update s.memory x.2 frame m).pinCount = 0
    rw [Function.update_of_ne (h.ne_free hx hm).symm]
    apply h.free m hm

/-- A frame changes in its pin count only. -/
theorem Coherent.setPin (h : Coherent P newest s) (hx : x ∈ s.frames) (pinCount : Nat) :
  Coherent P newest (s.setFrame x.2 { s.memory x.2 with pinCount })
  := h.update hx h.storage rfl (h.frameId x hx) (fun _ _ => ⟨rfl, rfl⟩) (h.content x hx)
    (h.clean x hx)

theorem Coherent.pin (h : Coherent P newest s) (hx : x ∈ s.frames) : Coherent P newest (s.pin x.2) :=
  h.setPin hx _

theorem Coherent.unpin (h : Coherent P newest s) (hx : x ∈ s.frames) :
  Coherent P newest (s.unpin x.2)
  := h.setPin hx _

theorem Coherent.modify (h : Coherent P newest s) (hx : x ∈ s.frames) (content : Int × List UInt8) :
  Coherent P (Function.update newest x.1 (some content)) (s.modify x.2 content)
  := by
  refine h.update hx h.storage rfl ?_ ?_ ?_ ?_
  · apply h.frameId x hx
  · intro key hkey
    rw [Function.update_of_ne hkey]
    exact ⟨rfl, rfl⟩
  · rw [Function.update_self]
    rfl
  · intro hdirty
    contradiction

/-- The frames are the same up to their order and their pin counts. -/
theorem Coherent.congr (h : Coherent P newest s) (hstorage : s'.storage = s.storage)
    (hframes : s'.frames.Perm s.frames) (hfrees : s'.frees.Perm s.frees)
    (hmemory : ∀ x ∈ s.frames, (s'.memory x.2).frameId = (s.memory x.2).frameId
      ∧ (s'.memory x.2).dirty = (s.memory x.2).dirty ∧ (s'.memory x.2).page = (s.memory x.2).page)
    (hfree : ∀ n ∈ s.frees, (s'.memory n).dirty = false ∧ (s'.memory n).pinCount = 0) :
  Coherent P newest s'
  := by
  have hmem : ∀ x, x ∈ s'.frames ↔ x ∈ s.frames := fun x => hframes.mem_iff
  constructor
  · rw [hstorage]
    apply h.storage
  · rw [(hframes.map _).nodup_iff]
    apply h.keys
  · rw [((hframes.map _).append hfrees).nodup_iff]
    apply h.numbers
  · intro x hx
    rw [hmem] at hx
    rw [(hmemory x hx).1]
    apply h.frameId x hx
  · intro x hx
    rw [hmem] at hx
    rw [hstorage]
    apply h.opened x hx
  · intro x hx
    rw [hmem] at hx
    rw [(hmemory x hx).2.2]
    apply h.content x hx
  · intro x hx
    rw [hmem] at hx
    rw [(hmemory x hx).2.1, hstorage]
    apply h.clean x hx
  · intro key hkey
    rw [hstorage]
    apply h.below
    intro x hx
    rw [← hmem] at hx
    apply hkey x hx
  · intro n hn
    rw [hfrees.mem_iff] at hn
    apply hfree n hn

/-! ### Pins -/

theorem memory_pin_self (s : BPFrameManager) (n : Nat) :
  (s.pin n).memory n = { s.memory n with pinCount := (s.memory n).pinCount + 1 }
  := Function.update_self _ _ _

theorem memory_unpin_self (s : BPFrameManager) (n : Nat) :
  (s.unpin n).memory n = { s.memory n with pinCount := (s.memory n).pinCount - 1 }
  := Function.update_self _ _ _

theorem memory_pin_of_ne {n m : Nat} (s : BPFrameManager) (h : m ≠ n) :
  (s.pin n).memory m = s.memory m
  := Function.update_of_ne h _ _

theorem memory_unpin_of_ne {n m : Nat} (s : BPFrameManager) (h : m ≠ n) :
  (s.unpin n).memory m = s.memory m
  := Function.update_of_ne h _ _

theorem Holds.perm {held' : List (FrameId × Nat)} (h : Holds held s) (hperm : held'.Perm held) :
  Holds held' s
  where
  mem := fun x hx => h.mem x (hperm.mem_iff.mp hx)
  pins := by
    intro n
    rw [hperm.countP_eq]
    apply h.pins

theorem Holds.pin (h : Holds held s) (hx : x ∈ s.frames) : Holds (x :: held) (s.pin x.2) where
  mem := by
    intro x' hx'
    rcases List.mem_cons.mp hx' with rfl | hmem
    · apply hx
    · apply h.mem x' hmem
  pins := by
    intro n
    have hpins := h.pins n
    rw [List.countP_cons]
    by_cases heq : n = x.2
    · subst heq
      rw [memory_pin_self, if_pos (by simp)]
      change _ ≤ (s.memory x.2).pinCount + 1
      omega
    · rw [memory_pin_of_ne s heq, if_neg (by simpa using Ne.symm heq)]
      omega

theorem Holds.unpin (h : Holds (x :: held) s) : Holds held (s.unpin x.2) where
  mem := fun x' hx' => h.mem x' (List.mem_cons_of_mem _ hx')
  pins := by
    intro n
    have hpins := h.pins n
    rw [List.countP_cons] at hpins
    by_cases heq : n = x.2
    · subst heq
      rw [if_pos (by simp)] at hpins
      rw [memory_unpin_self]
      change _ ≤ (s.memory x.2).pinCount - 1
      omega
    · rw [memory_unpin_of_ne s heq]
      omega

/-- A frame changes in everything but its pin count. -/
theorem Holds.setFrame (h : Holds held s) {storage : Storage} {frame : Frame}
    (hpin : frame.pinCount = (s.memory n).pinCount) :
  Holds held (BPFrameManager.setFrame { s with storage } n frame)
  where
  mem := h.mem
  pins := by
    intro m
    change held.countP (·.2 = m) ≤ (Function.update s.memory n frame m).pinCount
    by_cases heq : m = n
    · subst heq
      rw [Function.update_self, hpin]
      apply h.pins
    · rw [Function.update_of_ne heq]
      apply h.pins

/-- What the frames that nobody has taken away keep. -/
theorem Holds.congr (h : Holds held s) (hframes : ∀ x ∈ held, x ∈ s.frames → x ∈ s'.frames)
    (hpins : ∀ x ∈ held, (s'.memory x.2).pinCount = (s.memory x.2).pinCount) :
  Holds held s'
  where
  mem := fun x hx => hframes x hx (h.mem x hx)
  pins := by
    intro n
    by_cases hn : ∃ x ∈ held, x.2 = n
    · obtain ⟨x, hx, rfl⟩ := hn
      rw [hpins x hx]
      apply h.pins
    · push Not at hn
      have hzero : held.countP (·.2 = n) = 0 := by
        rw [List.countP_eq_zero]
        intro x hx
        simpa using hn x hx
      omega

theorem Holds.tail (h : Holds (x :: held) s) : Holds held s where
  mem := fun x' hx' => h.mem x' (List.mem_cons_of_mem _ hx')
  pins := by
    intro n
    have hpins := h.pins n
    rw [List.countP_cons] at hpins
    omega

/-! ### Dirty frames -/

/-- A frame that is dirty was dirty before, and held the same page. -/
def Cleaner (s s' : BPFrameManager) : Prop :=
  ∀ x ∈ s'.frames, (s'.memory x.2).dirty = true → x ∈ s.frames ∧ (s.memory x.2).dirty = true

theorem Cleaner.refl (s : BPFrameManager) : Cleaner s s := fun _ hx hdirty => ⟨hx, hdirty⟩

theorem Cleaner.trans {s₁ : BPFrameManager} (h : Cleaner s s₁) (h' : Cleaner s₁ s') :
  Cleaner s s'
  := by
  intro x hx hdirty
  obtain ⟨hx₁, hdirty₁⟩ := h' x hx hdirty
  apply h x hx₁ hdirty₁

theorem cleaner_pin (s : BPFrameManager) (n : Nat) : Cleaner s (s.pin n) := by
  intro x hx hdirty
  refine ⟨hx, ?_⟩
  by_cases heq : x.2 = n
  · rw [heq, memory_pin_self] at hdirty
    rw [heq]
    apply hdirty
  · rw [memory_pin_of_ne s heq] at hdirty
    apply hdirty

theorem cleaner_unpin (s : BPFrameManager) (n : Nat) : Cleaner s (s.unpin n) := by
  intro x hx hdirty
  refine ⟨hx, ?_⟩
  by_cases heq : x.2 = n
  · rw [heq, memory_unpin_self] at hdirty
    rw [heq]
    apply hdirty
  · rw [memory_unpin_of_ne s heq] at hdirty
    apply hdirty

/-! ### Flushing a frame -/

section Flush

variable {crc32 : List UInt8 → UInt32} {rc : RC}

/-- What flushing the frame `n` does to the frames. -/
structure Flushes (n : Nat) (rc : RC) (s s' : BPFrameManager) : Prop where
  pools : s'.storage.pools = s.storage.pools
  frames : s'.frames = s.frames
  frees : s'.frees = s.frees
  pinCount : ∀ m, (s'.memory m).pinCount = (s.memory m).pinCount
  frameId : ∀ m, (s'.memory m).frameId = (s.memory m).frameId
  dirty : rc = .success → (s'.memory n).dirty = false
  clean : ∀ m, (s'.memory m).dirty = true → (s.memory m).dirty = true

theorem Flushes.holds {n : Nat} (h : Flushes n rc s s') (hholds : Holds held s) :
  Holds held s'
  := by
  apply hholds.congr
  · intro x _ hx
    rw [h.frames]
    apply hx
  · intro x _
    apply h.pinCount

theorem Flushes.cleaner {n : Nat} (h : Flushes n rc s s') : Cleaner s s' := by
  intro x hx hdirty
  rw [h.frames] at hx
  exact ⟨hx, h.clean x.2 hdirty⟩

theorem flushes_of_flushPageInternal (hP : Kept P) (h : Coherent P newest s) (hx : x ∈ s.frames)
    (hflush : s.flushPageInternal crc32 x.1.bufferPoolId x.2 = some (rc, s')) :
  Coherent P newest s' ∧ Flushes x.2 rc s s'
  := by
  have hkey : ⟨x.1.bufferPoolId, (s.memory x.2).frameId.pageNum⟩ = x.1 := by
    rw [h.frameId x hx]
  let page := { (s.memory x.2).page with checkSum := crc32 (s.memory x.2).page.data }
  have hflushed : ∀ storage dirty rc, s.storage.addPage x.1 page = some (rc, storage) →
      (rc = .success → dirty = false) → (dirty = true → (s.memory x.2).dirty = true) →
      let s' := BPFrameManager.setFrame { s with storage } x.2 { s.memory x.2 with page, dirty }
      Coherent P newest s' ∧ Flushes x.2 rc s s' := by
    intro storage dirty rc hadd hrc hdirty s'
    have hadds := (hP.tidy h.storage).addPage_cases (h.opened x hx) hadd
    have hcontents := hadds.contents
    have hcontent : some page.content = newest x.1 := (h.content x hx).symm
    constructor
    · refine h.update hx ?_ hadds.pools ?_ ?_ ?_ ?_
      · apply hP.addPage h.storage (h.opened x hx) hadd
      · apply h.frameId x hx
      · intro key hkey
        rw [hcontents, Function.update_of_ne hkey]
        exact ⟨rfl, rfl⟩
      · apply hcontent.symm
      · intro _
        rw [hcontents, Function.update_self]
        apply hcontent
    · have hself : s'.memory x.2 = { s.memory x.2 with page, dirty } := Function.update_self _ _ _
      have hne : ∀ m ≠ x.2, s'.memory m = s.memory m := fun m hm => Function.update_of_ne hm _ _
      refine ⟨hadds.pools, rfl, rfl, ?_, ?_, ?_, ?_⟩
      · intro m
        by_cases heq : m = x.2
        · rw [heq, hself]
        · rw [hne m heq]
      · intro m
        by_cases heq : m = x.2
        · rw [heq, hself]
        · rw [hne m heq]
      · intro hsuccess
        rw [hself]
        apply hrc hsuccess
      · intro m
        by_cases heq : m = x.2
        · rw [heq, hself]
          apply hdirty
        · rw [hne m heq]
          exact id
  rw [BPFrameManager.flushPageInternal, hkey] at hflush
  split at hflush
  · rename_i storage hadd
    cases hflush
    apply hflushed storage false .success hadd
    · intro _
      rfl
    · intro hdirty
      contradiction
  · rename_i rc' storage hne hadd
    cases hflush
    apply hflushed storage (s.memory x.2).dirty rc hadd
    · rintro rfl
      contradiction
    · exact id
  · contradiction

end Flush

/-! ### Freeing a frame -/

/-- The frames with one page less. -/
theorem frames_perm (hkeys : (s.frames.map Prod.fst).Nodup) (hx : x ∈ s.frames) :
  s.frames.Perm (x :: s.frames.filter (·.1 ≠ x.1))
  := by
  have hnodup : s.frames.Nodup := List.Nodup.of_map _ hkeys
  rw [List.perm_ext_iff_of_nodup hnodup]
  · intro x'
    rw [List.mem_cons, List.mem_filter, decide_eq_true_eq]
    constructor
    · intro hx'
      by_cases heq : x'.1 = x.1
      · left
        apply List.inj_on_of_nodup_map hkeys hx' hx heq
      · right
        exact ⟨hx', heq⟩
    · rintro (rfl | ⟨hx', -⟩)
      · apply hx
      · apply hx'
  · rw [List.nodup_cons]
    refine ⟨?_, hnodup.filter _⟩
    intro hmem
    have hne := (List.mem_filter.mp hmem).2
    simp at hne

/-- A page gives its frame back. -/
theorem Coherent.release (h : Coherent P newest s) (hx : x ∈ s.frames) {frame : Frame}
    (hclean : (s.memory x.2).dirty = false) (hdirty : frame.dirty = false)
    (hpin : frame.pinCount = 0) :
  Coherent P newest { s with
    frames := s.frames.filter (·.1 ≠ x.1)
    frees := s.frees ++ [x.2]
    memory := Function.update s.memory x.2 frame }
  := by
  have hperm := frames_perm h.keys hx
  have hmem : ∀ x' ∈ s.frames.filter (·.1 ≠ x.1), x' ∈ s.frames
      ∧ Function.update s.memory x.2 frame x'.2 = s.memory x'.2 := by
    intro x' hx'
    obtain ⟨hx', hne⟩ := List.mem_filter.mp hx'
    refine ⟨hx', ?_⟩
    rw [Function.update_of_ne]
    rw [Ne, h.inj hx' hx]
    rintro rfl
    simp at hne
  constructor
  · apply h.storage
  · apply h.keys.sublist (List.filter_sublist.map _)
  · have hnumbers : (s.frames.map Prod.snd ++ s.frees).Perm
        ((s.frames.filter (·.1 ≠ x.1)).map Prod.snd ++ (s.frees ++ [x.2])) := by
      rw [← List.append_assoc]
      apply (((hperm.map Prod.snd).append_right s.frees)).trans
      apply (List.perm_append_singleton _ _).symm
    rw [← hnumbers.nodup_iff]
    apply h.numbers
  · intro x' hx'
    obtain ⟨hx', hmemory⟩ := hmem x' hx'
    change (Function.update s.memory x.2 frame x'.2).frameId = x'.1
    rw [hmemory]
    apply h.frameId x' hx'
  · intro x' hx'
    apply h.opened x' (hmem x' hx').1
  · intro x' hx'
    obtain ⟨hx', hmemory⟩ := hmem x' hx'
    change _ = some (Function.update s.memory x.2 frame x'.2).page.content
    rw [hmemory]
    apply h.content x' hx'
  · intro x' hx'
    obtain ⟨hx', hmemory⟩ := hmem x' hx'
    change (Function.update s.memory x.2 frame x'.2).dirty = false → _
    rw [hmemory]
    apply h.clean x' hx'
  · intro key hkey
    by_cases heq : key = x.1
    · subst heq
      apply h.clean x hx hclean
    · apply h.below
      intro x' hx' hx'key
      refine hkey x' ?_ hx'key
      rw [List.mem_filter, decide_eq_true_eq, hx'key]
      exact ⟨hx', heq⟩
  · intro m hm
    change (Function.update s.memory x.2 frame m).dirty = false
      ∧ (Function.update s.memory x.2 frame m).pinCount = 0
    rcases List.mem_append.mp hm with hfree | hself
    · rw [Function.update_of_ne (h.ne_free hx hfree).symm]
      apply h.free m hfree
    · rw [List.mem_singleton.mp hself, Function.update_self]
      exact ⟨hdirty, hpin⟩

/-- A free frame is taken for a page that has none. -/
theorem Coherent.take (h : Coherent P newest s) {frees : List Nat} (hfrees : s.frees = n :: frees)
    (hnew : s.find key = none) (hopen : key.bufferPoolId ∈ s.storage.pools) {frame : Frame}
    (hframeId : frame.frameId = key)
    (hcontent : s.storage.contents key = some frame.page.content) :
  Coherent P newest { s with
    frames := (key, n) :: s.frames
    frees
    memory := Function.update s.memory n frame }
  := by
  rw [frames_find_eq_none] at hnew
  have hnumbers := h.numbers
  rw [hfrees] at hnumbers
  have hself : Function.update s.memory n frame n = frame := Function.update_self _ _ _
  have hother : ∀ x ∈ s.frames, Function.update s.memory n frame x.2 = s.memory x.2 := by
    intro x hx
    apply Function.update_of_ne
    apply h.ne_free hx
    rw [hfrees]
    apply List.mem_cons_self
  have hbelow := h.below key hnew
  constructor
  · apply h.storage
  · rw [List.map_cons, List.nodup_cons]
    refine ⟨?_, h.keys⟩
    intro hmem
    obtain ⟨x, hx, hkey⟩ := List.mem_map.mp hmem
    apply hnew x hx hkey
  · rw [List.map_cons, List.cons_append, ← List.nodup_middle]
    apply hnumbers
  · intro x hx
    change (Function.update s.memory n frame x.2).frameId = x.1
    rcases List.mem_cons.mp hx with rfl | hx
    · rw [hself, hframeId]
    · rw [hother x hx]
      apply h.frameId x hx
  · intro x hx
    rcases List.mem_cons.mp hx with rfl | hx
    · apply hopen
    · apply h.opened x hx
  · intro x hx
    change newest x.1 = some (Function.update s.memory n frame x.2).page.content
    rcases List.mem_cons.mp hx with rfl | hx
    · rw [hself, ← hbelow, hcontent]
    · rw [hother x hx]
      apply h.content x hx
  · intro x hx
    change (Function.update s.memory n frame x.2).dirty = false → _
    rcases List.mem_cons.mp hx with rfl | hx
    · intro _
      apply hbelow
    · rw [hother x hx]
      apply h.clean x hx
  · intro key' hkey'
    apply h.below
    intro x hx
    apply hkey' x (List.mem_cons_of_mem _ hx)
  · intro m hm
    have hmem : m ∈ s.frees := by
      rw [hfrees]
      apply List.mem_cons_of_mem _ hm
    have hne : m ≠ n := by
      rintro rfl
      rw [List.nodup_append] at hnumbers
      apply (List.nodup_cons.mp hnumbers.2.1).1 hm
    change (Function.update s.memory n frame m).dirty = false
      ∧ (Function.update s.memory n frame m).pinCount = 0
    rw [Function.update_of_ne hne]
    apply h.free m hmem

theorem freeInternal_cases (h : Coherent P newest s) (hx : x ∈ s.frames)
    (hclean : (s.memory x.2).dirty = false) (hfree : s.freeInternal x.1 x.2 = some s') :
  Coherent P newest s' ∧ s'.storage = s.storage ∧ s'.find x.1 = none
    ∧ (∀ key, s.find key = none → s'.find key = none) ∧ Cleaner s s'
    ∧ ∀ held, Holds (x :: held) s → Holds held s'
  := by
  have hfind := h.find hx
  rw [BPFrameManager.freeInternal, hfind] at hfree
  simp only at hfree
  split at hfree
  · rename_i hpin
    cases hfree
    refine ⟨h.release hx hclean hclean rfl, rfl, ?_, ?_, ?_, ?_⟩
    · rw [frames_find_eq_none]
      intro x' hx'
      have hne := (List.mem_filter.mp hx').2
      simpa using hne
    · intro key hkey
      rw [frames_find_eq_none] at hkey ⊢
      intro x' hx'
      apply hkey x' (List.mem_of_mem_filter hx')
    · intro x' hx' hdirty
      have hmem := List.mem_of_mem_filter hx'
      have hne : x'.2 ≠ x.2 := by
        rw [Ne, h.inj hmem hx]
        rintro rfl
        have hkey := (List.mem_filter.mp hx').2
        simp at hkey
      change (Function.update s.memory x.2 _ x'.2).dirty = true at hdirty
      rw [Function.update_of_ne hne] at hdirty
      exact ⟨hmem, hdirty⟩
    · intro held hholds
      -- nobody else has pinned the frame
      have hne : ∀ x' ∈ held, x'.2 ≠ x.2 := by
        intro x' hx' heq
        have hpins := hholds.pins x.2
        rw [List.countP_cons, if_pos (by simp), hpin.2] at hpins
        have hpos : 0 < held.countP (·.2 = x.2) := by
          rw [List.countP_pos_iff]
          exact ⟨x', hx', by simpa using heq⟩
        omega
      apply hholds.tail.congr
      · intro x' hx' hmem
        rw [List.mem_filter, decide_eq_true_eq]
        refine ⟨hmem, ?_⟩
        intro heq
        apply hne x' hx'
        rw [List.inj_on_of_nodup_map h.keys hmem hx heq]
      · intro x' hx'
        change (Function.update s.memory x.2 _ x'.2).pinCount = _
        rw [Function.update_of_ne (hne x' hx')]
  · contradiction

end MiniOB.Buffer
