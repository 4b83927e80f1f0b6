import MiniOB.Lib.Run
import MiniOB.Buffer.Image

/-!
# The file of the double write buffer

What lies in the file of the double write buffer along a run. A page that is put into the
buffer takes the slot numbered by the size of the buffer, although clearing the pages of a pool
leaves gaps. As long as the slot is free, the file mirrors the buffer: each page of the buffer
lies in a slot of its own, and whatever is loaded from the file is the newest image of its page.
-/

namespace MiniOB.Buffer

open Transition Storage

/-! ### Steps -/

/-- What happens in a step. -/
inductive Event where
  | addPage (key : FrameId) (page : Page)
  | flushPage
  | clearPages (bufferPoolId : Int)
  | openPool (bufferPoolId : Int)
  | closePool (bufferPoolId : Int)
  | restart

/-- The steps of a double write buffer. Pages are added with their check sums, and a restart
loads the pages, opens pools and recovers. -/
inductive Step (crc32 : List UInt8 → UInt32) : Storage → Event → Storage → Prop where
  | addPage {s s' : Storage} {key : FrameId} {page : Page} {rc : RC}
      (hopen : key.bufferPoolId ∈ s.pools) (hsum : crc32 page.data = page.checkSum)
      (hadd : s.addPage key page = some (rc, s')) : Step crc32 s (.addPage key page) s'
  | flushPage {s s' : Storage} {rc : RC} (hflush : s.flushPage = some (rc, s')) :
      Step crc32 s .flushPage s'
  | clearPages {s s' : Storage} {bufferPoolId : Int} {rc : RC} (hopen : bufferPoolId ∈ s.pools)
      (hclear : s.clearPages bufferPoolId = some (rc, s')) :
      Step crc32 s (.clearPages bufferPoolId) s'
  | openPool {s : Storage} {bufferPoolId : Int} (hnew : bufferPoolId ∉ s.pools) :
      Step crc32 s (.openPool bufferPoolId) { s with pools := bufferPoolId :: s.pools }
  | closePool {s s' : Storage} {bufferPoolId : Int} {rc : RC} (hopen : bufferPoolId ∈ s.pools)
      (hclear : s.clearPages bufferPoolId = some (rc, s')) :
      Step crc32 s (.closePool bufferPoolId)
        { s' with pools := s'.pools.filter (· ≠ bufferPoolId) }
  | restart {s s' s'' : Storage} {pools : List Int} (hload : s.loadPages crc32 = (.success, s'))
      (hrecover : { s' with pools }.recover = some (.success, s'')) : Step crc32 s .restart s''

/-- The storage with a new file of the double write buffer. -/
def start (maxPages : Nat) (disk : FrameId → Option Page) : Storage := { maxPages, disk }

/-- The newest image of each page after a history. -/
def newest (disk : FrameId → Option Page) : List (Storage × Event) → FrameId → Option Page
  | [] => disk
  | (_, .addPage key page) :: h => Function.update (newest disk h) key (some page)
  | _ :: h => newest disk h

/-- The file mirrors the buffer: the pages of the buffer have slots of their own, which hold
them with their newest images, so that loading the file yields the newest image of each of
these pages, and of no page an older one. -/
structure Mirrors (crc32 : List UInt8 → UInt32) (newest : FrameId → Option Page) (s : Storage) :
    Prop where
  index : ∀ page ∈ s.dblwrPages, page.pageIndex < s.pageCnt
  distinct : (s.dblwrPages.map DoubleWritePage.pageIndex).Nodup
  slot : ∀ page ∈ s.dblwrPages,
    s.fileSlots page.pageIndex = some page ∧ newest page.key = some page.page
  load : ∃ s', s.loadPages crc32 = (.success, s') ∧
    (∀ page ∈ s.dblwrPages, s'.readPage page.key = some (.success, some page.page)) ∧
    ∀ page ∈ s'.dblwrPages, newest page.key = some page.page

/-! ### The slots -/

/-- The first of the slots below `n` that holds a page. -/
def firstSlot (slots : Nat → Option DoubleWritePage) : Nat → FrameId → Option DoubleWritePage
  | 0, _ => none
  | n + 1, key => (firstSlot slots n key).or ((slots n).filter (·.key = key))

/-- The number of slots of the file after a page has been put into the buffer. -/
def Storage.newPageCnt (s : Storage) : Nat :=
  if s.pageCnt < s.dblwrPages.length + 1 then s.dblwrPages.length + 1 else s.filePageCnt

/-- The slot that a new page takes is free: it belongs to no page that stays in the buffer, no
slot before it holds the page, and where it holds another page, the next slot that holds that
page has its current image. -/
structure FreeSlot (s : Storage) (key : FrameId) : Prop where
  unused : s.dblwrPages.length + 1 < s.maxPages →
    ∀ page ∈ s.dblwrPages, page.pageIndex ≠ s.dblwrPages.length
  first : ∀ i < s.dblwrPages.length, ∀ page, s.fileSlots i = some page → page.key ≠ key
  covered : ∀ old, s.fileSlots s.dblwrPages.length = some old → old.key ≠ key →
    ∀ page, firstSlot (Function.update s.fileSlots s.dblwrPages.length none) s.newPageCnt old.key
      = some page → s.image old.key = some page.page

/-- A step that puts a new page into the buffer finds a free slot. -/
def TakesFreeSlot (s : Storage) : Event → Prop
  | .addPage key _ => s.find key = none → FreeSlot s key
  | _ => True

variable {slots slots' : Nat → Option DoubleWritePage} {n m : Nat} {key : FrameId}
  {page : DoubleWritePage}

theorem firstSlot_eq_none :
  firstSlot slots n key = none ↔ ∀ i < n, ∀ page, slots i = some page → page.key ≠ key
  := by
  induction n with
  | zero => simp [firstSlot]
  | succ n ih =>
    rw [firstSlot, Option.or_eq_none_iff, ih, Option.filter_eq_none_iff]
    simp only [decide_eq_true_eq]
    constructor
    · rintro ⟨hbelow, hlast⟩ i hi page hpage
      rcases Nat.lt_succ_iff_lt_or_eq.mp hi with hlt | rfl
      · apply hbelow i hlt page hpage
      · apply hlast page hpage
    · intro h
      constructor
      · intro i hi
        apply h i (Nat.lt_succ_of_lt hi)
      · intro page hpage
        apply h n (Nat.lt_succ_self n) page hpage

theorem firstSlot_eq_some :
  firstSlot slots n key = some page ↔
    page.key = key ∧ ∃ i < n, slots i = some page ∧
      ∀ j < i, ∀ page', slots j = some page' → page'.key ≠ key
  := by
  induction n with
  | zero => simp [firstSlot]
  | succ n ih =>
    rw [firstSlot, Option.or_eq_some_iff, ih, Option.filter_eq_some_iff, firstSlot_eq_none,
      decide_eq_true_eq]
    constructor
    · rintro (⟨hkey, i, hi, hslot, hfirst⟩ | ⟨hnone, hslot, hkey⟩)
      · exact ⟨hkey, i, Nat.lt_succ_of_lt hi, hslot, hfirst⟩
      · exact ⟨hkey, n, Nat.lt_succ_self n, hslot, hnone⟩
    · rintro ⟨hkey, i, hi, hslot, hfirst⟩
      rcases Nat.lt_succ_iff_lt_or_eq.mp hi with hlt | rfl
      · left
        exact ⟨hkey, i, hlt, hslot, hfirst⟩
      · right
        exact ⟨hfirst, hslot, hkey⟩

/-- Slots that hold the same pages with a key have the same first one. -/
theorem firstSlot_congr
    (h : ∀ i < n, ∀ page, page.key = key → (slots i = some page ↔ slots' i = some page)) :
  firstSlot slots n key = firstSlot slots' n key
  := by
  induction n with
  | zero => rfl
  | succ n ih =>
    rw [firstSlot, firstSlot, ih fun i hi => h i (Nat.lt_succ_of_lt hi)]
    congr 1
    ext page
    rw [Option.filter_eq_some_iff, Option.filter_eq_some_iff, decide_eq_true_eq]
    constructor
    · rintro ⟨hslot, hkey⟩
      exact ⟨(h n (Nat.lt_succ_self n) page hkey).mp hslot, hkey⟩
    · rintro ⟨hslot, hkey⟩
      exact ⟨(h n (Nat.lt_succ_self n) page hkey).mpr hslot, hkey⟩

theorem firstSlot_mono (hle : n ≤ m) (h : firstSlot slots n key = some page) :
  firstSlot slots m key = some page
  := by
  rw [firstSlot_eq_some] at h ⊢
  obtain ⟨hkey, i, hi, hslot⟩ := h
  exact ⟨hkey, i, lt_of_lt_of_le hi hle, hslot⟩

/-! ### Loading the slots -/

/-- The pages that are loaded from the slots below `n`. -/
def loaded (slots : Nat → Option DoubleWritePage) : Nat → List DoubleWritePage
  | 0 => []
  | n + 1 =>
    match slots n with
    | none => loaded slots n
    | some page =>
      if firstSlot slots n page.key = none then loaded slots n ++ [page] else loaded slots n

theorem mem_loaded : page ∈ loaded slots n ↔ firstSlot slots n page.key = some page := by
  induction n with
  | zero => simp [loaded, firstSlot]
  | succ n ih =>
    rw [loaded, firstSlot, Option.or_eq_some_iff, Option.filter_eq_some_iff, decide_eq_true_eq, ← ih]
    cases hslot : slots n with
    | none => simp
    | some page' =>
      simp only [Option.some_inj]
      split
      · rename_i hnone
        rw [List.mem_append, List.mem_singleton]
        constructor
        · rintro (hmem | rfl)
          · left
            apply hmem
          · right
            exact ⟨hnone, rfl, trivial⟩
        · rintro (hmem | ⟨-, rfl, -⟩)
          · left
            apply hmem
          · right
            rfl
      · rename_i hsome
        constructor
        · intro hmem
          left
          apply hmem
        · rintro (hmem | ⟨hnone, rfl, -⟩)
          · apply hmem
          · exact absurd hnone hsome

theorem nodup_loaded (slots : Nat → Option DoubleWritePage) (n : Nat) :
  ((loaded slots n).map DoubleWritePage.key).Nodup
  := by
  induction n with
  | zero => apply List.nodup_nil
  | succ n ih =>
    rw [loaded]
    split
    · apply ih
    · split
      · rename_i page hslot hnone
        rw [List.map_append, List.map_singleton, List.nodup_append]
        refine ⟨ih, List.nodup_singleton _, ?_⟩
        intro key hkey key' hkey' heq
        obtain ⟨page', hpage', rfl⟩ := List.mem_map.mp hkey
        rw [List.mem_singleton] at hkey'
        rw [mem_loaded, heq, hkey', hnone] at hpage'
        contradiction
      · apply ih

theorem loadLoop_append {crc32 : List UInt8 → UInt32} {pageNums pageNums' : List Nat}
    {s s' : Storage} (h : loadLoop crc32 pageNums s = (.success, s')) :
  loadLoop crc32 (pageNums ++ pageNums') s = loadLoop crc32 pageNums' s'
  := by
  induction pageNums generalizing s with
  | nil =>
    cases h
    rfl
  | cons pageNum pageNums ih =>
    rw [List.cons_append, loadLoop]
    rw [loadLoop] at h
    split at h
    · cases h
    · split at h
      · rename_i hnew
        simp only [if_pos hnew]
        apply ih h
      · rename_i hold
        simp only [if_neg hold]
        apply ih h

/-- The storage after its pages have been loaded. -/
def reloaded (s : Storage) : Storage :=
  { s with
    dblwrPages := loaded s.fileSlots s.filePageCnt, pageCnt := s.filePageCnt, freed := false }

theorem loadPages_eq {crc32 : List UInt8 → UInt32} {s : Storage}
    (hslots : ∀ i < s.filePageCnt, ∃ page, s.fileSlots i = some page
      ∧ crc32 page.page.data = page.page.checkSum) :
  s.loadPages crc32 = (.success, reloaded s)
  := by
  have hload : ∀ n ≤ s.filePageCnt, loadLoop crc32 (List.range n)
      { s with dblwrPages := [], pageCnt := s.filePageCnt, freed := false }
      = (.success, { s with
          dblwrPages := loaded s.fileSlots n, pageCnt := s.filePageCnt, freed := false }) := by
    intro n hn
    induction n with
    | zero => rfl
    | succ n ih =>
      obtain ⟨page, hslot, hsum⟩ := hslots n hn
      rw [List.range_succ, loadLoop_append (ih (Nat.le_of_succ_le hn)), loadLoop, loaded, hslot]
      simp only [hsum, true_and]
      have hfind : Storage.find { s with
            dblwrPages := loaded s.fileSlots n, pageCnt := s.filePageCnt, freed := false } page.key
            = none
          ↔ firstSlot s.fileSlots n page.key = none := by
        rw [find_eq_none]
        constructor
        · intro h
          cases hfirst : firstSlot s.fileSlots n page.key with
          | none => rfl
          | some page' =>
            have hkey := (firstSlot_eq_some.mp hfirst).1
            rw [← hkey] at hfirst
            exact absurd hkey (h page' (mem_loaded.mpr hfirst))
        · intro h page' hpage' hkey
          rw [mem_loaded, hkey, h] at hpage'
          contradiction
      by_cases hnew : firstSlot s.fileSlots n page.key = none
      · rw [if_pos (hfind.mpr hnew), if_pos hnew]
        rfl
      · rw [if_neg (mt hfind.mp hnew), if_neg hnew]
        rfl
  apply hload _ (Nat.le_refl _)

/-! ### The invariant -/

/-- The file mirrors the images: the first slot with a page has its image. -/
structure FileHolds (crc32 : List UInt8 → UInt32) (s : Storage) : Prop where
  slots : ∀ i < s.filePageCnt, ∃ page, s.fileSlots i = some page ∧ page.pageIndex = i
    ∧ crc32 page.page.data = page.page.checkSum
  image : ∀ key page, firstSlot s.fileSlots s.filePageCnt key = some page →
    s.image key = some page.page

/-- The invariant of a double write buffer. -/
structure Inv (crc32 : List UInt8 → UInt32) (newest : FrameId → Option Page) (s : Storage) :
    Prop where
  sound : s.Sound
  newest : ∀ key, s.image key = newest key
  file : FileHolds crc32 s
  index : ∀ page ∈ s.dblwrPages, page.pageIndex < s.pageCnt
  slot : ∀ page ∈ s.dblwrPages, s.fileSlots page.pageIndex = some page
    ∧ firstSlot s.fileSlots s.filePageCnt page.key = some page
  pageCnt : s.pageCnt = 0 ∨ s.pageCnt = s.filePageCnt

variable {crc32 : List UInt8 → UInt32} {newest : FrameId → Option Page} {s : Storage}

theorem Inv.distinct (h : Inv crc32 newest s) :
  (s.dblwrPages.map DoubleWritePage.pageIndex).Nodup
  := by
  apply List.Nodup.map_on _ (List.Nodup.of_map _ h.sound.keys)
  intro page hpage page' hpage' heq
  have hslot := (h.slot page hpage).1
  rw [heq, (h.slot page' hpage').1, Option.some_inj] at hslot
  rw [hslot]

theorem Inv.length_le (h : Inv crc32 newest s) : s.dblwrPages.length ≤ s.pageCnt := by
  have hsub : s.dblwrPages.map DoubleWritePage.pageIndex ⊆ List.range s.pageCnt := by
    intro i hi
    obtain ⟨page, hpage, rfl⟩ := List.mem_map.mp hi
    rw [List.mem_range]
    apply h.index page hpage
  have hle := (List.subperm_of_subset h.distinct hsub).length_le
  rw [List.length_map, List.length_range] at hle
  apply hle

theorem Inv.mirrors (h : Inv crc32 newest s) : Mirrors crc32 newest s := by
  constructor
  · apply h.index
  · apply h.distinct
  · intro page hpage
    refine ⟨(h.slot page hpage).1, ?_⟩
    rw [← h.newest, image_of_mem h.sound.keys hpage]
  · have hslots : ∀ i < s.filePageCnt, ∃ page, s.fileSlots i = some page
        ∧ crc32 page.page.data = page.page.checkSum := by
      intro i hi
      obtain ⟨page, hslot, -, hsum⟩ := h.file.slots i hi
      exact ⟨page, hslot, hsum⟩
    refine ⟨_, loadPages_eq hslots, ?_, ?_⟩
    · intro page hpage
      have hmem : page ∈ loaded s.fileSlots s.filePageCnt := mem_loaded.mpr (h.slot page hpage).2
      have hfind : (reloaded s).find page.key = some page :=
        find_eq_some (nodup_loaded _ _) hmem
      apply readPage_eq rfl hfind
    · intro page hpage
      rw [← h.newest]
      apply h.file.image _ _ (mem_loaded.mp hpage)

theorem Inv.start (maxPages : Nat) (disk : FrameId → Option Page) :
  Inv crc32 disk (start maxPages disk)
  where
  sound := ⟨⟨List.nodup_nil, by intro page hpage; contradiction⟩, rfl, rfl⟩
  newest _ := rfl
  file := by
    constructor
    · intro i hi
      contradiction
    · intro key page hfirst
      contradiction
  index := by
    intro page hpage
    contradiction
  slot := by
    intro page hpage
    contradiction
  pageCnt := .inl rfl

/-! ### The steps -/

/-- An empty buffer mirrors its file. -/
theorem FileHolds.inv (h : FileHolds crc32 s) (hsound : s.Sound)
    (hnewest : ∀ key, s.image key = newest key) (hnil : s.dblwrPages = []) (hcnt : s.pageCnt = 0) :
  Inv crc32 newest s
  where
  sound := hsound
  newest := hnewest
  file := h
  index := by
    intro page hpage
    rw [hnil] at hpage
    contradiction
  slot := by
    intro page hpage
    rw [hnil] at hpage
    contradiction
  pageCnt := .inl hcnt

theorem FileHolds.flushed (h : FileHolds crc32 s) : FileHolds crc32 s.flushed where
  slots := h.slots
  image := h.image

theorem Inv.flushed (h : Inv crc32 newest s) : Inv crc32 newest s.flushed :=
  h.file.flushed.inv h.sound.flushed h.newest rfl rfl

theorem Inv.cleared (h : Inv crc32 newest s) (bufferPoolId : Int) :
  Inv crc32 newest (s.cleared bufferPoolId)
  where
  sound := h.sound.cleared bufferPoolId
  newest := by
    rw [image_cleared h.sound.toTidy]
    apply h.newest
  file := by
    constructor
    · apply h.file.slots
    · rw [image_cleared h.sound.toTidy]
      apply h.file.image
  index := by
    intro page hpage
    apply h.index page (List.mem_of_mem_filter hpage)
  slot := by
    intro page hpage
    apply h.slot page (List.mem_of_mem_filter hpage)
  pageCnt := h.pageCnt

/-- Changing the open pools changes nothing else. -/
theorem Inv.pools (h : Inv crc32 newest s) {pools : List Int}
    (hopened : ∀ page ∈ s.dblwrPages, page.key.bufferPoolId ∈ pools) :
  Inv crc32 newest { s with pools }
  where
  sound := ⟨⟨h.sound.keys, hopened⟩, h.sound.outcomes, h.sound.freed⟩
  newest := h.newest
  file := ⟨h.file.slots, h.file.image⟩
  index := h.index
  slot := h.slot
  pageCnt := h.pageCnt

/-- A page of the buffer gets a new image. -/
theorem Inv.replaced (h : Inv crc32 newest s) {old : DoubleWritePage} (hold : old ∈ s.dblwrPages)
    {page : Page} (hsum : crc32 page.data = page.checkSum) :
  Inv crc32 (Function.update newest old.key (some page)) (s.replaced old page)
  := by
  obtain ⟨hslot, hfirst⟩ := h.slot old hold
  obtain ⟨-, i, hi, hslot', hbefore⟩ := firstSlot_eq_some.mp hfirst
  have hindex : old.pageIndex = i := by
    obtain ⟨page', hpage', heq, -⟩ := h.file.slots i hi
    rw [hslot', Option.some_inj] at hpage'
    rw [hpage', heq]
  subst hindex
  have himage := image_replaced h.sound.toTidy hold page
  -- the slot holds no other page before and afterwards
  have hself : firstSlot (s.replaced old page).fileSlots s.filePageCnt old.key
      = some { old with page } := by
    rw [firstSlot_eq_some]
    refine ⟨rfl, old.pageIndex, hi, Function.update_self _ _ _, ?_⟩
    intro j hj page' hpage'
    rw [fileSlots_replaced, Function.update_of_ne (by omega)] at hpage'
    apply hbefore j hj page' hpage'
  have hother : ∀ key ≠ old.key, firstSlot (s.replaced old page).fileSlots s.filePageCnt key
      = firstSlot s.fileSlots s.filePageCnt key := by
    intro key hkey
    apply firstSlot_congr
    intro j hj page' hpage'
    rw [fileSlots_replaced]
    by_cases heq : j = old.pageIndex
    · subst heq
      simp only [Function.update_self, hslot, Option.some_inj]
      constructor
      · rintro rfl
        exact absurd hpage'.symm hkey
      · rintro rfl
        exact absurd hpage'.symm hkey
    · rw [Function.update_of_ne heq]
  constructor
  · apply h.sound.replaced
  · intro key
    rw [himage]
    by_cases hkey : key = old.key
    · subst hkey
      rw [Function.update_self, Function.update_self]
    · rw [Function.update_of_ne hkey, Function.update_of_ne hkey, h.newest]
  · constructor
    · intro j hj
      by_cases heq : j = old.pageIndex
      · subst heq
        exact ⟨_, Function.update_self _ _ _, rfl, hsum⟩
      · obtain ⟨page', hpage'⟩ := h.file.slots j hj
        use page'
        rw [fileSlots_replaced, Function.update_of_ne heq]
        apply hpage'
    · intro key page' hpage'
      rw [himage]
      by_cases hkey : key = old.key
      · subst hkey
        change firstSlot _ s.filePageCnt _ = _ at hpage'
        rw [hself, Option.some_inj] at hpage'
        subst hpage'
        rw [Function.update_self]
      · change firstSlot _ s.filePageCnt _ = _ at hpage'
        rw [hother key hkey] at hpage'
        rw [Function.update_of_ne hkey]
        apply h.file.image key page' hpage'
  · intro page' hpage'
    obtain ⟨page'', hpage'', rfl⟩ := List.mem_map.mp hpage'
    split
    · apply h.index old hold
    · apply h.index page'' hpage''
  · intro page' hpage'
    obtain ⟨page'', hpage'', rfl⟩ := List.mem_map.mp hpage'
    split
    · exact ⟨Function.update_self _ _ _, hself⟩
    · rename_i hkey
      obtain ⟨hslot'', hfirst''⟩ := h.slot page'' hpage''
      have hne : page''.pageIndex ≠ old.pageIndex := by
        intro heq
        rw [heq, hslot, Option.some_inj] at hslot''
        apply hkey
        rw [hslot'']
      constructor
      · rw [fileSlots_replaced, Function.update_of_ne hne]
        apply hslot''
      · change firstSlot _ s.filePageCnt _ = _
        rw [hother _ hkey]
        apply hfirst''
  · apply h.pageCnt

/-! ### A new page -/

theorem filePageCnt_inserted (s : Storage) (key : FrameId) (page : Page) :
  (s.inserted key page).filePageCnt = s.newPageCnt
  := rfl

/-- The size of the buffer and the count of the file bound the slot that a new page takes. -/
theorem Inv.newPageCnt (h : Inv crc32 newest s) :
  s.dblwrPages.length < s.newPageCnt ∧
    (s.newPageCnt = s.filePageCnt ∨
      s.newPageCnt = s.dblwrPages.length + 1 ∧ s.dblwrPages.length ≤ s.filePageCnt)
  := by
  have hle := h.length_le
  rw [Storage.newPageCnt]
  rcases h.pageCnt with hcnt | hcnt
  · split
    · omega
    · omega
  · split
    · omega
    · omega

/-- In the slots but the one of the new page, the first one with another page has its image. -/
theorem Inv.firstSlot_inserted (h : Inv crc32 newest s) {key : FrameId} (hfree : FreeSlot s key)
    (page : Page) {key' : FrameId} (hkey : key' ≠ key) {page' : DoubleWritePage}
    (hpage' : firstSlot (s.inserted key page).fileSlots s.newPageCnt key' = some page') :
  s.image key' = some page'.page
  := by
  have hremove : firstSlot (s.inserted key page).fileSlots s.newPageCnt key'
      = firstSlot (Function.update s.fileSlots s.dblwrPages.length none) s.newPageCnt key' := by
    apply firstSlot_congr
    intro j hj page'' hpage''
    rw [fileSlots_inserted]
    by_cases heq : j = s.dblwrPages.length
    · subst heq
      simp only [Function.update_self, Option.some_inj, reduceCtorEq, iff_false]
      rintro rfl
      exact hkey hpage''.symm
    · rw [Function.update_of_ne heq, Function.update_of_ne heq]
  rw [hremove] at hpage'
  by_cases hslot : ∃ old, s.fileSlots s.dblwrPages.length = some old ∧ old.key = key'
  · obtain ⟨old, hold, rfl⟩ := hslot
    apply hfree.covered old hold hkey page' hpage'
  · -- the slot held another page, or none
    have hkeep : firstSlot (Function.update s.fileSlots s.dblwrPages.length none) s.newPageCnt key'
        = firstSlot s.fileSlots s.newPageCnt key' := by
      apply firstSlot_congr
      intro j hj page'' hpage''
      by_cases heq : j = s.dblwrPages.length
      · subst heq
        rw [Function.update_self]
        constructor
        · intro hnone
          contradiction
        · intro hold
          exact absurd ⟨page'', hold, hpage''⟩ hslot
      · rw [Function.update_of_ne heq]
    rw [hkeep] at hpage'
    obtain ⟨-, hcnt | ⟨hcnt, hle⟩⟩ := h.newPageCnt
    · rw [hcnt] at hpage'
      apply h.file.image key' page' hpage'
    · apply h.file.image key' page'
      apply firstSlot_mono hle
      rw [hcnt, firstSlot, Option.or_eq_some_iff, Option.filter_eq_some_iff,
        decide_eq_true_eq] at hpage'
      rcases hpage' with hbelow | ⟨-, hold, hpage'⟩
      · apply hbelow
      · exact absurd ⟨page', hold, hpage'⟩ hslot

theorem Inv.fileHolds_inserted (h : Inv crc32 newest s) {key : FrameId}
    (hnew : s.find key = none) (hopen : key.bufferPoolId ∈ s.pools) (hfree : FreeSlot s key)
    {page : Page} (hsum : crc32 page.data = page.checkSum) :
  FileHolds crc32 (s.inserted key page)
    ∧ firstSlot (s.inserted key page).fileSlots s.newPageCnt key
      = some ⟨key, s.dblwrPages.length, page⟩
  := by
  obtain ⟨hlt, hcnt⟩ := h.newPageCnt
  have hself : firstSlot (s.inserted key page).fileSlots s.newPageCnt key
      = some ⟨key, s.dblwrPages.length, page⟩ := by
    rw [firstSlot_eq_some]
    refine ⟨rfl, s.dblwrPages.length, hlt, Function.update_self _ _ _, ?_⟩
    intro j hj page' hpage'
    rw [fileSlots_inserted, Function.update_of_ne (by omega)] at hpage'
    apply hfree.first j hj page' hpage'
  refine ⟨?_, hself⟩
  constructor
  · intro j hj
    rw [filePageCnt_inserted] at hj
    by_cases heq : j = s.dblwrPages.length
    · subst heq
      exact ⟨_, Function.update_self _ _ _, rfl, hsum⟩
    · obtain ⟨page', hpage'⟩ := h.file.slots j (by omega)
      use page'
      rw [fileSlots_inserted, Function.update_of_ne heq]
      apply hpage'
  · intro key' page' hpage'
    rw [filePageCnt_inserted] at hpage'
    rw [image_inserted h.sound.toTidy hnew hopen]
    by_cases hkey : key' = key
    · subst hkey
      rw [hself, Option.some_inj] at hpage'
      subst hpage'
      rw [Function.update_self]
    · rw [Function.update_of_ne hkey]
      apply h.firstSlot_inserted hfree page hkey hpage'

/-- A page that stays in the buffer goes on to be the first one in the file. -/
theorem Inv.slot_inserted (h : Inv crc32 newest s) {key : FrameId} (hnew : s.find key = none)
    (page : Page) {page' : DoubleWritePage} (hpage' : page' ∈ s.dblwrPages)
    (hunused : page'.pageIndex ≠ s.dblwrPages.length) :
  (s.inserted key page).fileSlots page'.pageIndex = some page' ∧
    firstSlot (s.inserted key page).fileSlots s.newPageCnt page'.key = some page'
  := by
  obtain ⟨hslot, hfirst⟩ := h.slot page' hpage'
  obtain ⟨-, i, hi, hslot', hbefore⟩ := firstSlot_eq_some.mp hfirst
  have hindex : page'.pageIndex = i := by
    obtain ⟨page'', hpage'', heq, -⟩ := h.file.slots i hi
    rw [hslot', Option.some_inj] at hpage''
    rw [hpage'', heq]
  subst hindex
  have hkept : (s.inserted key page).fileSlots page'.pageIndex = some page' := by
    rw [fileSlots_inserted, Function.update_of_ne hunused]
    apply hslot
  refine ⟨hkept, ?_⟩
  rw [firstSlot_eq_some]
  have hlt := h.index page' hpage'
  have hcnt : page'.pageIndex < s.newPageCnt := by
    rw [Storage.newPageCnt]
    split
    · omega
    · apply hi
  refine ⟨rfl, page'.pageIndex, hcnt, hkept, ?_⟩
  intro j hj page'' hpage''
  by_cases heq : j = s.dblwrPages.length
  · subst heq
    rw [fileSlots_inserted, Function.update_self, Option.some_inj] at hpage''
    subst hpage''
    apply Ne.symm
    apply find_eq_none.mp hnew page' hpage'
  · rw [fileSlots_inserted, Function.update_of_ne heq] at hpage''
    apply hbefore j hj page'' hpage''

/-- A page is put into the buffer. -/
theorem Inv.added (h : Inv crc32 newest s) {key : FrameId} (hopen : key.bufferPoolId ∈ s.pools)
    {page : Page} (hsum : crc32 page.data = page.checkSum)
    (hfree : s.find key = none → FreeSlot s key) :
  Inv crc32 (Function.update newest key (some page)) (s.added key page)
  := by
  rw [Storage.added]
  cases hfind : s.find key with
  | some old =>
    obtain ⟨hold, rfl⟩ := mem_of_find hfind
    apply h.replaced hold hsum
  | none =>
    obtain ⟨hfile, hself⟩ := h.fileHolds_inserted hfind hopen (hfree hfind) hsum
    have hsound := h.sound.inserted hfind hopen page
    have hnewest : ∀ key', (s.inserted key page).image key'
        = Function.update newest key (some page) key' := by
      intro key'
      have heq : s.image = newest := funext h.newest
      rw [image_inserted h.sound.toTidy hfind hopen, heq]
    simp only
    split
    · apply hfile.flushed.inv hsound.flushed hnewest rfl rfl
    · rename_i hroom
      have hunused := (hfree hfind).unused (by omega)
      constructor
      · apply hsound
      · apply hnewest
      · apply hfile
      · intro page' hpage'
        change page'.pageIndex < if s.pageCnt < s.dblwrPages.length + 1 then _ else _
        rcases List.mem_append.mp hpage' with hmem | hmem
        · have hlt := h.index page' hmem
          split
          · omega
          · apply hlt
        · rw [List.mem_singleton] at hmem
          subst hmem
          change s.dblwrPages.length < _
          split
          · omega
          · omega
      · intro page' hpage'
        rw [filePageCnt_inserted]
        rcases List.mem_append.mp hpage' with hmem | hmem
        · apply h.slot_inserted hfind page hmem (hunused page' hmem)
        · rw [List.mem_singleton] at hmem
          subst hmem
          exact ⟨Function.update_self _ _ _, hself⟩
      · right
        rw [filePageCnt_inserted, Storage.newPageCnt]
        change (if s.pageCnt < s.dblwrPages.length + 1 then _ else _) = _
        have hle := h.length_le
        rcases h.pageCnt with hcnt | hcnt
        · have hsize : s.pageCnt < s.dblwrPages.length + 1 := by omega
          rw [if_pos hsize, if_pos hsize]
        · rw [hcnt]

/-! ### Restarts -/

/-- Loading the file changes no image. -/
theorem Inv.image_reloaded (h : Inv crc32 newest s) (pools : List Int) :
  image { reloaded s with pools } = s.image
  := by
  funext key
  cases hfirst : firstSlot s.fileSlots s.filePageCnt key with
  | some page =>
    obtain ⟨rfl, -⟩ := firstSlot_eq_some.mp hfirst
    rw [image_of_mem (by exact nodup_loaded _ _) (by exact mem_loaded.mpr hfirst),
      h.file.image _ page hfirst]
  | none =>
    rw [image_of_not_mem, image_of_not_mem]
    · rfl
    · intro page hpage hkey
      rw [← hkey, (h.slot page hpage).2] at hfirst
      contradiction
    · intro page hpage hkey
      rw [← hkey, mem_loaded.mp hpage] at hfirst
      contradiction

theorem Inv.restart (h : Inv crc32 newest s) {s' s'' : Storage} {pools : List Int}
    (hload : s.loadPages crc32 = (.success, s'))
    (hrecover : recover { s' with pools } = some (.success, s'')) :
  Inv crc32 newest s''
  := by
  have hslots : ∀ i < s.filePageCnt, ∃ page, s.fileSlots i = some page
      ∧ crc32 page.page.data = page.page.checkSum := by
    intro i hi
    obtain ⟨page, hslot, -, hsum⟩ := h.file.slots i hi
    exact ⟨page, hslot, hsum⟩
  rw [loadPages_eq hslots, Prod.mk.injEq] at hload
  obtain ⟨-, rfl⟩ := hload
  have himage := h.image_reloaded pools
  have hopened : ∀ page ∈ loaded s.fileSlots s.filePageCnt, page.key.bufferPoolId ∈ pools :=
    opened_of_flushPage (by exact h.sound.outcomes) hrecover
  have hsound : Sound { reloaded s with pools } :=
    ⟨⟨nodup_loaded _ _, hopened⟩, h.sound.outcomes, rfl⟩
  have hflush := hsound.flushPage
  rw [recover, hflush, Option.some_inj, Prod.mk.injEq] at hrecover
  obtain ⟨-, rfl⟩ := hrecover
  have hfile : FileHolds crc32 { reloaded s with pools } := by
    constructor
    · apply h.file.slots
    · rw [himage]
      apply h.file.image
  apply hfile.flushed.inv hsound.flushed _ rfl rfl
  intro key
  rw [image_flushed, himage, h.newest]

/-! ### Runs -/

theorem inv_step {disk : FrameId → Option Page} {h : List (Storage × Event)} {event : Event}
    {s' : Storage} (hinv : Inv crc32 (Buffer.newest disk h) s) (hstep : Step crc32 s event s')
    (hfree : TakesFreeSlot s event) :
  Inv crc32 (Buffer.newest disk ((s, event) :: h)) s'
  := by
  cases hstep with
  | addPage hopen hsum hadd =>
    rw [hinv.sound.addPage hopen, Option.some_inj, Prod.mk.injEq] at hadd
    obtain ⟨-, rfl⟩ := hadd
    apply hinv.added hopen hsum hfree
  | flushPage hflush =>
    rw [hinv.sound.flushPage, Option.some_inj, Prod.mk.injEq] at hflush
    obtain ⟨-, rfl⟩ := hflush
    apply hinv.flushed
  | clearPages hopen hclear =>
    rw [hinv.sound.clearPages, Option.some_inj, Prod.mk.injEq] at hclear
    obtain ⟨-, rfl⟩ := hclear
    apply hinv.cleared
  | openPool hnew =>
    apply hinv.pools
    intro page hpage
    apply List.mem_cons_of_mem _ (hinv.sound.opened page hpage)
  | closePool hopen hclear =>
    rename_i bufferPoolId _
    rw [hinv.sound.clearPages, Option.some_inj, Prod.mk.injEq] at hclear
    obtain ⟨-, rfl⟩ := hclear
    apply (hinv.cleared bufferPoolId).pools
    intro page hpage
    obtain ⟨hmem, hpool⟩ := List.mem_filter.mp hpage
    rw [List.mem_filter]
    exact ⟨hinv.sound.opened page hmem, hpool⟩
  | restart hload hrecover => apply hinv.restart hload hrecover

/-- The file mirrors the buffer in every run whose new pages find free slots. -/
theorem mirrors_run {maxPages : Nat} {disk : FrameId → Option Page}
    {h : List (Storage × Event)} (hrun : Run (Step crc32) (start maxPages disk) h s)
    (hfree : ∀ x ∈ h, TakesFreeSlot x.1 x.2) :
  Mirrors crc32 (Buffer.newest disk h) s
  := by
  have hinv : Inv crc32 (Buffer.newest disk h) s := by
    induction hrun with
    | refl => apply Inv.start
    | tail _ hlast ih =>
      obtain ⟨hevent, hfree⟩ := List.forall_mem_cons.mp hfree
      apply inv_step (ih hfree) hlast hevent
  apply hinv.mirrors

/-- Two pools have a page each. -/
theorem mirrors_run_two_pools :
  ∃ h s, (Run (Step fun _ => 0) (start 16 fun _ => none) h s ∧ ∀ x ∈ h, TakesFreeSlot x.1 x.2) ∧
    (s.dblwrPages.map DoubleWritePage.pageIndex = [0, 1]) ∧
    Mirrors (fun _ => 0) (Buffer.newest (fun _ => none) h) s
  := by
  let s₀ := start 16 fun _ => none
  let s₁ : Storage := { s₀ with pools := [1] }
  let s₂ : Storage := { s₁ with pools := [2, 1] }
  let s₃ := s₂.added ⟨1, 1⟩ ⟨1, 0, [1]⟩
  let s₄ := s₃.added ⟨2, 1⟩ ⟨2, 0, [2]⟩
  have hsound₂ : s₂.Sound := ⟨⟨List.nodup_nil, by intro page hpage; contradiction⟩, rfl, rfl⟩
  have hsound₃ : s₃.Sound := hsound₂.added (by decide) _
  have h₁ : Step (fun _ => 0) s₀ (.openPool 1) s₁ := .openPool (by decide)
  have h₂ : Step (fun _ => 0) s₁ (.openPool 2) s₂ := .openPool (by decide)
  have h₃ : Step (fun _ => 0) s₂ (.addPage ⟨1, 1⟩ ⟨1, 0, [1]⟩) s₃ :=
    .addPage (by decide) rfl (hsound₂.addPage (by decide) _)
  have h₄ : Step (fun _ => 0) s₃ (.addPage ⟨2, 1⟩ ⟨2, 0, [2]⟩) s₄ :=
    .addPage (by decide) rfl (hsound₃.addPage (by decide) _)
  have hrun := (((Run.refl.tail h₁).tail h₂).tail h₃).tail h₄
  have hfree : ∀ x ∈ [(s₃, Event.addPage ⟨2, 1⟩ ⟨2, 0, [2]⟩), (s₂, .addPage ⟨1, 1⟩ ⟨1, 0, [1]⟩),
      (s₁, .openPool 2), (s₀, .openPool 1)], TakesFreeSlot x.1 x.2 := by
    simp only [List.forall_mem_cons, List.not_mem_nil, false_implies, implies_true, and_true]
    refine ⟨fun _ => ⟨fun _ => by decide, ?_, ?_⟩, fun _ => ⟨fun _ => by decide, ?_, ?_⟩, trivial, trivial⟩
    · intro i hi page hpage
      have hzero : i = 0 := Nat.lt_one_iff.mp hi
      subst hzero
      cases hpage
      decide
    · intro old hold
      cases hold
    · intro i hi
      contradiction
    · intro old hold
      cases hold
  exact ⟨_, _, ⟨hrun, hfree⟩, by decide, mirrors_run hrun hfree⟩

/-- A page of one pool and a page of another are in the buffer, the first pool is cleared, and
the next page takes the slot of the page that has stayed. -/
theorem not_mirrors_after_clear :
  ∃ h s, Run (Step fun _ => 0) (start 16 fun _ => none) h s ∧
    ¬ Mirrors (fun _ => 0) (Buffer.newest (fun _ => none) h) s
  := by
  let s₀ := start 16 fun _ => none
  let s₁ : Storage := { s₀ with pools := [1] }
  let s₂ : Storage := { s₁ with pools := [2, 1] }
  let s₃ := s₂.added ⟨1, 1⟩ ⟨1, 0, [1]⟩
  let s₄ := s₃.added ⟨2, 1⟩ ⟨2, 0, [2]⟩
  let s₅ := s₄.cleared 1
  let s₆ := s₅.added ⟨2, 2⟩ ⟨3, 0, [3]⟩
  have hsound₂ : s₂.Sound := ⟨⟨List.nodup_nil, by intro page hpage; contradiction⟩, rfl, rfl⟩
  have hsound₃ : s₃.Sound := hsound₂.added (by decide) _
  have hsound₄ : s₄.Sound := hsound₃.added (by decide) _
  have hsound₅ : s₅.Sound := hsound₄.cleared 1
  have h₁ : Step (fun _ => 0) s₀ (.openPool 1) s₁ := .openPool (by decide)
  have h₂ : Step (fun _ => 0) s₁ (.openPool 2) s₂ := .openPool (by decide)
  have h₃ : Step (fun _ => 0) s₂ (.addPage ⟨1, 1⟩ ⟨1, 0, [1]⟩) s₃ :=
    .addPage (by decide) rfl (hsound₂.addPage (by decide) _)
  have h₄ : Step (fun _ => 0) s₃ (.addPage ⟨2, 1⟩ ⟨2, 0, [2]⟩) s₄ :=
    .addPage (by decide) rfl (hsound₃.addPage (by decide) _)
  have h₅ : Step (fun _ => 0) s₄ (.clearPages 1) s₅ :=
    .clearPages (by decide) (hsound₄.clearPages 1)
  have h₆ : Step (fun _ => 0) s₅ (.addPage ⟨2, 2⟩ ⟨3, 0, [3]⟩) s₆ :=
    .addPage (by decide) rfl (hsound₅.addPage (by decide) _)
  have hrun := (((((Run.refl.tail h₁).tail h₂).tail h₃).tail h₄).tail h₅).tail h₆
  refine ⟨_, _, hrun, ?_⟩
  intro hmirrors
  have hdistinct := hmirrors.distinct
  revert hdistinct
  decide
end MiniOB.Buffer
