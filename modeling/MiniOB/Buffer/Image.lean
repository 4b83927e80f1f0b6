import MiniOB.Buffer.DoubleWriteBuffer

/-!
# What lies below the frames

A page that is in the double write buffer is newer than its data file, so that the buffer and
the data files together hold one image of each page. As long as no write fails, adding a page
replaces its image, and flushing and clearing pages changes no image.
-/

namespace MiniOB.Buffer

namespace Storage

/-- The image of a page in the double write buffer, or in its data file. -/
def image (s : Storage) (key : FrameId) : Option Page :=
  match s.find key with
  | some page => some page.page
  | none => s.disk key

/-- The buffer holds each page once and only pages of open pools. -/
structure Tidy (s : Storage) : Prop where
  keys : (s.dblwrPages.map DoubleWritePage.key).Nodup
  opened : ∀ page ∈ s.dblwrPages, page.key.bufferPoolId ∈ s.pools

/-- A tidy buffer where no write fails or has failed. -/
structure Sound (s : Storage) : Prop extends Tidy s where
  outcomes : s.outcomes = []
  freed : s.freed = false

variable {s : Storage} {key : FrameId} {page : Page} {pages : List DoubleWritePage}

/-! ### Looking for a page -/

theorem find_eq_none : s.find key = none ↔ ∀ page ∈ s.dblwrPages, page.key ≠ key := by
  simp [find]

theorem mem_of_find {page : DoubleWritePage} (h : s.find key = some page) :
  page ∈ s.dblwrPages ∧ page.key = key
  := by
  refine ⟨List.mem_of_find?_eq_some h, ?_⟩
  have hkey := List.find?_some h
  simpa using hkey

theorem find_eq_some (hkeys : (s.dblwrPages.map DoubleWritePage.key).Nodup)
    {page : DoubleWritePage} (hpage : page ∈ s.dblwrPages) :
  s.find page.key = some page
  := by
  cases h : s.find page.key with
  | none => exact absurd rfl (find_eq_none.mp h page hpage)
  | some page' =>
    obtain ⟨hpage', hkey⟩ := mem_of_find h
    rw [List.inj_on_of_nodup_map hkeys hpage' hpage hkey]

theorem image_of_mem (hkeys : (s.dblwrPages.map DoubleWritePage.key).Nodup)
    {page : DoubleWritePage} (hpage : page ∈ s.dblwrPages) :
  s.image page.key = some page.page
  := by
  rw [image, find_eq_some hkeys hpage]

theorem image_of_not_mem (h : ∀ page ∈ s.dblwrPages, page.key ≠ key) :
  s.image key = s.disk key
  := by
  rw [image, find_eq_none.mpr h]

/-! ### Writing pages to their data files -/

theorem write_nil (h : s.outcomes = []) (change : Storage → Storage) :
  s.write change = (.success, change s)
  := by
  obtain ⟨pools, maxPages, pageCnt, dblwrPages, freed, filePageCnt, fileSlots, disk, outcomes⟩ := s
  subst h
  rfl

/-- The data files after pages have been written to them. -/
def written (pages : List DoubleWritePage) (disk : FrameId → Option Page) :
    FrameId → Option Page :=
  pages.foldl (fun disk page => Function.update disk page.key (some page.page)) disk

theorem written_of_not_mem (h : ∀ page ∈ pages, page.key ≠ key) (disk : FrameId → Option Page) :
  written pages disk key = disk key
  := by
  induction pages generalizing disk with
  | nil => rfl
  | cons page pages ih =>
    obtain ⟨hpage, hpages⟩ := List.forall_mem_cons.mp h
    rw [written, List.foldl_cons, ← written, ih hpages, Function.update_of_ne hpage.symm]

theorem written_of_mem (hkeys : (pages.map DoubleWritePage.key).Nodup) {page : DoubleWritePage}
    (hpage : page ∈ pages) (disk : FrameId → Option Page) :
  written pages disk page.key = some page.page
  := by
  induction pages generalizing disk with
  | nil => contradiction
  | cons page' pages ih =>
    rw [List.map_cons, List.nodup_cons] at hkeys
    obtain ⟨hnew, hkeys⟩ := hkeys
    rw [written, List.foldl_cons, ← written]
    rcases List.mem_cons.mp hpage with rfl | hmem
    · rw [written_of_not_mem, Function.update_self]
      intro page' hpage' heq
      apply hnew
      rw [← heq]
      apply List.mem_map_of_mem hpage'
    · apply ih hkeys hmem

theorem flushLoop_eq (houtcomes : s.outcomes = [])
    (hopened : ∀ page ∈ pages, page.key.bufferPoolId ∈ s.pools) :
  ∃ freed, flushLoop pages s = some (.success, { s with disk := written pages s.disk, freed })
  := by
  induction pages generalizing s with
  | nil => exact ⟨s.freed, rfl⟩
  | cons page pages ih =>
    obtain ⟨hpage, hpages⟩ := List.forall_mem_cons.mp hopened
    rw [flushLoop, if_pos hpage, writePage, write_nil houtcomes]
    simp only
    obtain ⟨freed, hloop⟩ := ih (s := { s with
      disk := Function.update s.disk page.key (some page.page), freed := true }) houtcomes hpages
    exact ⟨freed, hloop⟩

theorem opened_of_flushLoop {pages : List DoubleWritePage} {s : Storage}
    (houtcomes : s.outcomes = []) {result : RC × Storage}
    (h : flushLoop pages s = some result) :
  ∀ page ∈ pages, page.key.bufferPoolId ∈ s.pools
  := by
  induction pages generalizing s with
  | nil =>
    intro page hpage
    contradiction
  | cons page pages ih =>
    rw [flushLoop] at h
    split at h
    · rename_i hopen
      rw [writePage, write_nil houtcomes] at h
      simp only at h
      have hpages := ih (by exact houtcomes) h
      rw [List.forall_mem_cons]
      exact ⟨hopen, hpages⟩
    · contradiction

/-- Flushing asserts that the pools of all pages are open. -/
theorem opened_of_flushPage (houtcomes : s.outcomes = []) {result : RC × Storage}
    (h : s.flushPage = some result) :
  ∀ page ∈ s.dblwrPages, page.key.bufferPoolId ∈ s.pools
  := by
  rw [flushPage] at h
  split at h
  · contradiction
  · cases hloop : flushLoop s.dblwrPages s with
    | none =>
      rw [hloop] at h
      contradiction
    | some result' => apply opened_of_flushLoop houtcomes hloop

theorem readPage_eq (hfreed : s.freed = false) {page : DoubleWritePage}
    (h : s.find key = some page) :
  s.readPage key = some (.success, some page.page)
  := by
  rw [readPage, hfreed, if_neg Bool.false_ne_true, h]

theorem clearLoop_eq (houtcomes : s.outcomes = []) :
  clearLoop pages s = (.success, { s with disk := written pages s.disk })
  := by
  induction pages generalizing s with
  | nil => rfl
  | cons page pages ih =>
    rw [clearLoop, writePage, write_nil houtcomes]
    simp only
    rw [ih]
    · rfl
    · apply houtcomes

/-! ### The calls -/

/-- The storage after the buffer has been flushed. -/
def flushed (s : Storage) : Storage := { s with disk := s.image, dblwrPages := [], pageCnt := 0 }

/-- The storage after the pages of a pool have been cleared. -/
def cleared (s : Storage) (bufferPoolId : Int) : Storage :=
  { s with
    dblwrPages := s.dblwrPages.filter (·.key.bufferPoolId ≠ bufferPoolId)
    disk := fun key => if key.bufferPoolId = bufferPoolId then s.image key else s.disk key }

/-- The storage after a page of the buffer has got a new image. -/
def replaced (s : Storage) (old : DoubleWritePage) (page : Page) : Storage :=
  { s with
    dblwrPages := s.dblwrPages.map fun old' => if old'.key = old.key then { old with page } else old'
    fileSlots := Function.update s.fileSlots old.pageIndex (some { old with page }) }

/-- The storage after a page has been put into the buffer, before a full buffer is flushed. -/
def inserted (s : Storage) (key : FrameId) (page : Page) : Storage :=
  let size := s.dblwrPages.length
  { s with
    dblwrPages := s.dblwrPages ++ [⟨key, size, page⟩]
    fileSlots := Function.update s.fileSlots size (some ⟨key, size, page⟩)
    pageCnt := if s.pageCnt < size + 1 then size + 1 else s.pageCnt
    filePageCnt := if s.pageCnt < size + 1 then size + 1 else s.filePageCnt }

theorem fileSlots_replaced (s : Storage) (old : DoubleWritePage) (page : Page) :
  (s.replaced old page).fileSlots
    = Function.update s.fileSlots old.pageIndex (some { old with page })
  := rfl

theorem fileSlots_inserted (s : Storage) (key : FrameId) (page : Page) :
  (s.inserted key page).fileSlots = Function.update s.fileSlots s.dblwrPages.length
    (some ⟨key, s.dblwrPages.length, page⟩)
  := rfl

theorem written_dblwrPages (hkeys : (s.dblwrPages.map DoubleWritePage.key).Nodup) :
  written s.dblwrPages s.disk = s.image
  := by
  funext key
  by_cases h : ∃ page ∈ s.dblwrPages, page.key = key
  · obtain ⟨page, hpage, rfl⟩ := h
    rw [written_of_mem hkeys hpage, image_of_mem hkeys hpage]
  · push Not at h
    rw [written_of_not_mem h, image_of_not_mem h]

theorem Sound.flushPage (h : s.Sound) :
  s.flushPage = some (.success, s.flushed)
  := by
  obtain ⟨freed, hloop⟩ := flushLoop_eq h.outcomes h.opened
  rw [Storage.flushPage, h.freed, if_neg Bool.false_ne_true, hloop, written_dblwrPages h.keys]
  rw [Storage.flushed, ← h.freed]

theorem Sound.clearPages (h : s.Sound) (bufferPoolId : Int) :
  s.clearPages bufferPoolId = some (.success, s.cleared bufferPoolId)
  := by
  rw [Storage.clearPages, clearLoop_eq (by exact h.outcomes), h.freed]
  simp only [cleared, Bool.false_eq_true, if_false, Option.some_inj, Prod.mk.injEq, true_and]
  congr 1
  · apply h.freed.symm
  funext key
  set sorted := (s.dblwrPages.filter (·.key.bufferPoolId = bufferPoolId)).insertionSort
    fun page page' => page.key.pageNum ≤ page'.key.pageNum with hsorted
  have hperm : sorted.Perm (s.dblwrPages.filter (·.key.bufferPoolId = bufferPoolId)) :=
    List.perm_insertionSort _ _
  have hmem : ∀ page, page ∈ sorted ↔ page ∈ s.dblwrPages ∧ page.key.bufferPoolId = bufferPoolId := by
    intro page
    rw [hperm.mem_iff, List.mem_filter, decide_eq_true_eq]
  have hkeys : (sorted.map DoubleWritePage.key).Nodup := by
    rw [(hperm.map _).nodup_iff]
    apply h.keys.sublist (List.filter_sublist.map _)
  by_cases hkey : ∃ page ∈ s.dblwrPages, page.key = key
  · obtain ⟨page, hpage, rfl⟩ := hkey
    split
    · rename_i hpool
      rw [written_of_mem hkeys ((hmem page).mpr ⟨hpage, hpool⟩), image_of_mem h.keys hpage]
    · rename_i hpool
      rw [written_of_not_mem]
      intro page' hpage' heq
      apply hpool
      rw [← heq]
      apply ((hmem page').mp hpage').2
  · push Not at hkey
    rw [written_of_not_mem, image_of_not_mem hkey, ite_self]
    intro page hpage
    apply hkey page ((hmem page).mp hpage).1

theorem Sound.replacePage (h : s.Sound) (old : DoubleWritePage) (page : Page) :
  s.replacePage old page = (.success, s.replaced old page)
  := by
  rw [Storage.replacePage, writePageInternal, write_nil (by exact h.outcomes)]
  rfl

theorem growHeader_eq (houtcomes : s.outcomes = []) (size : Nat) :
  s.growHeader size = (.success, { s with
      pageCnt := if s.pageCnt < size then size else s.pageCnt
      filePageCnt := if s.pageCnt < size then size else s.filePageCnt })
  := by
  rw [growHeader]
  split
  · rw [writeHeader, write_nil (by exact houtcomes)]
  · rfl

theorem Tidy.replaced (h : s.Tidy) (old : DoubleWritePage) (page : Page) :
  (s.replaced old page).Tidy
  := by
  have hkeys : (s.replaced old page).dblwrPages.map DoubleWritePage.key
      = s.dblwrPages.map DoubleWritePage.key := by
    rw [Storage.replaced, List.map_map]
    apply List.map_congr_left
    intro page' hpage'
    rw [Function.comp_apply]
    split
    · rename_i heq
      rw [heq]
    · rfl
  constructor
  · rw [hkeys]
    apply h.keys
  · intro page' hpage'
    have hmem : page'.key ∈ s.dblwrPages.map DoubleWritePage.key := by
      rw [← hkeys]
      apply List.mem_map_of_mem hpage'
    obtain ⟨page'', hpage'', heq⟩ := List.mem_map.mp hmem
    rw [← heq]
    apply h.opened page'' hpage''

theorem Tidy.inserted (h : s.Tidy) (hnew : s.find key = none)
    (hopen : key.bufferPoolId ∈ s.pools) (page : Page) :
  (s.inserted key page).Tidy
  := by
  rw [find_eq_none] at hnew
  constructor
  · rw [Storage.inserted, List.map_append, List.nodup_append]
    refine ⟨h.keys, List.nodup_singleton _, ?_⟩
    intro key₁ hkey₁ key₂ hkey₂
    obtain ⟨page₁, hpage₁, rfl⟩ := List.mem_map.mp hkey₁
    rw [List.map_singleton, List.mem_singleton] at hkey₂
    rw [hkey₂]
    apply hnew page₁ hpage₁
  · intro page' hpage'
    rcases List.mem_append.mp hpage' with hmem | hmem
    · apply h.opened page' hmem
    · rw [List.mem_singleton] at hmem
      subst hmem
      apply hopen

theorem tidy_flushed (s : Storage) : s.flushed.Tidy where
  keys := List.nodup_nil
  opened := by
    intro page hpage
    contradiction

theorem Tidy.cleared (h : s.Tidy) (bufferPoolId : Int) : (s.cleared bufferPoolId).Tidy where
  keys := h.keys.sublist (List.filter_sublist.map _)
  opened := by
    intro page hpage
    apply h.opened page (List.mem_of_mem_filter hpage)

theorem Sound.replaced (h : s.Sound) (old : DoubleWritePage) (page : Page) :
  (s.replaced old page).Sound
  := ⟨h.toTidy.replaced old page, h.outcomes, h.freed⟩

theorem Sound.inserted (h : s.Sound) (hnew : s.find key = none)
    (hopen : key.bufferPoolId ∈ s.pools) (page : Page) :
  (s.inserted key page).Sound
  := ⟨h.toTidy.inserted hnew hopen page, h.outcomes, h.freed⟩

theorem Sound.flushed (h : s.Sound) : s.flushed.Sound := ⟨tidy_flushed s, h.outcomes, h.freed⟩

theorem Sound.cleared (h : s.Sound) (bufferPoolId : Int) : (s.cleared bufferPoolId).Sound :=
  ⟨h.toTidy.cleared bufferPoolId, h.outcomes, h.freed⟩

/-- The storage after a page has been put into the buffer. -/
def added (s : Storage) (key : FrameId) (page : Page) : Storage :=
  match s.find key with
  | some old => s.replaced old page
  | none =>
    if s.maxPages ≤ s.dblwrPages.length + 1 then (s.inserted key page).flushed
    else s.inserted key page

theorem Sound.insertPage (h : s.Sound) (hnew : s.find key = none)
    (hopen : key.bufferPoolId ∈ s.pools) (page : Page) :
  s.insertPage key page = some (.success,
    if s.maxPages ≤ s.dblwrPages.length + 1 then (s.inserted key page).flushed
    else s.inserted key page)
  := by
  have hsound := h.inserted hnew hopen page
  let new : DoubleWritePage := ⟨key, s.dblwrPages.length, page⟩
  have hgrow : growHeader { s with
      dblwrPages := s.dblwrPages ++ [new]
      fileSlots := Function.update s.fileSlots s.dblwrPages.length (some new) }
      (s.dblwrPages.length + 1) = (.success, s.inserted key page) := by
    rw [growHeader_eq (by exact h.outcomes)]
    rfl
  have hlength : (s.inserted key page).dblwrPages.length = s.dblwrPages.length + 1 :=
    List.length_append
  rw [Storage.insertPage, writePageInternal, write_nil (by exact h.outcomes)]
  simp only [List.length_append, List.length_singleton]
  rw [hgrow]
  simp only [hlength]
  rw [hsound.flushPage]
  change (if s.maxPages ≤ _ then _ else _) = _
  split <;> rfl

theorem Sound.addPage (h : s.Sound) (hopen : key.bufferPoolId ∈ s.pools) (page : Page) :
  s.addPage key page = some (.success, s.added key page)
  := by
  rw [Storage.addPage, added, h.freed, if_neg Bool.false_ne_true]
  cases hfind : s.find key with
  | some old =>
    simp only
    rw [h.replacePage]
  | none =>
    simp only
    rw [h.insertPage hfind hopen]

theorem Sound.added (h : s.Sound) (hopen : key.bufferPoolId ∈ s.pools) (page : Page) :
  (s.added key page).Sound
  := by
  rw [Storage.added]
  cases hfind : s.find key with
  | some old => apply h.replaced
  | none =>
    have hsound := h.inserted hfind hopen page
    simp only
    split
    · apply hsound.flushed
    · apply hsound

/-! ### The images -/

@[simp]
theorem image_flushed (s : Storage) : s.flushed.image = s.image := rfl

theorem image_cleared (h : s.Tidy) (bufferPoolId : Int) :
  (s.cleared bufferPoolId).image = s.image
  := by
  have hsound := h.cleared bufferPoolId
  funext key
  by_cases hkey : ∃ page ∈ (s.cleared bufferPoolId).dblwrPages, page.key = key
  · obtain ⟨page, hpage, rfl⟩ := hkey
    rw [image_of_mem hsound.keys hpage, image_of_mem h.keys (List.mem_of_mem_filter hpage)]
  · push Not at hkey
    rw [image_of_not_mem hkey]
    change (if key.bufferPoolId = bufferPoolId then s.image key else s.disk key) = _
    split
    · rfl
    · rename_i hpool
      rw [image_of_not_mem]
      intro page hpage heq
      refine hkey page ?_ heq
      rw [cleared, List.mem_filter, decide_eq_true_eq, heq]
      exact ⟨hpage, hpool⟩

theorem image_replaced (h : s.Tidy) {old : DoubleWritePage} (hold : old ∈ s.dblwrPages)
    (page : Page) :
  (s.replaced old page).image = Function.update s.image old.key (some page)
  := by
  have hsound := h.replaced old page
  funext key
  by_cases hkey : key = old.key
  · subst hkey
    have hmem : { old with page } ∈ (s.replaced old page).dblwrPages := by
      apply List.mem_map.mpr
      exact ⟨old, hold, if_pos rfl⟩
    rw [Function.update_self]
    apply image_of_mem hsound.keys hmem
  · rw [Function.update_of_ne hkey]
    by_cases hin : ∃ page ∈ s.dblwrPages, page.key = key
    · obtain ⟨page', hpage', rfl⟩ := hin
      have hmem : page' ∈ (s.replaced old page).dblwrPages := by
        apply List.mem_map.mpr
        exact ⟨page', hpage', if_neg hkey⟩
      rw [image_of_mem hsound.keys hmem, image_of_mem h.keys hpage']
    · push Not at hin
      rw [image_of_not_mem hin, image_of_not_mem]
      · rfl
      · intro page' hpage' heq
        obtain ⟨page'', hpage'', rfl⟩ := List.mem_map.mp hpage'
        split at heq
        · apply hkey
          rw [← heq]
        · apply hin page'' hpage'' heq

theorem image_inserted (h : s.Tidy) (hnew : s.find key = none)
    (hopen : key.bufferPoolId ∈ s.pools) (page : Page) :
  (s.inserted key page).image = Function.update s.image key (some page)
  := by
  have hsound := h.inserted hnew hopen page
  funext key'
  by_cases hkey : key' = key
  · subst hkey
    have hmem : ⟨key', s.dblwrPages.length, page⟩ ∈ (s.inserted key' page).dblwrPages :=
      List.mem_append_right _ (List.mem_singleton_self _)
    rw [Function.update_self]
    apply image_of_mem hsound.keys hmem
  · rw [Function.update_of_ne hkey]
    by_cases hin : ∃ page ∈ s.dblwrPages, page.key = key'
    · obtain ⟨page', hpage', rfl⟩ := hin
      have hmem : page' ∈ (s.inserted key page).dblwrPages := List.mem_append_left _ hpage'
      rw [image_of_mem hsound.keys hmem, image_of_mem h.keys hpage']
    · push Not at hin
      rw [image_of_not_mem hin, image_of_not_mem]
      · rfl
      · intro page' hpage'
        rcases List.mem_append.mp hpage' with hmem | hmem
        · apply hin page' hmem
        · rw [List.mem_singleton] at hmem
          subst hmem
          apply Ne.symm hkey

/-- Adding a page replaces its image. -/
theorem image_added (h : s.Tidy) (hopen : key.bufferPoolId ∈ s.pools) (page : Page) :
  (s.added key page).image = Function.update s.image key (some page)
  := by
  rw [Storage.added]
  cases hfind : s.find key with
  | some old =>
    obtain ⟨hold, rfl⟩ := mem_of_find hfind
    apply image_replaced h hold
  | none =>
    simp only
    split
    · rw [image_flushed, image_inserted h hfind hopen]
    · rw [image_inserted h hfind hopen]

@[simp]
theorem pools_added (s : Storage) (key : FrameId) (page : Page) :
  (s.added key page).pools = s.pools
  := by
  rw [added]
  split
  · rfl
  · split <;> rfl

/-! ### Writes that may fail -/

theorem write_cases (s : Storage) (change : Storage → Storage) :
  s.write change = (.success, change { s with outcomes := s.outcomes.tail })
    ∨ s.write change = (.ioerrWrite, { s with outcomes := s.outcomes.tail })
  := by
  rw [write]
  split
  · right
    rfl
  · left
    rfl

/-- The image depends on the buffer and the data files only. -/
theorem image_congr {s' : Storage} (hpages : s'.dblwrPages = s.dblwrPages)
    (hdisk : s'.disk = s.disk) :
  s'.image = s.image
  := by
  funext key
  rw [image, image, find, find, hpages, hdisk]

theorem writePageInternal_cases (s : Storage) (page : DoubleWritePage) :
  let s' := (s.writePageInternal page).2
  s'.pools = s.pools ∧ s'.dblwrPages = s.dblwrPages ∧ s'.disk = s.disk
  := by
  rw [writePageInternal]
  rcases write_cases s fun s => { s with
    fileSlots := Function.update s.fileSlots page.pageIndex (some page) } with h | h
  · rw [h]
    exact ⟨rfl, rfl, rfl⟩
  · rw [h]
    exact ⟨rfl, rfl, rfl⟩

theorem growHeader_cases (s : Storage) (size : Nat) :
  let s' := (s.growHeader size).2
  s'.pools = s.pools ∧ s'.dblwrPages = s.dblwrPages ∧ s'.disk = s.disk
  := by
  rw [growHeader]
  split
  · rw [writeHeader]
    rcases write_cases { s with pageCnt := size } fun s =>
      { s with filePageCnt := s.pageCnt } with h | h
    · rw [h]
      exact ⟨rfl, rfl, rfl⟩
    · rw [h]
      exact ⟨rfl, rfl, rfl⟩
  · exact ⟨rfl, rfl, rfl⟩

/-- What a write of pages to their data files leaves as it is. -/
structure WritesOnly (pages : List DoubleWritePage) (s s' : Storage) : Prop where
  pools : s'.pools = s.pools
  dblwrPages : s'.dblwrPages = s.dblwrPages
  disk : ∀ key, (∀ page ∈ pages, page.key ≠ key) → s'.disk key = s.disk key

theorem flushLoop_cases {pages : List DoubleWritePage} {s s' : Storage} {rc : RC}
    (h : flushLoop pages s = some (rc, s')) :
  WritesOnly pages s s' ∧ (rc = .success → s'.disk = written pages s.disk)
  := by
  induction pages generalizing s with
  | nil =>
    cases h
    exact ⟨⟨rfl, rfl, fun _ _ => rfl⟩, fun _ => rfl⟩
  | cons page pages ih =>
    rw [flushLoop] at h
    split at h
    · rw [writePage] at h
      rcases write_cases s fun s => { s with
        disk := Function.update s.disk page.key (some page.page) } with hwrite | hwrite
      · rw [hwrite] at h
        obtain ⟨hwrites, hdisk⟩ := ih h
        refine ⟨⟨hwrites.pools, hwrites.dblwrPages, ?_⟩, hdisk⟩
        intro key hkey
        obtain ⟨hpage, hpages⟩ := List.forall_mem_cons.mp hkey
        rw [hwrites.disk key hpages]
        apply Function.update_of_ne hpage.symm
      · rw [hwrite] at h
        cases h
        exact ⟨⟨rfl, rfl, fun _ _ => rfl⟩, fun hrc => by cases hrc⟩
    · contradiction

theorem write_head (h : s.outcomes.head? ≠ some false) (change : Storage → Storage) :
  s.write change = (.success, change { s with outcomes := s.outcomes.tail })
  := if_neg h

theorem flushLoop_success_iff {pages : List DoubleWritePage} {s s' : Storage} {rc : RC}
    (h : flushLoop pages s = some (rc, s')) :
  rc = .success ↔ ∀ outcome ∈ s.outcomes.take pages.length, outcome = true
  := by
  induction pages generalizing s with
  | nil =>
    cases h
    simp
  | cons page pages ih =>
    rw [flushLoop] at h
    split at h
    · rw [writePage] at h
      by_cases hhead : s.outcomes.head? = some false
      · rw [write, if_pos hhead] at h
        cases h
        obtain ⟨outcomes, heq⟩ := List.head?_eq_some_iff.mp hhead
        constructor
        · intro hrc
          contradiction
        · intro hall
          have hfalse := hall false (by rw [heq]; simp)
          contradiction
      · rw [write_head hhead] at h
        rw [ih h, List.length_cons]
        change (∀ outcome ∈ s.outcomes.tail.take pages.length, _) ↔ _
        cases houtcomes : s.outcomes with
        | nil => simp
        | cons outcome outcomes =>
          have htrue : outcome = true := by simpa [houtcomes] using hhead
          rw [List.tail_cons, List.take_succ_cons, List.forall_mem_cons]
          exact ⟨fun hrest => ⟨htrue, hrest⟩, And.right⟩
    · contradiction

/-- Flushing succeeds when the writes of all pages do. -/
theorem flushPage_success_iff {s' : Storage} {rc : RC} (h : s.flushPage = some (rc, s')) :
  rc = .success ↔ ∀ outcome ∈ s.outcomes.take s.dblwrPages.length, outcome = true
  := by
  rw [flushPage] at h
  split at h
  · contradiction
  · split at h
    · rename_i s'' hloop
      cases h
      rw [← flushLoop_success_iff hloop]
    · rw [← flushLoop_success_iff h]

/-- A flush that succeeds leaves no page in the buffer. -/
theorem dblwrPages_of_flushPage {s' : Storage} (h : s.flushPage = some (.success, s')) :
  s'.dblwrPages = []
  := by
  rw [flushPage] at h
  split at h
  · contradiction
  · split at h
    · cases h
      rfl
    · rename_i hne
      exact absurd h (hne s')

/-- Flushing changes no image, whether it fails or not. -/
theorem Tidy.flushPage_cases (h : s.Tidy) {rc : RC} {s' : Storage}
    (hflush : s.flushPage = some (rc, s')) :
  s'.Tidy ∧ s'.image = s.image ∧ s'.pools = s.pools
  := by
  rw [flushPage] at hflush
  split at hflush
  · contradiction
  · split at hflush
    · rename_i s'' hloop
      obtain ⟨hwrites, hdisk⟩ := flushLoop_cases hloop
      cases hflush
      refine ⟨⟨List.nodup_nil, fun page hpage => by contradiction⟩, ?_, hwrites.pools⟩
      funext key
      change s''.disk key = _
      rw [hdisk rfl, written_dblwrPages h.keys]
    · obtain ⟨hwrites, -⟩ := flushLoop_cases hflush
      have htidy : s'.Tidy := by
        constructor
        · rw [hwrites.dblwrPages]
          apply h.keys
        · rw [hwrites.dblwrPages, hwrites.pools]
          apply h.opened
      refine ⟨htidy, ?_, hwrites.pools⟩
      funext key
      by_cases hkey : ∃ page ∈ s.dblwrPages, page.key = key
      · obtain ⟨page, hpage, rfl⟩ := hkey
        rw [image_of_mem h.keys hpage, image_of_mem htidy.keys (hwrites.dblwrPages ▸ hpage)]
      · push Not at hkey
        rw [image_of_not_mem hkey, image_of_not_mem (hwrites.dblwrPages ▸ hkey),
          hwrites.disk key hkey]

/-- A page has got a new image. -/
structure Adds (key : FrameId) (page : Page) (s s' : Storage) : Prop where
  tidy : s'.Tidy
  image : s'.image = Function.update s.image key (some page)
  pools : s'.pools = s.pools

theorem Adds.congr {s₁ s₂ : Storage} (h : Adds key page s s₁) (hpools : s₂.pools = s₁.pools)
    (hpages : s₂.dblwrPages = s₁.dblwrPages) (hdisk : s₂.disk = s₁.disk) :
  Adds key page s s₂
  where
  tidy := by
    constructor
    · rw [hpages]
      apply h.tidy.keys
    · rw [hpages, hpools]
      apply h.tidy.opened
  image := by rw [image_congr hpages hdisk, h.image]
  pools := by rw [hpools, h.pools]

theorem Tidy.insertPage_cases (h : s.Tidy) (hnew : s.find key = none)
    (hopen : key.bufferPoolId ∈ s.pools) {page : Page} {rc : RC} {s' : Storage}
    (hinsert : s.insertPage key page = some (rc, s')) :
  Adds key page s s'
  := by
  let new : DoubleWritePage := ⟨key, s.dblwrPages.length, page⟩
  have hadds : Adds key page s (s.inserted key page) :=
    ⟨h.inserted hnew hopen page, image_inserted h hnew hopen page, rfl⟩
  rw [insertPage] at hinsert
  obtain ⟨hpools, hpages, hdisk⟩ :=
    writePageInternal_cases { s with dblwrPages := s.dblwrPages ++ [new] } new
  have hpage := hadds.congr hpools hpages hdisk
  revert hinsert hpage
  rcases writePageInternal { s with dblwrPages := s.dblwrPages ++ [new] } new with ⟨rc₁, s₁⟩
  intro hinsert hpage
  split at hinsert
  · rename_i s₁' hwrite
    cases hwrite
    obtain ⟨hpools, hpages, hdisk⟩ := growHeader_cases s₁ s₁.dblwrPages.length
    have hheader := hpage.congr hpools hpages hdisk
    revert hinsert hheader
    rcases s₁.growHeader s₁.dblwrPages.length with ⟨rc₂, s₂⟩
    intro hinsert hheader
    split at hinsert
    · rename_i s₂' hgrow
      cases hgrow
      split at hinsert
      · obtain ⟨htidy, himage, hpools⟩ := hheader.tidy.flushPage_cases hinsert
        exact ⟨htidy, by rw [himage, hheader.image], by rw [hpools, hheader.pools]⟩
      · cases hinsert
        apply hheader
    · cases hinsert
      apply hheader
  · cases hinsert
    apply hpage

/-- Adding a page replaces its image, whether the writes fail or not. -/
theorem Tidy.addPage_cases (h : s.Tidy) (hopen : key.bufferPoolId ∈ s.pools) {page : Page}
    {rc : RC} {s' : Storage} (hadd : s.addPage key page = some (rc, s')) :
  Adds key page s s'
  := by
  rw [addPage] at hadd
  split at hadd
  · contradiction
  split at hadd
  · -- the page is in the buffer
    rename_i old hfind
    obtain ⟨hold, rfl⟩ := mem_of_find hfind
    have hadds : Adds old.key page s (s.replaced old page) :=
      ⟨h.replaced old page, image_replaced h hold page, rfl⟩
    obtain ⟨hpools, hpages, hdisk⟩ := writePageInternal_cases { s with
      dblwrPages := (s.replaced old page).dblwrPages } { old with page }
    have hpage := hadds.congr hpools hpages hdisk
    rw [Option.some_inj] at hadd
    have hs' : (s.replacePage old page).2 = s' := congrArg Prod.snd hadd
    rw [← hs']
    apply hpage
  · rename_i hfind
    apply h.insertPage_cases hfind hopen hadd

end Storage

end MiniOB.Buffer
