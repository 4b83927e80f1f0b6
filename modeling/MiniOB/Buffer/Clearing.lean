import MiniOB.Buffer.Image

/-!
# What clearing the pages of a pool reports

`DiskDoubleWriteBuffer::clear_pages` takes the pages of a pool out of the buffer, writes them to
the file of the pool up to the first write that fails, and returns `SUCCESS` in either case.
-/

namespace MiniOB.Buffer

namespace Storage

/-- The pages of a pool in the order in which `DiskDoubleWriteBuffer::clear_pages` writes them. -/
def sortedPages (s : Storage) (bufferPoolId : Int) : List DoubleWritePage :=
  (s.dblwrPages.filter (·.key.bufferPoolId = bufferPoolId)).insertionSort
    fun page page' => page.key.pageNum ≤ page'.key.pageNum

/-- The pages from the first one on whose write fails. -/
def unwritten : List DoubleWritePage → List Bool → List DoubleWritePage
  | [], _ => []
  | _ :: _, [] => []
  | page :: pages, outcome :: outcomes =>
    if outcome then unwritten pages outcomes else page :: pages

/-- What clearing the pages of a pool has to report: with `SUCCESS` every page of the pool is in
its file, and with an error each page is in the file or still in the buffer. -/
structure ReportsLost (s : Storage) (bufferPoolId : Int) (rc : RC) (s' : Storage) : Prop where
  success : rc = .success → ∀ page ∈ s.dblwrPages, page.key.bufferPoolId = bufferPoolId →
    s'.disk page.key = some page.page
  failure : rc ≠ .success → ∀ page ∈ s.dblwrPages, page.key.bufferPoolId = bufferPoolId →
    s'.disk page.key = some page.page ∨ page ∈ s'.dblwrPages

variable {s s' : Storage} {bufferPoolId : Int} {rc : RC} {pages : List DoubleWritePage}

/-! ### Writing up to the first failure -/

theorem unwritten_nil (pages : List DoubleWritePage) : unwritten pages [] = [] := by
  cases pages <;> rfl

/-- The loop writes the pages in front of the first one whose write fails, and says whether there
is such a page. -/
theorem clearLoop_written (pages : List DoubleWritePage) (s : Storage) :
  ∃ front, pages = front ++ unwritten pages s.outcomes
    ∧ (clearLoop pages s).2.disk = written front s.disk
    ∧ ((clearLoop pages s).1 = .success ↔ unwritten pages s.outcomes = [])
  := by
  induction pages generalizing s with
  | nil => exact ⟨[], rfl, rfl, by simp [clearLoop, unwritten]⟩
  | cons page pages ih =>
    rw [clearLoop, writePage]
    by_cases hhead : s.outcomes.head? = some false
    · obtain ⟨outcomes, heq⟩ := List.head?_eq_some_iff.mp hhead
      rw [write, if_pos hhead, heq]
      exact ⟨[], rfl, rfl, by simp [unwritten]⟩
    · rw [write_head hhead]
      obtain ⟨front, hfront, hdisk, hrc⟩ := ih { s with
        disk := Function.update s.disk page.key (some page.page), outcomes := s.outcomes.tail }
      have hunwritten : unwritten (page :: pages) s.outcomes = unwritten pages s.outcomes.tail := by
        cases houtcomes : s.outcomes with
        | nil => rw [List.tail_nil, unwritten_nil, unwritten_nil]
        | cons outcome outcomes =>
          have htrue : outcome = true := by simpa [houtcomes] using hhead
          rw [unwritten, if_pos htrue, List.tail_cons]
      rw [hunwritten]
      exact ⟨page :: front, congrArg (page :: ·) hfront, hdisk, hrc⟩

theorem mem_sortedPages {page : DoubleWritePage} :
  page ∈ s.sortedPages bufferPoolId
    ↔ page ∈ s.dblwrPages ∧ page.key.bufferPoolId = bufferPoolId
  := by
  rw [sortedPages, (List.perm_insertionSort _ _).mem_iff, List.mem_filter, decide_eq_true_eq]

theorem sortedPages_keys (hkeys : (s.dblwrPages.map DoubleWritePage.key).Nodup)
    (bufferPoolId : Int) :
  ((s.sortedPages bufferPoolId).map DoubleWritePage.key).Nodup
  := by
  rw [sortedPages, ((List.perm_insertionSort _ _).map _).nodup_iff]
  exact hkeys.sublist (List.filter_sublist.map _)

/-! ### Clearing -/

theorem clearPages_success (hclear : s.clearPages bufferPoolId = some (rc, s')) :
  rc = .success
  := by
  rw [clearPages] at hclear
  split at hclear
  · contradiction
  · cases hclear
    rfl

/-- The pages in front of the first failure are in the file after the call, and the file holds
what it held of the others. -/
theorem disk_clearPages (hkeys : (s.dblwrPages.map DoubleWritePage.key).Nodup)
    (hclear : s.clearPages bufferPoolId = some (rc, s')) {page : DoubleWritePage}
    (hpage : page ∈ s.sortedPages bufferPoolId) :
  s'.disk page.key =
    if page ∈ unwritten (s.sortedPages bufferPoolId) s.outcomes then s.disk page.key
    else some page.page
  := by
  replace hkeys := sortedPages_keys hkeys bufferPoolId
  rw [clearPages] at hclear
  split at hclear
  · contradiction
  · cases hclear
    obtain ⟨front, hfront, hdisk, -⟩ := clearLoop_written (s.sortedPages bufferPoolId)
      { s with dblwrPages := s.dblwrPages.filter (·.key.bufferPoolId ≠ bufferPoolId) }
    rw [sortedPages] at hdisk
    rw [hdisk]
    change _ = front ++ unwritten _ s.outcomes at hfront
    rw [hfront, List.map_append, List.nodup_append] at hkeys
    obtain ⟨hnodup, -, hdisjoint⟩ := hkeys
    split_ifs with hlost
    · rw [written_of_not_mem]
      intro page' hpage'
      exact hdisjoint _ (List.mem_map_of_mem hpage') _ (List.mem_map_of_mem hlost)
    · apply written_of_mem hnodup
      rw [hfront] at hpage
      exact (List.mem_append.mp hpage).resolve_right hlost

/-- Clearing the pages of a pool reports the pages that are lost if and only if there are none:
the file has held every page from the first failing write on as the buffer has it. -/
theorem clearPages_reports_iff (hkeys : (s.dblwrPages.map DoubleWritePage.key).Nodup)
    (hclear : s.clearPages bufferPoolId = some (rc, s')) :
  s.ReportsLost bufferPoolId rc s' ↔
    ∀ page ∈ unwritten (s.sortedPages bufferPoolId) s.outcomes, s.disk page.key = some page.page
  := by
  have hrc := clearPages_success hclear
  have hsub : ∀ page ∈ unwritten (s.sortedPages bufferPoolId) s.outcomes,
      page ∈ s.sortedPages bufferPoolId := by
    obtain ⟨front, hfront, -⟩ := clearLoop_written (s.sortedPages bufferPoolId) s
    intro page hpage
    rw [hfront]
    exact List.mem_append_right front hpage
  constructor
  · intro hreports page hlost
    obtain ⟨hpage, hpool⟩ := mem_sortedPages.mp (hsub page hlost)
    have hdisk := disk_clearPages hkeys hclear (hsub page hlost)
    rw [if_pos hlost, hreports.success hrc page hpage hpool] at hdisk
    exact hdisk.symm
  · intro hheld
    refine ⟨fun _ page hpage hpool => ?_, fun hfailed => absurd hrc hfailed⟩
    rw [disk_clearPages hkeys hclear (mem_sortedPages.mpr ⟨hpage, hpool⟩)]
    split_ifs with hlost
    · exact hheld page hlost
    · rfl

/-- A pool whose pages `1` and `2` are in the buffer, and nothing in its file. -/
def twoPages (outcomes : List Bool) : Storage where
  pools := [1]
  pageCnt := 2
  dblwrPages := [⟨⟨1, 2⟩, 0, ⟨5, 0, [7]⟩⟩, ⟨⟨1, 1⟩, 1, ⟨6, 0, [8]⟩⟩]
  disk := fun _ => none
  outcomes

/-- All writes succeed. -/
theorem clearPages_reports_iff_twoPages :
  ∃ s', (twoPages [true, true]).clearPages 1 = some (.success, s')
    ∧ (twoPages [true, true]).ReportsLost 1 .success s'
  := by
  refine ⟨_, rfl, ?_⟩
  apply (clearPages_reports_iff (by decide) rfl).mpr
  decide

/-- The write of page `2` fails: it is in no file and not in the buffer, and the call returns
`SUCCESS`. -/
theorem clearPages_loses : ∃ s', (twoPages [true, false]).clearPages 1 = some (.success, s')
  ∧ ¬ (twoPages [true, false]).ReportsLost 1 .success s'
  := by
  refine ⟨_, rfl, ?_⟩
  intro hreports
  have hdisk := hreports.success rfl ⟨⟨1, 2⟩, 0, ⟨5, 0, [7]⟩⟩ (by decide) rfl
  contradiction

end Storage

end MiniOB.Buffer
