import MiniOB.Buffer.PageRedo

/-!
# The room for the bitmap of the header page

`BPFileHeader::MAX_PAGE_NUM` leaves out the field `buffer_pool_id` that stands before the bitmap.
The bits of the last 32 pages that it allows lie behind the data of the header page.
-/

namespace MiniOB.Buffer

open Transition

/-- Where the bitmap begins in the data of the header page: behind `buffer_pool_id`, `page_count`
and `allocated_pages`. -/
def bitmapOffset : Nat := 4 + 4 + 4

/-- The byte with the bit of a page lies in the data of the header page. -/
def InHeaderPage (pageNum : Nat) : Prop := bitmapOffset + pageNum / 8 < pageDataSize

instance (pageNum : Nat) : Decidable (InHeaderPage pageNum) := inferInstanceAs (Decidable (_ < _))

/-- The number of pages whose bits have room in the header page. -/
def roomForPages : Nat := (pageDataSize - bitmapOffset) * 8

theorem inHeaderPage_iff {pageNum : Nat} : InHeaderPage pageNum ↔ pageNum < roomForPages := by
  rw [InHeaderPage, roomForPages, bitmapOffset, pageDataSize]
  omega

/-- What happens to a header page: a call on its pool, or the redo of one. -/
inductive HeaderEvent where
  | call (e : PageEvent)
  | redoAllocatePage (lsn : Int) (pageNum : Nat)
  | redoDeallocatePage (lsn : Int) (pageNum : Nat)
  deriving DecidableEq, Repr

/-- A step of a header page. The header page itself is never disposed of. -/
def HeaderStep (crc32 : List UInt8 → UInt32) (bufferPoolId : Int) (header : HeaderPage)
    (e : HeaderEvent) (header' : HeaderPage) : Prop :=
  match e with
  | .call e => PageStep crc32 bufferPoolId header e header'
  | .redoAllocatePage lsn pageNum => header' = (header.redoAllocatePage lsn pageNum).2
  | .redoDeallocatePage lsn pageNum =>
    pageNum ≠ 0 ∧ header' = (header.redoDeallocatePage lsn pageNum).2

/-- A step hands out a new page behind the last one. -/
def Extends (header : HeaderPage) : HeaderEvent → Prop
  | .call (.allocatePage _ _ _) => header.firstFree = none ∧ header.pageCount < maxPageNum
  | .redoAllocatePage lsn pageNum =>
    header.lsn < lsn ∧ pageNum = header.pageCount ∧ header.pageCount < maxPageNum
  | _ => False

/-- No bit that a step of the history has changed lies outside of the header page. -/
def ChangesInside : List (HeaderPage × HeaderEvent) → HeaderPage → Prop
  | [], _ => True
  | (header, _) :: h, header' =>
    (∀ p, header'.isAllocated p ≠ header.isAllocated p → InHeaderPage p) ∧ ChangesInside h header

variable {crc32 : List UInt8 → UInt32} {bufferPoolId lsn : Int} {header header' : HeaderPage}
  {e : HeaderEvent} {h : List (HeaderPage × HeaderEvent)} {pageNum : Nat}

/-! ### Steps -/

/-- What a step does to the number of pages. -/
structure Grows (header : HeaderPage) (e : HeaderEvent) (header' : HeaderPage) : Prop where
  pageMap : PageMap header'
  extended : Extends header e →
    header'.pageCount = header.pageCount + 1 ∧ header'.isAllocated header.pageCount = true
  kept : ¬ Extends header e → header'.pageCount = header.pageCount

theorem isAllocated_extend (header : HeaderPage) (lsn : Int) :
  (header.extend.setLsn lsn).isAllocated header.pageCount = true
  := by
  change (header.mark header.pageCount).isAllocated header.pageCount = true
  rw [HeaderPage.isAllocated_mark, if_pos rfl]

/-- A free page below the last one is found. -/
theorem PageMap.firstFree_ne_none (hmap : PageMap header) (hlt : pageNum < header.pageCount)
    (hfree : header.isAllocated pageNum = false) :
  header.firstFree ≠ none
  := by
  intro hnone
  have hcount := HeaderPage.countMarked_of_firstFree hmap.counted hnone
  rw [HeaderPage.isAllocated_of_countMarked hcount hlt] at hfree
  cases hfree

/-- A file grows only if no page is free. -/
theorem PageStep.firstFree_eq_none {rc : RC} {handed : Option Nat}
    {logged : Option BufferPoolLogEntry}
    (hstep : PageStep crc32 bufferPoolId header (.allocatePage rc handed logged) header')
    (hmore : header.pageCount < header'.pageCount) :
  header.firstFree = none
  := by
  cases hstep with
  | @allocatePage fuel lsn _ manager result hcall =>
    rw [Buffer.allocatePage] at hcall
    split at hcall
    · split at hcall
      · contradiction
      · cases hcall
        exact absurd hmore (Nat.lt_irrefl _)
    · assumption

theorem PageStep.grows {e : PageEvent} (hmap : PageMap header)
    (hstep : PageStep crc32 bufferPoolId header e header') :
  Grows header (.call e) header'
  := by
  obtain ⟨hmap', -, -⟩ := hstep.pageMap hmap
  obtain ⟨rfl, rfl, hfree, hfull⟩ | ⟨i, lsn, rc, handed, rfl, hrc, hi, hfree, rfl⟩
    | ⟨lsn, rfl, hlt, rfl⟩ | ⟨i, lsn, rfl, hpos, hmarked, rfl⟩ := hstep.inv
  · refine ⟨hmap', ?_, fun _ => rfl⟩
    rintro ⟨-, hlt⟩
    omega
  · refine ⟨hmap', ?_, fun _ => rfl⟩
    rintro ⟨hnone, -⟩
    exact absurd hnone (hmap.firstFree_ne_none hi hfree)
  · refine ⟨hmap', fun _ => ⟨rfl, isAllocated_extend header lsn⟩, ?_⟩
    intro hkept
    exact absurd ⟨hstep.firstFree_eq_none (Nat.lt_succ_self _), hlt⟩ hkept
  · exact ⟨hmap', fun hextends => hextends.elim, fun _ => rfl⟩

theorem redoAllocatePage_grows (hmap : PageMap header) :
  Grows header (.redoAllocatePage lsn pageNum) (header.redoAllocatePage lsn pageNum).2
  := by
  rw [HeaderPage.redoAllocatePage]
  split_ifs with hold hlt hmarked hgap hfull
  · exact ⟨hmap, fun hnew => absurd hnew.1 (by omega), fun _ => rfl⟩
  · exact ⟨hmap, fun hlast => absurd hlast.2.1 (by omega), fun _ => rfl⟩
  · exact ⟨hmap.mark hlt (by simpa using hmarked), fun hlast => absurd hlast.2.1 (by omega),
      fun _ => rfl⟩
  · exact ⟨hmap, fun hlast => absurd hlast.2.1 (by omega), fun _ => rfl⟩
  · exact ⟨hmap, fun hroom => absurd hroom.2.2 (by omega), fun _ => rfl⟩
  · obtain rfl : pageNum = header.pageCount := by omega
    refine ⟨(hmap.extend (by omega)).setLsn lsn, fun _ => ⟨rfl, isAllocated_extend header lsn⟩, ?_⟩
    intro hkept
    exact absurd ⟨by omega, rfl, by omega⟩ hkept

theorem redoDeallocatePage_grows (hmap : PageMap header) (hpos : pageNum ≠ 0) :
  Grows header (.redoDeallocatePage lsn pageNum) (header.redoDeallocatePage lsn pageNum).2
  := by
  rw [HeaderPage.redoDeallocatePage]
  split_ifs with hold hlt hmarked
  · exact ⟨hmap, fun hextends => hextends.elim, fun _ => rfl⟩
  · exact ⟨hmap, fun hextends => hextends.elim, fun _ => rfl⟩
  · exact ⟨hmap, fun hextends => hextends.elim, fun _ => rfl⟩
  · exact ⟨(hmap.unmark (by simpa using hmarked) hpos).setLsn lsn,
      fun hextends => hextends.elim, fun _ => rfl⟩

theorem HeaderStep.grows (hmap : PageMap header)
    (hstep : HeaderStep crc32 bufferPoolId header e header') :
  Grows header e header'
  := by
  cases e with
  | call e => exact PageStep.grows hmap hstep
  | redoAllocatePage lsn pageNum =>
    obtain rfl := hstep
    exact redoAllocatePage_grows hmap
  | redoDeallocatePage lsn pageNum =>
    obtain ⟨hpos, rfl⟩ := hstep
    exact redoDeallocatePage_grows hmap hpos

/-! ### Runs -/

theorem HeaderStep.run_pageMap
    (hrun : Run (HeaderStep crc32 bufferPoolId) HeaderPage.create h header) :
  PageMap header
  := hrun.invariant PageMap.create fun _ _ _ hmap hstep => (hstep.grows hmap).pageMap

/-- A step changes bits below the number of pages only. -/
theorem Grows.changed_lt (hgrows : Grows header e header') (hmap : PageMap header)
    (hchanged : header'.isAllocated pageNum ≠ header.isAllocated pageNum) :
  pageNum < header'.pageCount
  := by
  have hcount : header.pageCount ≤ header'.pageCount := by
    by_cases hextends : Extends header e
    · rw [(hgrows.extended hextends).1]
      omega
    · rw [hgrows.kept hextends]
  by_contra hle
  apply hchanged
  rw [hgrows.pageMap.above pageNum (by omega), hmap.above pageNum (by omega)]

/-- The step that hands out a page behind the last one changes its bit. -/
theorem Grows.last_changed (hgrows : Grows header e header') (hmap : PageMap header)
    (hextends : Extends header e) :
  header'.isAllocated header.pageCount ≠ header.isAllocated header.pageCount
  := by
  rw [(hgrows.extended hextends).2, hmap.above _ le_rfl]
  decide

/-- In the run of a new file all bits that change lie in the header page if and only if no step
hands out a new page while the file has as many pages as the header page has room for. -/
theorem changesInside_iff
    (hrun : Run (HeaderStep crc32 bufferPoolId) HeaderPage.create h header) :
  ChangesInside h header ↔ ∀ x ∈ h, Extends x.1 x.2 → x.1.pageCount < roomForPages
  := by
  constructor
  · intro hinside
    induction hrun with
    | refl => simp
    | tail hrun hstep ih =>
      have hmap := HeaderStep.run_pageMap hrun
      have hgrows := hstep.grows hmap
      rw [List.forall_mem_cons]
      refine ⟨?_, ih hinside.2⟩
      intro hextends
      exact inHeaderPage_iff.mp (hinside.1 _ (hgrows.last_changed hmap hextends))
  · intro hroom
    suffices hall : ChangesInside h header ∧ header.pageCount ≤ roomForPages from hall.1
    induction hrun with
    | refl => exact ⟨trivial, by decide⟩
    | @tail _ s s' e hrun hstep ih =>
      rw [List.forall_mem_cons] at hroom
      obtain ⟨hinside, hcount⟩ := ih hroom.2
      have hmap := HeaderStep.run_pageMap hrun
      have hgrows := hstep.grows hmap
      have hcount' : s'.pageCount ≤ roomForPages := by
        by_cases hextends : Extends s e
        · rw [(hgrows.extended hextends).1]
          exact hroom.1 hextends
        · rw [hgrows.kept hextends]
          exact hcount
      refine ⟨⟨?_, hinside⟩, hcount'⟩
      intro p hchanged
      have hlt := hgrows.changed_lt hmap hchanged
      exact inHeaderPage_iff.mpr (by omega)

/-! ### A file with many pages -/

/-- The redo of allocations gives a file any number of pages up to the limit. -/
theorem exists_run_pageCount (n : Nat) (hn : n < maxPageNum) :
  ∃ h header, Run (HeaderStep crc32 bufferPoolId) HeaderPage.create h header
    ∧ header.pageCount = n + 1 ∧ header.lsn = n
  := by
  induction n with
  | zero => exact ⟨[], _, Run.refl, rfl, rfl⟩
  | succ n ih =>
    obtain ⟨h, header, hrun, hcount, hlsn⟩ := ih (by omega)
    have hstep : HeaderStep crc32 bufferPoolId header (.redoAllocatePage (n + 1) (n + 1))
        (header.redoAllocatePage (n + 1) (n + 1)).2 := rfl
    refine ⟨_, _, hrun.tail hstep, ?_⟩
    rw [HeaderPage.redoAllocatePage, if_neg (by omega), if_neg (by omega), if_neg (by omega),
      if_neg (by omega)]
    refine ⟨?_, rfl⟩
    change header.pageCount + 1 = n + 1 + 1
    rw [hcount]

/-- The page `65312` may be handed out, and its bit lies behind the header page. -/
theorem changesInside_fails : ∃ h header,
  Run (HeaderStep (fun _ => 0) 1) HeaderPage.create h header ∧ roomForPages < maxPageNum
    ∧ ¬ ChangesInside h header
  := by
  obtain ⟨h, header, hrun, hcount, hlsn⟩ :=
    @exists_run_pageCount (fun _ => 0) 1 65311 (by decide)
  have hmap := HeaderStep.run_pageMap hrun
  have hstep : HeaderStep (fun _ => 0) 1 header (.redoAllocatePage 65312 65312)
      (header.redoAllocatePage 65312 65312).2 := rfl
  have hextends : Extends header (.redoAllocatePage 65312 65312) := by
    refine ⟨by omega, hcount.symm, ?_⟩
    rw [hcount]
    decide
  refine ⟨_, _, hrun.tail hstep, by decide, ?_⟩
  rintro ⟨hinside, -⟩
  have hin := hinside _ ((hstep.grows hmap).last_changed hmap hextends)
  rw [hcount] at hin
  exact absurd hin (by decide)

/-- The first page of a new file. -/
theorem changesInside_iff_first :
  ChangesInside [(HeaderPage.create, .redoAllocatePage 1 1)] (HeaderPage.create.redoAllocatePage 1 1).2
  := by
  have hstep : HeaderStep (fun _ => 0) 1 HeaderPage.create (.redoAllocatePage 1 1)
      (HeaderPage.create.redoAllocatePage 1 1).2 := rfl
  apply (changesInside_iff (Run.refl.tail hstep)).mpr
  intro x hx _
  rw [List.mem_singleton.mp hx]
  decide

end MiniOB.Buffer
