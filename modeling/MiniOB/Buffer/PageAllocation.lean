import MiniOB.Buffer.DiskBufferPool
import MiniOB.Lib.Run
import MiniOB.Record.Bitmap

/-!
# The allocation of pages

`allocate_page` and `dispose_page` of `DiskBufferPool`, and the header page of the file that
they keep: the number of pages, the number of those in use and the bitmap that marks them. The
frames of the pool are in any state before a call.
-/

namespace MiniOB.Buffer

open Transition

/-- `BPFileHeader`, with the sequence number of the header page. -/
structure HeaderPage where
  pageCount : Nat
  allocatedPages : Int
  bitmap : Bytes
  lsn : Int

/-- `BPFileHeader::MAX_PAGE_NUM`. -/
def maxPageNum : Nat := (pageDataSize - 4 - 4) * 8

/-- `BufferPoolOperation::Type`. -/
inductive BufferPoolOperation where
  | allocate
  | deallocate
  deriving DecidableEq, Repr

/-- An entry of the module `BUFFER_POOL`, for one pool. -/
structure BufferPoolLogEntry where
  lsn : Int
  operationType : BufferPoolOperation
  pageNum : Nat
  deriving DecidableEq, Repr

namespace HeaderPage

/-- The header page that `BufferPoolManager::create_file` writes. -/
def create : HeaderPage where
  pageCount := 1
  allocatedPages := 1
  bitmap := fun i => if i = 0 then 1 else 0
  lsn := 0

/-- The bit of a page. -/
def isAllocated (header : HeaderPage) (pageNum : Nat) : Bool :=
  Bitmap.getBit header.bitmap pageNum

/-- The free page that `allocate_page` looks for. -/
def firstFree (header : HeaderPage) : Option Nat :=
  if header.allocatedPages < header.pageCount then
    (List.range header.pageCount).find? fun i => !header.isAllocated i
  else none

/-- Mark a free page. -/
def mark (header : HeaderPage) (pageNum : Nat) : HeaderPage :=
  { header with
    allocatedPages := header.allocatedPages + 1
    bitmap := Bitmap.setBit header.bitmap pageNum }

/-- Count and mark one more page. -/
def extend (header : HeaderPage) : HeaderPage :=
  { header.mark header.pageCount with pageCount := header.pageCount + 1 }

/-- Take the mark from a page. -/
def unmark (header : HeaderPage) (pageNum : Nat) : HeaderPage :=
  { header with
    allocatedPages := header.allocatedPages - 1
    bitmap := Bitmap.clearBit header.bitmap pageNum }

/-- `Frame::set_lsn` of the header page. -/
def setLsn (header : HeaderPage) (lsn : Int) : HeaderPage := { header with lsn := lsn }

end HeaderPage

/-! ### The calls -/

/-- What `allocate_page` leaves: the code it returns, the page it hands out, the header page,
the entry it has logged and the frames. -/
structure Allocation where
  rc : RC
  pageNum : Option Nat
  header : HeaderPage
  logged : Option BufferPoolLogEntry
  manager : BPFrameManager

section Calls

variable (crc32 : List UInt8 → UInt32) (fuel : Nat) (bufferPoolId lsn : Int)

/-- `DiskBufferPool::allocate_page`, to which the log gives the number `lsn`. -/
def allocatePage (header : HeaderPage) (manager : BPFrameManager) : Option Allocation :=
  match header.firstFree with
  | some i =>
    match manager.getThisPage crc32 fuel ⟨bufferPoolId, i⟩ with
    | none => none
    | some (rc, frame, manager) => some {
        rc
        pageNum := frame.map fun _ => i
        header := (header.mark i).setLsn lsn
        logged := some ⟨lsn, .allocate, i⟩
        manager }
  | none =>
    if maxPageNum ≤ header.pageCount then
      some ⟨.bufferpoolNobuf, none, header, none, manager⟩
    else
      match manager.extendPage crc32 fuel ⟨bufferPoolId, header.pageCount⟩ with
      | none => none
      | some (_, manager) => some {
          rc := .success
          pageNum := some header.pageCount
          header := header.extend.setLsn lsn
          logged := some ⟨lsn, .allocate, header.pageCount⟩
          manager }

/-- `DiskBufferPool::dispose_page`, to which the log gives the number `lsn`. -/
def disposePage (header : HeaderPage) (manager : BPFrameManager) (pageNum : Nat) :
    Option (RC × HeaderPage × BPFrameManager) :=
  if pageNum = 0 then some (.internal, header, manager)
  else
    let freed :=
      match manager.getInternal ⟨bufferPoolId, pageNum⟩ with
      | some (n, manager) => manager.freeInternal ⟨bufferPoolId, pageNum⟩ n
      | none => some manager
    freed.map fun manager => (.success, (header.unmark pageNum).setLsn lsn, manager)

end Calls

/-- A call on a pool, with its result and the entry it has logged. -/
inductive PageEvent where
  | allocatePage (rc : RC) (pageNum : Option Nat) (logged : Option BufferPoolLogEntry)
  | disposePage (pageNum : Nat) (logged : BufferPoolLogEntry)
  deriving DecidableEq, Repr

/-- The entry that a call has logged. -/
def PageEvent.logged : PageEvent → Option BufferPoolLogEntry
  | .allocatePage _ _ logged => logged
  | .disposePage _ logged => some logged

/-- A call on a pool, with the frames in any state. Only allocated pages are disposed of. -/
inductive PageStep (crc32 : List UInt8 → UInt32) (bufferPoolId : Int) :
    HeaderPage → PageEvent → HeaderPage → Prop where
  | allocatePage {fuel : Nat} {lsn : Int} {header : HeaderPage} {manager : BPFrameManager}
      {result : Allocation}
      (call : allocatePage crc32 fuel bufferPoolId lsn header manager = some result) :
      PageStep crc32 bufferPoolId header
        (.allocatePage result.rc result.pageNum result.logged) result.header
  | disposePage {lsn : Int} {header header' : HeaderPage} {manager manager' : BPFrameManager}
      {rc : RC} {pageNum : Nat} (allocated : header.isAllocated pageNum) (pos : pageNum ≠ 0)
      (call : disposePage bufferPoolId lsn header manager pageNum = some (rc, header', manager')) :
      PageStep crc32 bufferPoolId header (.disposePage pageNum ⟨lsn, .deallocate, pageNum⟩) header'

/-! ### The bits -/

namespace HeaderPage

variable {header : HeaderPage} {i j : Nat}

theorem isAllocated_mark (header : HeaderPage) (i j : Nat) :
  (header.mark i).isAllocated j = if j = i then true else header.isAllocated j
  := Bitmap.getBit_setBit _ _ _

theorem isAllocated_unmark (header : HeaderPage) (i j : Nat) :
  (header.unmark i).isAllocated j = if j = i then false else header.isAllocated j
  := Bitmap.getBit_clearBit _ _ _

/-- The number of marked pages among the first `n`. -/
def countMarked (header : HeaderPage) (n : Nat) : Nat := (List.range n).countP header.isAllocated

theorem countMarked_succ (header : HeaderPage) (n : Nat) :
  header.countMarked (n + 1) = header.countMarked n + if header.isAllocated n then 1 else 0
  := by
  rw [countMarked, List.range_succ, List.countP_append, List.countP_singleton, countMarked]

theorem countMarked_congr {header' : HeaderPage} {n : Nat}
    (h : ∀ i < n, header'.isAllocated i = header.isAllocated i) :
  header'.countMarked n = header.countMarked n
  := by
  apply List.countP_congr
  intro i hi
  rw [h i (List.mem_range.mp hi)]

/-- A free page that is marked counts. -/
theorem countMarked_mark {n : Nat} (hfree : header.isAllocated i = false) (hi : i < n) :
  (header.mark i).countMarked n = header.countMarked n + 1
  := by
  induction n with
  | zero => omega
  | succ n ih =>
    rw [countMarked_succ, countMarked_succ, isAllocated_mark]
    obtain rfl | hne := eq_or_ne n i
    · have hbelow : (header.mark n).countMarked n = header.countMarked n := by
        apply countMarked_congr
        intro j hj
        rw [isAllocated_mark, if_neg (by omega)]
      rw [if_pos rfl, hbelow, hfree]
      simp
    · rw [if_neg hne, ih (by omega)]
      omega

/-- A marked page that is unmarked does not count any more. -/
theorem countMarked_unmark {n : Nat} (hmarked : header.isAllocated i = true) (hi : i < n) :
  (header.unmark i).countMarked n + 1 = header.countMarked n
  := by
  have hfree : (header.unmark i).isAllocated i = false := by
    rw [isAllocated_unmark, if_pos rfl]
  rw [← countMarked_mark hfree hi]
  apply countMarked_congr
  intro j hj
  rw [isAllocated_mark, isAllocated_unmark]
  obtain rfl | hne := eq_or_ne j i
  · rw [if_pos rfl, hmarked]
  · rw [if_neg hne, if_neg hne]

theorem countMarked_le (header : HeaderPage) (n : Nat) : header.countMarked n ≤ n := by
  have hle := List.countP_le_length (p := header.isAllocated) (l := List.range n)
  rwa [List.length_range] at hle

/-- When all pages count, they are marked. -/
theorem isAllocated_of_countMarked {n : Nat} (h : header.countMarked n = n) (hi : i < n) :
  header.isAllocated i = true
  := by
  have hall : (List.range n).countP header.isAllocated = (List.range n).length := by
    rw [List.length_range]
    apply h
  apply List.countP_eq_length.mp hall i (List.mem_range.mpr hi)

theorem firstFree_eq_some (h : header.firstFree = some i) :
  i < header.pageCount ∧ header.isAllocated i = false
  := by
  rw [firstFree] at h
  split at h
  · have hfind := List.find?_some h
    have hmem := List.mem_of_find?_eq_some h
    exact ⟨List.mem_range.mp hmem, by simpa using hfind⟩
  · contradiction

/-- If no free page is found, all pages are marked. -/
theorem countMarked_of_firstFree (hcount : header.allocatedPages = header.countMarked header.pageCount)
    (h : header.firstFree = none) :
  header.countMarked header.pageCount = header.pageCount
  := by
  rw [firstFree] at h
  split at h
  · have hall : (List.range header.pageCount).countP header.isAllocated
        = (List.range header.pageCount).length := by
      rw [List.countP_eq_length]
      intro i hi
      have hnot := List.find?_eq_none.mp h i hi
      simpa using hnot
    rwa [List.length_range] at hall
  · have hle := header.countMarked_le header.pageCount
    omega

end HeaderPage

/-! ### The map of the pages -/

/-- The three fields of the header page agree. -/
structure PageMap (header : HeaderPage) : Prop where
  counted : header.allocatedPages = header.countMarked header.pageCount
  headerPage : header.isAllocated 0 = true
  above : ∀ i, header.pageCount ≤ i → header.isAllocated i = false
  pos : 0 < header.pageCount
  bound : header.pageCount ≤ maxPageNum

namespace PageMap

variable {header : HeaderPage} {i : Nat}

theorem create : PageMap HeaderPage.create where
  counted := by decide
  headerPage := by decide
  above := by
    intro i hi
    change (if i / 8 = 0 then (1 : BitVec 8) else 0).getLsbD (i % 8) = false
    split
    · have hlt : 1 ≤ i % 8 := by
        change 1 ≤ i at hi
        omega
      rw [show (1 : BitVec 8) = BitVec.twoPow 8 0 from rfl, BitVec.getLsbD_twoPow]
      simp
      omega
    · apply BitVec.getLsbD_zero
  pos := by decide
  bound := by decide

theorem setLsn (h : PageMap header) (lsn : Int) : PageMap (header.setLsn lsn) :=
  ⟨h.counted, h.headerPage, h.above, h.pos, h.bound⟩

theorem lt_of_isAllocated (h : PageMap header) (hi : header.isAllocated i = true) :
  i < header.pageCount
  := by
  by_contra hle
  rw [h.above i (by omega)] at hi
  contradiction

theorem mark (h : PageMap header) (hi : i < header.pageCount)
    (hfree : header.isAllocated i = false) :
  PageMap (header.mark i)
  where
  counted := by
    change header.allocatedPages + 1 = ((header.mark i).countMarked header.pageCount : Int)
    rw [HeaderPage.countMarked_mark hfree hi, h.counted]
    push_cast
    rfl
  headerPage := by
    rw [HeaderPage.isAllocated_mark, h.headerPage]
    split <;> rfl
  above := by
    intro j hj
    change header.pageCount ≤ j at hj
    rw [HeaderPage.isAllocated_mark, if_neg (by omega), h.above j hj]
  pos := h.pos
  bound := h.bound

theorem extend (h : PageMap header) (hlt : header.pageCount < maxPageNum) :
  PageMap header.extend
  where
  counted := by
    change header.allocatedPages + 1
      = ((header.mark header.pageCount).countMarked (header.pageCount + 1) : Int)
    have hfree := h.above header.pageCount (Nat.le_refl _)
    have hsucc := header.countMarked_succ header.pageCount
    rw [hfree] at hsucc
    rw [HeaderPage.countMarked_mark hfree (Nat.lt_succ_self _), hsucc, h.counted]
    simp
  headerPage := by
    change (header.mark header.pageCount).isAllocated 0 = true
    rw [HeaderPage.isAllocated_mark, h.headerPage]
    split <;> rfl
  above := by
    intro j hj
    change header.pageCount + 1 ≤ j at hj
    change (header.mark header.pageCount).isAllocated j = false
    rw [HeaderPage.isAllocated_mark, if_neg (by omega), h.above j (by omega)]
  pos := Nat.succ_pos _
  bound := hlt

theorem unmark (h : PageMap header) (hi : header.isAllocated i = true) (hpos : i ≠ 0) :
  PageMap (header.unmark i)
  where
  counted := by
    change header.allocatedPages - 1 = ((header.unmark i).countMarked header.pageCount : Int)
    rw [h.counted, ← HeaderPage.countMarked_unmark hi (h.lt_of_isAllocated hi)]
    push_cast
    omega
  headerPage := by
    rw [HeaderPage.isAllocated_unmark, if_neg hpos.symm, h.headerPage]
  above := by
    intro j hj
    change header.pageCount ≤ j at hj
    rw [HeaderPage.isAllocated_unmark, h.above j hj]
    split <;> rfl
  pos := h.pos
  bound := h.bound

/-- No page is left when none is free and the file has reached its limit. -/
theorem all_allocated (h : PageMap header) (hfree : header.firstFree = none)
    (hfull : maxPageNum ≤ header.pageCount) (hi : i < maxPageNum) :
  header.isAllocated i = true
  := by
  have hcount := HeaderPage.countMarked_of_firstFree h.counted hfree
  apply HeaderPage.isAllocated_of_countMarked hcount
  omega

end PageMap

/-! ### What a call does -/

/-- Only the bit of the page `i` may have changed. -/
def OnlyPage (i : Nat) (header header' : HeaderPage) : Prop :=
  ∀ j, j ≠ i → header'.isAllocated j = header.isAllocated j

/-- What a call promises: only the bit of one page changes. A page that is handed out was not
allocated before, and no page is left when there is no buffer. -/
def PageEvent.Honours (header : HeaderPage) : PageEvent → HeaderPage → Prop
  | .allocatePage rc pageNum _, header' =>
    (∃ i, OnlyPage i header header' ∧ ∀ n, pageNum = some n →
      n = i ∧ header.isAllocated i = false ∧ header'.isAllocated i = true)
    ∧ (rc = .success → pageNum.isSome)
    ∧ (rc = .bufferpoolNobuf → ∀ i < maxPageNum, header.isAllocated i = true)
  | .disposePage pageNum _, header' =>
    OnlyPage pageNum header header' ∧ header'.isAllocated pageNum = false

theorem onlyPage_mark (header : HeaderPage) (i : Nat) : OnlyPage i header (header.mark i) := by
  intro j hj
  rw [HeaderPage.isAllocated_mark, if_neg hj]

theorem onlyPage_unmark (header : HeaderPage) (i : Nat) : OnlyPage i header (header.unmark i) := by
  intro j hj
  rw [HeaderPage.isAllocated_unmark, if_neg hj]

section GetThisPage

variable {crc32 : List UInt8 → UInt32} {fuel : Nat} {manager manager' : BPFrameManager}
  {key : FrameId} {rc : RC} {frame : Option Nat} {n : Nat}

theorem loadPage_rc (h : manager.loadPage key n = some (rc, manager')) :
  rc = .success ∨ rc = .ioerrRead
  := by
  rw [BPFrameManager.loadPage] at h
  split at h
  · contradiction
  · cases h
    exact .inl rfl
  · split at h
    · cases h
      exact .inl rfl
    · cases h
      exact .inr rfl

/-- The codes that `get_this_page` returns. -/
theorem getThisPage_rc (h : manager.getThisPage crc32 fuel key = some (rc, frame, manager')) :
  rc = .success ∧ frame.isSome ∨ rc = .ioerrRead ∧ frame = none
  := by
  rw [BPFrameManager.getThisPage] at h
  split at h
  · cases h
    exact .inl ⟨rfl, rfl⟩
  split at h
  · contradiction
  simp only at h
  split at h
  · cases h
    exact .inl ⟨rfl, rfl⟩
  · rename_i rc' manager'' hne hload
    obtain ⟨_, _, heq⟩ := Option.map_eq_some_iff.mp h
    cases heq
    obtain rfl | rfl := loadPage_rc hload
    · exact absurd rfl hne
    · exact .inr ⟨rfl, rfl⟩
  · contradiction

end GetThisPage

variable {crc32 : List UInt8 → UInt32} {bufferPoolId : Int} {header header' : HeaderPage}
  {e : PageEvent} {h : List (HeaderPage × PageEvent)}

/-- A call finds all pages in use and does nothing, or it changes the mark of one page and
logs this. -/
theorem PageStep.inv (hstep : PageStep crc32 bufferPoolId header e header') :
  (e = .allocatePage .bufferpoolNobuf none none ∧ header' = header ∧ header.firstFree = none
      ∧ maxPageNum ≤ header.pageCount)
    ∨ (∃ i lsn rc pageNum, e = .allocatePage rc pageNum (some ⟨lsn, .allocate, i⟩)
      ∧ (rc = .success ∧ pageNum = some i ∨ rc = .ioerrRead ∧ pageNum = none)
      ∧ i < header.pageCount ∧ header.isAllocated i = false
      ∧ header' = (header.mark i).setLsn lsn)
    ∨ (∃ lsn, e = .allocatePage .success (some header.pageCount)
        (some ⟨lsn, .allocate, header.pageCount⟩)
      ∧ header.pageCount < maxPageNum ∧ header' = header.extend.setLsn lsn)
    ∨ (∃ i lsn, e = .disposePage i ⟨lsn, .deallocate, i⟩ ∧ i ≠ 0 ∧ header.isAllocated i = true
      ∧ header' = (header.unmark i).setLsn lsn)
  := by
  cases hstep with
  | @allocatePage fuel lsn _ manager result hcall =>
    rw [Buffer.allocatePage] at hcall
    split at hcall
    · rename_i i hfree
      obtain ⟨hi, hmark⟩ := HeaderPage.firstFree_eq_some hfree
      split at hcall
      · contradiction
      · rename_i rc frame manager' hget
        cases hcall
        refine .inr (.inl ⟨i, lsn, rc, frame.map fun _ => i, rfl, ?_, hi, hmark, rfl⟩)
        obtain ⟨hrc, hframe⟩ | ⟨hrc, hframe⟩ := getThisPage_rc hget
        · obtain ⟨n, rfl⟩ := Option.isSome_iff_exists.mp hframe
          exact .inl ⟨hrc, rfl⟩
        · rw [hframe]
          exact .inr ⟨hrc, rfl⟩
    · rename_i hfree
      split at hcall
      · rename_i hfull
        cases hcall
        exact .inl ⟨rfl, rfl, hfree, hfull⟩
      · rename_i hlt
        split at hcall
        · contradiction
        · cases hcall
          exact .inr (.inr (.inl ⟨lsn, rfl, by omega, rfl⟩))
  | @disposePage lsn _ _ manager manager' rc pageNum hallocated hpos hcall =>
    rw [Buffer.disposePage, if_neg hpos] at hcall
    obtain ⟨_, _, heq⟩ := Option.map_eq_some_iff.mp hcall
    cases heq
    exact .inr (.inr (.inr ⟨pageNum, lsn, rfl, hpos, hallocated, rfl⟩))

/-- A call keeps the map and does what it promises. -/
theorem PageStep.pageMap (hmap : PageMap header)
    (hstep : PageStep crc32 bufferPoolId header e header') :
  PageMap header' ∧ header.pageCount ≤ header'.pageCount ∧ e.Honours header header'
  := by
  obtain ⟨rfl, rfl, hfree, hfull⟩ | ⟨i, lsn, rc, pageNum, rfl, hrc, hi, hfree, rfl⟩
    | ⟨lsn, rfl, hlt, rfl⟩ | ⟨i, lsn, rfl, hpos, hmarked, rfl⟩ := hstep.inv
  · refine ⟨hmap, Nat.le_refl _, ⟨0, fun _ _ => rfl, ?_⟩, ?_, ?_⟩
    · intro n hn
      contradiction
    · intro hrc
      contradiction
    · intro _ i hi
      apply hmap.all_allocated hfree hfull hi
  · refine ⟨(hmap.mark hi hfree).setLsn lsn, Nat.le_refl _, ⟨i, onlyPage_mark header i, ?_⟩, ?_, ?_⟩
    · intro n hn
      obtain ⟨_, rfl⟩ | ⟨_, rfl⟩ := hrc
      · cases hn
        refine ⟨rfl, hfree, ?_⟩
        change (header.mark i).isAllocated i = true
        rw [HeaderPage.isAllocated_mark, if_pos rfl]
      · contradiction
    · rintro rfl
      obtain ⟨_, rfl⟩ | ⟨hne, _⟩ := hrc
      · rfl
      · contradiction
    · rintro rfl
      obtain ⟨hne, _⟩ | ⟨hne, _⟩ := hrc <;> contradiction
  · refine ⟨(hmap.extend hlt).setLsn lsn, Nat.le_succ _,
      ⟨header.pageCount, onlyPage_mark header header.pageCount, ?_⟩, fun _ => rfl, ?_⟩
    · intro n hn
      cases hn
      refine ⟨rfl, hmap.above _ (Nat.le_refl _), ?_⟩
      change (header.mark header.pageCount).isAllocated header.pageCount = true
      rw [HeaderPage.isAllocated_mark, if_pos rfl]
    · intro hne
      contradiction
  · refine ⟨(hmap.unmark hmarked hpos).setLsn lsn, Nat.le_refl _, onlyPage_unmark header i, ?_⟩
    change (header.unmark i).isAllocated i = false
    rw [HeaderPage.isAllocated_unmark, if_pos rfl]

/-- Calls on a new file keep the map of its pages. -/
theorem PageMap.run (hrun : Run (PageStep crc32 bufferPoolId) HeaderPage.create h header) :
  PageMap header
  := hrun.invariant PageMap.create fun _ _ _ hmap hstep => (hstep.pageMap hmap).1

/-- After any calls on a new file the fields of its header page agree, and the next call keeps
them so and does what it promises. -/
theorem pageMap_run (hrun : Run (PageStep crc32 bufferPoolId) HeaderPage.create h header) :
  PageMap header ∧ ∀ e header', PageStep crc32 bufferPoolId header e header' →
    PageMap header' ∧ header.pageCount ≤ header'.pageCount ∧ e.Honours header header'
  := by
  have hmap := PageMap.run hrun
  exact ⟨hmap, fun e header' hstep => hstep.pageMap hmap⟩

/-- A pool with one free frame and no page on disk. -/
def emptyFrames : BPFrameManager := .start { pools := [1], disk := fun _ => none } 1

/-- A page is allocated at the end of the file, disposed of and allocated again. -/
theorem pageMap_run_reused :
  ∃ h header, Run (PageStep (fun _ => 0) 1) HeaderPage.create h header
    ∧ h.map (fun x => x.2.logged.map fun entry => (entry.operationType, entry.pageNum))
      = [some (.allocate, 1), some (.deallocate, 1), some (.allocate, 1)]
    ∧ PageMap header
  := by
  have hextend : allocatePage (fun _ => 0) 1 1 1 HeaderPage.create emptyFrames
      = some ⟨.success, some 1, HeaderPage.create.extend.setLsn 1, some ⟨1, .allocate, 1⟩, _⟩ := rfl
  have hdispose : disposePage 1 2 (HeaderPage.create.extend.setLsn 1) emptyFrames 1
      = some (.success, ((HeaderPage.create.extend.setLsn 1).unmark 1).setLsn 2, _) := rfl
  have hreuse : allocatePage (fun _ => 0) 1 1 3
      (((HeaderPage.create.extend.setLsn 1).unmark 1).setLsn 2) emptyFrames
      = some ⟨.ioerrRead, none,
        ((((HeaderPage.create.extend.setLsn 1).unmark 1).setLsn 2).mark 1).setLsn 3,
        some ⟨3, .allocate, 1⟩, _⟩ := rfl
  have hrun := ((Run.refl.tail (PageStep.allocatePage hextend)).tail
    (PageStep.disposePage (by decide) (by decide) hdispose)).tail
      (PageStep.allocatePage hreuse)
  exact ⟨_, _, hrun, rfl, (pageMap_run hrun).1⟩

end MiniOB.Buffer
