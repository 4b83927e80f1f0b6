import MiniOB.Buffer.PageAllocation

/-!
# The redo of page allocation

The entries that `allocate_page` and `dispose_page` have logged are replayed on a header page of
some earlier moment. The redo of a page that is taken again leaves the sequence number of the
header page as it is, so a second replay meets such entries again.
-/

namespace MiniOB.Buffer

open Transition

namespace HeaderPage

/-- `DiskBufferPool::redo_allocate_page`. -/
def redoAllocatePage (header : HeaderPage) (lsn : Int) (pageNum : Nat) : RC × HeaderPage :=
  if lsn ≤ header.lsn then (.success, header)
  else if pageNum < header.pageCount then
    if header.isAllocated pageNum then (.success, header)
    else (.success, header.mark pageNum)
  else if header.pageCount < pageNum then (.internal, header)
  else if maxPageNum ≤ header.pageCount then (.internal, header)
  else (.success, ({ header.mark pageNum with pageCount := header.pageCount + 1 }).setLsn lsn)

/-- `DiskBufferPool::redo_deallocate_page`. -/
def redoDeallocatePage (header : HeaderPage) (lsn : Int) (pageNum : Nat) : RC × HeaderPage :=
  if lsn ≤ header.lsn then (.success, header)
  else if header.pageCount ≤ pageNum then (.internal, header)
  else if !header.isAllocated pageNum then (.internal, header)
  else (.success, (header.unmark pageNum).setLsn lsn)

/-- `BufferPoolLogReplayer::replay` of an entry of this pool. -/
def replay (header : HeaderPage) (entry : BufferPoolLogEntry) : RC × HeaderPage :=
  match entry.operationType with
  | .allocate => header.redoAllocatePage entry.lsn entry.pageNum
  | .deallocate => header.redoDeallocatePage entry.lsn entry.pageNum

/-- The entries are replayed one after another, up to the first that fails. -/
def replayLog : HeaderPage → List BufferPoolLogEntry → RC × HeaderPage
  | header, [] => (.success, header)
  | header, entry :: log =>
    match header.replay entry with
    | (.success, header) => header.replayLog log
    | (rc, header) => (rc, header)

/-- Two header pages describe the same pages. -/
structure SameMap (header header' : HeaderPage) : Prop where
  pageCount : header.pageCount = header'.pageCount
  allocatedPages : header.allocatedPages = header'.allocatedPages
  bitmap : header.bitmap = header'.bitmap

end HeaderPage

/-- A call on a pool whose entry gets a number beyond all earlier ones. -/
def LoggedStep (crc32 : List UInt8 → UInt32) (bufferPoolId : Int)
    (header : HeaderPage) (e : PageEvent) (header' : HeaderPage) : Prop :=
  PageStep crc32 bufferPoolId header e header'
    ∧ ∀ entry, e.logged = some entry → header.lsn < entry.lsn

/-- The log of a history, the oldest entry first. -/
def logOf (h : List (HeaderPage × PageEvent)) : List BufferPoolLogEntry :=
  h.reverse.filterMap fun x => x.2.logged

/-- The header pages that interrupted replays of the log leave. -/
inductive Restarted (log : List BufferPoolLogEntry) (start : HeaderPage) : HeaderPage → Prop where
  | start : Restarted log start start
  | interrupted {header : HeaderPage} {done : List BufferPoolLogEntry}
      (restarted : Restarted log start header) (isPrefix : done <+: log) :
      Restarted log start (header.replayLog done).2

/-! ### Replays of a part of the log -/

namespace HeaderPage

variable {header header' kept : HeaderPage} {entry : BufferPoolLogEntry}
  {log done : List BufferPoolLogEntry} {i : Nat}

theorem replayLog_cons (h : header.replay entry = (.success, header')) :
  header.replayLog (entry :: log) = header'.replayLog log
  := by
  rw [replayLog, h]

theorem replayLog_append (h : header.replayLog done = (.success, header')) :
  header.replayLog (done ++ log) = header'.replayLog log
  := by
  induction done generalizing header with
  | nil =>
    cases h
    rfl
  | cons entry done ih =>
    rw [replayLog] at h
    split at h
    · rename_i next hentry
      rw [List.cons_append, replayLog_cons hentry, ih h]
    · rename_i rc next hne hentry
      cases h
      exact absurd rfl hne

/-- Entries that change nothing alone change nothing together. -/
theorem replayLog_of_forall (h : ∀ entry ∈ log, header.replay entry = (.success, header)) :
  header.replayLog log = (.success, header)
  := by
  induction log with
  | nil => rfl
  | cons entry log ih =>
    rw [replayLog_cons (h entry List.mem_cons_self)]
    apply ih
    intro entry hmem
    apply h entry (List.mem_cons_of_mem _ hmem)

namespace SameMap

theorem refl (header : HeaderPage) : SameMap header header := ⟨rfl, rfl, rfl⟩

theorem isAllocated (h : SameMap header header') (i : Nat) :
  header.isAllocated i = header'.isAllocated i
  := by
  rw [HeaderPage.isAllocated, HeaderPage.isAllocated, h.bitmap]

theorem mark (h : SameMap header header') (i : Nat) : SameMap (header.mark i) (header'.mark i) := by
  refine ⟨h.pageCount, ?_, ?_⟩
  · rw [HeaderPage.mark, HeaderPage.mark, h.allocatedPages]
  · rw [HeaderPage.mark, HeaderPage.mark, h.bitmap]

theorem extend (h : SameMap header header') : SameMap header.extend header'.extend := by
  have hmark := h.mark header.pageCount
  refine ⟨?_, hmark.allocatedPages, ?_⟩
  · rw [HeaderPage.extend, HeaderPage.extend, h.pageCount]
  · rw [HeaderPage.extend, HeaderPage.extend, hmark.bitmap, h.pageCount]

theorem unmark (h : SameMap header header') (i : Nat) :
  SameMap (header.unmark i) (header'.unmark i)
  := by
  refine ⟨h.pageCount, ?_, ?_⟩
  · rw [HeaderPage.unmark, HeaderPage.unmark, h.allocatedPages]
  · rw [HeaderPage.unmark, HeaderPage.unmark, h.bitmap]

theorem setLsn (h : SameMap header header') (lsn lsn' : Int) :
  SameMap (header.setLsn lsn) (header'.setLsn lsn')
  := ⟨h.pageCount, h.allocatedPages, h.bitmap⟩

end SameMap

end HeaderPage

/-! ### A header page that is behind -/

open HeaderPage (SameMap)

/-- The header page `kept` describes the pages as `header` does, after the entries `done`. Those
that its number does not skip allocate pages that are allocated already. -/
structure Behind (done : List BufferPoolLogEntry) (kept header : HeaderPage) : Prop where
  same : SameMap kept header
  lsn_le : kept.lsn ≤ header.lsn
  done_le : ∀ entry ∈ done, entry.lsn ≤ header.lsn
  again : ∀ entry ∈ done, entry.lsn ≤ kept.lsn ∨ (entry.operationType = .allocate
    ∧ entry.pageNum < kept.pageCount ∧ kept.isAllocated entry.pageNum = true)

section Behind

variable {crc32 : List UInt8 → UInt32} {bufferPoolId : Int} {header header' kept : HeaderPage}
  {e : PageEvent} {entry : BufferPoolLogEntry} {h : List (HeaderPage × PageEvent)}
  {done log : List BufferPoolLogEntry}

/-- The entries that are done change nothing. -/
theorem Behind.replay_done (hbehind : Behind done kept header) (hmem : entry ∈ done) :
  kept.replay entry = (.success, kept)
  := by
  obtain hle | ⟨htype, hlt, hallocated⟩ := hbehind.again entry hmem
  · rw [HeaderPage.replay]
    split
    · rw [HeaderPage.redoAllocatePage, if_pos hle]
    · rw [HeaderPage.redoDeallocatePage, if_pos hle]
  · rw [HeaderPage.replay, htype]
    change kept.redoAllocatePage entry.lsn entry.pageNum = _
    rw [HeaderPage.redoAllocatePage, if_pos hlt, if_pos hallocated, ite_self]

theorem Behind.replayLog_done (hbehind : Behind done kept header) (hlog : log ⊆ done) :
  kept.replayLog log = (.success, kept)
  := HeaderPage.replayLog_of_forall fun _ hmem => hbehind.replay_done (hlog hmem)

/-- The replay of a page that has been taken again. -/
theorem Behind.replay_mark (hbehind : Behind done kept header)
    (hlsn : header.lsn < entry.lsn) (htype : entry.operationType = .allocate)
    (hlt : entry.pageNum < header.pageCount) (hfree : header.isAllocated entry.pageNum = false) :
  kept.replay entry = (.success, kept.mark entry.pageNum)
    ∧ Behind (done ++ [entry]) (kept.mark entry.pageNum)
      ((header.mark entry.pageNum).setLsn entry.lsn)
  := by
  have hkept := hbehind.lsn_le
  have hlt' : entry.pageNum < kept.pageCount := by
    rw [hbehind.same.pageCount]
    apply hlt
  constructor
  · rw [HeaderPage.replay, htype]
    change kept.redoAllocatePage entry.lsn entry.pageNum = _
    rw [HeaderPage.redoAllocatePage, if_neg (by omega), if_pos hlt', hbehind.same.isAllocated,
      hfree]
    rfl
  · refine ⟨(hbehind.same.mark _).setLsn kept.lsn entry.lsn, ?_, ?_, ?_⟩
    · change kept.lsn ≤ entry.lsn
      omega
    · intro old hmem
      change old.lsn ≤ entry.lsn
      obtain hmem | hmem := List.mem_append.mp hmem
      · have hle := hbehind.done_le old hmem
        omega
      · rw [List.mem_singleton.mp hmem]
    · intro old hmem
      obtain hmem | hmem := List.mem_append.mp hmem
      · obtain hle | ⟨htype, hlt, hallocated⟩ := hbehind.again old hmem
        · exact .inl hle
        · refine .inr ⟨htype, hlt, ?_⟩
          rw [HeaderPage.isAllocated_mark, hallocated, ite_self]
      · rw [List.mem_singleton.mp hmem]
        refine .inr ⟨htype, hlt', ?_⟩
        rw [HeaderPage.isAllocated_mark, if_pos rfl]

/-- When the header page has the number of the last entry, all entries are skipped. -/
theorem Behind.of_lsn (hbehind : Behind done kept header) (hlsn : header.lsn < entry.lsn)
    {kept' next : HeaderPage} (hsame : SameMap kept' next) :
  Behind (done ++ [entry]) (kept'.setLsn entry.lsn) (next.setLsn entry.lsn)
  := by
  have hdone : ∀ old ∈ done ++ [entry], old.lsn ≤ entry.lsn := by
    intro old hmem
    obtain hmem | hmem := List.mem_append.mp hmem
    · have hle := hbehind.done_le old hmem
      omega
    · rw [List.mem_singleton.mp hmem]
  exact ⟨hsame.setLsn _ _, Int.le_refl _, hdone, fun old hmem => .inl (hdone old hmem)⟩

theorem Behind.replay_extend (hbehind : Behind done kept header)
    (hlsn : header.lsn < entry.lsn) (htype : entry.operationType = .allocate)
    (hcount : entry.pageNum = header.pageCount) (hlt : header.pageCount < maxPageNum) :
  kept.replay entry = (.success, kept.extend.setLsn entry.lsn)
    ∧ Behind (done ++ [entry]) (kept.extend.setLsn entry.lsn) (header.extend.setLsn entry.lsn)
  := by
  have hkept := hbehind.lsn_le
  have hcount' := hbehind.same.pageCount
  constructor
  · rw [HeaderPage.replay, htype]
    change kept.redoAllocatePage entry.lsn entry.pageNum = _
    rw [HeaderPage.redoAllocatePage, if_neg (by omega), if_neg (by omega), if_neg (by omega),
      if_neg (by omega), show entry.pageNum = kept.pageCount by omega]
    rfl
  · apply hbehind.of_lsn hlsn hbehind.same.extend

theorem Behind.replay_unmark (hbehind : Behind done kept header)
    (hlsn : header.lsn < entry.lsn) (htype : entry.operationType = .deallocate)
    (hlt : entry.pageNum < header.pageCount)
    (hallocated : header.isAllocated entry.pageNum = true) :
  kept.replay entry = (.success, (kept.unmark entry.pageNum).setLsn entry.lsn)
    ∧ Behind (done ++ [entry]) ((kept.unmark entry.pageNum).setLsn entry.lsn)
      ((header.unmark entry.pageNum).setLsn entry.lsn)
  := by
  have hkept := hbehind.lsn_le
  have hcount := hbehind.same.pageCount
  constructor
  · rw [HeaderPage.replay, htype]
    change kept.redoDeallocatePage entry.lsn entry.pageNum = _
    rw [HeaderPage.redoDeallocatePage, if_neg (by omega), if_neg (by omega),
      hbehind.same.isAllocated, hallocated]
    rfl
  · apply hbehind.of_lsn hlsn (hbehind.same.unmark _)

/-- The entry of a call takes a header page that is behind along. -/
theorem Behind.step (hbehind : Behind done kept header) (hmap : PageMap header)
    (hstep : LoggedStep crc32 bufferPoolId header e header') :
  ∃ kept', kept.replayLog e.logged.toList = (.success, kept')
    ∧ Behind (done ++ e.logged.toList) kept' header'
  := by
  obtain ⟨hstep, hlsn⟩ := hstep
  obtain ⟨rfl, rfl, _, _⟩ | ⟨i, lsn, rc, pageNum, rfl, _, hi, hfree, rfl⟩
    | ⟨lsn, rfl, hlt, rfl⟩ | ⟨i, lsn, rfl, hpos, hmarked, rfl⟩ := hstep.inv
  · refine ⟨kept, rfl, ?_⟩
    rw [PageEvent.logged, Option.toList_none, List.append_nil]
    apply hbehind
  · obtain ⟨hreplay, hnext⟩ := hbehind.replay_mark (hlsn _ rfl) rfl hi hfree
    exact ⟨_, HeaderPage.replayLog_cons hreplay, hnext⟩
  · obtain ⟨hreplay, hnext⟩ := hbehind.replay_extend (hlsn _ rfl) rfl rfl hlt
    exact ⟨_, HeaderPage.replayLog_cons hreplay, hnext⟩
  · obtain ⟨hreplay, hnext⟩ :=
      hbehind.replay_unmark (hlsn _ rfl) rfl (hmap.lt_of_isAllocated hmarked) hmarked
    exact ⟨_, HeaderPage.replayLog_cons hreplay, hnext⟩

theorem logOf_append (h h' : List (HeaderPage × PageEvent)) :
  logOf (h' ++ h) = logOf h ++ logOf h'
  := by
  rw [logOf, List.reverse_append, List.filterMap_append, logOf, logOf]

theorem logOf_cons (x : HeaderPage × PageEvent) (h : List (HeaderPage × PageEvent)) :
  logOf (x :: h) = logOf h ++ x.2.logged.toList
  := by
  rw [← List.singleton_append, logOf_append]
  rcases x with ⟨header, e⟩
  cases hlogged : e.logged <;> simp [logOf, hlogged]

/-- A part of the log belongs to a part of the history. -/
theorem logOf_prefix (hdone : done <+: logOf h) : ∃ h₁ h₂, h = h₂ ++ h₁ ∧ done = logOf h₁ := by
  obtain ⟨rest, hrest⟩ := hdone
  obtain ⟨l₁, l₂, hl, rfl, _⟩ := List.filterMap_eq_append_iff.mp hrest.symm
  refine ⟨l₁.reverse, l₂.reverse, ?_, ?_⟩
  · rw [← List.reverse_append, ← hl, List.reverse_reverse]
  · rw [logOf, List.reverse_reverse]

theorem PageMap.logged_run (hmap : PageMap header)
    (hrun : Run (LoggedStep crc32 bufferPoolId) header h header') :
  PageMap header'
  := hrun.invariant hmap fun _ _ _ hmap hstep => (hstep.1.pageMap hmap).1

/-- The log of a history takes a header page that is behind along. -/
theorem Behind.run (hbehind : Behind done kept header) (hmap : PageMap header)
    (hrun : Run (LoggedStep crc32 bufferPoolId) header h header') :
  ∃ kept', kept.replayLog (logOf h) = (.success, kept') ∧ Behind (done ++ logOf h) kept' header'
  := by
  induction hrun with
  | refl =>
    refine ⟨kept, rfl, ?_⟩
    rwa [logOf, List.reverse_nil, List.filterMap_nil, List.append_nil]
  | tail hrun hlast ih =>
    obtain ⟨middle, hreplay, hmiddle⟩ := ih
    obtain ⟨kept', hreplay', hkept'⟩ := hmiddle.step (hmap.logged_run hrun) hlast
    refine ⟨kept', ?_, ?_⟩
    · rw [logOf_cons, HeaderPage.replayLog_append hreplay, hreplay']
    · rwa [logOf_cons, ← List.append_assoc]

/-! ### Replays from any moment -/

/-- The header page `kept` stems from a moment of the history `h`. -/
def FromMoment (crc32 : List UInt8 → UInt32) (bufferPoolId : Int)
    (h : List (HeaderPage × PageEvent)) (kept last : HeaderPage) : Prop :=
  ∃ h₁ h₂ header, h = h₂ ++ h₁ ∧ Run (LoggedStep crc32 bufferPoolId) HeaderPage.create h₁ header
    ∧ Run (LoggedStep crc32 bufferPoolId) header h₂ last ∧ Behind (logOf h₁) kept header

variable {last : HeaderPage} {h₁ h₂ : List (HeaderPage × PageEvent)}

theorem Behind.start : Behind [] HeaderPage.create HeaderPage.create :=
  ⟨SameMap.refl _, Int.le_refl _, List.forall_mem_nil _, List.forall_mem_nil _⟩

theorem FromMoment.of_run (hfirst : Run (LoggedStep crc32 bufferPoolId) HeaderPage.create h₁ header)
    (hrest : Run (LoggedStep crc32 bufferPoolId) header h₂ last) :
  FromMoment crc32 bufferPoolId (h₂ ++ h₁) header last
  := by
  obtain ⟨kept, _, hkept⟩ := Behind.start.run PageMap.create hfirst
  exact ⟨h₁, h₂, header, rfl, hfirst, hrest, ⟨SameMap.refl _, Int.le_refl _, hkept.done_le,
    fun entry hmem => .inl (hkept.done_le entry hmem)⟩⟩

/-- The replay of a part of the log succeeds and leads to a moment at its end or after it. -/
theorem FromMoment.replayLog (hkept : FromMoment crc32 bufferPoolId h kept last)
    (hdone : done <+: logOf h) :
  ∃ kept', kept.replayLog done = (.success, kept')
    ∧ FromMoment crc32 bufferPoolId h kept' last
  := by
  obtain ⟨h₁, h₂, header, rfl, hfirst, hrest, hbehind⟩ := hkept
  obtain ⟨g₁, g₂, hsplit, rfl⟩ := logOf_prefix hdone
  obtain ⟨g, rfl, rfl⟩ | ⟨g, rfl, rfl⟩ := List.append_eq_append_iff.mp hsplit
  · -- The part ends before the moment: its entries are done.
    refine ⟨kept, ?_, g ++ g₁, h₂, header, rfl, hfirst, hrest, hbehind⟩
    apply hbehind.replayLog_done
    rw [logOf_append]
    apply List.subset_append_left
  · -- The part ends after the moment: its rest is a part of the steps that follow.
    obtain ⟨middle, hmiddle, hlast⟩ := hrest.split
    have hmap := PageMap.create.logged_run hfirst
    obtain ⟨kept', hreplay, hkept'⟩ := hbehind.run hmap hmiddle
    refine ⟨kept', ?_, g ++ h₁, g₂, middle, (List.append_assoc _ _ _), hfirst.trans hmiddle,
      hlast, ?_⟩
    · rw [logOf_append, HeaderPage.replayLog_append (hbehind.replayLog_done fun _ hmem => hmem),
        hreplay]
    · rwa [logOf_append]

/-- After the replay of the whole log the pages are those at the end of the history. -/
theorem FromMoment.replayLog_all (hkept : FromMoment crc32 bufferPoolId h kept last) :
  ∃ kept', kept.replayLog (logOf h) = (.success, kept') ∧ SameMap kept' last
  := by
  obtain ⟨h₁, h₂, header, rfl, hfirst, hrest, hbehind⟩ := hkept
  obtain ⟨kept', hreplay, hkept'⟩ := hbehind.run (PageMap.create.logged_run hfirst) hrest
  refine ⟨kept', ?_, hkept'.same⟩
  rw [logOf_append, HeaderPage.replayLog_append (hbehind.replayLog_done fun _ hmem => hmem),
    hreplay]

/-- Interrupted replays lead from moment to moment. -/
theorem Restarted.fromMoment (hkept : Restarted (logOf h) header kept)
    (hheader : FromMoment crc32 bufferPoolId h header last) :
  FromMoment crc32 bufferPoolId h kept last
  := by
  induction hkept with
  | start => apply hheader
  | interrupted _ hdone ih =>
    obtain ⟨kept', hreplay, hkept'⟩ := ih.replayLog hdone
    rwa [hreplay]

/-- The log of a history is replayed from the header page of any moment, after any interrupted
replays. No entry fails, and the pages are those at the end of the history. -/
theorem replayLog_restarted
    (hfirst : Run (LoggedStep crc32 bufferPoolId) HeaderPage.create h₁ header)
    (hrest : Run (LoggedStep crc32 bufferPoolId) header h₂ last)
    (hkept : Restarted (logOf (h₂ ++ h₁)) header kept) :
  ∃ kept', kept.replayLog (logOf (h₂ ++ h₁)) = (.success, kept') ∧ SameMap kept' last
  := (hkept.fromMoment (FromMoment.of_run hfirst hrest)).replayLog_all

end Behind

/-- A page is allocated, disposed of and allocated again. The replay from the first of these
moments is interrupted before the last entry and starts again. -/
theorem replayLog_restarted_reused :
  ∃ h₁ h₂ header kept last, Run (LoggedStep (fun _ => 0) 1) HeaderPage.create h₁ header
    ∧ Run (LoggedStep (fun _ => 0) 1) header h₂ last
    ∧ logOf (h₂ ++ h₁) = [⟨1, .allocate, 1⟩, ⟨2, .deallocate, 1⟩, ⟨3, .allocate, 1⟩]
    ∧ kept = (header.replayLog [⟨1, .allocate, 1⟩, ⟨2, .deallocate, 1⟩]).2
    ∧ ∃ kept', kept.replayLog (logOf (h₂ ++ h₁)) = (.success, kept') ∧ SameMap kept' last
  := by
  have hextend : allocatePage (fun _ => 0) 1 1 1 HeaderPage.create emptyFrames
      = some ⟨.success, some 1, HeaderPage.create.extend.setLsn 1, some ⟨1, .allocate, 1⟩, _⟩ := rfl
  have hdispose : disposePage 1 2 (HeaderPage.create.extend.setLsn 1) emptyFrames 1
      = some (.success, ((HeaderPage.create.extend.setLsn 1).unmark 1).setLsn 2, _) := rfl
  have hreuse : allocatePage (fun _ => 0) 1 1 3
      (((HeaderPage.create.extend.setLsn 1).unmark 1).setLsn 2) emptyFrames
      = some ⟨.ioerrRead, none,
        ((((HeaderPage.create.extend.setLsn 1).unmark 1).setLsn 2).mark 1).setLsn 3,
        some ⟨3, .allocate, 1⟩, _⟩ := rfl
  have hlsn : ∀ {lsn lsn' : Int} {e : PageEvent} {t : BufferPoolOperation}, lsn < lsn' →
      e.logged = some ⟨lsn', t, 1⟩ → ∀ entry, e.logged = some entry → lsn < entry.lsn := by
    intro lsn lsn' e t hlt he entry hentry
    rw [he] at hentry
    cases hentry
    apply hlt
  have hfirst := (Run.refl : Run (LoggedStep (fun _ => 0) 1) _ [] _).tail
    ⟨PageStep.allocatePage hextend, hlsn (by decide) rfl⟩
  have hrest := ((Run.refl : Run (LoggedStep (fun _ => 0) 1) _ [] _).tail
    ⟨PageStep.disposePage (by decide) (by decide) hdispose, hlsn (by decide) rfl⟩).tail
      ⟨PageStep.allocatePage hreuse, hlsn (by decide) rfl⟩
  exact ⟨_, _, _, _, _, hfirst, hrest, rfl, rfl,
    replayLog_restarted hfirst hrest (.interrupted .start ⟨[⟨3, .allocate, 1⟩], rfl⟩)⟩

end MiniOB.Buffer
