import MiniOB.Clog.Accounting
import MiniOB.Clog.Files

/-!
# The range of a log file

A `LogFileWriter` keeps the last sequence number of its file in an `int`. From `2 ^ 31` on this
is no longer the number of the file, and the loop of `thread_func` opens one file after another
without writing. No error of the system occurs here; sequence numbers are added in 64 bits, and
what overflows has no result.
-/

namespace MiniOB.Clog

/-- `numeric_limits<int64_t>::max()`. -/
def int64Max : Int := 2 ^ 63 - 1

theorem int32_le_int32Max (x : Int) : int32 x ≤ int32Max := by
  have hlt := Int.bmod_lt (x := x) (m := 2 ^ 32) (by decide)
  rw [int32, int32Max]
  omega

/-- The last sequence number that the last file may hold. -/
def LogFileManager.lastFileEnd (manager : LogFileManager) : Int :=
  match manager.logFiles.getLast? with
  | some file => file.1 + manager.maxEntryNumberPerFile - 1
  | none => 0

namespace DiskLogHandler

/-- The thread opens a file if it has none, or if the last one was full. -/
def prepare (handler : DiskLogHandler) : DiskLogHandler :=
  if handler.fileWriter.valid = false ∨ handler.rc = .logFileFull then handler.openFile true
  else handler

/-- The thread flushes the buffer. -/
def flushBuffer (handler : DiskLogHandler) : Option DiskLogHandler :=
  if int64Max < handler.fileManager.lastFileEnd then none
  else
    (handler.entryBuffer.flush handler.fileWriter handler.directory []).map fun result =>
      { handler with
        rc := result.rc
        entryBuffer := result.buffer
        fileWriter := result.writer
        directory := result.directory }

/-- Rounds of the loop of `DiskLogHandler::thread_func`. -/
def rounds : Nat → DiskLogHandler → Option DiskLogHandler
  | 0, handler => some handler
  | n + 1, handler => handler.prepare.flushBuffer.bind (rounds n)

/-- The writer takes an entry if and only if it is in the range of the file, and otherwise
answers that the file is full. -/
def Answers (handler : DiskLogHandler) (fileEnd : Int) (entry : LogEntry) : Prop :=
  (handler.fileWriter.write handler.directory entry true).1
    = if entry.lsn ≤ fileEnd then .success else .logFileFull

/-- The thread writes an entry of the buffer. -/
def Progresses (handler : DiskLogHandler) : Prop :=
  ∃ n handler', rounds n handler = some handler'
    ∧ handler'.entryBuffer.entries.length < handler.entryBuffer.entries.length

end DiskLogHandler

open DiskLogHandler

/-- Entries that wait to be written after the sequence number `last`. -/
structure Waiting (last : Int) (entries : List LogEntry) : Prop where
  nonneg : 0 ≤ last
  after : ∀ entry ∈ entries, last < entry.lsn
  payload : ∀ entry ∈ entries, 0 < entry.header.size

/-- The writer is at the last file, which starts at `start`, and has written `last`. -/
structure AtFile (handler : DiskLogHandler) (capacity start last : Int)
    (entries : List LogEntry) : Prop where
  maxEntries : handler.fileManager.maxEntryNumberPerFile = capacity
  sorted : handler.fileManager.logFiles.Pairwise fun f f' => f.1 < f'.1
  file : ∃ filename, handler.fileManager.logFiles.getLast? = some (start, filename)
  valid : handler.fileWriter.valid = true
  endLsn : handler.fileWriter.endLsn = int32 (start + capacity - 1)
  lastLsn : handler.fileWriter.lastLsn = int32 last
  buffered : handler.entryBuffer.entries = entries

variable {handler handler' : DiskLogHandler} {capacity start last : Int} {entry : LogEntry}
  {entries : List LogEntry}

/-! ### Rounds are runs -/

open Transition

/-- The handler after a flush. -/
def DiskLogHandler.afterFlush (handler : DiskLogHandler) (result : Flushing) : DiskLogHandler :=
  { handler with
    rc := result.rc
    entryBuffer := result.buffer
    fileWriter := result.writer
    directory := result.directory
    control := .loop }

theorem DiskLogHandler.writeEntry_success {writes : Bool} {fileWriter : LogFileWriter}
    {directory : Directory}
    (h : handler.fileWriter.write handler.directory entry writes
      = (.success, fileWriter, directory)) :
  handler.writeEntry entry writes = { handler with
    directory, fileWriter
    entryBuffer := { handler.entryBuffer with flushedLsn := entry.lsn }
    control := .flush }
  := by
  rw [DiskLogHandler.writeEntry, h]

theorem DiskLogHandler.writeEntry_failure {writes : Bool} {rc : RC} {fileWriter : LogFileWriter}
    {directory : Directory}
    (h : handler.fileWriter.write handler.directory entry writes = (rc, fileWriter, directory))
    (hrc : rc ≠ .success) :
  handler.writeEntry entry writes = { handler with
    directory, fileWriter, rc
    entryBuffer := handler.entryBuffer.restore entry
    control := .loop }
  := by
  rw [DiskLogHandler.writeEntry, h]
  cases rc
  case success => contradiction
  all_goals rfl

/-- A whole flush is a run of the steps of the log. -/
theorem flushLoop_run (maxEntries : Int) (n : Nat) :
    ∀ {handler : DiskLogHandler} {count : Nat} {writes : List Bool} {result : Flushing},
      flushLoop n ⟨.success, count, handler.entryBuffer, handler.fileWriter, handler.directory⟩
        writes = some result →
      n = handler.entryBuffer.entries.length → handler.control = .flush →
      ∃ h, Run (Step maxEntries) handler h (handler.afterFlush result) := by
  induction n with
  | zero =>
    intro handler count writes result h hn hcontrol
    cases h
    exact ⟨_, Run.refl.tail (.done hcontrol (List.length_eq_zero_iff.mp hn.symm))⟩
  | succ n ih =>
    intro handler count writes result h hn hcontrol
    rw [flushLoop] at h
    split at h
    · rename_i hnil
      rw [hnil] at hn
      cases hn
    rename_i entry entries hentries
    dsimp only at hentries h
    split_ifs at h with hassert
    let popped : DiskLogHandler := { handler with
      entryBuffer := handler.entryBuffer.pop entry entries
      control := .write entry }
    have hpop : Step maxEntries handler .pop popped := .pop hcontrol hentries hassert
    have hwrite : Step maxEntries popped .write (popped.writeEntry entry (writes.headD true)) :=
      .write rfl _
    have hfirst := (Run.refl.tail hpop).tail hwrite
    split at h
    · rename_i writer directory hsuccess
      rw [popped.writeEntry_success hsuccess] at hfirst
      rw [hentries] at hn
      obtain ⟨h', hrest⟩ := @ih { popped with
          directory, fileWriter := writer
          entryBuffer := { popped.entryBuffer with flushedLsn := entry.lsn }
          control := .flush } _ _ _ h (Nat.succ.inj hn) rfl
      exact ⟨_, hfirst.trans hrest⟩
    · rename_i rc writer directory hne hfailure
      cases h
      rw [popped.writeEntry_failure hfailure fun hrc => hne hrc] at hfirst
      exact ⟨_, hfirst⟩

/-- A file that is opened is there to be written. -/
theorem openFile_valid (handler : DiskLogHandler) :
  (handler.openFile true).fileWriter.valid = true ∧ (handler.openFile true).rc = .success
  := by
  rw [DiskLogHandler.openFile]
  by_cases hfull : handler.rc = .logFileFull
  · rw [if_pos hfull]
    exact ⟨rfl, rfl⟩
  · rw [if_neg hfull, LogFileManager.lastFile]
    cases handler.fileManager.logFiles.getLast? <;> exact ⟨rfl, rfl⟩

/-- A round that does not overflow is a run of the steps of the log. -/
theorem round_run {handler handler' : DiskLogHandler} (maxEntries : Int)
    (hcontrol : handler.control = .loop) (h : handler.prepare.flushBuffer = some handler') :
  ∃ h, Run (Step maxEntries) handler h handler'
  := by
  have hprepare : ∃ h, Run (Step maxEntries) handler h handler.prepare
      ∧ handler.prepare.control = .loop ∧ handler.prepare.fileWriter.valid = true
      ∧ handler.prepare.rc ≠ .logFileFull := by
    rw [prepare]
    split
    · rename_i hneed
      obtain ⟨hvalid, hrc⟩ := openFile_valid handler
      exact ⟨_, Run.refl.tail (.openFile hcontrol hneed true), hcontrol, hvalid, by simp [hrc]⟩
    · rename_i hneed
      obtain ⟨hvalid, hrc⟩ := not_or.mp hneed
      exact ⟨_, Run.refl, hcontrol, by simpa using hvalid, hrc⟩
  obtain ⟨h₁, hopen, hloop, hvalid, hrc⟩ := hprepare
  rw [flushBuffer] at h
  split_ifs at h
  obtain ⟨result, hflush, rfl⟩ := Option.map_eq_some_iff.mp h
  have hbegin : Step maxEntries handler.prepare .flush { handler.prepare with control := .flush } :=
    .flush hloop hvalid hrc
  obtain ⟨h₂, hrun⟩ := @flushLoop_run maxEntries _ { handler.prepare with control := .flush } _ _ _
    hflush rfl rfl
  rw [DiskLogHandler.afterFlush, ← hloop] at hrun
  exact ⟨_, (hopen.tail hbegin).trans hrun⟩

/-! ### Writing an entry -/

/-- The writer goes by what 32 bits hold of the end of the file. -/
theorem AtFile.write_eq (h : AtFile handler capacity start last (entry :: entries))
    (hlast : 0 ≤ last) (hafter : last < entry.lsn) :
  handler.fileWriter.write handler.directory entry true
    = if int32 (start + capacity - 1) < entry.lsn then
        (.logFileFull, handler.fileWriter, handler.directory)
      else (.success, { handler.fileWriter with lastLsn := int32 entry.lsn },
        handler.directory.append (handler.fileWriter.filename.getD "") entry.encode)
  := by
  obtain ⟨filename, hname⟩ := Option.isSome_iff_exists.mp h.valid
  rw [LogFileWriter.write, h.endLsn]
  split
  · rfl
  · rename_i hle
    have hsmall := int32_le_int32Max (start + capacity - 1)
    have hsame : int32 last = last := int32_of_mem (by omega) (by omega)
    rw [hname]
    dsimp only
    rw [h.lastLsn, hsame, if_neg (by omega), if_pos rfl, Option.getD_some, hname, h.endLsn]

/-- A flush leaves entries at the end of the buffer. -/
theorem flushLoop_suffix (n : Nat) :
    ∀ {s : Flushing} {writes : List Bool}, (∀ entry ∈ s.buffer.entries, 0 < entry.lsn) →
      (∀ entry ∈ s.buffer.entries, 0 < entry.header.size) →
      ∃ result, flushLoop n s writes = some result
        ∧ result.buffer.entries <:+ s.buffer.entries := by
  induction n with
  | zero => exact fun _ _ => ⟨_, rfl, List.suffix_rfl⟩
  | succ n ih =>
    intro s writes hlsn hpayload
    rw [flushLoop]
    split
    · exact ⟨s, rfl, List.suffix_rfl⟩
    rename_i entry entries hentries
    rw [hentries, List.forall_mem_cons] at hlsn hpayload
    rw [if_pos ⟨hlsn.1, hpayload.1⟩]
    dsimp only
    split
    · rename_i writer directory hwrite
      obtain ⟨result, hresult, hsuffix⟩ := @ih
        ⟨.success, s.count + 1, { s.buffer.pop entry entries with flushedLsn := entry.lsn },
          writer, directory⟩ writes.tail hlsn.2 hpayload.2
      exact ⟨result, hresult, by rw [hentries]; exact hsuffix.trans (List.suffix_cons _ _)⟩
    · refine ⟨_, rfl, ?_⟩
      rw [hentries]
      exact List.suffix_rfl

theorem AtFile.lastFileEnd (h : AtFile handler capacity start last entries) :
  handler.fileManager.lastFileEnd = start + capacity - 1
  := by
  obtain ⟨filename, hfile⟩ := h.file
  rw [LogFileManager.lastFileEnd, hfile, h.maxEntries]

/-- A flush at a file that is taken to be full leaves everything as it was. -/
theorem AtFile.flushBuffer_full (h : AtFile handler capacity start last (entry :: entries))
    (hwaiting : Waiting last (entry :: entries)) (hfits : start + capacity - 1 ≤ int64Max)
    (hfull : int32 (start + capacity - 1) < entry.lsn) :
  ∃ handler', handler.flushBuffer = some handler' ∧ handler'.rc = .logFileFull
    ∧ AtFile handler' capacity start last (entry :: entries)
  := by
  have hafter := hwaiting.after entry List.mem_cons_self
  have hpayload := hwaiting.payload entry List.mem_cons_self
  have hlast := hwaiting.nonneg
  have hwrite := h.write_eq hlast hafter
  rw [if_pos hfull] at hwrite
  rw [flushBuffer, h.lastFileEnd, if_neg (by omega), LogEntryBuffer.flush, h.buffered,
    List.length_cons, flushLoop, h.buffered]
  dsimp only
  rw [if_pos ⟨by omega, hpayload⟩, List.headD_nil, hwrite]
  refine ⟨_, rfl, rfl, ⟨h.maxEntries, h.sorted, h.file, h.valid, h.endLsn, h.lastLsn, ?_⟩⟩
  rfl

/-- A flush at a file that takes the first entry. -/
theorem AtFile.flushBuffer_shorter (h : AtFile handler capacity start last (entry :: entries))
    (hwaiting : Waiting last (entry :: entries)) (hfits : start + capacity - 1 ≤ int64Max)
    (htakes : entry.lsn ≤ int32 (start + capacity - 1)) :
  ∃ handler', handler.flushBuffer = some handler'
    ∧ handler'.entryBuffer.entries.length < handler.entryBuffer.entries.length
  := by
  have hlsn : ∀ entry' ∈ entry :: entries, 0 < entry'.lsn := by
    intro entry' hmem
    have := hwaiting.after entry' hmem
    have := hwaiting.nonneg
    omega
  have hpayload := hwaiting.payload
  have hwrite := h.write_eq hwaiting.nonneg (hwaiting.after entry List.mem_cons_self)
  rw [if_neg (by omega)] at hwrite
  rw [List.forall_mem_cons] at hlsn hpayload
  rw [flushBuffer, h.lastFileEnd, if_neg (by omega), LogEntryBuffer.flush, h.buffered,
    List.length_cons, flushLoop, h.buffered]
  dsimp only
  rw [if_pos ⟨hlsn.1, hpayload.1⟩, List.headD_nil, hwrite]
  dsimp only
  obtain ⟨result, hresult, hsuffix⟩ := @flushLoop_suffix entries.length
    ⟨.success, 0 + 1, { handler.entryBuffer.pop entry entries with flushedLsn := entry.lsn },
      { handler.fileWriter with lastLsn := int32 entry.lsn },
      handler.directory.append (handler.fileWriter.filename.getD "") entry.encode⟩
    [].tail hlsn.2 hpayload.2
  rw [hresult]
  refine ⟨_, rfl, ?_⟩
  have hlength := hsuffix.length_le
  dsimp only [LogEntryBuffer.pop] at hlength ⊢
  omega

/-! ### Opening a file -/

/-- The next file starts where the last one ends. -/
theorem nextFile_eq {manager : LogFileManager} (writer : LogFileWriter) (directory : Directory)
    (hcapacity : 1 ≤ manager.maxEntryNumberPerFile)
    (hsorted : manager.logFiles.Pairwise fun f f' => f.1 < f'.1) :
  manager.nextFile writer directory true
    = (.success,
      { manager with
        logFiles := manager.logFiles ++ [(manager.nextLsn, filenameOf manager.nextLsn)] },
      { writer with
        filename := some (filenameOf manager.nextLsn)
        endLsn := int32 (manager.nextLsn + manager.maxEntryNumberPerFile - 1) },
      directory.create (filenameOf manager.nextLsn))
    ∧ ∀ file ∈ manager.logFiles, file.1 < manager.nextLsn
  := by
  have hlt : ∀ file ∈ manager.logFiles, file.1 < manager.nextLsn := by
    intro file hmem
    obtain ⟨front, last, hsplit⟩ := List.eq_nil_or_concat manager.logFiles |>.resolve_left
      (List.ne_nil_of_mem hmem)
    rw [List.concat_eq_append] at hsplit
    rw [LogFileManager.nextLsn, hsplit, List.getLast?_concat]
    dsimp only
    rw [hsplit] at hmem hsorted
    obtain hmem | hmem := List.mem_append.mp hmem
    · have := (List.pairwise_append.mp hsorted).2.2 file hmem last (by simp)
      omega
    · rw [List.mem_singleton.mp hmem]
      omega
  refine ⟨?_, hlt⟩
  rw [LogFileManager.nextFile, emplace_of_lt hlt]
  rfl

/-- The thread opens a file, the last one or the next one. -/
theorem atFile_openFile {filename : String}
    (hcapacity : handler.fileManager.maxEntryNumberPerFile = capacity) (hpos : 1 ≤ capacity)
    (hsorted : handler.fileManager.logFiles.Pairwise fun f f' => f.1 < f'.1)
    (hlast : handler.fileWriter.lastLsn = int32 last)
    (hentries : handler.entryBuffer.entries = entries)
    (hfile : (handler.openFile true).fileManager.logFiles.getLast? = some (start, filename)) :
  AtFile (handler.openFile true) capacity start last entries
    ∧ (handler.openFile true).rc = .success
  := by
  subst hcapacity
  obtain ⟨hnext, hlt⟩ := nextFile_eq handler.fileWriter handler.directory hpos hsorted
  have hnextSorted : (handler.fileManager.logFiles
      ++ [(handler.fileManager.nextLsn, filenameOf handler.fileManager.nextLsn)]).Pairwise
      fun f f' => f.1 < f'.1 := by
    rw [List.pairwise_append]
    refine ⟨hsorted, List.pairwise_singleton _ _, ?_⟩
    intro file hmem file' hmem'
    rw [List.mem_singleton.mp hmem']
    exact hlt file hmem
  by_cases hfull : handler.rc = .logFileFull
  · rw [DiskLogHandler.openFile, if_pos hfull, hnext] at hfile ⊢
    rw [List.getLast?_concat, Option.some_inj, Prod.mk.injEq] at hfile
    obtain ⟨rfl, rfl⟩ := hfile
    exact ⟨⟨rfl, hnextSorted, ⟨_, List.getLast?_concat⟩, rfl, rfl, hlast, hentries⟩, rfl⟩
  · rw [DiskLogHandler.openFile, if_neg hfull, LogFileManager.lastFile] at hfile ⊢
    cases hgetLast : handler.fileManager.logFiles.getLast? with
    | none =>
      rw [hgetLast] at hfile
      dsimp only at hfile ⊢
      rw [hnext] at hfile ⊢
      rw [List.getLast?_concat, Option.some_inj, Prod.mk.injEq] at hfile
      obtain ⟨rfl, rfl⟩ := hfile
      exact ⟨⟨rfl, hnextSorted, ⟨_, List.getLast?_concat⟩, rfl, rfl, hlast, hentries⟩, rfl⟩
    | some file =>
      rw [hgetLast] at hfile
      dsimp only at hfile ⊢
      rw [hgetLast, Option.some_inj] at hfile
      subst hfile
      exact ⟨⟨rfl, hsorted, ⟨_, hgetLast⟩, rfl, rfl, hlast, hentries⟩, rfl⟩

/-! ### The loop of the thread -/

/-- The thread is before a round in which it flushes to the file from `start` on. -/
structure Before (handler : DiskLogHandler) (capacity start last : Int)
    (entries : List LogEntry) : Prop where
  at_file : AtFile handler.prepare capacity start last entries
  entries_eq : handler.entryBuffer.entries = entries

/-- After a file that is taken to be full comes the next one. -/
theorem AtFile.before_next (h : AtFile handler capacity start last entries) (hpos : 1 ≤ capacity)
    (hfull : handler.rc = .logFileFull) :
  Before handler capacity (start + capacity) last entries
  := by
  obtain ⟨filename, hfile⟩ := h.file
  have hnextLsn : handler.fileManager.nextLsn = start + capacity := by
    rw [LogFileManager.nextLsn, hfile, h.maxEntries]
  obtain ⟨hnext, -⟩ := nextFile_eq handler.fileWriter handler.directory
    (by rw [h.maxEntries]; exact hpos) h.sorted
  have hopened : (handler.openFile true).fileManager.logFiles.getLast?
      = some (start + capacity, filenameOf (start + capacity)) := by
    rw [DiskLogHandler.openFile, if_pos hfull, hnext, hnextLsn]
    exact List.getLast?_concat
  refine ⟨?_, h.buffered⟩
  rw [prepare, if_pos (Or.inr hfull)]
  exact (atFile_openFile h.maxEntries hpos h.sorted h.lastLsn h.buffered hopened).1

/-- A thread that has just opened a file. -/
theorem AtFile.before (h : AtFile handler capacity start last entries)
    (hrc : handler.rc = .success) :
  Before handler capacity start last entries
  := by
  refine ⟨?_, h.buffered⟩
  rw [prepare, if_neg (by rw [h.valid, hrc]; decide)]
  exact h

theorem prepare_entryBuffer : handler.prepare.entryBuffer = handler.entryBuffer := by
  rw [prepare]
  split <;> rfl

/-- The thread goes on writing if the end of some file from `start` on reaches the first entry,
as far as 32 bits hold it. -/
theorem progresses_of_reaches (hpos : 1 ≤ capacity)
    (hwaiting : Waiting last (entry :: entries)) (k : Nat) :
    ∀ {handler : DiskLogHandler} {start : Int},
      Before handler capacity start last (entry :: entries) →
      start + capacity - 1 + k * capacity ≤ int64Max →
      entry.lsn ≤ int32 (start + capacity - 1 + k * capacity) → handler.Progresses := by
  induction k with
  | zero =>
    intro handler start hbefore hfits hreaches
    rw [Nat.cast_zero, Int.zero_mul, Int.add_zero] at hfits hreaches
    obtain ⟨handler', hflush, hshorter⟩ :=
      hbefore.at_file.flushBuffer_shorter hwaiting hfits hreaches
    rw [prepare_entryBuffer] at hshorter
    exact ⟨1, handler', by rw [rounds, hflush]; rfl, hshorter⟩
  | succ k ih =>
    intro handler start hbefore hfits hreaches
    have hsum : start + capacity - 1 + (k + 1 : Nat) * capacity
        = start + capacity + capacity - 1 + k * capacity := by
      push_cast
      ring
    rw [hsum] at hfits hreaches
    have hlow : start + capacity - 1 ≤ int64Max := by
      have := Int.mul_nonneg (Int.natCast_nonneg k) (by omega : 0 ≤ capacity)
      omega
    by_cases htakes : entry.lsn ≤ int32 (start + capacity - 1)
    · obtain ⟨handler', hflush, hshorter⟩ :=
        hbefore.at_file.flushBuffer_shorter hwaiting hlow htakes
      rw [prepare_entryBuffer] at hshorter
      exact ⟨1, handler', by rw [rounds, hflush]; rfl, hshorter⟩
    · obtain ⟨handler', hflush, hfull, hat⟩ :=
        hbefore.at_file.flushBuffer_full hwaiting hlow (by omega)
      have hnext := hat.before_next hpos hfull
      obtain ⟨n, handler'', hrounds, hshorter⟩ := ih hnext hfits hreaches
      refine ⟨n + 1, handler'', by rw [rounds, hflush]; exact hrounds, ?_⟩
      rw [hbefore.entries_eq]
      rwa [hnext.entries_eq] at hshorter

/-- Otherwise it never does. -/
theorem reaches_of_progresses (hpos : 1 ≤ capacity)
    (hwaiting : Waiting last (entry :: entries)) (n : Nat) :
    ∀ {handler handler' : DiskLogHandler} {start : Int},
      Before handler capacity start last (entry :: entries) → rounds n handler = some handler' →
      handler'.entryBuffer.entries.length < handler.entryBuffer.entries.length →
      ∃ k : Nat, start + capacity - 1 + k * capacity ≤ int64Max
        ∧ entry.lsn ≤ int32 (start + capacity - 1 + k * capacity) := by
  induction n with
  | zero =>
    intro handler handler' start _ hrounds hshorter
    cases hrounds
    omega
  | succ n ih =>
    intro handler handler' start hbefore hrounds hshorter
    by_cases hfits : start + capacity - 1 ≤ int64Max
    · by_cases htakes : entry.lsn ≤ int32 (start + capacity - 1)
      · exact ⟨0, by simpa using hfits, by simpa using htakes⟩
      obtain ⟨handler'', hflush, hfull, hat⟩ :=
        hbefore.at_file.flushBuffer_full hwaiting hfits (by omega)
      rw [rounds, hflush, Option.bind_some] at hrounds
      have hnext := hat.before_next hpos hfull
      rw [hbefore.entries_eq, ← hnext.entries_eq] at hshorter
      obtain ⟨k, hk, hreaches⟩ := ih hnext hrounds hshorter
      have hsum : start + capacity - 1 + (k + 1 : Nat) * capacity
          = start + capacity + capacity - 1 + k * capacity := by
        push_cast
        ring
      exact ⟨k + 1, by rw [hsum]; exact hk, by rw [hsum]; exact hreaches⟩
    · -- the end of the file overflows
      rw [rounds, flushBuffer, hbefore.at_file.lastFileEnd, if_pos (by omega)] at hrounds
      cases hrounds

theorem Before.progresses_iff (h : Before handler capacity start last (entry :: entries))
    (hpos : 1 ≤ capacity) (hwaiting : Waiting last (entry :: entries)) :
  handler.Progresses ↔ ∃ k : Nat, start + capacity - 1 + k * capacity ≤ int64Max
    ∧ entry.lsn ≤ int32 (start + capacity - 1 + k * capacity)
  := by
  constructor
  · rintro ⟨n, handler', hrounds, hshorter⟩
    exact reaches_of_progresses hpos hwaiting n h hrounds hshorter
  · rintro ⟨k, hfits, hreaches⟩
    exact progresses_of_reaches hpos hwaiting k h hfits hreaches

theorem AtFile.answers_iff (h : AtFile handler capacity start last (entry :: entries))
    (hwaiting : Waiting last (entry :: entries)) (fileEnd : Int) :
  handler.Answers fileEnd entry
    ↔ (entry.lsn ≤ int32 (start + capacity - 1) ↔ entry.lsn ≤ fileEnd)
  := by
  rw [Answers, h.write_eq hwaiting.nonneg (hwaiting.after entry List.mem_cons_self)]
  by_cases hend : entry.lsn ≤ fileEnd
  · rw [if_pos hend]
    split <;> simp <;> omega
  · rw [if_neg hend]
    split <;> simp <;> omega

/-- The writer of a file that the thread has opened, from the sequence number `start` on, takes
the first entry of the buffer if and only if it is in the range of the file, and the thread
goes on writing, under the same conditions on what 32 bits hold of the ends of the files. -/
theorem opened_file_iff {filename : String}
    (hcapacity : handler.fileManager.maxEntryNumberPerFile = capacity) (hpos : 1 ≤ capacity)
    (hsorted : handler.fileManager.logFiles.Pairwise fun f f' => f.1 < f'.1)
    (hlast : handler.fileWriter.lastLsn = int32 last)
    (hentries : handler.entryBuffer.entries = entry :: entries)
    (hwaiting : Waiting last (entry :: entries)) (hopen : handler.openFile true = handler')
    (hfile : handler'.fileManager.logFiles.getLast? = some (start, filename)) :
  handler'.Answers (start + capacity - 1) entry ∧ handler'.Progresses
    ↔ (entry.lsn ≤ int32 (start + capacity - 1) ↔ entry.lsn ≤ start + capacity - 1)
      ∧ ∃ k : Nat, start + capacity - 1 + k * capacity ≤ int64Max
        ∧ entry.lsn ≤ int32 (start + capacity - 1 + k * capacity)
  := by
  subst hopen
  obtain ⟨hat, hrc⟩ := atFile_openFile hcapacity hpos hsorted hlast hentries hfile
  rw [hat.answers_iff hwaiting, (hat.before hrc).progresses_iff hpos hwaiting]

/-- The narrowed end of a file agrees with its end on all entries if it does not overflow. -/
theorem agrees_iff {fileEnd : Int} (h : 0 ≤ fileEnd) :
  (∀ lsn, 0 < lsn → (lsn ≤ int32 fileEnd ↔ lsn ≤ fileEnd)) ↔ fileEnd ≤ int32Max
  := by
  constructor
  · intro hall
    by_contra hlarge
    have hpos : 0 < fileEnd := by
      rw [int32Max] at hlarge
      omega
    have := (hall fileEnd hpos).mpr le_rfl
    have := int32_le_int32Max fileEnd
    omega
  · intro hle lsn _
    rw [int32_of_mem (by omega) hle]

/-- A handler with an entry to write, whose last file starts at `start`. -/
def handlerAt (start lsn : Int) : DiskLogHandler where
  directory := []
  fileManager := ⟨1000, [(start, filenameOf start)]⟩
  entryBuffer := { entries := [⟨lsn, 0, [7]⟩], currentLsn := lsn }

theorem handlerAt_waiting {start lsn : Int} (h : 0 < lsn) :
  Waiting 0 (handlerAt start lsn).entryBuffer.entries
  := by
  refine ⟨le_rfl, ?_, ?_⟩
  · intro entry hmem
    rw [List.mem_singleton.mp hmem]
    exact h
  · intro entry hmem
    rw [List.mem_singleton.mp hmem]
    rw [LogEntry.header]
    dsimp only
    rw [int32_of_mem (by decide) (by decide)]
    decide

theorem handlerAt_atFile (start lsn : Int) :
  AtFile ((handlerAt start lsn).openFile true) 1000 start 0 (handlerAt start lsn).entryBuffer.entries
    ∧ ((handlerAt start lsn).openFile true).rc = .success
  := by
  have hfile : ((handlerAt start lsn).openFile true).fileManager.logFiles.getLast?
      = some (start, filenameOf start) := rfl
  exact atFile_openFile rfl (by decide) (List.pairwise_singleton _ _) rfl rfl hfile

/-- The entry `2 ^ 31` is in the range of its file, whose writer takes the file to be full, and
the thread never writes it. -/
theorem opened_file_fails :
  (2 ^ 31 : Int) ≤ 2147483000 + 1000 - 1
    ∧ ¬ ((handlerAt 2147483000 (2 ^ 31)).openFile true).Answers (2147483000 + 1000 - 1)
      ⟨2 ^ 31, 0, [7]⟩
    ∧ ¬ ((handlerAt 2147483000 (2 ^ 31)).openFile true).Progresses
  := by
  obtain ⟨hat, hrc⟩ := handlerAt_atFile 2147483000 (2 ^ 31)
  have hwaiting : Waiting 0 (handlerAt 2147483000 (2 ^ 31)).entryBuffer.entries :=
    handlerAt_waiting (by decide)
  refine ⟨by decide, ?_, ?_⟩
  · rw [hat.answers_iff hwaiting]
    decide
  · rw [(hat.before hrc).progresses_iff (by decide) hwaiting]
    rintro ⟨k, -, hreaches⟩
    have hsmall := hreaches.trans (int32_le_int32Max _)
    exact absurd hsmall (by decide)

/-- The first entry of the first file is written. -/
theorem opened_file_iff_first :
  ((handlerAt 0 1).openFile true).Answers (0 + 1000 - 1) ⟨1, 0, [7]⟩
    ∧ ((handlerAt 0 1).openFile true).Progresses
  := by
  have hfile : ((handlerAt 0 1).openFile true).fileManager.logFiles.getLast?
      = some (0, filenameOf 0) := rfl
  have hwaiting : Waiting 0 (handlerAt 0 1).entryBuffer.entries := handlerAt_waiting (by decide)
  have hiff := opened_file_iff rfl (by decide) (List.pairwise_singleton _ _) rfl rfl hwaiting rfl hfile
  exact hiff.mpr ⟨by decide, 0, by decide, by decide⟩

end MiniOB.Clog
