import MiniOB.Lib.Run
import MiniOB.Clog.Files

/-!
# What the log holds along a run

The account of a run keeps what has been appended: the entries that were in the files when
the process started, the sequence number it started from, and the entries appended since. At
every moment the account is what lies in the files followed by what the thread and the
buffer still hold.
-/

namespace MiniOB.Clog

open Transition

/-! ### Accounts -/

/-- Collect the entries that are delivered. -/
def collect (entries : List LogEntry) (entry : LogEntry) : List LogEntry × RC :=
  (entries ++ [entry], .success)

/-- The entries that are read from the files. -/
def DiskLogHandler.stored (handler : DiskLogHandler) : List LogEntry :=
  (handler.iterate collect 0 []).1

/-- The largest sequence number of entries, or zero. -/
def maxLsn (entries : List LogEntry) : Int := entries.foldl (fun m entry => max m entry.lsn) 0

/-- The account of a run. -/
structure Account where
  old : List LogEntry
  base : Int
  fresh : List LogEntry

/-- All entries of an account. -/
def Account.entries (account : Account) : List LogEntry := account.old ++ account.fresh

/-- The account of a log whose files hold the entries `old`. -/
def Account.ofOld (old : List LogEntry) : Account := ⟨old, maxLsn old, []⟩

/-- The account of a history that starts from the account `acc`. -/
def account (acc : Account) : List (DiskLogHandler × Event) → Account
  | [] => acc
  | (_, .append entry) :: h => { account acc h with fresh := (account acc h).fresh ++ [entry] }
  | (handler, .restart _) :: _ => .ofOld handler.stored
  | _ :: h => account acc h

/-- The events that a log takes: entries with payloads in bounds and sequence numbers below
`2 ^ 31`, and restarts from zero or from the sequence number of an entry in the files. -/
def Admissible (handler : DiskLogHandler) : Event → Prop
  | .append entry => entry.lsn < 2 ^ 31 ∧ (-2 ^ 31 ≤ entry.moduleId ∧ entry.moduleId < 2 ^ 31)
      ∧ 1 ≤ entry.data.length ∧ (entry.data.length : Int) ≤ maxPayloadSize
  | .restart checkPointLsn =>
      checkPointLsn = 0 ∨ ∃ entry ∈ handler.stored, entry.lsn = checkPointLsn
  | _ => True

/-- A history of admissible events. -/
def AdmissibleHistory (h : List (DiskLogHandler × Event)) : Prop := ∀ x ∈ h, Admissible x.1 x.2

/-! ### The invariant -/

/-- The entries that are not in the files yet. -/
def DiskLogHandler.pending (handler : DiskLogHandler) : List LogEntry :=
  match handler.control with
  | .write entry => entry :: handler.entryBuffer.entries
  | _ => handler.entryBuffer.entries

/-- Entries are numbered from `base` on. -/
def Numbered (base : Int) (entries : List LogEntry) : Prop :=
  ∀ (i : Nat) (entry : LogEntry), entries[i]? = some entry → entry.lsn = base + 1 + i

/-- The files hold entries of the account, and the manager knows the files. The file `lsns`
is one that could not be created yet. -/
structure Inv (n : Int) (files : List (Int × List LogEntry)) (lsns : List Int)
    (written : List LogEntry) (acc : Account) (handler : DiskLogHandler) : Prop where
  positive : 1 ≤ n
  capacity : handler.fileManager.maxEntryNumberPerFile = n
  filed : Filed n files
  directory : handler.directory = toDirectory (encodeFiles files)
  logFiles : handler.fileManager.logFiles = listing (files.map Prod.fst ++ lsns)
  missing : lsns = [] ∨ handler.rc = .fileOpen ∧ handler.fileWriter.filename = none
    ∧ handler.control = .loop
    ∧ ∃ lsn, lsns = [lsn] ∧ 0 ≤ lsn ∧ ∀ file ∈ files, file.1 < lsn
  writer : ∀ filename, handler.fileWriter.filename = some filename →
    ∃ file, files.getLast? = some file ∧ filename = filenameOf file.1
      ∧ handler.fileWriter.endLsn = int32 (file.1 + n - 1)
  entries : entriesOf files = acc.old ++ written
  fresh : acc.fresh = written ++ handler.pending
  numbered : Numbered acc.base acc.fresh
  old : ∀ entry ∈ acc.old, entry.lsn ≤ acc.base
  base : 0 ≤ acc.base
  fits : ∀ entry ∈ acc.fresh, entry.Fits
  currentLsn : handler.entryBuffer.currentLsn = acc.base + acc.fresh.length
  flushedLsn : handler.entryBuffer.flushedLsn = acc.base + written.length

variable {n lsn : Int} {files : List (Int × List LogEntry)} {lsns : List Int}
  {written : List LogEntry} {acc : Account} {handler : DiskLogHandler}

theorem Filed.lookup (h : Filed n files) :
  ∀ file ∈ files, (toDirectory (encodeFiles files)).lookup (filenameOf file.1)
    = some (encodeAll file.2)
  := by
  intro file hfile
  have hpos : ∀ file ∈ encodeFiles files, 0 ≤ file.1 := by
    intro file' hfile'
    obtain ⟨file'', hfile'', rfl⟩ := List.mem_map.mp hfile'
    apply h.nonneg _ hfile''
  have hascending : (encodeFiles files).Pairwise fun f f' => f.1 < f'.1 := by
    rw [encodeFiles, List.pairwise_map]
    apply h.ascending
  have hmem : (file.1, encodeAll file.2) ∈ encodeFiles files := List.mem_map_of_mem hfile
  apply lookup_toDirectory hpos hascending hmem

theorem Inv.lookup (h : Inv n files lsns written acc handler) :
  ∀ file ∈ files, handler.directory.lookup (filenameOf file.1) = some (encodeAll file.2)
  := by
  rw [h.directory]
  apply h.filed.lookup

theorem deliver_collect (entries entries' : List LogEntry) :
  deliver collect entries entries' = (entries' ++ entries, .success)
  := by
  induction entries generalizing entries' with
  | nil => rw [deliver, List.append_nil]
  | cons entry entries ih =>
    rw [deliver, collect, andThen, if_pos rfl, ih, List.append_assoc, List.singleton_append]

theorem lookup_toDirectory_of_lt {files : List (Int × List UInt8)}
    (hpos : ∀ file ∈ files, 0 ≤ file.1) {lsn : Int} (hlsn : 0 ≤ lsn)
    (hlt : ∀ file ∈ files, file.1 < lsn) :
  (toDirectory files).lookup (filenameOf lsn) = none
  := by
  rw [List.lookup_eq_none_iff]
  intro entry hentry
  obtain ⟨file, hfile, rfl⟩ := List.mem_map.mp hentry
  have hlt := hlt file hfile
  simp only [bne_iff_ne, ne_eq, filenameOf_inj hlsn (hpos file hfile)]
  omega

theorem Inv.lookup_missing (h : Inv n files lsns written acc handler) :
  ∀ lsn ∈ lsns, handler.directory.lookup (filenameOf lsn) = none
  := by
  intro lsn hlsn
  rcases h.missing with rfl | ⟨-, -, -, lsn', rfl, hpos, hlt⟩
  · contradiction
  · rw [List.mem_singleton] at hlsn
    subst hlsn
    rw [h.directory]
    apply lookup_toDirectory_of_lt _ hpos
    · intro file hfile
      obtain ⟨file', hfile', rfl⟩ := List.mem_map.mp hfile
      apply hlt _ hfile'
    · intro file hfile
      obtain ⟨file', hfile', rfl⟩ := List.mem_map.mp hfile
      apply h.filed.nonneg _ hfile'

/-- A file that is not there ends the iteration. -/
theorem iterateFiles_fst {σ : Type} {directory : Directory} {consumer : σ → LogEntry → σ × RC}
    {startLsn : Int} {filenames : List String}
    (h : ∀ filename ∈ filenames, directory.lookup filename = none) (s : σ) :
  (DiskLogHandler.iterateFiles directory consumer startLsn filenames s).1 = s
  := by
  cases filenames with
  | nil => rfl
  | cons filename filenames =>
    rw [DiskLogHandler.iterateFiles, h _ List.mem_cons_self]

/-- Reading the files yields the entries in them. -/
theorem Inv.stored (h : Inv n files lsns written acc handler) :
  handler.stored = entriesOf files
  := by
  have hall : (entriesOf files).filter (0 ≤ ·.lsn) = entriesOf files := by
    rw [List.filter_eq_self]
    intro entry hentry
    have hlsn := (h.filed.fits entry hentry).lsn
    simp only [decide_eq_true_eq]
    omega
  rw [DiskLogHandler.stored, iterate_eq h.filed h.capacity h.logFiles h.lookup, hall,
    deliver_collect, andThen, if_pos rfl, iterateFiles_fst, List.nil_append]
  intro filename hfilename
  obtain ⟨lsn, hlsn, rfl⟩ := List.mem_map.mp hfilename
  apply h.lookup_missing _ (List.mem_of_mem_filter hlsn)

/-! ### The steps -/

theorem Numbered.append {base : Int} {entries : List LogEntry} (h : Numbered base entries)
    {entry : LogEntry} (hentry : entry.lsn = base + 1 + entries.length) :
  Numbered base (entries ++ [entry])
  := by
  intro i entry' hi
  rcases lt_trichotomy i entries.length with hlt | rfl | hgt
  · rw [List.getElem?_append_left hlt] at hi
    apply h i entry' hi
  · rw [List.getElem?_concat_length, Option.some_inj] at hi
    subst hi
    apply hentry
  · rw [List.getElem?_eq_none (by rw [List.length_append, List.length_singleton]; omega)] at hi
    contradiction

theorem Inv.start (hn : 1 ≤ n) (hlsn : 0 ≤ lsn) :
  Inv n [] [] [] ⟨[], lsn, []⟩ (DiskLogHandler.start n lsn)
  where
  positive := hn
  capacity := rfl
  filed := ⟨by simp, List.Pairwise.nil, by simp, by simp, by simp [entriesOf], List.Pairwise.nil⟩
  directory := rfl
  logFiles := rfl
  missing := .inl rfl
  writer := by
    intro filename hfilename
    contradiction
  entries := rfl
  fresh := rfl
  numbered := by
    intro i entry hi
    contradiction
  old := by simp
  base := hlsn
  fits := by simp
  currentLsn := by simp [DiskLogHandler.start, LogEntryBuffer.init]
  flushedLsn := by simp [DiskLogHandler.start, LogEntryBuffer.init]

theorem Inv.append (h : Inv n files lsns written acc handler) {moduleId lsn : Int}
    {data : List UInt8} {buffer : LogEntryBuffer}
    (happend : handler.entryBuffer.append moduleId data = .ok (lsn, buffer))
    (hadm : Admissible handler (.append ⟨lsn, moduleId, data⟩)) :
  Inv n files lsns written { acc with fresh := acc.fresh ++ [⟨lsn, moduleId, data⟩] }
    { handler with entryBuffer := buffer }
  := by
  rw [LogEntryBuffer.append] at happend
  split at happend
  · cases happend
  cases happend
  have hcurrent := h.currentLsn
  have hbase := h.base
  obtain ⟨hlsn, hmodule, hnonempty, hlength⟩ := hadm
  have hpending : DiskLogHandler.pending { handler with entryBuffer := { handler.entryBuffer with
        entries := handler.entryBuffer.entries
          ++ [⟨handler.entryBuffer.currentLsn + 1, moduleId, data⟩]
        bytes := handler.entryBuffer.bytes + headerSize
        currentLsn := handler.entryBuffer.currentLsn + 1 } }
      = handler.pending ++ [⟨handler.entryBuffer.currentLsn + 1, moduleId, data⟩] := by
    rw [DiskLogHandler.pending, DiskLogHandler.pending]
    cases handler.control <;> rfl
  exact {
    positive := h.positive
    capacity := h.capacity
    filed := h.filed
    directory := h.directory
    logFiles := h.logFiles
    missing := h.missing
    writer := h.writer
    entries := h.entries
    fresh := by
      rw [hpending, h.fresh, List.append_assoc]
    numbered := by
      apply h.numbered.append
      change handler.entryBuffer.currentLsn + 1 = _
      omega
    old := h.old
    base := h.base
    fits := by
      intro entry hentry
      rcases List.mem_append.mp hentry with hmem | hmem
      · apply h.fits entry hmem
      · rw [List.mem_singleton] at hmem
        subst hmem
        refine ⟨⟨?_, hlsn⟩, hmodule, hnonempty, hlength⟩
        change 0 < handler.entryBuffer.currentLsn + 1
        omega
    currentLsn := by
      change handler.entryBuffer.currentLsn + 1 = acc.base + _
      rw [List.length_append, List.length_singleton]
      omega
    flushedLsn := h.flushedLsn }

/-- A step of the thread that changes nothing but the buffer and where the thread stands. -/
theorem Inv.moveControl (h : Inv n files lsns written acc handler) {buffer : LogEntryBuffer}
    {rc : RC} {control : Control} (hlsns : lsns = [])
    (hcurrent : buffer.currentLsn = handler.entryBuffer.currentLsn)
    (hflushed : buffer.flushedLsn = handler.entryBuffer.flushedLsn)
    (hpending : DiskLogHandler.pending { handler with entryBuffer := buffer, rc, control }
      = handler.pending) :
  Inv n files lsns written acc { handler with entryBuffer := buffer, rc, control }
  where
  positive := h.positive
  capacity := h.capacity
  filed := h.filed
  directory := h.directory
  logFiles := h.logFiles
  missing := .inl hlsns
  writer := h.writer
  entries := h.entries
  fresh := hpending ▸ h.fresh
  numbered := h.numbered
  old := h.old
  base := h.base
  fits := h.fits
  currentLsn := hcurrent ▸ h.currentLsn
  flushedLsn := hflushed ▸ h.flushedLsn

/-- No file is missing while the thread is not at the head of its loop, or has opened one. -/
theorem Inv.missing_nil (h : Inv n files lsns written acc handler)
    (hnot : handler.rc ≠ .fileOpen ∨ handler.fileWriter.valid ∨ handler.control ≠ .loop) :
  lsns = []
  := by
  rcases h.missing with hnil | ⟨hrc, hwriter, hcontrol, -⟩
  · apply hnil
  · rw [LogFileWriter.valid, hwriter, hrc, hcontrol] at hnot
    simp at hnot

/-- The entries in the files come before those that are not there yet. -/
theorem Inv.lt_pending (h : Inv n files lsns written acc handler) {entry : LogEntry}
    {entries : List LogEntry} (hpending : handler.pending = entry :: entries) :
  entry.lsn = acc.base + 1 + written.length ∧ ∀ entry' ∈ entriesOf files, entry'.lsn < entry.lsn
  := by
  have hget : acc.fresh[written.length]? = some entry := by
    rw [h.fresh, hpending, List.getElem?_append_right (Nat.le_refl _), Nat.sub_self]
    rfl
  have hlsn := h.numbered _ _ hget
  refine ⟨hlsn, ?_⟩
  intro entry' hentry'
  rw [h.entries] at hentry'
  rcases List.mem_append.mp hentry' with hold | hwritten
  · have hle := h.old entry' hold
    omega
  · obtain ⟨i, hi⟩ := List.mem_iff_getElem?.mp hwritten
    obtain ⟨hlt, -⟩ := List.getElem?_eq_some_iff.mp hi
    have hi' : acc.fresh[i]? = some entry' := by
      rw [h.fresh, List.getElem?_append_left hlt, hi]
    have hlsn' := h.numbered _ _ hi'
    omega

theorem append_toDirectory {front : List (Int × List UInt8)} {lsn : Int}
    (hpos : ∀ file ∈ front, 0 ≤ file.1) (hlt : ∀ file ∈ front, file.1 < lsn) (bytes bytes' : List UInt8) :
  (toDirectory (front ++ [(lsn, bytes)])).append (filenameOf lsn) bytes'
    = toDirectory (front ++ [(lsn, bytes ++ bytes')])
  := by
  rw [Directory.append, toDirectory, toDirectory, List.map_append, List.map_append,
    List.map_append, List.map_map]
  congr 1
  · apply List.map_congr_left
    intro file hfile
    have hpos := hpos file hfile
    have hlt := hlt file hfile
    have hne : filenameOf file.1 ≠ filenameOf lsn := by
      rw [Ne, filenameOf_inj hpos (by omega)]
      omega
    simp only [Function.comp_apply, if_neg hne]
  · simp

/-- An entry that is written goes to the end of the last file. -/
theorem Filed.write {front : List (Int × List LogEntry)} {file : Int × List LogEntry}
    (h : Filed n (front ++ [file])) {entry : LogEntry} (hfits : entry.Fits)
    (hbound : entry.lsn ≤ file.1 + n - 1) (hend : entry.lsn ≤ int32 (file.1 + n - 1))
    (hlt : ∀ entry' ∈ entriesOf (front ++ [file]), entry'.lsn < entry.lsn) :
  Filed n (front ++ [(file.1, file.2 ++ [entry])])
    ∧ entriesOf (front ++ [(file.1, file.2 ++ [entry])]) = entriesOf (front ++ [file]) ++ [entry]
  := by
  have hentries : entriesOf (front ++ [(file.1, file.2 ++ [entry])])
      = entriesOf (front ++ [file]) ++ [entry] := by
    simp only [entriesOf, List.flatMap_append, List.flatMap_singleton, List.append_assoc]
  refine ⟨⟨?nonneg, ?ascending, ?bound, ?endLsn, ?fits, ?sorted⟩, hentries⟩
  case nonneg =>
    intro file' hfile'
    rcases List.mem_append.mp hfile' with hmem | hmem
    · apply h.nonneg _ (List.mem_append_left _ hmem)
    · rw [List.mem_singleton] at hmem
      subst hmem
      apply h.nonneg file (List.mem_append_right _ (List.mem_singleton_self _))
  case ascending =>
    have hascending := h.ascending
    rw [List.pairwise_append] at hascending ⊢
    refine ⟨hascending.1, List.pairwise_singleton _ _, ?_⟩
    intro file' hfile' file'' hfile''
    rw [List.mem_singleton] at hfile''
    subst hfile''
    apply hascending.2.2 _ hfile' file (List.mem_singleton_self _)
  case bound =>
    intro file' hfile' entry' hentry'
    rcases List.mem_append.mp hfile' with hmem | hmem
    · apply h.bound _ (List.mem_append_left _ hmem) _ hentry'
    · rw [List.mem_singleton] at hmem
      subst hmem
      rcases List.mem_append.mp hentry' with hmem | hmem
      · apply h.bound file (List.mem_append_right _ (List.mem_singleton_self _)) _ hmem
      · rw [List.mem_singleton] at hmem
        subst hmem
        apply hbound
  case endLsn =>
    intro file' hfile' entry' hentry'
    rcases List.mem_append.mp hfile' with hmem | hmem
    · apply h.endLsn _ (List.mem_append_left _ hmem) _ hentry'
    · rw [List.mem_singleton] at hmem
      subst hmem
      rcases List.mem_append.mp hentry' with hmem | hmem
      · apply h.endLsn file (List.mem_append_right _ (List.mem_singleton_self _)) _ hmem
      · rw [List.mem_singleton] at hmem
        subst hmem
        apply hend
  case fits =>
    rw [hentries]
    intro entry' hentry'
    rcases List.mem_append.mp hentry' with hmem | hmem
    · apply h.fits _ hmem
    · rw [List.mem_singleton] at hmem
      subst hmem
      apply hfits
  case sorted =>
    rw [hentries, List.pairwise_append]
    refine ⟨h.sorted, List.pairwise_singleton _ _, ?_⟩
    intro entry' hentry' entry'' hentry''
    rw [List.mem_singleton] at hentry''
    subst hentry''
    apply hlt _ hentry'

theorem Inv.writeEntry (h : Inv n files lsns written acc handler) {entry : LogEntry}
    (hcontrol : handler.control = .write entry) (writes : Bool) :
  ∃ files' written', Inv n files' lsns written' acc (handler.writeEntry entry writes)
  := by
  have hlsns : lsns = [] := by
    apply h.missing_nil
    rw [hcontrol]
    right; right
    intro hne
    contradiction
  have hpending : handler.pending = entry :: handler.entryBuffer.entries := by
    rw [DiskLogHandler.pending, hcontrol]
  have hback : ∀ rc, Inv n files lsns written acc { handler with
      entryBuffer := handler.entryBuffer.restore entry, rc, control := .loop } := by
    intro rc
    refine h.moveControl hlsns rfl rfl ?_
    rw [hpending]
    rfl
  rw [DiskLogHandler.writeEntry, LogFileWriter.write]
  by_cases hfull : handler.fileWriter.endLsn < entry.lsn
  · rw [if_pos hfull]
    exact ⟨files, written, hback _⟩
  rw [if_neg hfull]
  cases hfilename : handler.fileWriter.filename with
  | none => exact ⟨files, written, hback _⟩
  | some filename =>
    simp only
    by_cases hlast : entry.lsn ≤ handler.fileWriter.lastLsn
    · rw [if_pos hlast]
      exact ⟨files, written, hback _⟩
    rw [if_neg hlast]
    cases writes with
    | false => exact ⟨files, written, hback _⟩
    | true =>
      rw [if_pos rfl]
      obtain ⟨file, hfile, rfl, hend⟩ := h.writer filename hfilename
      obtain ⟨front, rfl⟩ := List.getLast?_eq_some_iff.mp hfile
      obtain ⟨hlsn, hlt⟩ := h.lt_pending hpending
      have hmem : file ∈ front ++ [file] := List.mem_append_right _ (List.mem_singleton_self _)
      have hfresh : entry ∈ acc.fresh := by
        rw [h.fresh, hpending]
        apply List.mem_append_right _ List.mem_cons_self
      have hfits := h.fits entry hfresh
      have hbound : entry.lsn ≤ file.1 + n - 1 := by
        have hpos := h.filed.nonneg file hmem
        have hn := h.positive
        have hle := int32_le (x := file.1 + n - 1) (by omega)
        omega
      obtain ⟨hfiled, hentries⟩ := h.filed.write hfits hbound (by omega) hlt
      refine ⟨front ++ [(file.1, file.2 ++ [entry])], written ++ [entry], ?_⟩
      exact {
        positive := h.positive
        capacity := h.capacity
        filed := hfiled
        directory := by
          have hascending := (List.pairwise_append.mp h.filed.ascending).2.2
          rw [h.directory, encodeFiles, encodeFiles, List.map_append, List.map_append]
          simp only [List.map_cons, List.map_nil, encodeAll_append, encodeAll_cons, encodeAll_nil,
            List.append_nil]
          apply append_toDirectory
          · intro file' hfile'
            obtain ⟨file'', hfile'', rfl⟩ := List.mem_map.mp hfile'
            apply h.filed.nonneg _ (List.mem_append_left _ hfile'')
          · intro file' hfile'
            obtain ⟨file'', hfile'', rfl⟩ := List.mem_map.mp hfile'
            apply hascending _ hfile'' file (List.mem_singleton_self _)
        logFiles := by
          rw [h.logFiles, List.map_append, List.map_append]
          rfl
        missing := .inl hlsns
        writer := by
          intro filename' hfilename'
          cases hfilename'
          exact ⟨_, List.getLast?_concat, rfl, hend⟩
        entries := by
          rw [hentries, h.entries, List.append_assoc]
        fresh := by
          rw [h.fresh, hpending, List.append_assoc]
          rfl
        numbered := h.numbered
        old := h.old
        base := h.base
        fits := h.fits
        currentLsn := h.currentLsn
        flushedLsn := by
          change entry.lsn = _
          rw [List.length_append, List.length_singleton]
          omega }

/-! ### Opening a file -/

/-- A new file comes after the others and is empty. -/
theorem Filed.create (h : Filed n files) (hpos : 0 ≤ lsn) (hlt : ∀ file ∈ files, file.1 < lsn) :
  Filed n (files ++ [(lsn, [])]) ∧ entriesOf (files ++ [(lsn, [])]) = entriesOf files
  := by
  have hentries : entriesOf (files ++ [(lsn, [])]) = entriesOf files := by
    simp only [entriesOf, List.flatMap_append, List.flatMap_singleton, List.append_nil]
  refine ⟨⟨?nonneg, ?ascending, ?bound, ?endLsn, hentries ▸ h.fits, hentries ▸ h.sorted⟩, hentries⟩
  case nonneg =>
    intro file hfile
    rcases List.mem_append.mp hfile with hmem | hmem
    · apply h.nonneg _ hmem
    · rw [List.mem_singleton] at hmem
      subst hmem
      apply hpos
  case ascending =>
    rw [List.pairwise_append]
    refine ⟨h.ascending, List.pairwise_singleton _ _, ?_⟩
    intro file hfile file' hfile'
    rw [List.mem_singleton] at hfile'
    subst hfile'
    apply hlt _ hfile
  case bound =>
    intro file hfile entry hentry
    rcases List.mem_append.mp hfile with hmem | hmem
    · apply h.bound _ hmem _ hentry
    · rw [List.mem_singleton] at hmem
      subst hmem
      contradiction
  case endLsn =>
    intro file hfile entry hentry
    rcases List.mem_append.mp hfile with hmem | hmem
    · apply h.endLsn _ hmem _ hentry
    · rw [List.mem_singleton] at hmem
      subst hmem
      contradiction

/-- The thread opens the file `lsn` after all others, which is created if the system opens it. -/
theorem Inv.openNew (h : Inv n files lsns written acc handler) (hcontrol : handler.control = .loop)
    (hpos : 0 ≤ lsn) (hlt : ∀ file ∈ files, file.1 < lsn) {manager : LogFileManager}
    (hcapacity : manager.maxEntryNumberPerFile = n)
    (hmanager : manager.logFiles = listing (files.map Prod.fst ++ [lsn])) (opens : Bool) :
  let (rc, fileWriter, directory) := handler.fileWriter.close.openFile handler.directory
    (filenameOf lsn) (lsn + n - 1) opens
  ∃ files' lsns', Inv n files' lsns' written acc
    { handler with directory, fileManager := manager, fileWriter, rc }
  := by
  cases opens with
  | false =>
    refine ⟨files, [lsn], ?_⟩
    exact {
      positive := h.positive
      capacity := hcapacity
      filed := h.filed
      directory := h.directory
      logFiles := hmanager
      missing := .inr ⟨rfl, rfl, hcontrol, lsn, rfl, hpos, hlt⟩
      writer := by
        intro filename hfilename
        cases hfilename
      entries := h.entries
      fresh := h.fresh
      numbered := h.numbered
      old := h.old
      base := h.base
      fits := h.fits
      currentLsn := h.currentLsn
      flushedLsn := h.flushedLsn }
  | true =>
    obtain ⟨hfiled, hentries⟩ := h.filed.create hpos hlt
    refine ⟨files ++ [(lsn, [])], [], ?_⟩
    exact {
      positive := h.positive
      capacity := hcapacity
      filed := hfiled
      directory := by
        have hnone : handler.directory.lookup (filenameOf lsn) = none := by
          rw [h.directory]
          apply lookup_toDirectory_of_lt _ hpos
          · intro file hfile
            obtain ⟨file', hfile', rfl⟩ := List.mem_map.mp hfile
            apply hlt _ hfile'
          · intro file hfile
            obtain ⟨file', hfile', rfl⟩ := List.mem_map.mp hfile
            apply h.filed.nonneg _ hfile'
        change handler.directory.create (filenameOf lsn) = _
        rw [Directory.create, hnone, if_neg (by decide), h.directory, encodeFiles, encodeFiles,
          toDirectory, toDirectory, List.map_append, List.map_append]
        rfl
      logFiles := by
        rw [hmanager, List.append_nil, List.map_append]
        rfl
      missing := .inl rfl
      writer := by
        intro filename hfilename
        cases hfilename
        exact ⟨_, List.getLast?_concat, rfl, rfl⟩
      entries := hentries ▸ h.entries
      fresh := h.fresh
      numbered := h.numbered
      old := h.old
      base := h.base
      fits := h.fits
      currentLsn := h.currentLsn
      flushedLsn := h.flushedLsn }

/-- The thread opens the last file. -/
theorem Inv.openLast (h : Inv n files [] written acc handler) {file : Int × List LogEntry}
    (hfile : files.getLast? = some file) (opens : Bool) :
  let (rc, fileWriter, directory) := handler.fileWriter.close.openFile handler.directory
    (filenameOf file.1) (file.1 + n - 1) opens
  Inv n files [] written acc { handler with directory, fileWriter, rc }
  := by
  have hmem := List.mem_of_getLast? hfile
  have hcreate : handler.directory.create (filenameOf file.1) = handler.directory := by
    rw [Directory.create, h.lookup file hmem, Option.isSome_some, if_pos rfl]
  cases opens with
  | false =>
    exact {
      positive := h.positive
      capacity := h.capacity
      filed := h.filed
      directory := h.directory
      logFiles := h.logFiles
      missing := .inl rfl
      writer := by
        intro filename hfilename
        cases hfilename
      entries := h.entries
      fresh := h.fresh
      numbered := h.numbered
      old := h.old
      base := h.base
      fits := h.fits
      currentLsn := h.currentLsn
      flushedLsn := h.flushedLsn }
  | true =>
    exact {
      positive := h.positive
      capacity := h.capacity
      filed := h.filed
      directory := hcreate.trans h.directory
      logFiles := h.logFiles
      missing := .inl rfl
      writer := by
        intro filename hfilename
        cases hfilename
        exact ⟨file, hfile, rfl, rfl⟩
      entries := h.entries
      fresh := h.fresh
      numbered := h.numbered
      old := h.old
      base := h.base
      fits := h.fits
      currentLsn := h.currentLsn
      flushedLsn := h.flushedLsn }

theorem getLast?_listing (lsns : List Int) :
  (listing lsns).getLast? = lsns.getLast?.map fun lsn => (lsn, filenameOf lsn)
  := List.getLast?_map

/-- The number of the next file comes after the numbers of all files. -/
theorem Inv.nextLsn (h : Inv n files [] written acc handler) :
  0 ≤ handler.fileManager.nextLsn ∧ ∀ file ∈ files, file.1 < handler.fileManager.nextLsn
  := by
  have hn := h.positive
  rw [LogFileManager.nextLsn, h.logFiles, List.append_nil, getLast?_listing, List.getLast?_map,
    h.capacity]
  cases hfile : files.getLast? with
  | none =>
    rw [List.getLast?_eq_none_iff] at hfile
    exact ⟨le_refl 0, by simp [hfile]⟩
  | some file =>
    obtain ⟨front, rfl⟩ := List.getLast?_eq_some_iff.mp hfile
    have hmem : file ∈ front ++ [file] := List.mem_append_right _ (List.mem_singleton_self _)
    have hpos := h.filed.nonneg file hmem
    simp only [Option.map_some]
    refine ⟨by omega, ?_⟩
    intro file' hfile'
    rcases List.mem_append.mp hfile' with hfront | hself
    · have hlt := (List.pairwise_append.mp h.filed.ascending).2.2 _ hfront file
        (List.mem_singleton_self _)
      omega
    · rw [List.mem_singleton] at hself
      subst hself
      omega

theorem Inv.nextFile (h : Inv n files [] written acc handler) (hcontrol : handler.control = .loop)
    (opens : Bool) :
  let (rc, fileManager, fileWriter, directory) :=
    handler.fileManager.nextFile handler.fileWriter handler.directory opens
  ∃ files' lsns', Inv n files' lsns' written acc
    { handler with directory, fileManager, fileWriter, rc }
  := by
  obtain ⟨hpos, hlt⟩ := h.nextLsn
  rw [LogFileManager.nextFile]
  generalize handler.fileManager.nextLsn = lsn at hpos hlt
  have hfiles : emplace lsn (filenameOf lsn) handler.fileManager.logFiles
      = listing (files.map Prod.fst ++ [lsn]) := by
    rw [h.logFiles, List.append_nil, emplace_of_lt, listing, listing, List.map_append]
    · rfl
    · intro file hfile
      obtain ⟨lsn', hlsn', rfl⟩ := List.mem_map.mp hfile
      obtain ⟨file', hfile', rfl⟩ := List.mem_map.mp hlsn'
      apply hlt _ hfile'
  rw [h.capacity]
  exact h.openNew hcontrol hpos hlt rfl hfiles opens

theorem Inv.lastFile (h : Inv n files lsns written acc handler) (hcontrol : handler.control = .loop)
    (opens : Bool) :
  let (rc, fileManager, fileWriter, directory) :=
    handler.fileManager.lastFile handler.fileWriter handler.directory opens
  ∃ files' lsns', Inv n files' lsns' written acc
    { handler with directory, fileManager, fileWriter, rc }
  := by
  rw [LogFileManager.lastFile, h.logFiles, getLast?_listing]
  rcases h.missing with rfl | ⟨-, -, -, lsn, rfl, hpos, hlt⟩
  · rw [List.append_nil, List.getLast?_map]
    cases hfile : files.getLast? with
    | none => apply h.nextFile hcontrol
    | some file =>
      have hopen := h.openLast hfile opens
      rw [h.capacity]
      exact ⟨files, [], hopen⟩
  · have hopen := h.openNew hcontrol hpos hlt h.capacity h.logFiles opens
    rw [List.getLast?_concat, h.capacity]
    exact hopen

theorem Inv.openFile (h : Inv n files lsns written acc handler) (hcontrol : handler.control = .loop)
    (opens : Bool) :
  ∃ files' lsns', Inv n files' lsns' written acc (handler.openFile opens)
  := by
  rw [DiskLogHandler.openFile]
  by_cases hfull : handler.rc = .logFileFull
  · have hlsns : lsns = [] := by
      apply h.missing_nil
      rw [hfull]
      left
      intro hne
      contradiction
    subst hlsns
    rw [if_pos hfull]
    apply h.nextFile hcontrol
  · rw [if_neg hfull]
    apply h.lastFile hcontrol

/-! ### Restarting -/

theorem foldl_max_spec (entries : List LogEntry) (m : Int) :
  m ≤ entries.foldl (fun m entry => max m entry.lsn) m
    ∧ (∀ entry ∈ entries, entry.lsn ≤ entries.foldl (fun m entry => max m entry.lsn) m)
    ∧ (entries.foldl (fun m entry => max m entry.lsn) m = m
        ∨ ∃ entry ∈ entries, entry.lsn = entries.foldl (fun m entry => max m entry.lsn) m)
  := by
  induction entries generalizing m with
  | nil => simp
  | cons entry entries ih =>
    obtain ⟨hle, hall, hmax⟩ := ih (max m entry.lsn)
    rw [List.foldl_cons]
    refine ⟨by omega, ?_, ?_⟩
    · intro entry' hentry'
      rcases List.mem_cons.mp hentry' with rfl | hmem
      · omega
      · apply hall _ hmem
    · rcases hmax with heq | ⟨entry', hentry', heq⟩
      · rcases le_total entry.lsn m with hle' | hle'
        · left
          omega
        · right
          exact ⟨entry, List.mem_cons_self, by omega⟩
      · right
        exact ⟨entry', List.mem_cons_of_mem _ hentry', heq⟩

theorem maxLsn_nonneg (entries : List LogEntry) : 0 ≤ maxLsn entries := (foldl_max_spec entries 0).1

theorem le_maxLsn {entries : List LogEntry} {entry : LogEntry} (h : entry ∈ entries) :
  entry.lsn ≤ maxLsn entries
  := (foldl_max_spec entries 0).2.1 entry h

theorem maxLsn_le {entries : List LogEntry} {m : Int} (hm : 0 ≤ m)
    (h : ∀ entry ∈ entries, entry.lsn ≤ m) :
  maxLsn entries ≤ m
  := by
  rcases (foldl_max_spec entries 0).2.2 with heq | ⟨entry, hentry, heq⟩
  · rw [maxLsn, heq]
    apply hm
  · rw [maxLsn, ← heq]
    apply h entry hentry

/-- Replaying from zero or from an entry meets the largest sequence number. -/
theorem maxLsn_filter {entries : List LogEntry} (hpos : ∀ entry ∈ entries, 0 ≤ entry.lsn)
    {checkPointLsn : Int}
    (hcheck : checkPointLsn = 0 ∨ ∃ entry ∈ entries, entry.lsn = checkPointLsn) :
  maxLsn (entries.filter (checkPointLsn ≤ ·.lsn)) = maxLsn entries
  := by
  apply le_antisymm
  · apply maxLsn_le (maxLsn_nonneg _)
    intro entry hentry
    apply le_maxLsn (List.mem_of_mem_filter hentry)
  · apply maxLsn_le (maxLsn_nonneg _)
    intro entry hentry
    by_cases hle : checkPointLsn ≤ entry.lsn
    · apply le_maxLsn
      rw [List.mem_filter]
      exact ⟨hentry, by simpa using hle⟩
    · rcases hcheck with rfl | ⟨entry', hentry', rfl⟩
      · have hpos := hpos entry hentry
        omega
      · have hmem : entry' ∈ entries.filter (entry'.lsn ≤ ·.lsn) := by
          rw [List.mem_filter]
          exact ⟨hentry', by simp⟩
        have hle' := le_maxLsn hmem
        omega

theorem deliver_replayCallback {σ : Type} {replayer : σ → LogEntry → σ × RC}
    {entries : List LogEntry} {m m' : Int} {s s' : σ}
    (h : deliver (DiskLogHandler.replayCallback replayer) entries (m, s) = ((m', s'), .success)) :
  m' = entries.foldl (fun m entry => max m entry.lsn) m
  := by
  induction entries generalizing m s with
  | nil =>
    cases h
    rfl
  | cons entry entries ih =>
    rw [deliver, andThen] at h
    split at h
    · rw [List.foldl_cons]
      have hmax : max m entry.lsn = if m < entry.lsn then entry.lsn else m := by
        split <;> omega
      rw [hmax]
      apply ih h
    · rename_i hfailed
      rw [h] at hfailed
      contradiction

/-- A handler on a directory of entries hands the entries over. -/
theorem iterate_init (hfiled : Filed n files) {filenames : List String}
    (hnames : filenames.Perm ((toDirectory (encodeFiles files)).map Prod.fst))
    {σ : Type} (consumer : σ → LogEntry → σ × RC) (startLsn : Int) (s : σ) :
  (LogFileManager.init n filenames).logFiles = listing (files.map Prod.fst)
    ∧ DiskLogHandler.iterate
        { directory := toDirectory (encodeFiles files), fileManager := .init n filenames }
        consumer startLsn s
      = deliver consumer ((entriesOf files).filter (startLsn ≤ ·.lsn)) s
  := by
  have hkeys : (toDirectory (encodeFiles files)).map Prod.fst
      = (files.map Prod.fst).map filenameOf := by
    rw [toDirectory, encodeFiles, List.map_map, List.map_map, List.map_map]
    rfl
  have hlogFiles : (LogFileManager.init n filenames).logFiles = listing (files.map Prod.fst) := by
    apply logFiles_init
    · rw [List.pairwise_map]
      apply hfiled.ascending
    · intro lsn hlsn
      obtain ⟨file, hfile, rfl⟩ := List.mem_map.mp hlsn
      apply hfiled.nonneg _ hfile
    · rw [← hkeys]
      apply hnames
  refine ⟨hlogFiles, ?_⟩
  rw [← List.append_nil (files.map Prod.fst)] at hlogFiles
  rw [iterate_eq hfiled rfl hlogFiles hfiled.lookup, andThen]
  split
  · rename_i hrc
    rw [List.filter_nil, List.map_nil, DiskLogHandler.iterateFiles, ← hrc]
  · rfl

/-- A handler that has replayed a directory of entries goes on behind them. -/
theorem inv_of_restart (hn : 1 ≤ n) (hfiled : Filed n files) {filenames : List String}
    (hnames : filenames.Perm ((toDirectory (encodeFiles files)).map Prod.fst)) {checkPointLsn : Int}
    (hcheck : checkPointLsn = 0 ∨ ∃ entry ∈ entriesOf files, entry.lsn = checkPointLsn)
    {σ : Type} {replayer : σ → LogEntry → σ × RC} {s s' : σ} {handler' : DiskLogHandler}
    (hrestart : DiskLogHandler.restart n (toDirectory (encodeFiles files)) filenames replayer
      checkPointLsn s = (.success, s', handler')) :
  Inv n files [] [] ⟨entriesOf files, maxLsn (entriesOf files), []⟩ handler'
  := by
  obtain ⟨hlogFiles, hiterate⟩ := iterate_init hfiled hnames
    (DiskLogHandler.replayCallback replayer) checkPointLsn (0, s)
  rw [DiskLogHandler.restart, DiskLogHandler.replay, hiterate] at hrestart
  split at hrestart
  · rename_i m s'' hdeliver
    cases hrestart
    have hmax := deliver_replayCallback hdeliver
    have hpos : ∀ entry ∈ entriesOf files, 0 ≤ entry.lsn := by
      intro entry hentry
      have hlsn := (hfiled.fits entry hentry).lsn
      omega
    change m = maxLsn _ at hmax
    rw [maxLsn_filter hpos hcheck] at hmax
    exact {
      positive := hn
      capacity := rfl
      filed := hfiled
      directory := rfl
      logFiles := by rw [hlogFiles, List.append_nil]
      missing := .inl rfl
      writer := by
        intro filename hfilename
        cases hfilename
      entries := by rw [List.append_nil]
      fresh := rfl
      numbered := by
        intro i entry hi
        cases hi
      old := fun entry hentry => le_maxLsn hentry
      base := maxLsn_nonneg _
      fits := by simp
      currentLsn := by simpa [LogEntryBuffer.init] using hmax
      flushedLsn := by simpa [LogEntryBuffer.init] using hmax }
  · rename_i rc hfailed hdeliver
    cases hrestart
    exact absurd rfl hfailed

/-! ### Runs -/

/-- A step keeps the invariant and leads to the account of the longer history. -/
theorem inv_step {acc₀ : Account} {h : List (DiskLogHandler × Event)} {event : Event}
    {handler' : DiskLogHandler} (hinv : Inv n files lsns written (account acc₀ h) handler)
    (hstep : Step n handler event handler') (hadm : Admissible handler event) :
  ∃ files' lsns' written', Inv n files' lsns' written' (account acc₀ ((handler, event) :: h)) handler'
  := by
  cases hstep with
  | append hroom happend => exact ⟨_, _, _, hinv.append happend hadm⟩
  | openFile hcontrol hneed opens =>
    obtain ⟨files', lsns', hinv'⟩ := hinv.openFile hcontrol opens
    exact ⟨files', lsns', written, hinv'⟩
  | flush hcontrol hvalid hrc =>
    have hlsns := hinv.missing_nil (.inr (.inl hvalid))
    refine ⟨files, lsns, written, hinv.moveControl hlsns rfl rfl ?_⟩
    rw [DiskLogHandler.pending, DiskLogHandler.pending, hcontrol]
  | pop hcontrol hentries hassert =>
    have hlsns := hinv.missing_nil (.inr (.inr (by rw [hcontrol]; decide)))
    refine ⟨files, lsns, written, hinv.moveControl hlsns rfl rfl ?_⟩
    rw [DiskLogHandler.pending, DiskLogHandler.pending, hcontrol]
    simp only [hentries]
    rfl
  | write hcontrol writes =>
    obtain ⟨files', written', hinv'⟩ := hinv.writeEntry hcontrol writes
    exact ⟨files', lsns, written', hinv'⟩
  | done hcontrol hentries =>
    have hlsns := hinv.missing_nil (.inr (.inr (by rw [hcontrol]; decide)))
    refine ⟨files, lsns, written, hinv.moveControl hlsns rfl rfl ?_⟩
    rw [DiskLogHandler.pending, DiskLogHandler.pending, hcontrol]
  | restart hnames hrestart =>
    have hstored := hinv.stored
    rw [hinv.directory] at hnames hrestart
    rw [Admissible, hstored] at hadm
    have hinv' := inv_of_restart hinv.positive hinv.filed hnames hadm hrestart
    rw [← hstored] at hinv'
    exact ⟨files, [], [], hinv'⟩

/-- The invariant holds along every run of admissible events. -/
theorem inv_run {acc₀ : Account} {handler₀ : DiskLogHandler}
    (hstart : ∃ files lsns written, Inv n files lsns written acc₀ handler₀)
    {h : List (DiskLogHandler × Event)} (hrun : Run (Step n) handler₀ h handler)
    (hadm : AdmissibleHistory h) :
  ∃ files lsns written, Inv n files lsns written (account acc₀ h) handler
  := by
  induction hrun with
  | refl => apply hstart
  | tail _ hlast ih =>
    obtain ⟨hevent, hadm⟩ := List.forall_mem_cons.mp hadm
    obtain ⟨files, lsns, written, hinv⟩ := ih hadm
    apply inv_step hinv hlast hevent

end MiniOB.Clog
