import MiniOB.Clog.Delivery

/-!
# Torn tails

A crash in the middle of `LogFileWriter::write` leaves a prefix of the bytes of the log: the
last file ends at some byte of an entry. A prefix that ends behind an entry is read back and
continued like any log. A prefix that ends inside of a payload is not read back, and one that
ends inside of a header is, but what is appended behind the torn bytes is not.
-/

namespace MiniOB.Clog

open Transition

/-! ### Prefixes of a log -/

/-- The entries that lie completely in the first `k` bytes of a file of entries, and the bytes
that are left of the next one. -/
def cut : Nat → List LogEntry → List LogEntry × List UInt8
  | _, [] => ([], [])
  | k, entry :: entries =>
    if entry.encode.length ≤ k then
      (entry :: (cut (k - entry.encode.length) entries).1,
        (cut (k - entry.encode.length) entries).2)
    else ([], entry.encode.take k)

/-- The files `front`, and the first `k` bytes of the file `lsn`. -/
def tornDirectory (front : List (Int × List LogEntry)) (lsn : Int) (entries : List LogEntry)
    (k : Nat) : Directory :=
  toDirectory (encodeFiles front ++ [(lsn, (encodeAll entries).take k)])

/-- The entries that lie completely in a prefix. -/
def complete (front : List (Int × List LogEntry)) (entries : List LogEntry) (k : Nat) :
    List LogEntry :=
  entriesOf front ++ (cut k entries).1

/-- The log tolerates a prefix: its complete entries are read back without an error, and
whatever is appended and flushed after a restart is read back behind them. -/
structure TornTolerant (n : Int) (front : List (Int × List LogEntry)) (lsn : Int)
    (entries : List LogEntry) (k : Nat) : Prop where
  iterate : ∀ {σ : Type} (consumer : σ → LogEntry → σ × RC) (filenames : List String)
    (startLsn : Int) (s : σ),
    filenames.Perm ((tornDirectory front lsn entries k).map Prod.fst) →
    DiskLogHandler.iterate
        { directory := tornDirectory front lsn entries k, fileManager := .init n filenames }
        consumer startLsn s
      = deliver consumer ((complete front entries k).filter (startLsn ≤ ·.lsn)) s
  restart : ∀ {σ : Type} (replayer : σ → LogEntry → σ × RC) (filenames : List String)
    (checkPointLsn : Int) (s s' : σ) (handler : DiskLogHandler),
    filenames.Perm ((tornDirectory front lsn entries k).map Prod.fst) →
    (checkPointLsn = 0 ∨ ∃ entry ∈ complete front entries k, entry.lsn = checkPointLsn) →
    DiskLogHandler.restart n (tornDirectory front lsn entries k) filenames replayer checkPointLsn s
      = (.success, s', handler) →
    ∀ (h : List (DiskLogHandler × Event)) (handler' : DiskLogHandler),
      Run (Step n) handler h handler' → AdmissibleHistory h →
      handler'.pending = [] → handler'.rc ≠ .fileOpen →
      ∀ {σ : Type} (consumer : σ → LogEntry → σ × RC) (startLsn : Int) (s : σ),
        handler'.iterate consumer startLsn s
          = deliver consumer
              ((account (.ofOld (complete front entries k)) h).entries.filter (startLsn ≤ ·.lsn)) s

variable {n lsn : Int} {front rest : List (Int × List LogEntry)} {entries : List LogEntry} {k : Nat}

theorem take_encodeAll (k : Nat) (entries : List LogEntry) :
  (encodeAll entries).take k = encodeAll (cut k entries).1 ++ (cut k entries).2
  := by
  induction entries generalizing k with
  | nil => rw [encodeAll_nil, List.take_nil]; rfl
  | cons entry entries ih =>
    rw [encodeAll_cons, List.take_append, cut]
    split
    · rename_i hle
      rw [List.take_of_length_le hle, ih, encodeAll_cons, List.append_assoc]
    · rename_i hlt
      have hzero : k - entry.encode.length = 0 := by omega
      rw [hzero, List.take_zero, List.append_nil]
      rfl

/-- What is left behind the complete entries is the front of the next one. -/
theorem cut_spec (k : Nat) (entries : List LogEntry) :
  (∃ entries', entries = (cut k entries).1 ++ entries') ∧
  ((cut k entries).2 ≠ [] → ∃ entry entries' t, entries = (cut k entries).1 ++ entry :: entries' ∧
    0 < t ∧ t < entry.encode.length ∧ (cut k entries).2 = entry.encode.take t)
  := by
  induction entries generalizing k with
  | nil => exact ⟨⟨[], rfl⟩, fun h => absurd rfl h⟩
  | cons entry entries ih =>
    rw [cut]
    split
    · obtain ⟨⟨entries', hentries⟩, htail⟩ := ih (k - entry.encode.length)
      constructor
      · use entries'
        rw [List.cons_append, ← hentries]
      · intro hne
        obtain ⟨entry', entries'', t, hentries', ht⟩ := htail hne
        use entry', entries'', t
        rw [List.cons_append, ← hentries']
        exact ⟨rfl, ht⟩
    · rename_i hlt
      refine ⟨⟨_, rfl⟩, ?_⟩
      intro hne
      refine ⟨entry, entries, k, rfl, ?_, by omega, rfl⟩
      rcases Nat.eq_zero_or_pos k with rfl | hpos
      · exact absurd rfl hne
      · apply hpos

/-- The complete entries of a prefix are files of entries again. -/
theorem Filed.cut (h : Filed n (front ++ (lsn, entries) :: rest)) (k : Nat) :
  Filed n (front ++ [(lsn, (cut k entries).1)])
  := by
  obtain ⟨⟨entries', hentries⟩, -⟩ := cut_spec k entries
  generalize (Clog.cut k entries).1 = entries₁ at hentries
  subst hentries
  have hsub : (entriesOf (front ++ [(lsn, entries₁)])).Sublist
      (entriesOf (front ++ (lsn, entries₁ ++ entries') :: rest)) := by
    rw [entriesOf, entriesOf, List.flatMap_append, List.flatMap_append, List.flatMap_cons,
      List.flatMap_cons, List.flatMap_nil, List.append_nil, List.append_assoc]
    apply List.Sublist.append_left
    apply List.sublist_append_left
  have hfst : ((front ++ [(lsn, entries₁)]).map Prod.fst).Sublist
      ((front ++ (lsn, entries₁ ++ entries') :: rest).map Prod.fst) := by
    rw [List.map_append, List.map_append, List.map_cons, List.map_cons, List.map_nil]
    apply List.Sublist.append_left
    apply (List.nil_sublist _).cons_cons
  -- every file of the prefix is the front of a file of the log
  have hfile : ∀ file ∈ front ++ [(lsn, entries₁)],
      ∃ file' ∈ front ++ (lsn, entries₁ ++ entries') :: rest, file'.1 = file.1
        ∧ ∀ entry ∈ file.2, entry ∈ file'.2 := by
    intro file hfile
    rcases List.mem_append.mp hfile with hmem | hmem
    · exact ⟨file, List.mem_append_left _ hmem, rfl, fun entry hentry => hentry⟩
    · rw [List.mem_singleton] at hmem
      subst hmem
      exact ⟨_, List.mem_append_right _ List.mem_cons_self, rfl,
        fun entry hentry => List.mem_append_left _ hentry⟩
  constructor
  · intro file hmem
    obtain ⟨file', hmem', heq, -⟩ := hfile file hmem
    rw [← heq]
    apply h.nonneg file' hmem'
  · have hascending := h.ascending
    rw [← List.pairwise_map (f := Prod.fst) (R := (· < ·))] at hascending ⊢
    apply hascending.sublist hfst
  · intro file hmem entry hentry
    obtain ⟨file', hmem', heq, hentries⟩ := hfile file hmem
    rw [← heq]
    apply h.bound file' hmem' entry (hentries entry hentry)
  · intro file hmem entry hentry
    obtain ⟨file', hmem', heq, hentries⟩ := hfile file hmem
    rw [← heq]
    apply h.endLsn file' hmem' entry (hentries entry hentry)
  · intro entry hentry
    apply h.fits entry (hsub.subset hentry)
  · apply h.sorted.sublist hsub

theorem Filed.of_append (h : Filed n (front ++ rest)) : Filed n front := by
  have hsub : (entriesOf front).Sublist (entriesOf (front ++ rest)) := by
    rw [entriesOf, entriesOf, List.flatMap_append]
    apply List.sublist_append_left
  constructor
  · intro file hfile
    apply h.nonneg file (List.mem_append_left _ hfile)
  · apply (List.pairwise_append.mp h.ascending).1
  · intro file hfile
    apply h.bound file (List.mem_append_left _ hfile)
  · intro file hfile
    apply h.endLsn file (List.mem_append_left _ hfile)
  · intro entry hentry
    apply h.fits entry (hsub.subset hentry)
  · apply h.sorted.sublist hsub

/-- A prefix that ends behind an entry is a log. -/
theorem tornTolerant_of_nil (hn : 1 ≤ n) (h : Filed n (front ++ (lsn, entries) :: rest))
    (htail : (cut k entries).2 = []) :
  TornTolerant n front lsn entries k
  := by
  have hfiled := h.cut k
  have hdirectory : tornDirectory front lsn entries k
      = toDirectory (encodeFiles (front ++ [(lsn, (cut k entries).1)])) := by
    rw [tornDirectory, take_encodeAll, htail, List.append_nil, encodeFiles, encodeFiles,
      List.map_append]
    rfl
  have hcomplete : complete front entries k = entriesOf (front ++ [(lsn, (cut k entries).1)]) := by
    rw [complete, entriesOf, entriesOf, List.flatMap_append, List.flatMap_singleton]
  constructor
  · intro σ consumer filenames startLsn s hnames
    rw [hdirectory] at hnames
    rw [hdirectory, hcomplete]
    apply (iterate_init hfiled hnames consumer startLsn s).2
  · intro σ replayer filenames checkPointLsn s s' handler hnames hcheck hrestart h handler' hrun
      hadm hpending hopened σ' consumer startLsn s₀
    rw [hdirectory] at hnames hrestart
    rw [hcomplete] at hcheck ⊢
    have hstart := inv_of_restart hn hfiled hnames hcheck hrestart
    obtain ⟨files, lsns, written, hinv⟩ := inv_run ⟨_, _, _, hstart⟩ hrun hadm
    apply (hinv.keeps.iterate hpending hopened).2

/-! ### Reading behind torn bytes -/

/-- The smallest number that a start can have, so that nothing is skipped. -/
def minLsn : Int := -2 ^ 63

theorem readFile_minLsn {σ : Type} (callback : σ → LogEntry → σ × RC) (bytes : List UInt8) (s : σ) :
  readFile callback minLsn bytes s = readEntries callback bytes s
  := by
  rw [readFile, skipTo_eq, readEntries_eq]
  cases h : readHeader bytes with
  | none => rfl
  | some read =>
    have hle : minLsn ≤ read.1.lsn := le_lsn_of_readHeader h
    simp only [if_pos hle]
    rw [readEntries_eq, h]

theorem filter_minLsn {entries : List LogEntry} (h : ∀ entry ∈ entries, 0 < entry.lsn) :
  entries.filter (minLsn ≤ ·.lsn) = entries
  := by
  rw [List.filter_eq_self]
  intro entry hentry
  have hlsn := h entry hentry
  rw [decide_eq_true_eq, minLsn]
  omega

/-- The files up to the file `lsn`, with any bytes in it. -/
theorem Filed.encode_last (h : Filed n (front ++ (lsn, entries) :: rest)) (bytes : List UInt8) :
  (∀ file ∈ encodeFiles front ++ [(lsn, bytes)], 0 ≤ file.1)
    ∧ (encodeFiles front ++ [(lsn, bytes)]).Pairwise fun f f' => f.1 < f'.1
  := by
  have hascending := List.pairwise_append.mp h.ascending
  constructor
  · intro file hfile
    rcases List.mem_append.mp hfile with hmem | hmem
    · obtain ⟨file', hfile', rfl⟩ := List.mem_map.mp hmem
      apply h.nonneg _ (List.mem_append_left _ hfile')
    · rw [List.mem_singleton] at hmem
      subst hmem
      apply h.nonneg (lsn, entries) (List.mem_append_right _ List.mem_cons_self)
  · rw [List.pairwise_append]
    refine ⟨?_, List.pairwise_singleton _ _, ?_⟩
    · rw [encodeFiles, List.pairwise_map]
      apply hascending.1
    · intro file hfile file' hfile'
      rw [List.mem_singleton] at hfile'
      subst hfile'
      obtain ⟨file'', hfile'', rfl⟩ := List.mem_map.mp hfile
      apply hascending.2.2 _ hfile'' _ List.mem_cons_self

/-- A manager that knows the files, the last one with any bytes in it. -/
theorem iterate_last (hn : 1 ≤ n) (h : Filed n (front ++ (lsn, entries) :: rest)) {bytes : List UInt8} {handler : DiskLogHandler}
    (hdirectory : handler.directory = toDirectory (encodeFiles front ++ [(lsn, bytes)]))
    (hcapacity : handler.fileManager.maxEntryNumberPerFile = n)
    (hlogFiles : handler.fileManager.logFiles = listing (front.map Prod.fst ++ [lsn]))
    (collected : List LogEntry) :
  handler.iterate collect minLsn collected
    = readEntries collect bytes (collected ++ entriesOf front)
  := by
  have hfront := h.of_append
  have hlsn : 0 ≤ lsn := h.nonneg _ (List.mem_append_right _ List.mem_cons_self)
  obtain ⟨hpos, hascending⟩ := h.encode_last bytes
  have hlookup : ∀ file ∈ front,
      handler.directory.lookup (filenameOf file.1) = some (encodeAll file.2) := by
    intro file hfile
    have hmem : (file.1, encodeAll file.2) ∈ encodeFiles front ++ [(lsn, bytes)] :=
      List.mem_append_left _ (List.mem_map_of_mem hfile)
    rw [hdirectory]
    apply lookup_toDirectory hpos hascending hmem
  have hlast : handler.directory.lookup (filenameOf lsn) = some bytes := by
    have hmem : (lsn, bytes) ∈ encodeFiles front ++ [(lsn, bytes)] :=
      List.mem_append_right _ (List.mem_singleton_self _)
    rw [hdirectory]
    apply lookup_toDirectory hpos hascending hmem
  have hlisted : [lsn].filter (fun lsn => minLsn ≤ lsn + n - 1) = [lsn] := by
    have hle : minLsn ≤ lsn + n - 1 := by
      rw [minLsn]
      omega
    rw [List.filter_cons_of_pos (by simpa using hle), List.filter_nil]
  have hall : (entriesOf front).filter (minLsn ≤ ·.lsn) = entriesOf front :=
    filter_minLsn fun entry hentry => (hfront.fits entry hentry).lsn.1
  rw [iterate_eq hfront hcapacity hlogFiles hlookup, hall, deliver_collect, andThen, if_pos rfl,
    hlisted, List.map_singleton, DiskLogHandler.iterateFiles, hlast]
  simp only
  rw [readFile_minLsn, andThen]
  split
  · rename_i hrc
    rw [DiskLogHandler.iterateFiles, ← hrc]
  · rfl

/-- A payload that is not complete is an error. -/
theorem readEntries_tornPayload {σ : Type} {callback : σ → LogEntry → σ × RC} {entry : LogEntry}
    (h : entry.Fits) {t : Nat} (hle : headerSize ≤ t) (hlt : t < entry.encode.length) (s : σ) :
  readEntries callback (entry.encode.take t) s = (s, .ioerrRead)
  := by
  have hlen := h.length
  have hsize : ¬ ((entry.data.length : Int) < 0 ∨ maxPayloadSize < entry.data.length) := by omega
  rw [LogEntry.length_encode] at hlt
  rw [LogEntry.encode, List.take_append, length_encode_header,
    List.take_of_length_le (by rw [length_encode_header]; omega), readEntries_eq,
    h.readHeader_header]
  simp only [h.size, Int.toNat_natCast, if_neg hsize]
  rw [Bytes.read_of_lt (by rw [List.length_take]; omega)]

/-- What has been collected stays. -/
theorem readEntries_collect (bytes : List UInt8) (collected : List LogEntry) :
  ∃ entries, (readEntries collect bytes collected).1 = collected ++ entries
  := by
  rw [readEntries]
  generalize bytes.length + 1 = fuel
  induction fuel generalizing bytes collected with
  | zero => exact ⟨[], (List.append_nil _).symm⟩
  | succ fuel ih =>
    rw [iterateLoop]
    split
    · exact ⟨[], (List.append_nil _).symm⟩
    · rename_i header rest _
      split
      · exact ⟨[], (List.append_nil _).symm⟩
      · split
        · exact ⟨[], (List.append_nil _).symm⟩
        · rename_i data rest' _
          rw [collect, andThen, if_pos rfl]
          obtain ⟨entries, hentries⟩ := ih rest' (collected ++ [⟨header.lsn, header.moduleId, data⟩])
          use ⟨header.lsn, header.moduleId, data⟩ :: entries
          rw [hentries, List.append_assoc]
          rfl

/-- An entry behind the torn bytes of a header is not read back when its payload differs from
the byte of its own header that is read in the place of the payload. -/
theorem readEntries_tornHeader {torn : List UInt8} (hpos : 0 < torn.length)
    (hlt : torn.length < headerSize) {entry : LogEntry} {b : UInt8} (hdata : entry.data = [b])
    (hb : entry.header.encode[headerSize - torn.length]? ≠ some b) (collected : List LogEntry) :
  (readEntries collect (torn ++ entry.encode) collected).1 ≠ collected ++ [entry]
  := by
  have hlen : headerSize ≤ (torn ++ entry.encode).length := by
    rw [List.length_append, LogEntry.length_encode]
    omega
  obtain ⟨header, hheader⟩ := exists_readHeader hlen
  have hnil : collected ≠ collected ++ [entry] := by
    intro heq
    simp at heq
  rw [readEntries_eq, hheader]
  simp only
  split
  · apply hnil
  · split
    · apply hnil
    · rename_i data rest hread
      obtain ⟨hsplit, -⟩ := Bytes.read_eq_some hread
      rw [collect, andThen, if_pos rfl]
      obtain ⟨entries, hentries⟩ :=
        readEntries_collect rest (collected ++ [⟨header.lsn, header.moduleId, data⟩])
      rw [hentries, List.append_assoc]
      intro heq
      -- the first entry that is read is the one that was appended
      have hfirst := List.append_cancel_left heq
      rw [List.singleton_append, List.cons.injEq] at hfirst
      obtain ⟨rfl, -⟩ := hfirst
      change data = [b] at hdata
      subst hdata
      apply hb
      have hget : ((torn ++ LogEntry.encode ⟨header.lsn, header.moduleId, [b]⟩).drop
          headerSize)[0]? = some b := by
        rw [hsplit]
        rfl
      rw [List.getElem?_drop, List.getElem?_append_right (by omega), LogEntry.encode,
        List.getElem?_append_left (by rw [length_encode_header]; omega)] at hget
      apply hget

theorem write_success {writer : LogFileWriter} {directory : Directory} {filename : String}
    (hfilename : writer.filename = some filename) {entry : LogEntry}
    (hend : entry.lsn ≤ writer.endLsn) (hlast : writer.lastLsn < entry.lsn) :
  writer.write directory entry true
    = (.success, { writer with lastLsn := int32 entry.lsn }, directory.append filename entry.encode)
  := by
  have hfull : ¬ writer.endLsn < entry.lsn := by omega
  have hnew : ¬ entry.lsn ≤ writer.lastLsn := by omega
  rw [LogFileWriter.write, if_neg hfull, hfilename]
  simp only [if_neg hnew, if_true]

/-- After a restart, an entry with one byte is appended and written to the last file. -/
theorem exists_run_append {m : Int} (hm : 0 ≤ m) {directory : Directory}
    {manager : LogFileManager} (hlast : manager.logFiles.getLast? = some (lsn, filenameOf lsn))
    (hlookup : (directory.lookup (filenameOf lsn)).isSome)
    (hend : m + 1 ≤ int32 (lsn + manager.maxEntryNumberPerFile - 1)) (hbound : m + 1 < 2 ^ 31)
    (b : UInt8) (acc : Account) :
  ∃ h handler', Run (Step n)
      { directory, fileManager := manager, entryBuffer := LogEntryBuffer.init {} m } h handler' ∧
    AdmissibleHistory h ∧
    account acc h = { acc with fresh := acc.fresh ++ [⟨m + 1, 0, [b]⟩] } ∧
    handler'.pending = [] ∧ handler'.rc = .success ∧ handler'.fileManager = manager ∧
    handler'.directory
      = directory.append (filenameOf lsn) (LogEntry.encode ⟨m + 1, 0, [b]⟩)
  := by
  let entry : LogEntry := ⟨m + 1, 0, [b]⟩
  let buffer := LogEntryBuffer.init {} m
  let buffer₁ := { buffer with entries := [entry], bytes := headerSize, currentLsn := m + 1 }
  let writer : LogFileWriter :=
    ⟨some (filenameOf lsn), 0, int32 (lsn + manager.maxEntryNumberPerFile - 1)⟩
  let s₀ : DiskLogHandler := { directory, fileManager := manager, entryBuffer := buffer }
  let s₁ : DiskLogHandler := { s₀ with entryBuffer := buffer₁ }
  let s₂ : DiskLogHandler := { s₁ with fileWriter := writer }
  let s₃ : DiskLogHandler := { s₂ with control := .flush }
  let s₄ : DiskLogHandler :=
    { s₃ with entryBuffer := buffer₁.pop entry [], control := .write entry }
  let s₅ : DiskLogHandler := { s₄ with
    directory := directory.append (filenameOf lsn) entry.encode
    fileWriter := { writer with lastLsn := int32 entry.lsn }
    entryBuffer := { s₄.entryBuffer with flushedLsn := entry.lsn }
    control := .flush }
  have happend : buffer.append 0 [b] = .ok (m + 1, buffer₁) := by
    rw [LogEntryBuffer.append, List.length_singleton, if_neg (by decide)]
    rfl
  have hopen : s₁.openFile true = s₂ := by
    rw [DiskLogHandler.openFile, if_neg (fun h => by cases h), LogFileManager.lastFile]
    simp only [s₁, s₀, hlast, LogFileWriter.openFile, LogFileWriter.valid, LogFileWriter.close,
      Option.isSome_none, Directory.create, if_pos hlookup]
    rfl
  have hwrite : s₄.writeEntry entry true = s₅ := by
    have hnew : writer.lastLsn < entry.lsn := by
      change 0 < m + 1
      omega
    rw [DiskLogHandler.writeEntry, write_success rfl hend hnew]
  have hroom : (0 : Int) < 4 * 1024 * 1024 := by decide
  have h₁ : Step n s₀ (.append entry) s₁ := .append hroom happend
  have h₂ : Step n s₁ .openFile s₂ := hopen ▸ .openFile rfl (.inl rfl) true
  have h₃ : Step n s₂ .flush s₃ := .flush rfl rfl (fun h => by cases h)
  have hmodule : -2 ^ 31 ≤ (0 : Int) ∧ (0 : Int) < 2 ^ 31 := by decide
  have hlength : ((1 : Nat) : Int) ≤ maxPayloadSize := by decide
  have hfits : entry.Fits := ⟨⟨Int.lt_add_one_of_le hm, hbound⟩, hmodule, Nat.one_pos, hlength⟩
  have hassert : 0 < entry.lsn ∧ 0 < entry.header.size := by
    rw [hfits.size]
    exact ⟨hfits.lsn.1, Int.natCast_pos.mpr hfits.nonempty⟩
  have h₄ : Step n s₃ .pop s₄ := .pop rfl rfl hassert
  have h₅ : Step n s₄ .write s₅ := hwrite ▸ .write rfl true
  refine ⟨_, _, ((((Run.refl.tail h₁).tail h₂).tail h₃).tail h₄).tail h₅, ?_, rfl, rfl, rfl, rfl, rfl⟩
  have hentry : Admissible s₀ (.append entry) := ⟨hbound, hmodule, hfits.nonempty, hlength⟩
  simp only [AdmissibleHistory, List.forall_mem_cons, List.not_mem_nil, false_implies,
    implies_true, and_true, Admissible, true_and]
  apply hentry

/-! ### Torn payloads and torn headers -/

/-- The manager knows the files of a prefix. -/
theorem logFiles_tornDirectory (h : Filed n (front ++ (lsn, entries) :: rest)) (k : Nat) :
  (LogFileManager.init n ((tornDirectory front lsn entries k).map Prod.fst)).logFiles
    = listing (front.map Prod.fst ++ [lsn])
  := by
  have hfiled := h.cut k
  have hlsns : front.map Prod.fst ++ [lsn]
      = (front ++ [(lsn, (Clog.cut k entries).1)]).map Prod.fst := by
    rw [List.map_append, List.map_singleton]
  have hnames : (tornDirectory front lsn entries k).map Prod.fst
      = (front.map Prod.fst ++ [lsn]).map filenameOf := by
    simp only [tornDirectory, toDirectory, encodeFiles, List.map_append, List.map_map,
      List.map_cons, List.map_nil]
    rfl
  apply logFiles_init
  · rw [hlsns, List.pairwise_map]
    apply hfiled.ascending
  · intro lsn' hlsn'
    rw [hlsns] at hlsn'
    obtain ⟨file, hfile, rfl⟩ := List.mem_map.mp hlsn'
    apply hfiled.nonneg file hfile
  · rw [hnames]

/-- A torn tail of a whole header and more is an error. -/
theorem not_tornTolerant_of_payload (hn : 1 ≤ n) (h : Filed n (front ++ (lsn, entries) :: rest))
    (htail : headerSize ≤ (cut k entries).2.length) :
  ¬ TornTolerant n front lsn entries k
  := by
  intro htolerant
  have hne : (cut k entries).2 ≠ [] := by
    intro hnil
    rw [hnil] at htail
    contradiction
  obtain ⟨entry, entries', t, hentries, -, hlt, htake⟩ := (cut_spec k entries).2 hne
  have hfits : ∀ entry' ∈ entries, entry'.Fits := by
    intro entry' hentry'
    apply h.fits
    rw [mem_entriesOf]
    exact ⟨_, List.mem_append_right _ List.mem_cons_self, hentry'⟩
  have hmem : entry ∈ entries := by
    rw [hentries]
    apply List.mem_append_right _ List.mem_cons_self
  rw [htake, List.length_take] at htail
  have hiterate := htolerant.iterate collect _ minLsn [] (List.Perm.refl _)
  rw [iterate_last hn h rfl rfl (logFiles_tornDirectory h k), take_encodeAll, htake,
    readEntries_encodeAll, deliver_collect, andThen, if_pos rfl,
    readEntries_tornPayload (hfits entry hmem) (by omega) hlt, deliver_collect] at hiterate
  · have hrc := congrArg Prod.snd hiterate
    cases hrc
  · intro entry' hentry'
    apply hfits
    rw [hentries]
    apply List.mem_append_left _ hentry'

/-- The complete entries come before the torn one. -/
theorem complete_lt (h : Filed n (front ++ (lsn, entries) :: rest))
    (hne : (cut k entries).2 ≠ []) :
  ∃ entry ∈ entries, ∀ entry' ∈ complete front entries k, entry'.lsn < entry.lsn
  := by
  obtain ⟨entry, entries', t, hentries, -, -, -⟩ := (cut_spec k entries).2 hne
  have hmem : entry ∈ entries := by
    rw [hentries]
    apply List.mem_append_right _ List.mem_cons_self
  have hsub : (complete front entries k ++ [entry]).Sublist
      (entriesOf (front ++ (lsn, entries) :: rest)) := by
    rw [complete, entriesOf, entriesOf, List.flatMap_append, List.flatMap_cons, List.append_assoc]
    apply List.Sublist.append_left
    apply List.Sublist.trans _ (List.sublist_append_left _ _)
    conv_rhs => rw [hentries]
    apply List.Sublist.append_left
    apply (List.nil_sublist _).cons_cons
  refine ⟨entry, hmem, ?_⟩
  intro entry' hentry'
  apply (List.pairwise_append.mp (h.sorted.sublist hsub)).2.2 entry' hentry'
  apply List.mem_singleton_self

theorem complete_fits (h : Filed n (front ++ (lsn, entries) :: rest)) (k : Nat) :
  ∀ entry ∈ complete front entries k, entry.Fits
  := by
  have hcomplete : complete front entries k = entriesOf (front ++ [(lsn, (cut k entries).1)]) := by
    rw [complete, entriesOf, entriesOf, List.flatMap_append, List.flatMap_singleton]
  rw [hcomplete]
  apply (h.cut k).fits

theorem header_singleton (lsn moduleId : Int) (b : UInt8) :
  (LogEntry.mk lsn moduleId [b]).header = ⟨lsn, 1, moduleId⟩
  := by
  rw [LogEntry.header, List.length_singleton, int32_of_mem (by decide) (by decide)]
  rfl

theorem exists_ne_getElem (bytes : List UInt8) (i : Nat) :
  ∃ b, bytes[i]? ≠ some b
  := by
  rcases eq_or_ne bytes[i]? (some 0) with hzero | hne
  · use 1
    rw [hzero]
    decide
  · use 0

/-- A restart from the beginning that takes all entries of a prefix. -/
theorem restart_tornDirectory (htolerant : TornTolerant n front lsn entries k)
    (h : Filed n (front ++ (lsn, entries) :: rest)) :
  DiskLogHandler.restart n (tornDirectory front lsn entries k)
      ((tornDirectory front lsn entries k).map Prod.fst) (fun (_ : Unit) _ => ((), .success)) 0 ()
    = (.success, (),
        { directory := tornDirectory front lsn entries k
          fileManager := .init n ((tornDirectory front lsn entries k).map Prod.fst)
          entryBuffer := LogEntryBuffer.init {} (maxLsn (complete front entries k)) })
  := by
  have hiterate := htolerant.iterate (DiskLogHandler.replayCallback fun (_ : Unit) _ => ((), .success))
    _ 0 (0, ()) (List.Perm.refl _)
  have hall : (complete front entries k).filter (0 ≤ ·.lsn) = complete front entries k := by
    rw [List.filter_eq_self]
    intro entry hentry
    have hlsn := (complete_fits h k entry hentry).lsn
    rw [decide_eq_true_eq]
    omega
  rw [hall] at hiterate
  obtain ⟨s', hrestart⟩ := restart_eq hiterate (fun _ _ => rfl)
  apply hrestart

/-- What is appended behind a torn header can get lost. -/
theorem not_tornTolerant_of_header (hn : 1 ≤ n) (h : Filed n (front ++ (lsn, entries) :: rest))
    (hpos : 0 < (cut k entries).2.length) (hlt : (cut k entries).2.length < headerSize) :
  ¬ TornTolerant n front lsn entries k
  := by
  intro htolerant
  have hlast : (lsn, entries) ∈ front ++ (lsn, entries) :: rest :=
    List.mem_append_right _ List.mem_cons_self
  have hfits := complete_fits h k
  have hrestart := restart_tornDirectory htolerant h
  -- the sequence number that comes next is at most that of the torn entry
  obtain ⟨entry, hentry, hless⟩ := complete_lt h (List.ne_nil_of_length_pos hpos)
  have hlsn := (h.fits entry (mem_entriesOf.mpr ⟨_, hlast, hentry⟩)).lsn
  have hend : entry.lsn ≤ int32 (lsn + n - 1) := h.endLsn _ hlast entry hentry
  have hmin := maxLsn_nonneg (complete front entries k)
  have hmax : maxLsn (complete front entries k) ≤ entry.lsn - 1 := by
    apply maxLsn_le (by omega)
    intro entry' hentry'
    have hlt := hless entry' hentry'
    omega
  generalize maxLsn (complete front entries k) = m at hrestart hmin hmax
  obtain ⟨hnonneg, hascending⟩ := h.encode_last ((encodeAll entries).take k)
  have hlookup : ((tornDirectory front lsn entries k).lookup (filenameOf lsn)).isSome := by
    rw [tornDirectory, lookup_toDirectory hnonneg hascending
      (List.mem_append_right _ (List.mem_singleton_self _))]
    rfl
  have hgetLast : (LogFileManager.init n
      ((tornDirectory front lsn entries k).map Prod.fst)).logFiles.getLast?
      = some (lsn, filenameOf lsn) := by
    rw [logFiles_tornDirectory h, getLast?_listing, List.getLast?_concat]
    rfl
  -- an entry whose payload is not the byte that is read in its place
  obtain ⟨b, hb⟩ := exists_ne_getElem (LogHeader.encode ⟨m + 1, 1, 0⟩)
    (headerSize - (cut k entries).2.length)
  rw [← header_singleton _ _ b] at hb
  obtain ⟨h', handler', hrun, hadm, haccount, hpending, hrc, hmanager, hdirectory⟩ :=
    exists_run_append hmin hgetLast hlookup (by change _ ≤ int32 (lsn + n - 1); omega) (by omega) b
      (.ofOld (complete front entries k))
  have hiterate := htolerant.restart _ _ 0 () () _ (List.Perm.refl _) (.inl rfl) hrestart h' handler'
    hrun hadm hpending (by rw [hrc]; decide) collect minLsn []
  have hfresh : ∀ entry ∈ complete front entries k ++ [⟨m + 1, 0, [b]⟩], 0 < entry.lsn := by
    intro entry' hentry'
    rcases List.mem_append.mp hentry' with hmem | hmem
    · apply (hfits entry' hmem).lsn.1
    · rw [List.mem_singleton] at hmem
      subst hmem
      change 0 < m + 1
      omega
  have hwritten : handler'.directory = toDirectory (encodeFiles front
      ++ [(lsn, (encodeAll entries).take k ++ LogEntry.encode ⟨m + 1, 0, [b]⟩)]) := by
    rw [hdirectory, tornDirectory]
    apply append_toDirectory
    · intro file hfile
      apply hnonneg file (List.mem_append_left _ hfile)
    · intro file hfile
      apply (List.pairwise_append.mp hascending).2.2 file hfile _ (List.mem_singleton_self _)
  rw [iterate_last hn h hwritten (by rw [hmanager]; rfl)
    (by rw [hmanager]; exact logFiles_tornDirectory h k), haccount, Account.entries] at hiterate
  simp only [Account.ofOld, List.nil_append] at hiterate
  rw [filter_minLsn hfresh, deliver_collect, take_encodeAll, List.append_assoc,
    readEntries_encodeAll, deliver_collect, andThen, if_pos rfl] at hiterate
  · apply readEntries_tornHeader hpos hlt rfl hb (complete front entries k)
    rw [complete, hiterate, List.nil_append, ← complete]
  · intro entry' hentry'
    apply hfits
    apply List.mem_append_right _ hentry'

/-- A log tolerates a prefix of its bytes if and only if the prefix ends behind an entry. -/
theorem tornTolerant_iff (hn : 1 ≤ n) (h : Filed n (front ++ (lsn, entries) :: rest)) (k : Nat) :
  TornTolerant n front lsn entries k ↔ (cut k entries).2 = []
  := by
  constructor
  · intro htolerant
    by_contra hne
    rcases lt_or_ge (cut k entries).2.length headerSize with hlt | hle
    · apply not_tornTolerant_of_header hn h (List.length_pos_of_ne_nil hne) hlt htolerant
    · apply not_tornTolerant_of_payload hn h hle htolerant
  · apply tornTolerant_of_nil hn h

theorem filed_one_entry : Filed 2 ([] ++ (0, [⟨1, 0, [7]⟩]) :: []) := by
  constructor
  · simp
  · apply List.pairwise_singleton
  · simp
  · decide
  · intro entry hentry
    change entry ∈ [LogEntry.mk 1 0 [7]] at hentry
    rw [List.mem_singleton] at hentry
    subst hentry
    refine ⟨by decide, by decide, by decide, by decide⟩
  · apply List.pairwise_singleton

theorem tornTolerant_one_entry :
  (1 ≤ (2 : Int) ∧ Filed 2 ([] ++ (0, [⟨1, 0, [7]⟩]) :: [])) ∧
    TornTolerant 2 [] 0 [⟨1, 0, [7]⟩] 17
  := ⟨⟨by decide, filed_one_entry⟩,
    (tornTolerant_iff (by decide) filed_one_entry 17).mpr (by decide)⟩

/-- The header of an entry has been written, its payload has not. -/
theorem not_tornTolerant_header_only :
  Filed 2 ([] ++ (0, [⟨1, 0, [7]⟩]) :: []) ∧ ¬ TornTolerant 2 [] 0 [⟨1, 0, [7]⟩] headerSize
  := ⟨filed_one_entry,
    not_tornTolerant_of_payload (by decide) filed_one_entry (by decide)⟩

end MiniOB.Clog
