import MiniOB.Clog.Reading

/-!
# The files of a log

The directory of a log holds files of entries, each named after its first sequence number.
The manager of the files finds them by their names in whatever order they are listed, and
reading the files it lists for a sequence number hands over the entries from that number on.
-/

namespace MiniOB.Clog

/-! ### Names -/

theorem toList_filenameOf {lsn : Int} (h : 0 ≤ lsn) :
  (filenameOf lsn).toList
    = fileNamePrefix.toList ++ Nat.toDigits 10 lsn.toNat ++ fileNameSuffix.toList
  := by
  lift lsn to Nat using h
  rw [filenameOf, String.toList_append, String.toList_append, Int.toNat_natCast]
  congr 2
  apply Nat.toList_repr

theorem fromChars_toDigits (n : Nat) :
  fromChars (Nat.toDigits 10 n) = some (n : Int)
  := by
  have hdigit : ∀ c ∈ Nat.toDigits 10 n, c.isDigit := by
    intro c hc
    apply Nat.isDigit_of_mem_toDigits (by decide) (by decide) hc
  have htake : (Nat.toDigits 10 n).takeWhile Char.isDigit = Nat.toDigits 10 n := by
    rw [← List.append_nil (Nat.toDigits 10 n), List.takeWhile_append_of_pos hdigit,
      List.takeWhile_nil]
  rw [fromChars.eq_2, fromDigits]
  · simp only [htake, if_neg Nat.toDigits_ne_nil, Nat.ofDigitChars_ten_toDigits]
  · intro cs heq
    rw [heq] at hdigit
    have hminus := hdigit '-' List.mem_cons_self
    contradiction

/-- The manager reads the sequence number back from the name of a file. -/
theorem getLsnFromFilename_filenameOf {lsn : Int} (h : 0 ≤ lsn) :
  getLsnFromFilename (filenameOf lsn) = .ok lsn
  := by
  have hfront : fileNamePrefix.toList.isPrefixOf (filenameOf lsn).toList := by
    rw [List.isPrefixOf_iff_prefix, toList_filenameOf h, List.append_assoc]
    apply List.prefix_append
  have hback : fileNameSuffix.toList.isSuffixOf (filenameOf lsn).toList := by
    rw [List.isSuffixOf_iff_suffix, toList_filenameOf h]
    apply List.suffix_append
  have hmiddle : ((filenameOf lsn).toList.drop fileNamePrefix.toList.length).take
      ((filenameOf lsn).toList.length - fileNameSuffix.toList.length - fileNamePrefix.toList.length)
        = Nat.toDigits 10 lsn.toNat := by
    have hlen : (Nat.toDigits 10 lsn.toNat).length = (filenameOf lsn).toList.length
        - fileNameSuffix.toList.length - fileNamePrefix.toList.length := by
      rw [toList_filenameOf h, List.length_append, List.length_append]
      omega
    rw [← hlen, toList_filenameOf h, List.append_assoc, List.drop_left, List.take_left]
  simp only [getLsnFromFilename, hfront, hback, hmiddle, and_self, if_true, fromChars_toDigits,
    Int.toNat_of_nonneg h]

theorem filenameOf_inj {lsn lsn' : Int} (h : 0 ≤ lsn) (h' : 0 ≤ lsn') :
  filenameOf lsn = filenameOf lsn' ↔ lsn = lsn'
  := by
  constructor
  · intro heq
    have hlsn := getLsnFromFilename_filenameOf h
    rw [heq, getLsnFromFilename_filenameOf h'] at hlsn
    cases hlsn
    rfl
  · rintro rfl
    rfl

/-! ### The map of the files -/

section Emplace

variable {lsn : Int} {path : String} {files : List (Int × String)}

theorem perm_emplace (h : ∀ file ∈ files, file.1 ≠ lsn) :
  (emplace lsn path files).Perm ((lsn, path) :: files)
  := by
  induction files with
  | nil => apply List.Perm.refl
  | cons file files ih =>
    obtain ⟨hfile, hfiles⟩ := List.forall_mem_cons.mp h
    rw [emplace]
    split
    · apply List.Perm.refl
    · rw [if_pos (by omega)]
      apply ((ih hfiles).cons file).trans (List.Perm.swap _ _ _)

theorem pairwise_emplace (hsorted : files.Pairwise fun f f' => f.1 < f'.1)
    (h : ∀ file ∈ files, file.1 ≠ lsn) :
  (emplace lsn path files).Pairwise fun f f' => f.1 < f'.1
  := by
  induction files with
  | nil => apply List.pairwise_singleton
  | cons file files ih =>
    obtain ⟨hfile, hfiles⟩ := List.forall_mem_cons.mp h
    obtain ⟨hlt, hsorted⟩ := List.pairwise_cons.mp hsorted
    rw [emplace]
    split
    · rename_i hless
      apply List.pairwise_cons.mpr ⟨_, List.pairwise_cons.mpr ⟨hlt, hsorted⟩⟩
      intro file' hfile'
      rcases List.mem_cons.mp hfile' with rfl | hmem
      · apply hless
      · apply lt_trans hless (hlt _ hmem)
    · rw [if_pos (by omega)]
      apply List.pairwise_cons.mpr ⟨_, ih hsorted hfiles⟩
      intro file' hfile'
      rcases List.mem_cons.mp ((perm_emplace hfiles).mem_iff.mp hfile') with rfl | hmem
      · change file.1 < lsn
        omega
      · apply hlt _ hmem

/-- A file after all others is put at the end. -/
theorem emplace_of_lt (h : ∀ file ∈ files, file.1 < lsn) :
  emplace lsn path files = files ++ [(lsn, path)]
  := by
  induction files with
  | nil => rfl
  | cons file files ih =>
    obtain ⟨hfile, hfiles⟩ := List.forall_mem_cons.mp h
    rw [emplace, if_neg (by omega), if_pos hfile, ih hfiles, List.cons_append]

end Emplace

/-- The files of the manager from their numbers. -/
def listing (lsns : List Int) : List (Int × String) := lsns.map fun lsn => (lsn, filenameOf lsn)

@[simp]
theorem map_fst_listing (lsns : List Int) :
  (listing lsns).map Prod.fst = lsns
  := by
  rw [listing, List.map_map]
  exact List.map_id lsns

theorem foldl_emplace {added files : List (Int × String)}
    (hnodup : ((added ++ files).map Prod.fst).Nodup)
    (hsorted : files.Pairwise fun f f' => f.1 < f'.1) :
  (added.foldl (fun files file => emplace file.1 file.2 files) files).Perm (added ++ files)
    ∧ (added.foldl (fun files file => emplace file.1 file.2 files) files).Pairwise
        fun f f' => f.1 < f'.1
  := by
  induction added generalizing files with
  | nil => exact ⟨List.Perm.refl _, hsorted⟩
  | cons file added ih =>
    rw [List.cons_append, List.map_cons, List.nodup_cons] at hnodup
    have hfresh : ∀ file' ∈ files, file'.1 ≠ file.1 := by
      intro file' hmem heq
      apply hnodup.1
      rw [← heq]
      apply List.mem_map_of_mem (List.mem_append_right _ hmem)
    have hperm : (emplace file.1 file.2 files).Perm (file :: files) := perm_emplace hfresh
    have hmiddle : (added ++ emplace file.1 file.2 files).Perm (file :: (added ++ files)) :=
      (hperm.append_left added).trans List.perm_middle
    obtain ⟨hperm', hsorted'⟩ := ih
      ((hmiddle.map Prod.fst).nodup_iff.mpr (List.nodup_cons.mpr hnodup))
      (pairwise_emplace hsorted hfresh)
    exact ⟨hperm'.trans hmiddle, hsorted'⟩

/-- What the manager takes from the name of a file. -/
private def parse (filename : String) : Option (Int × String) :=
  (getLsnFromFilename filename).toOption.map fun lsn => (lsn, filename)

private theorem logFiles_eq_foldl (n : Int) (filenames : List String) :
  (LogFileManager.init n filenames).logFiles
    = (filenames.filterMap parse).foldl (fun files file => emplace file.1 file.2 files) []
  := by
  rw [LogFileManager.init]
  simp only
  generalize ([] : List (Int × String)) = files
  induction filenames generalizing files with
  | nil => rfl
  | cons filename filenames ih =>
    rw [List.foldl_cons, List.filterMap_cons, ih, parse]
    cases getLsnFromFilename filename with
    | ok lsn => rfl
    | error rc => rfl

private theorem filterMap_parse {lsns : List Int} (hpos : ∀ lsn ∈ lsns, 0 ≤ lsn) :
  (lsns.map filenameOf).filterMap parse = listing lsns
  := by
  induction lsns with
  | nil => rfl
  | cons lsn lsns ih =>
    obtain ⟨hlsn, hlsns⟩ := List.forall_mem_cons.mp hpos
    rw [List.map_cons, List.filterMap_cons, parse, getLsnFromFilename_filenameOf hlsn, ih hlsns]
    rfl

theorem pairwise_listing {lsns : List Int} (hsorted : lsns.Pairwise (· < ·)) :
  (listing lsns).Pairwise fun f f' => f.1 < f'.1
  := by
  rw [listing, List.pairwise_map]
  apply hsorted

/-- The manager finds the files of the directory in whatever order they are listed. -/
theorem logFiles_init {lsns : List Int} (hsorted : lsns.Pairwise (· < ·))
    (hpos : ∀ lsn ∈ lsns, 0 ≤ lsn) {filenames : List String}
    (hnames : filenames.Perm (lsns.map filenameOf)) (n : Int) :
  (LogFileManager.init n filenames).logFiles = listing lsns
  := by
  have hperm : (filenames.filterMap parse).Perm (listing lsns) := by
    rw [← filterMap_parse hpos]
    apply hnames.filterMap
  have hnodup : ((filenames.filterMap parse ++ []).map Prod.fst).Nodup := by
    rw [List.append_nil, (hperm.map Prod.fst).nodup_iff, map_fst_listing]
    exact hsorted.imp (fun h => ne_of_lt h)
  obtain ⟨hperm', hsorted'⟩ := foldl_emplace hnodup List.Pairwise.nil
  rw [List.append_nil] at hperm'
  rw [logFiles_eq_foldl]
  apply List.Perm.eq_of_pairwise _ hsorted' (pairwise_listing hsorted) (hperm'.trans hperm)
  intro file file' _ _ hlt hlt'
  omega

/-! ### Directories of entries -/

/-- The directory of numbered files. -/
def toDirectory (files : List (Int × List UInt8)) : Directory :=
  files.map fun file => (filenameOf file.1, file.2)

/-- The bytes of numbered files of entries. -/
def encodeFiles (files : List (Int × List LogEntry)) : List (Int × List UInt8) :=
  files.map fun file => (file.1, encodeAll file.2)

/-- The entries in files. -/
def entriesOf (files : List (Int × List LogEntry)) : List LogEntry := files.flatMap Prod.snd

/-- Files of entries, in ascending order and with at most `n` sequence numbers to a file. The
writer keeps the last sequence number of a file in an `int`. -/
structure Filed (n : Int) (files : List (Int × List LogEntry)) : Prop where
  nonneg : ∀ file ∈ files, 0 ≤ file.1
  ascending : files.Pairwise fun f f' => f.1 < f'.1
  bound : ∀ file ∈ files, ∀ entry ∈ file.2, entry.lsn ≤ file.1 + n - 1
  endLsn : ∀ file ∈ files, ∀ entry ∈ file.2, entry.lsn ≤ int32 (file.1 + n - 1)
  fits : ∀ entry ∈ entriesOf files, entry.Fits
  sorted : (entriesOf files).Pairwise fun e e' => e.lsn < e'.lsn

theorem mem_entriesOf {files : List (Int × List LogEntry)} {entry : LogEntry} :
  entry ∈ entriesOf files ↔ ∃ file ∈ files, entry ∈ file.2
  := List.mem_flatMap

theorem lookup_toDirectory {files : List (Int × List UInt8)} (hpos : ∀ file ∈ files, 0 ≤ file.1)
    (hascending : files.Pairwise fun f f' => f.1 < f'.1) {file : Int × List UInt8}
    (hfile : file ∈ files) :
  (toDirectory files).lookup (filenameOf file.1) = some file.2
  := by
  induction files with
  | nil => contradiction
  | cons file' files ih =>
    obtain ⟨hpos', hposes⟩ := List.forall_mem_cons.mp hpos
    obtain ⟨hlt, hascending⟩ := List.pairwise_cons.mp hascending
    rw [toDirectory, List.map_cons, List.lookup_cons]
    rcases List.mem_cons.mp hfile with rfl | hmem
    · rw [beq_self_eq_true]
    · have hne : filenameOf file.1 ≠ filenameOf file'.1 := by
        rw [Ne, filenameOf_inj (hposes _ hmem) hpos']
        have hlt := hlt _ hmem
        omega
      rw [beq_false_of_ne hne]
      apply ih hposes hascending hmem

section Iterate

variable {σ : Type} {consumer : σ → LogEntry → σ × RC} {startLsn : Int} {directory : Directory}

/-- The files of entries are handed over one after the other. -/
theorem iterateFiles_append {files : List (Int × List LogEntry)}
    (hlookup : ∀ file ∈ files, directory.lookup (filenameOf file.1) = some (encodeAll file.2))
    (hfits : ∀ entry ∈ entriesOf files, entry.Fits)
    (hsorted : (entriesOf files).Pairwise fun e e' => e.lsn < e'.lsn) (rest : List String) (s : σ) :
  DiskLogHandler.iterateFiles directory consumer startLsn
      (files.map (fun file => filenameOf file.1) ++ rest) s
    = andThen (deliver consumer ((entriesOf files).filter (startLsn ≤ ·.lsn)) s)
        (DiskLogHandler.iterateFiles directory consumer startLsn rest)
  := by
  induction files generalizing s with
  | nil => rfl
  | cons file files ih =>
    obtain ⟨hfile, hfiles⟩ := List.forall_mem_cons.mp hlookup
    rw [entriesOf, List.flatMap_cons] at hfits hsorted
    obtain ⟨hfits, hfits'⟩ := List.forall_mem_append.mp hfits
    obtain ⟨hsorted, hsorted', -⟩ := List.pairwise_append.mp hsorted
    have hread : readFile consumer startLsn (encodeAll file.2) s
        = deliver consumer (file.2.filter (startLsn ≤ ·.lsn)) s := by
      rw [← List.append_nil (encodeAll file.2)]
      apply readFile_encodeAll hfits hsorted (by decide)
    rw [List.map_cons, List.cons_append, DiskLogHandler.iterateFiles, hfile]
    simp only
    rw [hread, entriesOf, List.flatMap_cons, List.filter_append, deliver_append, andThen_assoc]
    congr 1
    funext s'
    apply ih hfiles hfits' hsorted'

/-- The files that are listed hold all entries from `startLsn` on. -/
theorem filter_entriesOf_filter {n : Int} {files : List (Int × List LogEntry)}
    (hbound : ∀ file ∈ files, ∀ entry ∈ file.2, entry.lsn ≤ file.1 + n - 1) :
  (entriesOf (files.filter fun file => startLsn ≤ file.1 + n - 1)).filter (startLsn ≤ ·.lsn)
    = (entriesOf files).filter (startLsn ≤ ·.lsn)
  := by
  induction files with
  | nil => rfl
  | cons file files ih =>
    obtain ⟨hfile, hfiles⟩ := List.forall_mem_cons.mp hbound
    rw [List.filter_cons]
    split
    · rw [entriesOf, entriesOf, List.flatMap_cons, List.flatMap_cons, List.filter_append,
        List.filter_append]
      congr 1
      apply ih hfiles
    · rename_i hlisted
      have hnone : file.2.filter (startLsn ≤ ·.lsn) = [] := by
        rw [List.filter_eq_nil_iff]
        intro entry hentry
        have hle := hfile entry hentry
        simp only [decide_eq_true_eq] at hlisted ⊢
        omega
      rw [ih hfiles, entriesOf, entriesOf, List.flatMap_cons, List.filter_append, hnone,
        List.nil_append]

/-- Iterating over the files of entries, and then over the files `lsns` behind them. -/
theorem iterate_eq {n : Int} {files : List (Int × List LogEntry)} (h : Filed n files)
    {handler : DiskLogHandler} (hn : handler.fileManager.maxEntryNumberPerFile = n)
    {lsns : List Int} (hfiles : handler.fileManager.logFiles = listing (files.map Prod.fst ++ lsns))
    (hlookup : ∀ file ∈ files,
      handler.directory.lookup (filenameOf file.1) = some (encodeAll file.2)) (s : σ) :
  handler.iterate consumer startLsn s
    = andThen (deliver consumer ((entriesOf files).filter (startLsn ≤ ·.lsn)) s)
        (DiskLogHandler.iterateFiles handler.directory consumer startLsn
          ((lsns.filter fun lsn => startLsn ≤ lsn + n - 1).map filenameOf))
  := by
  have hsub : (entriesOf (files.filter fun file => startLsn ≤ file.1 + n - 1)).Sublist
      (entriesOf files) := by
    apply List.filter_sublist.flatMap
  have hlist : handler.fileManager.listFiles startLsn
      = (files.filter fun file => startLsn ≤ file.1 + n - 1).map (fun file => filenameOf file.1)
        ++ (lsns.filter fun lsn => startLsn ≤ lsn + n - 1).map filenameOf := by
    rw [LogFileManager.listFiles, hfiles, hn, listing, List.filter_map, List.map_map,
      List.filter_append, List.map_append, List.filter_map, List.map_map]
    rfl
  rw [DiskLogHandler.iterate, hlist, iterateFiles_append, filter_entriesOf_filter h.bound]
  · intro file hfile
    apply hlookup _ (List.mem_of_mem_filter hfile)
  · intro entry hentry
    apply h.fits _ (hsub.subset hentry)
  · apply List.Pairwise.sublist hsub h.sorted

end Iterate

end MiniOB.Clog
