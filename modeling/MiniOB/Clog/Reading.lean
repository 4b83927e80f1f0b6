import MiniOB.Clog.DiskLogHandler

/-!
# Reading the log back

A file that holds the bytes of entries with increasing sequence numbers is read as these
entries: the reader hands the entries from the given sequence number on to its callback, one
after the other, until the callback fails.
-/

namespace MiniOB.Clog

variable {σ : Type}

/-! ### Headers -/

/-- The entries a file can hold. -/
structure LogEntry.Fits (entry : LogEntry) : Prop where
  lsn : 0 < entry.lsn ∧ entry.lsn < 2 ^ 31
  moduleId : -2 ^ 31 ≤ entry.moduleId ∧ entry.moduleId < 2 ^ 31
  nonempty : 0 < entry.data.length
  length : (entry.data.length : Int) ≤ maxPayloadSize

theorem length_encode_header (header : LogHeader) :
  header.encode.length = headerSize
  := by
  rw [LogHeader.encode, List.length_append, List.length_append, Bytes.length_encode,
    Bytes.length_encode, Bytes.length_encode, headerSize]

theorem readHeader_of_lt {bytes : List UInt8} (h : bytes.length < headerSize) :
  readHeader bytes = none
  := by
  rw [headerSize] at h
  simp only [readHeader, Option.bind_eq_bind, Option.bind_eq_none_iff, Prod.forall]
  intro lsn bytes' h8 size bytes'' h4 moduleId rest h4'
  obtain ⟨rfl, hlsn⟩ := Bytes.read_eq_some h8
  obtain ⟨rfl, hsize⟩ := Bytes.read_eq_some h4
  obtain ⟨rfl, hmodule⟩ := Bytes.read_eq_some h4'
  simp only [List.length_append] at h
  omega

/-- The three fields of a header are read from the front of the bytes. -/
theorem readHeader_append {lsn size moduleId : List UInt8} (hlsn : lsn.length = 8)
    (hsize : size.length = 4) (hmodule : moduleId.length = 4) (rest : List UInt8) :
  readHeader (lsn ++ size ++ moduleId ++ rest)
    = some (⟨Bytes.decode lsn, Bytes.decode size, Bytes.decode moduleId⟩, rest)
  := by
  simp only [readHeader, List.append_assoc, Option.bind_eq_bind, Bytes.read_append hlsn,
    Bytes.read_append hsize, Bytes.read_append hmodule, Option.bind_some]
  rfl

/-- Whoever has sixteen bytes has a header. -/
theorem exists_readHeader {bytes : List UInt8} (h : headerSize ≤ bytes.length) :
  ∃ header, readHeader bytes = some (header, bytes.drop headerSize)
  := by
  rw [headerSize] at h
  have hsplit : bytes = bytes.take 8 ++ (bytes.drop 8).take 4 ++ ((bytes.drop 8).drop 4).take 4
      ++ ((bytes.drop 8).drop 4).drop 4 := by
    rw [List.append_assoc, List.append_assoc, List.take_append_drop, List.take_append_drop,
      List.take_append_drop]
  refine ⟨⟨Bytes.decode (bytes.take 8), Bytes.decode ((bytes.drop 8).take 4),
    Bytes.decode (((bytes.drop 8).drop 4).take 4)⟩, ?_⟩
  conv_lhs => rw [hsplit]
  rw [readHeader_append (by rw [List.length_take]; omega)
    (by rw [List.length_take, List.length_drop]; omega)
    (by rw [List.length_take, List.length_drop, List.length_drop]; omega), List.drop_drop,
    List.drop_drop]
  rfl

theorem length_of_readHeader {bytes rest : List UInt8} {header : LogHeader}
    (h : readHeader bytes = some (header, rest)) :
  bytes.length = headerSize + rest.length
  := by
  have hlen : headerSize ≤ bytes.length := by
    by_contra hlt
    rw [readHeader_of_lt (by omega)] at h
    contradiction
  obtain ⟨header', h'⟩ := exists_readHeader hlen
  rw [h'] at h
  cases h
  rw [List.length_drop]
  omega

/-- A sequence number that is read is one of 64 bits. -/
theorem le_lsn_of_readHeader {bytes rest : List UInt8} {header : LogHeader}
    (h : readHeader bytes = some (header, rest)) :
  -2 ^ 63 ≤ header.lsn
  := by
  simp only [readHeader, Option.bind_eq_bind, Option.bind_eq_some_iff, Prod.exists] at h
  obtain ⟨lsn, bytes', h8, size, bytes'', -, moduleId, rest', -, hpure⟩ := h
  cases hpure
  have hle := Bytes.le_decode lsn
  rw [(Bytes.read_eq_some h8).2] at hle
  change -2 ^ 63 ≤ Bytes.decode lsn
  omega

namespace LogEntry

variable {entry : LogEntry}

theorem Fits.size (h : entry.Fits) : entry.header.size = entry.data.length := by
  have hlen := h.length
  rw [maxPayloadSize, headerSize] at hlen
  have hmax : (entry.data.length : Int) ≤ int32Max := by
    rw [int32Max]
    omega
  have hmin : -2 ^ 31 ≤ (entry.data.length : Int) := by omega
  rw [header]
  simp only [int32_of_mem hmin hmax]

theorem Fits.readHeader_header (h : entry.Fits) (rest : List UInt8) :
  readHeader (entry.header.encode ++ rest) = some (entry.header, rest)
  := by
  have hlen := h.length
  have hsize := h.size
  have hlsn := h.lsn
  have hmodule := h.moduleId
  rw [maxPayloadSize, headerSize] at hlen
  rw [LogHeader.encode, readHeader_append (Bytes.length_encode _ _) (Bytes.length_encode _ _)
    (Bytes.length_encode _ _)]
  rw [Bytes.decode_encode (by change _ ≤ 2 * entry.lsn; omega) (by change 2 * entry.lsn < _; omega)]
  rw [Bytes.decode_encode (by rw [hsize]; omega) (by rw [hsize]; omega)]
  rw [Bytes.decode_encode (by change _ ≤ 2 * entry.moduleId; omega)
    (by change 2 * entry.moduleId < _; omega)]

theorem Fits.readHeader (h : entry.Fits) (rest : List UInt8) :
  readHeader (entry.encode ++ rest) = some (entry.header, entry.data ++ rest)
  := by
  rw [encode, List.append_assoc, h.readHeader_header]

theorem length_encode (entry : LogEntry) :
  entry.encode.length = headerSize + entry.data.length
  := by
  rw [encode, List.length_append, length_encode_header]

end LogEntry

/-! ### The loops -/

/-- What follows the payload after a header is shorter than the whole. -/
private theorem length_drop_lt {bytes rest : List UInt8} {header : LogHeader} {n : Nat}
    (h : readHeader bytes = some (header, rest)) (hlt : bytes.length < n + 1) (k : Nat) :
  (rest.drop k).length < n
  := by
  have hlen := length_of_readHeader h
  rw [headerSize] at hlen
  rw [List.length_drop]
  omega

private theorem skipLoop_eq {startLsn : Int} {n m : Nat} {bytes : List UInt8}
    (hn : bytes.length < n) (hm : bytes.length < m) :
  skipLoop startLsn n bytes = skipLoop startLsn m bytes
  := by
  induction n generalizing m bytes with
  | zero => omega
  | succ n ih =>
    cases m with
    | zero => omega
    | succ m =>
      rw [skipLoop, skipLoop]
      cases h : readHeader bytes with
      | none => rfl
      | some read =>
        simp only [ih (length_drop_lt h hn read.1.size.toNat) (length_drop_lt h hm read.1.size.toNat)]

/-- A round of `LogFileReader::skip_to`. -/
theorem skipTo_eq (startLsn : Int) (bytes : List UInt8) :
  skipTo startLsn bytes =
    match readHeader bytes with
    | none => .ok []
    | some (header, rest) =>
      if startLsn ≤ header.lsn then .ok bytes
      else if header.size < 0 ∨ maxPayloadSize < header.size then .error .ioerrRead
      else skipTo startLsn (rest.drop header.size.toNat)
  := by
  rw [skipTo, skipLoop]
  cases h : readHeader bytes with
  | none => rfl
  | some read =>
    have hlt := length_drop_lt h (Nat.lt_succ_self _) read.1.size.toNat
    simp only [skipTo, skipLoop_eq hlt (Nat.lt_succ_self _)]

private theorem iterateLoop_eq {callback : σ → LogEntry → σ × RC} {n m : Nat}
    {bytes : List UInt8} {s : σ} (hn : bytes.length < n) (hm : bytes.length < m) :
  iterateLoop callback n bytes s = iterateLoop callback m bytes s
  := by
  induction n generalizing m bytes s with
  | zero => omega
  | succ n ih =>
    cases m with
    | zero => omega
    | succ m =>
      rw [iterateLoop, iterateLoop]
      cases h : readHeader bytes with
      | none => rfl
      | some read =>
        obtain ⟨header, rest⟩ := read
        simp only
        split
        · rfl
        · rw [Bytes.read]
          split
          · rename_i hsome
            split at hsome
            · contradiction
            · rfl
          · rename_i hsome
            split at hsome
            · cases hsome
              congr 1
              funext s'
              apply ih (length_drop_lt h hn _) (length_drop_lt h hm _)
            · contradiction

/-- A round of `LogFileReader::iterate`. -/
theorem readEntries_eq (callback : σ → LogEntry → σ × RC) (bytes : List UInt8) (s : σ) :
  readEntries callback bytes s =
    match readHeader bytes with
    | none => (s, .success)
    | some (header, rest) =>
      if header.size < 0 ∨ maxPayloadSize < header.size then (s, .ioerrRead)
      else
        match Bytes.read header.size.toNat rest with
        | none => (s, .ioerrRead)
        | some (data, rest) =>
          andThen (callback s ⟨header.lsn, header.moduleId, data⟩) (readEntries callback rest)
  := by
  rw [readEntries, iterateLoop]
  cases h : readHeader bytes with
  | none => rfl
  | some read =>
    obtain ⟨header, rest⟩ := read
    simp only
    split
    · rfl
    · cases hdata : Bytes.read header.size.toNat rest with
      | none => rfl
      | some split =>
        obtain ⟨data, rest'⟩ := split
        obtain ⟨rfl, -⟩ := Bytes.read_eq_some hdata
        have hlen := length_of_readHeader h
        rw [List.length_append, headerSize] at hlen
        simp only
        congr 1
        funext s'
        rw [readEntries]
        apply iterateLoop_eq
        · omega
        · apply Nat.lt_succ_self

/-! ### Files of entries -/

/-- The bytes of entries one after the other. -/
def encodeAll (entries : List LogEntry) : List UInt8 := entries.flatMap LogEntry.encode

@[simp]
theorem encodeAll_nil : encodeAll [] = [] := rfl

@[simp]
theorem encodeAll_cons (entry : LogEntry) (entries : List LogEntry) :
  encodeAll (entry :: entries) = entry.encode ++ encodeAll entries
  := List.flatMap_cons

@[simp]
theorem encodeAll_append (entries entries' : List LogEntry) :
  encodeAll (entries ++ entries') = encodeAll entries ++ encodeAll entries'
  := List.flatMap_append

/-- Hand entries to a callback until it fails. -/
def deliver (callback : σ → LogEntry → σ × RC) : List LogEntry → σ → σ × RC
  | [], s => (s, .success)
  | entry :: entries, s =>
    andThen (callback s entry) (deliver callback entries)

theorem andThen_assoc (result : σ × RC) (next next' : σ → σ × RC) :
  andThen (andThen result next) next' = andThen result fun s => andThen (next s) next'
  := by
  rw [andThen, andThen, andThen]
  by_cases h : result.2 = .success
  · rw [if_pos h, if_pos h]
    rfl
  · rw [if_neg h, if_neg h, if_neg h]

theorem deliver_append (callback : σ → LogEntry → σ × RC) (entries entries' : List LogEntry)
    (s : σ) :
  deliver callback (entries ++ entries') s
    = andThen (deliver callback entries s) (deliver callback entries')
  := by
  induction entries generalizing s with
  | nil => rfl
  | cons entry entries ih =>
    rw [List.cons_append, deliver, deliver, andThen_assoc]
    congr 1
    funext s'
    apply ih

variable {callback : σ → LogEntry → σ × RC} {startLsn : Int}

theorem skipTo_of_lt {bytes : List UInt8} (h : bytes.length < headerSize) :
  skipTo startLsn bytes = .ok []
  := by
  rw [skipTo_eq, readHeader_of_lt h]

theorem readEntries_of_lt {bytes : List UInt8} (h : bytes.length < headerSize) (s : σ) :
  readEntries callback bytes s = (s, .success)
  := by
  rw [readEntries_eq, readHeader_of_lt h]

theorem skipTo_encode {entry : LogEntry} (h : entry.Fits) (rest : List UInt8) :
  skipTo startLsn (entry.encode ++ rest) =
    if startLsn ≤ entry.lsn then .ok (entry.encode ++ rest) else skipTo startLsn rest
  := by
  have hlen := h.length
  have hsize : ¬ ((entry.data.length : Int) < 0 ∨ maxPayloadSize < entry.data.length) := by omega
  rw [skipTo_eq, h.readHeader]
  simp only [h.size, Int.toNat_natCast, List.drop_left, if_neg hsize]
  rfl

theorem readEntries_encode {entry : LogEntry} (h : entry.Fits) (rest : List UInt8) (s : σ) :
  readEntries callback (entry.encode ++ rest) s
    = andThen (callback s entry) (readEntries callback rest)
  := by
  have hlen := h.length
  have hsize : ¬ ((entry.data.length : Int) < 0 ∨ maxPayloadSize < entry.data.length) := by omega
  rw [readEntries_eq, h.readHeader]
  simp only [h.size, Int.toNat_natCast, Bytes.read_append rfl, if_neg hsize]
  rfl

/-- Entries are read back as they were written. -/
theorem readEntries_encodeAll {entries : List LogEntry} (h : ∀ entry ∈ entries, entry.Fits)
    (tail : List UInt8) (s : σ) :
  readEntries callback (encodeAll entries ++ tail) s
    = andThen (deliver callback entries s) (readEntries callback tail)
  := by
  induction entries generalizing s with
  | nil => rfl
  | cons entry entries ih =>
    rw [encodeAll_cons, List.append_assoc, readEntries_encode (h _ List.mem_cons_self), deliver,
      andThen_assoc]
    congr 1
    funext s'
    apply ih
    intro entry' hentry'
    apply h _ (List.mem_cons_of_mem _ hentry')

/-- The reader skips the entries before `startLsn`, and then goes on in the tail if there is
no entry left. -/
theorem skipTo_encodeAll {entries : List LogEntry} (h : ∀ entry ∈ entries, entry.Fits)
    (hsorted : entries.Pairwise fun e e' => e.lsn < e'.lsn) (tail : List UInt8) :
  skipTo startLsn (encodeAll entries ++ tail) =
    if entries.filter (startLsn ≤ ·.lsn) = [] then skipTo startLsn tail
    else .ok (encodeAll (entries.filter (startLsn ≤ ·.lsn)) ++ tail)
  := by
  induction entries with
  | nil => rfl
  | cons entry entries ih =>
    obtain ⟨hentry, hentries⟩ := List.forall_mem_cons.mp h
    obtain ⟨hlt, hsorted⟩ := List.pairwise_cons.mp hsorted
    rw [encodeAll_cons, List.append_assoc, skipTo_encode hentry]
    by_cases hle : startLsn ≤ entry.lsn
    · have hall : entries.filter (startLsn ≤ ·.lsn) = entries := by
        rw [List.filter_eq_self]
        intro entry' hentry'
        have h' := hlt entry' hentry'
        simp only [decide_eq_true_eq]
        omega
      rw [if_pos hle, List.filter_cons_of_pos (by simpa using hle), hall,
        if_neg (List.cons_ne_nil _ _), encodeAll_cons, List.append_assoc]
    · rw [if_neg hle, List.filter_cons_of_neg (by simpa using hle), ih hentries hsorted]

/-- A file of entries, with less than a header behind them, is read as its entries from
`startLsn` on. -/
theorem readFile_encodeAll {entries : List LogEntry} (h : ∀ entry ∈ entries, entry.Fits)
    (hsorted : entries.Pairwise fun e e' => e.lsn < e'.lsn) {tail : List UInt8}
    (htail : tail.length < headerSize) (s : σ) :
  readFile callback startLsn (encodeAll entries ++ tail) s
    = deliver callback (entries.filter (startLsn ≤ ·.lsn)) s
  := by
  rw [readFile, skipTo_encodeAll h hsorted]
  by_cases hnil : entries.filter (startLsn ≤ ·.lsn) = []
  · rw [if_pos hnil, skipTo_of_lt htail, hnil]
    rfl
  · have hfits : ∀ entry ∈ entries.filter (startLsn ≤ ·.lsn), entry.Fits := by
      intro entry hentry
      apply h _ (List.mem_of_mem_filter hentry)
    rw [if_neg hnil]
    simp only
    rw [readEntries_encodeAll hfits, andThen]
    split
    · rename_i hrc
      rw [readEntries_of_lt htail, ← hrc]
    · rfl

end MiniOB.Clog
