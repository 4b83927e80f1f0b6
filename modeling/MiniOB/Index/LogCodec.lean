import MiniOB.Index.LogEntry
import MiniOB.Lib.Reader

/-!
# Reading a mini-transaction's log entries

The entries of a mini-transaction are serialised one behind the other and read back with
`LogEntryHandler::from_buffer` until nothing remains. Every entry is read as itself, apart from
what it holds for a rollback, and an entry that is cut is answered with an error. Only the
bytes of items and keys whose number does not fit into an `int32_t` cannot be read back.
-/

namespace MiniOB.BplusTree

/-- The program stops with a return code that is not a success. -/
def Stop.Failed (stop : Stop) : Prop := ∃ rc, rc ≠ .success ∧ stop = .returns rc

/-- The handler that is left when one has been written and read back. -/
def LogEntryHandler.forget (entry : LogEntryHandler) : LogEntryHandler :=
  ⟨entry.pageNum, entry.operation.forget⟩

/-- Serialise handlers one after another. -/
def serializeEntries (entries : List LogEntryHandler) : List UInt8 :=
  entries.flatMap LogEntryHandler.serialize

/-- Call `from_buffer` until `remain` is 0. An entry that is read takes at least one byte. -/
def readEntries (frameGetter : Int → RC) (buffer : List UInt8) :
    Option (List LogEntryHandler × Option Stop) :=
  Reader.many (LogEntryHandler.fromBuffer frameGetter) buffer.length buffer

section Fields

variable {rc : RC} {x : Int}

theorem reads_bytes {bytes : List UInt8} {n : Nat} (hrc : rc ≠ .success) (h : bytes.length = n) :
  Reader.Reads Stop.Failed (readBytes rc n) bytes bytes
  := by
  refine ⟨fun rest => readBytes_append h, fun k hk => ⟨.returns rc, ⟨rc, hrc, rfl⟩, ?_⟩⟩
  have hlt : (bytes.take k).length < n := by
    rw [List.length_take]
    omega
  rw [readBytes, Bytes.read_of_lt hlt]

theorem reads_int32 (hrc : rc ≠ .success) (h : IsInt32 x) :
  Reader.Reads Stop.Failed (readInt32 rc) (writeInt32 x) x
  := by
  apply (reads_bytes hrc (length_writeInt32 x)).map
  intro rest
  change Except.ok (Bytes.decode (writeInt32 x), rest) = _
  rw [decode_writeInt32 h]

theorem reads_vector (bytes : List UInt8) :
  Reader.Reads Stop.Failed (readVector bytes.length) bytes bytes
  := by
  have hread : readVector bytes.length = readBytes .internal bytes.length := by
    funext buffer
    rw [readVector, if_neg (by omega), Int.toNat_natCast]
  rw [hread]
  exact reads_bytes (by decide) rfl

end Fields

theorem reads_items (operation : Int → Int → List UInt8 → LogOperation) {index itemNum : Int}
    {items : List UInt8} (hindex : IsInt32 index) (hnum : IsInt32 itemNum)
    (hbytes : IsInt32 items.length) :
  Reader.Reads Stop.Failed (deserializeItems operation)
    (writeInt32 index ++ writeInt32 itemNum ++ writeInt32 items.length ++ items)
    (operation index itemNum items)
  := by
  rw [List.append_assoc, List.append_assoc]
  apply (reads_int32 (by decide) hindex).bind
  apply (reads_int32 (by decide) hnum).bind
  apply (reads_int32 (by decide) hbytes).bind
  apply (reads_vector items).map
  intro rest
  rfl

/-- The body of an entry is read. -/
theorem reads_body {operation : LogOperation} (h : operation.Fits) :
  Reader.Reads Stop.Failed (deserializeBody operation.type) operation.serializeBody
    operation.forget
  := by
  cases operation with
  | initHeaderPage fileHeader =>
    apply (reads_bytes (by decide) fileHeader.length_encode).map
    intro rest
    change Except.ok (LogOperation.initHeaderPage (IndexFileHeader.decode fileHeader.encode), rest)
      = _
    rw [IndexFileHeader.decode_encode h]
    rfl
  | updateRootPage rootPageNum _ => exact (reads_int32 (by decide) h).map fun _ => rfl
  | setParentPage parentPageNum _ => exact (reads_int32 (by decide) h).map fun _ => rfl
  | leafInitEmpty => exact Reader.reads_pure _
  | leafSetNextPage newPageNum _ => exact (reads_int32 (by decide) h).map fun _ => rfl
  | internalInitEmpty => exact Reader.reads_pure _
  | internalCreateNewRoot firstPageNum key pageNum =>
    rw [LogOperation.serializeBody, List.append_assoc, List.append_assoc]
    apply (reads_int32 (by decide) h.1).bind
    apply (reads_int32 (by decide) h.2.1).bind
    apply (reads_int32 (by decide) h.2.2).bind
    exact (reads_vector key).map fun _ => rfl
  | internalUpdateKey index key _ =>
    rw [LogOperation.serializeBody, List.append_assoc]
    apply (reads_int32 (by decide) h.1).bind
    apply (reads_int32 (by decide) h.2).bind
    exact (reads_vector key).map fun _ => rfl
  | nodeInsert index itemNum items => exact reads_items _ h.1 h.2.1 h.2.2
  | nodeRemove index itemNum items => exact reads_items _ h.1 h.2.1 h.2.2

/-- An entry is read, if its page can be fetched. -/
theorem reads_entry {entry : LogEntryHandler} (h : entry.Fits) {frameGetter : Int → RC}
    (hframe : frameGetter entry.pageNum = .success) :
  Reader.Reads Stop.Failed (LogEntryHandler.fromBuffer frameGetter) entry.serialize entry.forget
  := by
  rw [LogEntryHandler.serialize, LogEntryHandler.serializeHeader, List.append_assoc]
  apply (reads_int32 (by decide) entry.operation.type.isInt32_index).bind
  simp only [LogOperationType.ofIndex_index]
  apply (reads_int32 (by decide) h.pageNum).bind
  simp only [hframe, ne_eq, not_true_eq_false, if_false]
  exact (reads_body h.operation).map fun _ => rfl

/-- The codec of the log does its work for a sequence of entries: each is read with the bytes
that it was written as, all are read one after another until nothing remains, and where the
bytes are cut the entries before the cut one are read, and the cut one is answered with an
error. -/
structure RoundTrips (frameGetter : Int → RC) (entries : List LogEntryHandler) : Prop where
  one : ∀ entry ∈ entries, ∀ rest,
    LogEntryHandler.fromBuffer frameGetter (entry.serialize ++ rest) = .ok (entry.forget, rest)
  all : readEntries frameGetter (serializeEntries entries)
    = some (entries.map LogEntryHandler.forget, none)
  cut : ∀ k < (serializeEntries entries).length, ∃ front entry back,
    entries = front ++ entry :: back ∧ (serializeEntries front).length ≤ k ∧
    k < (serializeEntries (front ++ [entry])).length ∧
    ∃ error, readEntries frameGetter ((serializeEntries entries).take k)
        = some (front.map LogEntryHandler.forget, error) ∧
      (k = (serializeEntries front).length → error = none) ∧
      (k ≠ (serializeEntries front).length → ∃ stop, error = some stop ∧ stop.Failed)

/-- Entries whose fields fit into the numbers that are written for them are read back. -/
theorem roundTrips_of_fits (frameGetter : Int → RC) (entries : List LogEntryHandler)
    (hfits : ∀ entry ∈ entries, entry.Fits)
    (hframes : ∀ entry ∈ entries, frameGetter entry.pageNum = .success) :
  RoundTrips frameGetter entries
  := by
  have hreads : ∀ entry ∈ entries, Reader.Reads Stop.Failed
      (LogEntryHandler.fromBuffer frameGetter) entry.serialize entry.forget :=
    fun entry hmem => reads_entry (hfits entry hmem) (hframes entry hmem)
  have hne : ∀ entry ∈ entries, entry.serialize ≠ [] := fun entry _ => entry.serialize_ne_nil
  refine ⟨fun entry hmem rest => (hreads entry hmem).whole rest,
    Reader.many_flatMap hreads hne le_rfl, ?_⟩
  intro k hk
  have hlen : k ≤ ((serializeEntries entries).take k).length := by
    rw [List.length_take]
    omega
  obtain ⟨front, entry, back, hentries, hle, hlt, hbetween, hwithin⟩ :=
    Reader.many_take hreads hne hlen hk
  refine ⟨front, entry, back, hentries, hle, hlt, ?_⟩
  obtain heq | hdiff := eq_or_ne k (serializeEntries front).length
  · exact ⟨none, hbetween heq, fun _ => rfl, fun h => absurd heq h⟩
  · obtain ⟨stop, hfailed, hmany⟩ := hwithin hdiff
    exact ⟨some stop, hmany, fun h => absurd h hdiff, fun _ => ⟨stop, rfl, hfailed⟩⟩

theorem roundTrips_of_fits_two :
  RoundTrips (fun _ => .success) [⟨1, .nodeInsert 0 1 [3, 0]⟩, ⟨2, .leafSetNextPage 5 4⟩]
  := by
  apply roundTrips_of_fits
  · intro entry hmem
    simp only [List.mem_cons, List.not_mem_nil, or_false] at hmem
    obtain rfl | rfl := hmem
    · exact ⟨by decide, by decide, by decide, by decide⟩
    · exact ⟨by decide, (by decide : IsInt32 5)⟩
  · intro entry _
    rfl

/-! ### Too many bytes -/

/-- An entry that inserts as many bytes as do not fit into an `int32_t`. -/
def longInsert : LogEntryHandler :=
  ⟨1, .nodeInsert 0 1 (List.replicate (2 ^ 31) 0)⟩

theorem readInt32_decode_bind {β : Type} {rc : RC} {x : Int} {rest : List UInt8}
    (f : Int × List UInt8 → Except Stop β) :
  (readInt32 rc (writeInt32 x ++ rest) >>= f) = f (Bytes.decode (writeInt32 x), rest)
  := by
  rw [readInt32, readBytes_append (length_writeInt32 x)]
  rfl

/-- The number of the bytes is read back as a negative one. -/
theorem deserializeBody_longInsert :
  deserializeBody longInsert.operation.type longInsert.operation.serializeBody
    = .error (.crash .exception)
  := by
  have hlen : ((List.replicate (2 ^ 31) (0 : UInt8)).length : Int) = 2 ^ 31 := by
    rw [List.length_replicate]
    rfl
  have hdecode : Bytes.decode (writeInt32 (2 ^ 31)) = -2 ^ 31 := by
    decide
  rw [longInsert, LogOperation.serializeBody, LogOperation.type, deserializeBody,
    deserializeItems, List.append_assoc, List.append_assoc, hlen]
  apply (readInt32_bind (by decide) _).trans
  apply (readInt32_bind (by decide) _).trans
  apply (readInt32_decode_bind _).trans
  rw [hdecode]
  rfl

theorem fromBuffer_longInsert :
  LogEntryHandler.fromBuffer (fun _ => .success) (longInsert.serialize ++ [])
    = .error (.crash .exception)
  := by
  rw [List.append_nil, LogEntryHandler.serialize, LogEntryHandler.serializeHeader,
    List.append_assoc]
  apply (readInt32_bind (by decide) _).trans
  simp only [LogOperationType.ofIndex_index]
  apply (readInt32_bind (by decide) _).trans
  simp only [ne_eq, not_true_eq_false, if_false]
  rw [deserializeBody_longInsert]
  rfl

/-- Not every sequence of entries is read back: no vector can have the size that is read for
the items of one that inserts `2 ^ 31` bytes. -/
theorem codec_not_roundTrips :
  ¬ RoundTrips (fun _ => .success) [longInsert]
  := by
  intro h
  have hone := h.one longInsert List.mem_cons_self []
  rw [fromBuffer_longInsert] at hone
  cases hone

end MiniOB.BplusTree
