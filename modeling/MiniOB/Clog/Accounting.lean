import MiniOB.Clog.DiskLogHandler
import MiniOB.Lib.Run

/-!
# The bytes of the log buffer

`LogEntryBuffer` counts the bytes that it holds, and lets nobody append while they are too many.
The entry that is appended is counted after it has been moved away, so only its header counts,
while an entry that is taken out counts in full; one that goes back after a write that failed
does not count again.
-/

namespace MiniOB.Clog

open Transition

/-! ### Whole calls -/

/-- What `LogEntryBuffer::flush` leaves: the code it returns, the number of entries that it has
written, the buffer, the writer and the directory. -/
structure Flushing where
  rc : RC
  count : Nat
  buffer : LogEntryBuffer
  writer : LogFileWriter
  directory : Directory

/-- The loop of `LogEntryBuffer::flush`, while nobody appends. The bytes of an entry reach the
file if its answer says so, or if there is no answer. A failed assertion has no result. -/
def flushLoop : Nat → Flushing → List Bool → Option Flushing
  | 0, s, _ => some s
  | n + 1, s, writes =>
    match s.buffer.entries with
    | [] => some s
    | entry :: entries =>
      if 0 < entry.lsn ∧ 0 < entry.header.size then
        let buffer := s.buffer.pop entry entries
        match s.writer.write s.directory entry (writes.headD true) with
        | (.success, writer, directory) =>
          flushLoop n ⟨.success, s.count + 1, { buffer with flushedLsn := entry.lsn }, writer, directory⟩
            writes.tail
        | (rc, writer, directory) => some ⟨rc, s.count, buffer.restore entry, writer, directory⟩
      else none

/-- `LogEntryBuffer::flush`. -/
def LogEntryBuffer.flush (buffer : LogEntryBuffer) (writer : LogFileWriter) (directory : Directory)
    (writes : List Bool) : Option Flushing :=
  flushLoop buffer.entries.length ⟨.success, 0, buffer, writer, directory⟩ writes

/-- A call on a buffer: an append, which returns once there is room, or a flush with any writer. -/
inductive BufferCall where
  | append (moduleId : Int) (data : List UInt8)
  | flush (writer : LogFileWriter) (directory : Directory) (writes : List Bool)
  deriving DecidableEq, Repr

/-- The calls on a buffer that return. -/
inductive BufferStep : LogEntryBuffer → BufferCall → LogEntryBuffer → Prop where
  | append {buffer buffer' : LogEntryBuffer} {moduleId lsn : Int} {data : List UInt8}
      (room : buffer.bytes < buffer.maxBytes)
      (call : buffer.append moduleId data = .ok (lsn, buffer')) :
      BufferStep buffer (.append moduleId data) buffer'
  | refuse {buffer : LogEntryBuffer} {moduleId : Int} {data : List UInt8} {rc : RC}
      (room : buffer.bytes < buffer.maxBytes) (call : buffer.append moduleId data = .error rc) :
      BufferStep buffer (.append moduleId data) buffer
  | flush {buffer : LogEntryBuffer} {writer : LogFileWriter} {directory : Directory}
      {writes : List Bool} {result : Flushing}
      (call : buffer.flush writer directory writes = some result) :
      BufferStep buffer (.flush writer directory writes) result.buffer

namespace LogEntryBuffer

/-! ### The drift of the counter -/

/-- The bytes of the entries that the buffer holds. -/
def held (buffer : LogEntryBuffer) : Int := (buffer.entries.map LogEntry.totalSize).sum

/-- The buffer counts the bytes that it holds. -/
def Accounted (buffer : LogEntryBuffer) : Prop := buffer.bytes = buffer.held ∧ 0 ≤ buffer.bytes

instance (buffer : LogEntryBuffer) : Decidable buffer.Accounted :=
  inferInstanceAs (Decidable (_ ∧ _))

/-- By how much the buffer counts too few bytes. -/
def missing (buffer : LogEntryBuffer) : Int := buffer.held - buffer.bytes

variable {buffer buffer' : LogEntryBuffer} {moduleId lsn : Int} {data : List UInt8}
  {entry : LogEntry} {entries : List LogEntry}

theorem append_entries (h : buffer.append moduleId data = .ok (lsn, buffer')) :
  buffer'.entries = buffer.entries ++ [⟨buffer.currentLsn + 1, moduleId, data⟩]
  := by
  rw [append] at h
  split at h
  · cases h
  · cases h
    rfl

/-- An append misses the payload. -/
theorem append_missing (h : buffer.append moduleId data = .ok (lsn, buffer')) :
  buffer'.missing = buffer.missing + int32 data.length
  := by
  rw [append] at h
  split at h
  · cases h
  · cases h
    rw [missing, missing, held, held, List.map_append, List.sum_append, List.map_singleton,
      List.sum_singleton, LogEntry.totalSize, LogEntry.header]
    ring

/-- A buffer whose entries have no payload cannot be flushed unless it is empty. -/
theorem flushLoop_of_empty_payloads {n : Nat} {s result : Flushing} {writes : List Bool}
    (hempty : ∀ entry ∈ s.buffer.entries, entry.header.size = 0)
    (hn : n = s.buffer.entries.length) (h : flushLoop n s writes = some result) :
  result = s
  := by
  subst hn
  cases hentries : s.buffer.entries with
  | nil =>
    rw [hentries] at h
    cases h
    rfl
  | cons entry entries =>
    have hzero := hempty entry (by rw [hentries]; exact List.mem_cons_self)
    rw [hentries, List.length_cons, flushLoop, hentries] at h
    dsimp only at h
    rw [if_neg (by omega)] at h
    cases h

end LogEntryBuffer

open LogEntryBuffer

variable {buffer buffer' start : LogEntryBuffer} {call : BufferCall}
  {h : List (LogEntryBuffer × BufferCall)}

/-- A call that appends no payload: it is empty, or too long for an entry. -/
def WithoutPayload : BufferCall → Prop
  | .append _ data => int32 data.length = 0 ∨ maxPayloadSize < int32 data.length
  | .flush _ _ _ => True

/-- What a buffer is like while no payload has been appended. -/
structure Bare (buffer : LogEntryBuffer) : Prop where
  payload : ∀ entry ∈ buffer.entries, entry.header.size = 0
  missing : buffer.missing = 0

theorem Bare.accounted (h : Bare buffer) : buffer.Accounted := by
  have hheld : buffer.held = buffer.entries.length * 16 := by
    have hsize : ∀ size ∈ buffer.entries.map LogEntry.totalSize, size = 16 := by
      intro size hsize
      obtain ⟨entry, hmem, rfl⟩ := List.mem_map.mp hsize
      rw [LogEntry.totalSize, h.payload entry hmem]
      rfl
    rw [held, List.eq_replicate_of_mem hsize, List.sum_replicate, List.length_map]
    simp
  have hmissing := h.missing
  rw [LogEntryBuffer.missing] at hmissing
  constructor <;> omega

/-- A call without a payload. -/
theorem Bare.step (h : Bare buffer) (hwithout : WithoutPayload call)
    (hstep : BufferStep buffer call buffer') :
  Bare buffer'
  := by
  cases hstep with
  | append room happend =>
    obtain hzero | hlong := hwithout
    · constructor
      · rw [append_entries happend, List.forall_mem_append, List.forall_mem_singleton,
          LogEntry.header]
        dsimp only
        exact ⟨h.payload, hzero⟩
      · rw [append_missing happend, h.missing, hzero, Int.add_zero]
    · rw [LogEntryBuffer.append, if_pos hlong] at happend
      cases happend
  | refuse room hrefuse => exact h
  | flush hflush =>
    obtain rfl := flushLoop_of_empty_payloads (s := ⟨_, _, buffer, _, _⟩) h.payload rfl hflush
    exact h

/-- A call after which the bytes are right, as they were before, has no payload. -/
theorem withoutPayload_of_accounted (hbefore : buffer.Accounted) (hafter : buffer'.Accounted)
    (hstep : BufferStep buffer call buffer') :
  WithoutPayload call
  := by
  cases hstep with
  | append room happend =>
    left
    have hmissing := append_missing happend
    have h₁ := hbefore.1
    have h₂ := hafter.1
    rw [missing, missing] at hmissing
    omega
  | refuse room hrefuse =>
    right
    rw [LogEntryBuffer.append] at hrefuse
    split at hrefuse
    · assumption
    · cases hrefuse
  | flush hflush => trivial

/-- Along a run of calls on an empty buffer the bytes are right after every call if and only if
none of them appends a payload. -/
theorem accounted_iff (hentries : start.entries = []) (hbytes : start.bytes = 0)
    (hrun : Run BufferStep start h buffer) :
  ((∀ x ∈ h, x.1.Accounted) ∧ buffer.Accounted) ↔ ∀ x ∈ h, WithoutPayload x.2
  := by
  constructor
  · rintro ⟨hh, hlast⟩
    induction hrun with
    | refl => simp
    | tail hrun hstep ih =>
      have hbefore := hh _ List.mem_cons_self
      rw [List.forall_mem_cons]
      refine ⟨withoutPayload_of_accounted hbefore hlast hstep, ?_⟩
      exact ih (fun x hx => hh x (List.mem_cons_of_mem _ hx)) hbefore
  · intro hwithout
    have hstart : Bare start := ⟨by simp [hentries], by simp [missing, held, hentries, hbytes]⟩
    have hbare : (∀ x ∈ h, Bare x.1) ∧ Bare buffer := by
      induction hrun with
      | refl => exact ⟨by simp, hstart⟩
      | tail hrun hstep ih =>
        rw [List.forall_mem_cons] at hwithout ⊢
        obtain ⟨hh, hbefore⟩ := ih hwithout.2
        exact ⟨⟨hbefore, hh⟩, hbefore.step hwithout.1 hstep⟩
    exact ⟨fun x hx => (hbare.1 x hx).accounted, hbare.2.accounted⟩

/-- A writer whose file is open. -/
def someWriter : LogFileWriter := { filename := some "clog_0.log", endLsn := 999 }

/-- After an entry with one byte has been appended and flushed, the empty buffer counts less than
no byte. -/
theorem accounted_fails : ∃ (h : List (LogEntryBuffer × BufferCall)) (buffer : LogEntryBuffer),
  Run BufferStep {} h buffer ∧ buffer.entries = [] ∧ buffer.bytes = -1 ∧ ¬ buffer.Accounted
  := by
  have happend : BufferStep {} (.append 0 [7])
      { entries := [⟨1, 0, [7]⟩], bytes := 16, currentLsn := 1 } := by
    apply BufferStep.append (by decide)
    rfl
  have hflush : BufferStep { entries := [⟨1, 0, [7]⟩], bytes := 16, currentLsn := 1 }
      (.flush someWriter [] []) { bytes := -1, currentLsn := 1, flushedLsn := 1 } := by
    let result : Flushing := ⟨.success, 1, { bytes := -1, currentLsn := 1, flushedLsn := 1 },
      { someWriter with lastLsn := 1 }, []⟩
    exact BufferStep.flush (show _ = some result from rfl)
  exact ⟨_, _, (Run.refl.tail happend).tail hflush, rfl, rfl, by decide⟩

/-- The bytes are right after an append without a payload, and after one that is refused. -/
theorem accounted_iff_refused :
  ∃ h : List (LogEntryBuffer × BufferCall), h.length = 2
    ∧ Run BufferStep {} h { entries := [⟨1, 0, []⟩], bytes := 16, currentLsn := 1 }
    ∧ ((∀ x ∈ h, x.1.Accounted)
      ∧ LogEntryBuffer.Accounted { entries := [⟨1, 0, []⟩], bytes := 16, currentLsn := 1 })
  := by
  let buffer : LogEntryBuffer := { entries := [⟨1, 0, []⟩], bytes := 16, currentLsn := 1 }
  let data : List UInt8 := List.replicate (maxPayloadSize + 1).toNat 0
  have happend : BufferStep {} (.append 0 []) buffer := by
    apply BufferStep.append (by decide)
    rfl
  have hlong : maxPayloadSize < int32 data.length := by
    rw [List.length_replicate]
    decide
  have hrefuse : BufferStep buffer (.append 0 data) buffer :=
    BufferStep.refuse (by decide) (if_pos hlong)
  have hrun := (Run.refl.tail happend).tail hrefuse
  refine ⟨_, rfl, hrun, (accounted_iff rfl rfl hrun).mpr ?_⟩
  intro x hx
  obtain rfl | hx := List.mem_cons.mp hx
  · exact .inr hlong
  · obtain rfl := List.mem_singleton.mp hx
    exact .inl rfl

end MiniOB.Clog
