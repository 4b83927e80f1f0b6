import MiniOB.Clog.LogFile

/-!
# The log handler

`LogEntryBuffer` of `storage/clog/log_buffer.cpp` and `DiskLogHandler` of
`storage/clog/disk_log_handler.cpp`. Entries are appended to a buffer; a thread takes them
out of it, one after the other, and writes them to the last file, or to a new one when the
last file is full. The steps of the thread interleave with the appends. A write puts the
whole entry into the file or nothing, and a restart keeps nothing but the files.
-/

namespace MiniOB.Clog

/-! ### The buffer -/

/-- `LogEntryBuffer`. -/
structure LogEntryBuffer where
  entries : List LogEntry := []
  bytes : Int := 0
  currentLsn : Int := 0
  flushedLsn : Int := 0
  maxBytes : Int := 4 * 1024 * 1024
  deriving DecidableEq, Repr

namespace LogEntryBuffer

/-- `LogEntryBuffer::init`. -/
def init (buffer : LogEntryBuffer) (lsn : Int) : LogEntryBuffer :=
  { buffer with currentLsn := lsn, flushedLsn := lsn }

/-- `LogEntryBuffer::append`, once the buffer holds fewer than `maxBytes` bytes. The size
that is counted is the one left behind in the entry that has been moved into the buffer. -/
def append (buffer : LogEntryBuffer) (moduleId : Int) (data : List UInt8) :
    Except RC (Int × LogEntryBuffer) :=
  if maxPayloadSize < int32 data.length then .error .invalidArgument
  else
    let lsn := buffer.currentLsn + 1
    .ok (lsn, { buffer with
      entries := buffer.entries ++ [⟨lsn, moduleId, data⟩]
      bytes := buffer.bytes + headerSize
      currentLsn := lsn })

/-- The entry at the front leaves the buffer. -/
def pop (buffer : LogEntryBuffer) (entry : LogEntry) (entries : List LogEntry) : LogEntryBuffer :=
  { buffer with entries := entries, bytes := buffer.bytes - entry.totalSize }

/-- An entry that could not be written goes back to the front. -/
def restore (buffer : LogEntryBuffer) (entry : LogEntry) : LogEntryBuffer :=
  { buffer with entries := entry :: buffer.entries }

end LogEntryBuffer

/-! ### The handler -/

/-- Where the thread of the handler stands: at the head of the loop of `thread_func`, in
the loop of `LogEntryBuffer::flush`, or there with an entry it has taken out. -/
inductive Control where
  | loop
  | flush
  | write (entry : LogEntry)
  deriving DecidableEq, Repr

/-- `DiskLogHandler` with the directory of its files and the state of its thread. -/
structure DiskLogHandler where
  directory : Directory
  fileManager : LogFileManager
  entryBuffer : LogEntryBuffer := {}
  fileWriter : LogFileWriter := {}
  rc : RC := .success
  control : Control := .loop
  deriving DecidableEq, Repr

namespace DiskLogHandler

section Iterate

variable {σ : Type}

/-- The loop of `DiskLogHandler::iterate` over the files. -/
def iterateFiles (directory : Directory) (consumer : σ → LogEntry → σ × RC) (startLsn : Int) :
    List String → σ → σ × RC
  | [], s => (s, .success)
  | filename :: filenames, s =>
    match directory.lookup filename with
    | none => (s, .fileOpen)
    | some bytes =>
      andThen (readFile consumer startLsn bytes s)
        (iterateFiles directory consumer startLsn filenames)

/-- `DiskLogHandler::iterate`. -/
def iterate (handler : DiskLogHandler) (consumer : σ → LogEntry → σ × RC) (startLsn : Int)
    (s : σ) : σ × RC :=
  iterateFiles handler.directory consumer startLsn (handler.fileManager.listFiles startLsn) s

/-- The callback of `DiskLogHandler::replay`, which keeps the largest sequence number. -/
def replayCallback (replayer : σ → LogEntry → σ × RC) (state : Int × σ) (entry : LogEntry) :
    (Int × σ) × RC :=
  let (s, rc) := replayer state.2 entry
  ((if state.1 < entry.lsn then entry.lsn else state.1, s), rc)

/-- `DiskLogHandler::replay`. -/
def replay (handler : DiskLogHandler) (replayer : σ → LogEntry → σ × RC) (startLsn : Int)
    (s : σ) : RC × σ × DiskLogHandler :=
  match handler.iterate (replayCallback replayer) startLsn (0, s) with
  | ((maxLsn, s), .success) =>
    (.success, s, { handler with entryBuffer := handler.entryBuffer.init maxLsn })
  | ((_, s), rc) => (rc, s, handler)

/-- A new handler on a directory, `DiskLogHandler::init` followed by `DiskLogHandler::replay`. -/
def restart (maxEntryNumberPerFile : Int) (directory : Directory) (filenames : List String)
    (replayer : σ → LogEntry → σ × RC) (startLsn : Int) (s : σ) : RC × σ × DiskLogHandler :=
  replay { directory, fileManager := .init maxEntryNumberPerFile filenames } replayer startLsn s

/-- A new handler on an empty directory whose buffer starts at a sequence number. -/
def start (maxEntryNumberPerFile lsn : Int) : DiskLogHandler where
  directory := []
  fileManager := .init maxEntryNumberPerFile []
  entryBuffer := LogEntryBuffer.init {} lsn

end Iterate

/-- The thread opens a file: `last_file`, or `next_file` after the last one was full. -/
def openFile (handler : DiskLogHandler) (opens : Bool) : DiskLogHandler :=
  let (rc, fileManager, fileWriter, directory) :=
    if handler.rc = .logFileFull then
      handler.fileManager.nextFile handler.fileWriter handler.directory opens
    else handler.fileManager.lastFile handler.fileWriter handler.directory opens
  { handler with directory, fileManager, fileWriter, rc }

/-- The thread writes the entry that it has taken out of the buffer: a round of the loop of
`LogEntryBuffer::flush`. -/
def writeEntry (handler : DiskLogHandler) (entry : LogEntry) (writes : Bool) : DiskLogHandler :=
  match handler.fileWriter.write handler.directory entry writes with
  | (.success, fileWriter, directory) =>
    { handler with
      directory, fileWriter
      entryBuffer := { handler.entryBuffer with flushedLsn := entry.lsn }
      control := .flush }
  | (rc, fileWriter, directory) =>
    { handler with
      directory, fileWriter, rc
      entryBuffer := handler.entryBuffer.restore entry
      control := .loop }

end DiskLogHandler

/-! ### Runs -/

/-- What happens in a step. -/
inductive Event where
  | append (entry : LogEntry)
  | openFile
  | flush
  | pop
  | write
  | done
  | restart (checkPointLsn : Int)
  deriving DecidableEq, Repr

open DiskLogHandler in
/-- The steps of a log with `maxEntryNumberPerFile` entries in a file. -/
inductive Step (maxEntryNumberPerFile : Int) : DiskLogHandler → Event → DiskLogHandler → Prop where
  | append {handler : DiskLogHandler} {moduleId lsn : Int} {data : List UInt8}
      {buffer : LogEntryBuffer} (hroom : handler.entryBuffer.bytes < handler.entryBuffer.maxBytes)
      (happend : handler.entryBuffer.append moduleId data = .ok (lsn, buffer)) :
      Step maxEntryNumberPerFile handler (.append ⟨lsn, moduleId, data⟩)
        { handler with entryBuffer := buffer }
  | openFile {handler : DiskLogHandler} (hcontrol : handler.control = .loop)
      (hneed : handler.fileWriter.valid = false ∨ handler.rc = .logFileFull) (opens : Bool) :
      Step maxEntryNumberPerFile handler .openFile (handler.openFile opens)
  | flush {handler : DiskLogHandler} (hcontrol : handler.control = .loop)
      (hvalid : handler.fileWriter.valid) (hrc : handler.rc ≠ .logFileFull) :
      Step maxEntryNumberPerFile handler .flush { handler with control := .flush }
  | pop {handler : DiskLogHandler} {entry : LogEntry} {entries : List LogEntry}
      (hcontrol : handler.control = .flush)
      (hentries : handler.entryBuffer.entries = entry :: entries)
      (hassert : 0 < entry.lsn ∧ 0 < entry.header.size) :
      Step maxEntryNumberPerFile handler .pop
        { handler with
          entryBuffer := handler.entryBuffer.pop entry entries
          control := .write entry }
  | write {handler : DiskLogHandler} {entry : LogEntry} (hcontrol : handler.control = .write entry)
      (writes : Bool) :
      Step maxEntryNumberPerFile handler .write (handler.writeEntry entry writes)
  | done {handler : DiskLogHandler} (hcontrol : handler.control = .flush)
      (hentries : handler.entryBuffer.entries = []) :
      Step maxEntryNumberPerFile handler .done { handler with rc := .success, control := .loop }
  | restart {handler handler' : DiskLogHandler} {filenames : List String} {σ : Type}
      {replayer : σ → LogEntry → σ × RC} {checkPointLsn : Int} {s s' : σ}
      (hnames : filenames.Perm (handler.directory.map Prod.fst))
      (hrestart : restart maxEntryNumberPerFile handler.directory filenames replayer checkPointLsn s
        = (.success, s', handler')) :
      Step maxEntryNumberPerFile handler (.restart checkPointLsn) handler'

end MiniOB.Clog
