import MiniOB.Common
import MiniOB.Lib.Bytes

/-!
# Log files

The entries of the write-ahead log and the files that hold them: `LogEntry` of
`storage/clog/log_entry.cpp` and `LogFileReader`, `LogFileWriter` and `LogFileManager` of
`storage/clog/log_file.cpp`. An entry lies in its file as a header of sixteen bytes, the
sequence number, the size of the payload and the number of the module, followed by the
payload. A file is named after the first sequence number it may hold. The numbers of the
files are never large enough for 64 bits to matter.
-/

namespace MiniOB.Clog

/-! ### Entries -/

/-- A log entry; the size of the payload is the length of `data`. -/
structure LogEntry where
  lsn : Int
  moduleId : Int
  data : List UInt8
  deriving DecidableEq, Repr

/-- `LogHeader`. -/
structure LogHeader where
  lsn : Int
  size : Int
  moduleId : Int
  deriving DecidableEq, Repr

/-- `LogHeader::SIZE`. -/
def headerSize : Nat := 16

/-- `LogEntry::max_payload_size`. -/
def maxPayloadSize : Int := 4 * 1024 * 1024 - headerSize

/-- `LogEntry::header`. -/
def LogEntry.header (entry : LogEntry) : LogHeader where
  lsn := entry.lsn
  size := int32 entry.data.length
  moduleId := entry.moduleId

/-- `LogEntry::total_size`. -/
def LogEntry.totalSize (entry : LogEntry) : Int := headerSize + entry.header.size

/-- The bytes of a header. -/
def LogHeader.encode (header : LogHeader) : List UInt8 :=
  Bytes.encode 8 header.lsn ++ Bytes.encode 4 header.size ++ Bytes.encode 4 header.moduleId

/-- The bytes of an entry. -/
def LogEntry.encode (entry : LogEntry) : List UInt8 := entry.header.encode ++ entry.data

/-- Read a header. -/
def readHeader (bytes : List UInt8) : Option (LogHeader × List UInt8) := do
  let (lsn, bytes) ← Bytes.read 8 bytes
  let (size, bytes) ← Bytes.read 4 bytes
  let (moduleId, bytes) ← Bytes.read 4 bytes
  pure (⟨Bytes.decode lsn, Bytes.decode size, Bytes.decode moduleId⟩, bytes)

/-! ### Reading a file

The state of a reader is what follows its position in the file. Each round of the loops
reads a header, so the length of the file bounds their number. -/

section Reader

variable {σ : Type}

/-- Go on after a call unless it has failed. -/
def andThen (result : σ × RC) (next : σ → σ × RC) : σ × RC :=
  if result.2 = .success then next result.1 else result

/-- The loop of `LogFileReader::skip_to`. -/
def skipLoop (startLsn : Int) : Nat → List UInt8 → Except RC (List UInt8)
  | 0, _ => .error .internal
  | fuel + 1, bytes =>
    match readHeader bytes with
    | none => .ok []
    | some (header, rest) =>
      if startLsn ≤ header.lsn then .ok bytes
      else if header.size < 0 ∨ maxPayloadSize < header.size then .error .ioerrRead
      else skipLoop startLsn fuel (rest.drop header.size.toNat)

/-- `LogFileReader::skip_to`. -/
def skipTo (startLsn : Int) (bytes : List UInt8) : Except RC (List UInt8) :=
  skipLoop startLsn (bytes.length + 1) bytes

/-- The loop of `LogFileReader::iterate`; the callback works on a state of its own. -/
def iterateLoop (callback : σ → LogEntry → σ × RC) : Nat → List UInt8 → σ → σ × RC
  | 0, _, s => (s, .internal)
  | fuel + 1, bytes, s =>
    match readHeader bytes with
    | none => (s, .success)
    | some (header, rest) =>
      if header.size < 0 ∨ maxPayloadSize < header.size then (s, .ioerrRead)
      else
        match Bytes.read header.size.toNat rest with
        | none => (s, .ioerrRead)
        | some (data, rest) =>
          andThen (callback s ⟨header.lsn, header.moduleId, data⟩) (iterateLoop callback fuel rest)

/-- Read the entries from the position on. -/
def readEntries (callback : σ → LogEntry → σ × RC) (bytes : List UInt8) (s : σ) : σ × RC :=
  iterateLoop callback (bytes.length + 1) bytes s

/-- `LogFileReader::iterate`. -/
def readFile (callback : σ → LogEntry → σ × RC) (startLsn : Int) (bytes : List UInt8) (s : σ) :
    σ × RC :=
  match skipTo startLsn bytes with
  | .error rc => (s, rc)
  | .ok bytes => readEntries callback bytes s

end Reader

/-! ### The directory -/

/-- The files in the directory of the log, with their bytes. -/
abbrev Directory := List (String × List UInt8)

/-- Create a file unless it is there. -/
def Directory.create (directory : Directory) (filename : String) : Directory :=
  if (directory.lookup filename).isSome then directory else directory ++ [(filename, [])]

/-- Write bytes to the end of a file. -/
def Directory.append (directory : Directory) (filename : String) (bytes : List UInt8) : Directory :=
  directory.map fun file => if file.1 = filename then (file.1, file.2 ++ bytes) else file

/-! ### Writing a file -/

/-- `LogFileWriter`; `filename` is there while the file is open. -/
structure LogFileWriter where
  filename : Option String := none
  lastLsn : Int := 0
  endLsn : Int := 0
  deriving DecidableEq, Repr

namespace LogFileWriter

/-- `LogFileWriter::valid`. -/
def valid (writer : LogFileWriter) : Bool := writer.filename.isSome

/-- `LogFileWriter::close`. -/
def close (writer : LogFileWriter) : LogFileWriter := { writer with filename := none }

/-- `LogFileWriter::open`, where the system opens the file if `opens`. -/
def openFile (writer : LogFileWriter) (directory : Directory) (filename : String) (endLsn : Int)
    (opens : Bool) : RC × LogFileWriter × Directory :=
  if writer.valid then (.fileOpen, writer, directory)
  else if opens then
    (.success, { writer with filename := some filename, endLsn := int32 endLsn },
      directory.create filename)
  else (.fileOpen, { writer with endLsn := int32 endLsn }, directory)

/-- `LogFileWriter::write`, where the bytes reach the file if `writes`. -/
def write (writer : LogFileWriter) (directory : Directory) (entry : LogEntry) (writes : Bool) :
    RC × LogFileWriter × Directory :=
  if writer.endLsn < entry.lsn then (.logFileFull, writer, directory)
  else
    match writer.filename with
    | none => (.fileNotOpened, writer, directory)
    | some filename =>
      if entry.lsn ≤ writer.lastLsn then (.invalidArgument, writer, directory)
      else if writes then
        (.success, { writer with lastLsn := int32 entry.lsn },
          directory.append filename entry.encode)
      else (.ioerrWrite, writer, directory)

end LogFileWriter

/-! ### The names of the files -/

/-- `LogFileManager::file_prefix_`. -/
def fileNamePrefix : String := "clog_"

/-- `LogFileManager::file_suffix_`. -/
def fileNameSuffix : String := ".log"

/-- The name of the file from a sequence number on. -/
def filenameOf (lsn : Int) : String := fileNamePrefix ++ lsn.repr ++ fileNameSuffix

/-- The number that the digits at the front spell. -/
def fromDigits (cs : List Char) : Option Int :=
  let digits := cs.takeWhile Char.isDigit
  if digits = [] then none else some (Nat.ofDigitChars 10 digits 0)

/-- `std::from_chars`, which reads as many digits as there are. -/
def fromChars : List Char → Option Int
  | '-' :: cs => (fromDigits cs).map Neg.neg
  | cs => fromDigits cs

/-- `LogFileManager::get_lsn_from_filename`. -/
def getLsnFromFilename (filename : String) : Except RC Int :=
  let cs := filename.toList
  let front := fileNamePrefix.toList
  let back := fileNameSuffix.toList
  if front.isPrefixOf cs ∧ back.isSuffixOf cs then
    match fromChars ((cs.drop front.length).take (cs.length - back.length - front.length)) with
    | some lsn => .ok lsn
    | none => .error .invalidArgument
  else .error .invalidArgument

/-! ### The files of a log -/

/-- `LogFileManager`: the capacity of a file, and the files by their first sequence
numbers in ascending order. -/
structure LogFileManager where
  maxEntryNumberPerFile : Int
  logFiles : List (Int × String)
  deriving DecidableEq, Repr

/-- `std::map::emplace`. -/
def emplace (lsn : Int) (path : String) : List (Int × String) → List (Int × String)
  | [] => [(lsn, path)]
  | file :: files =>
    if lsn < file.1 then (lsn, path) :: file :: files
    else if file.1 < lsn then file :: emplace lsn path files
    else file :: files

namespace LogFileManager

/-- `LogFileManager::init`, with the names in the directory in the order in which they are
listed. -/
def init (maxEntryNumberPerFile : Int) (filenames : List String) : LogFileManager where
  maxEntryNumberPerFile := maxEntryNumberPerFile
  logFiles := filenames.foldl (fun files filename =>
    match getLsnFromFilename filename with
    | .ok lsn => emplace lsn filename files
    | .error _ => files) []

/-- `LogFileManager::list_files`. -/
def listFiles (manager : LogFileManager) (startLsn : Int) : List String :=
  (manager.logFiles.filter fun file =>
    startLsn ≤ file.1 + manager.maxEntryNumberPerFile - 1).map Prod.snd

/-- The number of the file after the last one. -/
def nextLsn (manager : LogFileManager) : Int :=
  match manager.logFiles.getLast? with
  | some file => file.1 + manager.maxEntryNumberPerFile
  | none => 0

/-- `LogFileManager::next_file`. -/
def nextFile (manager : LogFileManager) (writer : LogFileWriter) (directory : Directory)
    (opens : Bool) : RC × LogFileManager × LogFileWriter × Directory :=
  let lsn := manager.nextLsn
  let (rc, writer, directory) := writer.close.openFile directory (filenameOf lsn)
    (lsn + manager.maxEntryNumberPerFile - 1) opens
  (rc, { manager with logFiles := emplace lsn (filenameOf lsn) manager.logFiles }, writer, directory)

/-- `LogFileManager::last_file`. -/
def lastFile (manager : LogFileManager) (writer : LogFileWriter) (directory : Directory)
    (opens : Bool) : RC × LogFileManager × LogFileWriter × Directory :=
  match manager.logFiles.getLast? with
  | none => manager.nextFile writer directory opens
  | some file =>
    let (rc, writer, directory) := writer.close.openFile directory file.2
      (file.1 + manager.maxEntryNumberPerFile - 1) opens
    (rc, manager, writer, directory)

end LogFileManager

end MiniOB.Clog
