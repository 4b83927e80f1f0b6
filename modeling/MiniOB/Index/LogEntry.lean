import MiniOB.Index.BplusTree
import MiniOB.Lib.Bytes

/-!
# Log entries of a B+ tree

`LogEntryHandler` of `storage/index/bplus_tree_log_entry.cpp`: what the entries for the
single changes of a page hold, and how they are written into a buffer and read back. What an
entry holds for the sake of a rollback is not written.
-/

namespace MiniOB.BplusTree

/-- Where the program goes wrong: at one of the failures of a tree, at a null pointer, at
memory beyond a page or a buffer, or at an exception. -/
inductive Crash where
  | failure (failure : Failure)
  | nullPointer
  | overflow
  | exception
  deriving DecidableEq, Repr

/-- How a function ends early: with a return code that its callers see, or in a crash. -/
inductive Stop where
  | returns (rc : RC)
  | crash (crash : Crash)
  deriving DecidableEq, Repr

/-- `IndexFileHeader`. -/
structure IndexFileHeader where
  rootPage : Int
  internalMaxSize : Int
  leafMaxSize : Int
  attrLength : Int
  keyLength : Int
  attrType : Int
  deriving DecidableEq, Repr

/-- `LogOperation::Type`. -/
inductive LogOperationType where
  | initHeaderPage
  | updateRootPage
  | setParentPage
  | leafInitEmpty
  | leafSetNextPage
  | internalInitEmpty
  | internalCreateNewRoot
  | internalUpdateKey
  | nodeInsert
  | nodeRemove
  deriving DecidableEq, Repr

/-- What the handler of an entry holds besides its page, by the type of its operation. -/
inductive LogOperation where
  | initHeaderPage (fileHeader : IndexFileHeader)
  | updateRootPage (rootPageNum oldPageNum : Int)
  | setParentPage (parentPageNum oldParentPageNum : Int)
  | leafInitEmpty
  | leafSetNextPage (newPageNum oldPageNum : Int)
  | internalInitEmpty
  | internalCreateNewRoot (firstPageNum : Int) (key : List UInt8) (pageNum : Int)
  | internalUpdateKey (index : Int) (key oldKey : List UInt8)
  | nodeInsert (index itemNum : Int) (items : List UInt8)
  | nodeRemove (index itemNum : Int) (items : List UInt8)
  deriving DecidableEq, Repr

/-- `LogEntryHandler`. -/
structure LogEntryHandler where
  pageNum : Int
  operation : LogOperation
  deriving DecidableEq, Repr

/-- The type of an operation. -/
def LogOperation.type : LogOperation → LogOperationType
  | initHeaderPage .. => .initHeaderPage
  | updateRootPage .. => .updateRootPage
  | setParentPage .. => .setParentPage
  | leafInitEmpty => .leafInitEmpty
  | leafSetNextPage .. => .leafSetNextPage
  | internalInitEmpty => .internalInitEmpty
  | internalCreateNewRoot .. => .internalCreateNewRoot
  | internalUpdateKey .. => .internalUpdateKey
  | nodeInsert .. => .nodeInsert
  | nodeRemove .. => .nodeRemove

/-- The types in the order of their numbers. -/
def operationTypes : List LogOperationType :=
  [.initHeaderPage, .updateRootPage, .setParentPage, .leafInitEmpty, .leafSetNextPage,
    .internalInitEmpty, .internalCreateNewRoot, .internalUpdateKey, .nodeInsert, .nodeRemove]

/-- `LogOperation::index`. -/
def LogOperationType.index (type : LogOperationType) : Nat := operationTypes.idxOf type

/-- The type with a number, unless it is negative or reaches `MAX_TYPE`. -/
def LogOperationType.ofIndex (index : Int) : Option LogOperationType :=
  if index < 0 then none else operationTypes[index.toNat]?

/-! ### Writing -/

/-- `Serializer::write_int32`. -/
def writeInt32 (x : Int) : List UInt8 := Bytes.encode 4 x

/-- The bytes of an `IndexFileHeader`. -/
def IndexFileHeader.encode (header : IndexFileHeader) : List UInt8 :=
  writeInt32 header.rootPage ++ writeInt32 header.internalMaxSize ++ writeInt32 header.leafMaxSize
    ++ writeInt32 header.attrLength ++ writeInt32 header.keyLength ++ writeInt32 header.attrType

/-- `serialize_body` of the handlers. -/
def LogOperation.serializeBody : LogOperation → List UInt8
  | initHeaderPage fileHeader => fileHeader.encode
  | updateRootPage rootPageNum _ => writeInt32 rootPageNum
  | setParentPage parentPageNum _ => writeInt32 parentPageNum
  | leafInitEmpty => []
  | leafSetNextPage newPageNum _ => writeInt32 newPageNum
  | internalInitEmpty => []
  | internalCreateNewRoot firstPageNum key pageNum =>
    writeInt32 firstPageNum ++ writeInt32 pageNum ++ writeInt32 key.length ++ key
  | internalUpdateKey index key _ => writeInt32 index ++ writeInt32 key.length ++ key
  | nodeInsert index itemNum items | nodeRemove index itemNum items =>
    writeInt32 index ++ writeInt32 itemNum ++ writeInt32 items.length ++ items

/-- `LogEntryHandler::serialize_header`. -/
def LogEntryHandler.serializeHeader (entry : LogEntryHandler) : List UInt8 :=
  writeInt32 entry.operation.type.index ++ writeInt32 entry.pageNum

/-- `LogEntryHandler::serialize`. -/
def LogEntryHandler.serialize (entry : LogEntryHandler) : List UInt8 :=
  entry.serializeHeader ++ entry.operation.serializeBody

/-! ### Reading -/

/-- `Deserializer::read` of a number of bytes, with the answer to bytes that are missing. -/
def readBytes (rc : RC) (n : Nat) (buffer : List UInt8) : Except Stop (List UInt8 × List UInt8) :=
  match Bytes.read n buffer with
  | some result => .ok result
  | none => .error (.returns rc)

/-- `Deserializer::read_int32`, with the answer to bytes that are missing. -/
def readInt32 (rc : RC) (buffer : List UInt8) : Except Stop (Int × List UInt8) := do
  let (bytes, buffer) ← readBytes rc 4 buffer
  pure (Bytes.decode bytes, buffer)

/-- Read into a vector whose size has been read before; no vector has a negative size. -/
def readVector (size : Int) (buffer : List UInt8) : Except Stop (List UInt8 × List UInt8) :=
  if size < 0 then .error (.crash .exception) else readBytes .internal size.toNat buffer

/-- The header that the bytes of an `IndexFileHeader` spell. -/
def IndexFileHeader.decode (bytes : List UInt8) : IndexFileHeader where
  rootPage := Bytes.decode (bytes.take 4)
  internalMaxSize := Bytes.decode ((bytes.drop 4).take 4)
  leafMaxSize := Bytes.decode ((bytes.drop 8).take 4)
  attrLength := Bytes.decode ((bytes.drop 12).take 4)
  keyLength := Bytes.decode ((bytes.drop 16).take 4)
  attrType := Bytes.decode ((bytes.drop 20).take 4)

/-- `deserialize` of `NormalOperationLogEntryHandler`. -/
def deserializeItems (operation : Int → Int → List UInt8 → LogOperation) (buffer : List UInt8) :
    Except Stop (LogOperation × List UInt8) := do
  let (index, buffer) ← readInt32 .internal buffer
  let (itemNum, buffer) ← readInt32 .internal buffer
  let (itemBytes, buffer) ← readInt32 .internal buffer
  let (items, buffer) ← readVector itemBytes buffer
  pure (operation index itemNum items, buffer)

/-- `deserialize` of the handlers, by the type of the operation. -/
def deserializeBody (type : LogOperationType) (buffer : List UInt8) :
    Except Stop (LogOperation × List UInt8) :=
  match type with
  | .initHeaderPage => do
    let (header, buffer) ← readBytes .internal 24 buffer
    pure (.initHeaderPage (IndexFileHeader.decode header), buffer)
  | .updateRootPage => do
    let (rootPageNum, buffer) ← readInt32 .internal buffer
    pure (.updateRootPage rootPageNum (-1), buffer)
  | .setParentPage => do
    let (parentPageNum, buffer) ← readInt32 .internal buffer
    pure (.setParentPage parentPageNum (-1), buffer)
  | .leafInitEmpty => pure (.leafInitEmpty, buffer)
  | .leafSetNextPage => do
    let (newPageNum, buffer) ← readInt32 .internal buffer
    pure (.leafSetNextPage newPageNum (-1), buffer)
  | .internalInitEmpty => pure (.internalInitEmpty, buffer)
  | .internalCreateNewRoot => do
    let (firstPageNum, buffer) ← readInt32 .internal buffer
    let (pageNum, buffer) ← readInt32 .internal buffer
    let (keySize, buffer) ← readInt32 .internal buffer
    let (key, buffer) ← readVector keySize buffer
    pure (.internalCreateNewRoot firstPageNum key pageNum, buffer)
  | .internalUpdateKey => do
    let (index, buffer) ← readInt32 .internal buffer
    let (keySize, buffer) ← readInt32 .internal buffer
    let (key, buffer) ← readVector keySize buffer
    pure (.internalUpdateKey index key [], buffer)
  | .nodeInsert => deserializeItems .nodeInsert buffer
  | .nodeRemove => deserializeItems .nodeRemove buffer

/-- `LogEntryHandler::from_buffer`, with the return code of the frame getter for a page. -/
def LogEntryHandler.fromBuffer (frameGetter : Int → RC) (buffer : List UInt8) :
    Except Stop (LogEntryHandler × List UInt8) := do
  let (index, buffer) ← readInt32 .invalidArgument buffer
  match LogOperationType.ofIndex index with
  | none => .error (.returns .invalidArgument)
  | some type =>
    let (pageNum, buffer) ← readInt32 .invalidArgument buffer
    if frameGetter pageNum ≠ .success then .error (.returns (frameGetter pageNum))
    else
      let (operation, buffer) ← deserializeBody type buffer
      pure (⟨pageNum, operation⟩, buffer)

/-! ### Reading what has been written -/

/-- What is left of an operation when it has been written and read back. -/
def LogOperation.forget : LogOperation → LogOperation
  | updateRootPage rootPageNum _ => updateRootPage rootPageNum (-1)
  | setParentPage parentPageNum _ => setParentPage parentPageNum (-1)
  | leafSetNextPage newPageNum _ => leafSetNextPage newPageNum (-1)
  | internalUpdateKey index key _ => internalUpdateKey index key []
  | operation => operation

/-- A value of the type `int32_t`. -/
def IsInt32 (x : Int) : Prop := -2 ^ 31 ≤ x ∧ x ≤ int32Max

instance (x : Int) : Decidable (IsInt32 x) := inferInstanceAs (Decidable (_ ∧ _))

/-- The fields of a header are values of the type `int32_t`. -/
structure IndexFileHeader.Fits (header : IndexFileHeader) : Prop where
  rootPage : IsInt32 header.rootPage
  internalMaxSize : IsInt32 header.internalMaxSize
  leafMaxSize : IsInt32 header.leafMaxSize
  attrLength : IsInt32 header.attrLength
  keyLength : IsInt32 header.keyLength
  attrType : IsInt32 header.attrType

/-- The numbers that are written are values of the type `int32_t`. -/
def LogOperation.Fits : LogOperation → Prop
  | initHeaderPage fileHeader => fileHeader.Fits
  | updateRootPage rootPageNum _ => IsInt32 rootPageNum
  | setParentPage parentPageNum _ => IsInt32 parentPageNum
  | leafInitEmpty | internalInitEmpty => True
  | leafSetNextPage newPageNum _ => IsInt32 newPageNum
  | internalCreateNewRoot firstPageNum key pageNum =>
    IsInt32 firstPageNum ∧ IsInt32 pageNum ∧ IsInt32 key.length
  | internalUpdateKey index key _ => IsInt32 index ∧ IsInt32 key.length
  | nodeInsert index itemNum items | nodeRemove index itemNum items =>
    IsInt32 index ∧ IsInt32 itemNum ∧ IsInt32 items.length

/-- The numbers that are written are values of the type `int32_t`. -/
structure LogEntryHandler.Fits (entry : LogEntryHandler) : Prop where
  pageNum : IsInt32 entry.pageNum
  operation : entry.operation.Fits

section RoundTrip

variable {rest : List UInt8} {rc : RC} {x : Int}

theorem ok_bind {α β : Type} (a : α) (f : α → Except Stop β) : (Except.ok a >>= f) = f a := rfl

@[simp]
theorem length_writeInt32 (x : Int) :
  (writeInt32 x).length = 4
  := Bytes.length_encode 4 x

theorem decode_writeInt32 (h : IsInt32 x) : Bytes.decode (writeInt32 x) = x := by
  obtain ⟨hl, hu⟩ := h
  rw [int32Max] at hu
  apply Bytes.decode_encode <;> omega

theorem readBytes_append {front : List UInt8} {n : Nat} (h : front.length = n) :
  readBytes rc n (front ++ rest) = .ok (front, rest)
  := by
  rw [readBytes, Bytes.read_append h]

theorem readInt32_writeInt32 (h : IsInt32 x) :
  readInt32 rc (writeInt32 x ++ rest) = .ok (x, rest)
  := by
  rw [readInt32, readBytes_append (length_writeInt32 x)]
  change Except.ok (Bytes.decode (writeInt32 x), rest) = _
  rw [decode_writeInt32 h]

theorem readInt32_bind {β : Type} (h : IsInt32 x) (f : Int × List UInt8 → Except Stop β) :
  (readInt32 rc (writeInt32 x ++ rest) >>= f) = f (x, rest)
  := by
  rw [readInt32_writeInt32 h, ok_bind]

theorem readVector_bind {β : Type} (bytes : List UInt8)
    (f : List UInt8 × List UInt8 → Except Stop β) :
  (readVector bytes.length (bytes ++ rest) >>= f) = f (bytes, rest)
  := by
  rw [readVector, if_neg (by omega), Int.toNat_natCast, readBytes_append rfl, ok_bind]

theorem IndexFileHeader.decode_encode {header : IndexFileHeader} (h : header.Fits) :
  decode header.encode = header
  := by
  have hsplit : ∀ a b c d e f : List UInt8, a.length = 4 → b.length = 4 → c.length = 4 →
      d.length = 4 → e.length = 4 → f.length = 4 →
      decode (a ++ b ++ c ++ d ++ e ++ f) = ⟨Bytes.decode a, Bytes.decode b, Bytes.decode c,
        Bytes.decode d, Bytes.decode e, Bytes.decode f⟩ := by
    intro a b c d e f ha hb hc hd he hf
    simp [decode, List.drop_append, List.take_of_length_le, List.drop_eq_nil_of_le, *]
  rw [encode, hsplit _ _ _ _ _ _ (length_writeInt32 _) (length_writeInt32 _)
    (length_writeInt32 _) (length_writeInt32 _) (length_writeInt32 _) (length_writeInt32 _),
    decode_writeInt32 h.rootPage, decode_writeInt32 h.internalMaxSize,
    decode_writeInt32 h.leafMaxSize, decode_writeInt32 h.attrLength,
    decode_writeInt32 h.keyLength, decode_writeInt32 h.attrType]

theorem IndexFileHeader.length_encode (header : IndexFileHeader) : header.encode.length = 24 := by
  simp [encode]

theorem deserializeItems_append (operation : Int → Int → List UInt8 → LogOperation)
    {index itemNum : Int} {items : List UInt8} (hindex : IsInt32 index) (hnum : IsInt32 itemNum)
    (hbytes : IsInt32 items.length) :
  deserializeItems operation (writeInt32 index ++ writeInt32 itemNum ++ writeInt32 items.length
    ++ items ++ rest) = .ok (operation index itemNum items, rest)
  := by
  rw [deserializeItems, List.append_assoc, List.append_assoc, List.append_assoc]
  apply (readInt32_bind hindex _).trans
  apply (readInt32_bind hnum _).trans
  apply (readInt32_bind hbytes _).trans
  apply (readVector_bind items _).trans rfl

/-- The body of an entry is read back. -/
theorem deserializeBody_append {operation : LogOperation} (h : operation.Fits) :
  deserializeBody operation.type (operation.serializeBody ++ rest)
    = .ok (operation.forget, rest)
  := by
  cases operation with
  | initHeaderPage fileHeader =>
    rw [LogOperation.serializeBody, LogOperation.type, deserializeBody,
      readBytes_append fileHeader.length_encode, ok_bind]
    simp only [IndexFileHeader.decode_encode h]
    rfl
  | updateRootPage rootPageNum _ => apply (readInt32_bind h _).trans rfl
  | setParentPage parentPageNum _ => apply (readInt32_bind h _).trans rfl
  | leafInitEmpty => rfl
  | leafSetNextPage newPageNum _ => apply (readInt32_bind h _).trans rfl
  | internalInitEmpty => rfl
  | internalCreateNewRoot firstPageNum key pageNum =>
    rw [LogOperation.serializeBody, List.append_assoc, List.append_assoc, List.append_assoc]
    apply (readInt32_bind h.1 _).trans
    apply (readInt32_bind h.2.1 _).trans
    apply (readInt32_bind h.2.2 _).trans
    apply (readVector_bind key _).trans rfl
  | internalUpdateKey index key _ =>
    rw [LogOperation.serializeBody, List.append_assoc, List.append_assoc]
    apply (readInt32_bind h.1 _).trans
    apply (readInt32_bind h.2 _).trans
    apply (readVector_bind key _).trans rfl
  | nodeInsert index itemNum items => apply deserializeItems_append _ h.1 h.2.1 h.2.2
  | nodeRemove index itemNum items => apply deserializeItems_append _ h.1 h.2.1 h.2.2

theorem LogOperationType.ofIndex_index (type : LogOperationType) :
  ofIndex type.index = some type
  := by
  cases type <;> decide

theorem LogOperationType.isInt32_index (type : LogOperationType) : IsInt32 type.index := by
  cases type <;> decide

theorem LogEntryHandler.serialize_ne_nil (entry : LogEntryHandler) : entry.serialize ≠ [] := by
  apply List.ne_nil_of_length_pos
  rw [serialize, serializeHeader, List.length_append, List.length_append, length_writeInt32]
  omega

/-- An entry is read back, apart from what it holds for a rollback, if its page can be
fetched. -/
theorem LogEntryHandler.fromBuffer_serialize {entry : LogEntryHandler} (h : entry.Fits)
    {frameGetter : Int → RC} (hframe : frameGetter entry.pageNum = .success) :
  fromBuffer frameGetter (entry.serialize ++ rest)
    = .ok (⟨entry.pageNum, entry.operation.forget⟩, rest)
  := by
  rw [serialize, serializeHeader, List.append_assoc, List.append_assoc]
  apply (readInt32_bind entry.operation.type.isInt32_index _).trans
  simp only [LogOperationType.ofIndex_index]
  apply (readInt32_bind h.pageNum _).trans
  rw [if_neg (by simp [hframe]), deserializeBody_append h.operation]
  rfl

theorem LogEntryHandler.fromBuffer_unreadable {entry : LogEntryHandler} (h : entry.Fits)
    {frameGetter : Int → RC} (hframe : frameGetter entry.pageNum ≠ .success) :
  fromBuffer frameGetter (entry.serialize ++ rest)
    = .error (.returns (frameGetter entry.pageNum))
  := by
  rw [serialize, serializeHeader, List.append_assoc, List.append_assoc]
  apply (readInt32_bind entry.operation.type.isInt32_index _).trans
  simp only [LogOperationType.ofIndex_index]
  apply (readInt32_bind h.pageNum _).trans
  rw [if_pos hframe]

end RoundTrip

end MiniOB.BplusTree
