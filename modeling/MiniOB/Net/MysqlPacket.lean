import MiniOB.Net.MysqlStore

/-!
# Packets

The packets of `net/mysql_communicator.cpp` that a server sends with the state of a statement
and with the definitions of its columns. Every encoder makes a vector of some size first and
writes its fields one after another from the front; behind the last of them, the length of
the payload is put into the first three bytes.
-/

namespace MiniOB.Mysql

/-- The bytes of a text. -/
def bytesOf (text : String) : List UInt8 := text.toList.map fun c => UInt8.ofNat c.toNat

/-- The bytes of a text up to a zero. -/
def cString (s : List UInt8) : List UInt8 := s.takeWhile (· ≠ 0)

/-! ### Encoders -/

/-- Write fields behind what has been written into a vector of `size` bytes, unless they reach
beyond its end. -/
def writeFields (size : Nat) : List UInt8 → List (Option (List UInt8)) → Option (List UInt8)
  | packet, [] => some packet
  | _, none :: _ => none
  | packet, some field :: fields =>
    if packet.length + field.length ≤ size then writeFields size (packet ++ field) fields
    else none

/-- What the encoders have in common: the header of the packet, and fields behind it. -/
def encodePacket (size : Nat) (sequenceId : Int) (fields : List (Option (List UInt8))) :
    Option (List UInt8) :=
  (writeFields size [0, 0, 0] (some (storeInt1 sequenceId) :: fields)).map fun packet =>
    storeInt3 ((packet.length : Int) - 4) ++ packet.drop 3

/-- `CLIENT_PROTOCOL_41`. -/
def clientProtocol41 : UInt32 := 512

/-- `CLIENT_TRANSACTIONS`. -/
def clientTransactions : UInt32 := 8192

/-- `CLIENT_SESSION_TRACK`. -/
def clientSessionTrack : UInt32 := (1 : UInt32) <<< 23

/-- `CLIENT_DEPRECATE_EOF`. -/
def clientDeprecateEof : UInt32 := (1 : UInt32) <<< 24

/-- `CLIENT_OPTIONAL_RESULTSET_METADATA`. -/
def clientOptionalResultsetMetadata : UInt32 := (1 : UInt32) <<< 25

/-- A client has announced a capability. -/
def Has (capabilities flag : UInt32) : Prop := capabilities &&& flag ≠ 0

instance (capabilities flag : UInt32) : Decidable (Has capabilities flag) :=
  inferInstanceAs (Decidable (_ ≠ _))

/-- `OkPacket`. -/
structure OkPacket where
  sequenceId : Int
  header : Int := 0
  affectedRows : Int := 0
  lastInsertId : Int := 0
  statusFlags : Int := 0x22
  warnings : Int := 0
  info : List UInt8 := []

/-- `OkPacket::encode`. -/
def OkPacket.encode (packet : OkPacket) (capabilities : UInt32) : Option (List UInt8) :=
  encodePacket 100 packet.sequenceId <|
    [some (storeInt1 packet.header),
      some (storeLenencInt (UInt64.ofInt packet.affectedRows)),
      some (storeLenencInt (UInt64.ofInt packet.lastInsertId))]
    ++ (if Has capabilities clientProtocol41 then
        [some (storeInt2 packet.statusFlags), some (storeInt2 packet.warnings)]
      else if Has capabilities clientTransactions then [some (storeInt2 packet.statusFlags)]
      else [])
    ++ if Has capabilities clientSessionTrack then [storeLenencString packet.info]
      else [storeFixLengthString packet.info (int32 packet.info.length)]

/-- `ErrPacket`. -/
structure ErrPacket where
  sequenceId : Int
  header : Int := 0xFF
  errorCode : Int := 0
  sqlStateMarker : List UInt8 := bytesOf "#"
  sqlState : List UInt8 := bytesOf "HY000"
  errorMessage : List UInt8 := []

/-- `ErrPacket::encode`. -/
def ErrPacket.encode (packet : ErrPacket) (capabilities : UInt32) : Option (List UInt8) :=
  encodePacket 1000 packet.sequenceId <|
    [some (storeInt1 packet.header), some (storeInt2 packet.errorCode)]
    ++ (if Has capabilities clientProtocol41 then
        [storeFixLengthString packet.sqlStateMarker 1, storeFixLengthString packet.sqlState 5]
      else [])
    ++ [storeFixLengthString packet.errorMessage (int32 packet.errorMessage.length)]

/-- `EofPacket`. -/
structure EofPacket where
  sequenceId : Int
  header : Int := 0xFE
  warnings : Int := 0
  statusFlags : Int := 0x22

/-- `EofPacket::encode`. -/
def EofPacket.encode (packet : EofPacket) (capabilities : UInt32) : Option (List UInt8) :=
  encodePacket 10 packet.sequenceId <|
    some (storeInt1 packet.header)
    :: if Has capabilities clientProtocol41 then
        [some (storeInt2 packet.warnings), some (storeInt2 packet.statusFlags)]
      else []

/-! ### The state of a statement -/

/-- The return codes in the order of their numbers. -/
def rcNames : List String :=
  ["SUCCESS", "NULL_VALUE", "UNIMPLENMENT", "SQL_SYNTAX", "INTERNAL", "NOMEM", "NOTFOUND", "EMPTY",
    "FULL", "EXIST", "NOT_EXIST", "BUFFERPOOL_OPEN", "BUFFERPOOL_NOBUF",
    "BUFFERPOOL_INVALID_PAGE_NUM", "RECORD_OPENNED", "RECORD_INVALID_RID", "RECORD_INVALID_KEY",
    "RECORD_DUPLICATE_KEY", "RECORD_NOMEM", "RECORD_EOF", "RECORD_NOT_EXIST", "RECORD_INVISIBLE",
    "SCHEMA_DB_EXIST", "SCHEMA_DB_NOT_EXIST", "SCHEMA_DB_NOT_OPENED", "SCHEMA_TABLE_NOT_EXIST",
    "SCHEMA_TABLE_EXIST", "SCHEMA_FIELD_AMBIGUOUS", "SCHEMA_FIELD_NOT_EXIST",
    "SCHEMA_FIELD_MISSING", "SCHEMA_FIELD_TYPE_MISMATCH", "SCHEMA_FIELD_NON_NULL",
    "SCHEMA_INDEX_NAME_REPEAT", "SUBQUERY_MORE_THAN_ONE_ROW", "SUBQUERY_MORE_THAN_ONE_COL",
    "ALIAS_NOT_EXIST", "INSERT_VALUE_TOOLONG", "UPDATE_VALUE_TOO_LONG", "IOERR_READ", "IOERR_WRITE",
    "IOERR_ACCESS", "IOERR_OPEN", "IOERR_DELETE", "IOERR_CLOSE", "IOERR_SEEK", "IOERR_TOO_LONG",
    "IOERR_SYNC", "INCORRECT_DATE_VALUE", "INCORRECT_DATE_FORMAT", "INVALID_ARGUMENT",
    "INVALID_AGGREGATE", "INVALID_GROUPING", "INVALID_FUNCTION_NAME", "LOCKED_UNLOCK",
    "LOCKED_NEED_WAIT", "LOCKED_CONCURRENCY_CONFLICT", "FILE_EXIST", "FILE_NOT_EXIST", "FILE_NAME",
    "FILE_BOUND", "FILE_CREATE", "FILE_OPEN", "FILE_NOT_OPENED", "FILE_CLOSE", "FILE_REMOVE",
    "VARIABLE_NOT_EXISTS", "VARIABLE_NOT_VALID", "LOGBUF_FULL", "LOG_FILE_FULL",
    "LOG_ENTRY_INVALID"]

/-- `strrc`, for the number of a return code. -/
def strrc (returnCode : Nat) : List UInt8 := bytesOf ((rcNames[returnCode]?).getD "unkown")

/-- `SqlResult`, as far as `write_state` reads it. -/
structure SqlResult where
  returnCode : Nat
  stateString : List UInt8

/-- The text that `write_state` prints into its buffer of 2048 bytes. -/
def SqlResult.message (result : SqlResult) : List UInt8 :=
  let text := if result.stateString = [] then cString (strrc result.returnCode)
    else cString (strrc result.returnCode) ++ bytesOf " > " ++ cString result.stateString
  text.take (2048 - 1)

/-- `MysqlCommunicator::write_state`: the packet that is sent. -/
def writeState (capabilities : UInt32) (sequenceId : Int) (result : SqlResult) :
    Option (List UInt8) :=
  if result.returnCode = 0 then
    OkPacket.encode { sequenceId, info := result.message } capabilities
  else
    ErrPacket.encode
      { sequenceId, errorCode := result.returnCode, errorMessage := result.message } capabilities

/-! ### The definitions of columns -/

/-- `TupleCellSpec`, as far as it is sent. -/
structure TupleCellSpec where
  tableName : List UInt8
  aliasName : List UInt8

/-- The first packet of `MysqlCommunicator::send_column_definition`. -/
def encodeColumnCount (capabilities : UInt32) (sequenceId cellNum : Int) : Option (List UInt8) :=
  encodePacket 1024 sequenceId <|
    (if Has capabilities clientOptionalResultsetMetadata then [some (storeInt1 1)] else [])
    ++ [some (storeLenencInt (UInt64.ofInt cellNum))]

/-- The packet of `MysqlCommunicator::send_column_definition` for a column. -/
def TupleCellSpec.encode (spec : TupleCellSpec) (sequenceId : Int) : Option (List UInt8) :=
  encodePacket 1024 sequenceId
    [storeLenencString (bytesOf "def"), storeLenencString (bytesOf "sys"),
      storeLenencString spec.tableName, storeLenencString spec.tableName,
      storeLenencString spec.aliasName, storeLenencString spec.aliasName,
      some (storeLenencInt 0x0c), some (storeInt2 33), some (storeInt4 16384),
      some (storeInt1 253), some (storeInt2 0), some (storeInt1 0x1f), some (storeInt2 0)]

/-- The packets for columns, with the numbers from `sequenceId` on. -/
def encodeColumns (sequenceId : Int) : List TupleCellSpec → Option (List (List UInt8))
  | [] => some []
  | spec :: specs => do
    let packet ← spec.encode sequenceId
    let packets ← encodeColumns (sequenceId + 1) specs
    pure (packet :: packets)

/-- `MysqlCommunicator::send_column_definition`, to a writer that takes everything: the packets
that are sent. -/
def sendColumnDefinition (capabilities : UInt32) (sequenceId : Int)
    (tupleSchema : List TupleCellSpec) : Option (List (List UInt8)) :=
  if tupleSchema = [] then some []
  else do
    let count ← encodeColumnCount capabilities sequenceId tupleSchema.length
    let columns ← encodeColumns (sequenceId + 1) tupleSchema
    if Has capabilities clientDeprecateEof then pure (count :: columns)
    else
      let eof ← EofPacket.encode
        { sequenceId := sequenceId + 1 + tupleSchema.length, statusFlags := 0x02 } capabilities
      pure (count :: columns ++ [eof])

/-! ### What fits -/

section Fits

variable {size : Nat} {sequenceId : Int} {fields : List (Option (List UInt8))}
  {packet s : List UInt8}

/-- A packet with the length of its payload in its first three bytes. -/
def WellFormed (packet : List UInt8) : Prop :=
  4 ≤ packet.length ∧ Bytes.value (packet.take 3) = packet.length - 4

/-- A packet is encoded within its vector, with the right length. -/
def Encodes (result : Option (List UInt8)) : Prop :=
  ∃ packet, result = some packet ∧ WellFormed packet

/-- The bytes of fields, unless one of them cannot be written. -/
def joinFields : List (Option (List UInt8)) → Option (List UInt8)
  | [] => some []
  | field :: fields => do
    let bytes ← field
    let rest ← joinFields fields
    pure (bytes ++ rest)

theorem writeFields_eq_some_iff {result : List UInt8} (hsize : packet.length ≤ size) :
  writeFields size packet fields = some result
    ↔ ∃ bytes, joinFields fields = some bytes ∧ packet.length + bytes.length ≤ size
      ∧ result = packet ++ bytes
  := by
  induction fields generalizing packet with
  | nil => simp [writeFields, joinFields, hsize, eq_comm]
  | cons field fields ih =>
    cases field with
    | none => simp [writeFields, joinFields]
    | some field =>
      have hjoin : joinFields (some field :: fields) = (joinFields fields).map (field ++ ·) := by
        rw [joinFields, Option.bind_eq_bind, Option.bind_some]
        cases joinFields fields <;> rfl
      rw [writeFields, hjoin]
      split_ifs with hfits
      · rw [ih (by rw [List.length_append]; exact hfits)]
        cases joinFields fields with
        | none => simp
        | some rest => simp [Nat.add_assoc]
      · constructor
        · intro h
          cases h
        · rintro ⟨bytes, hbytes, hle, -⟩
          obtain ⟨rest, -, rfl⟩ := Option.map_eq_some_iff.mp hbytes
          rw [List.length_append] at hle
          omega

theorem wellFormed_of_payload {payload : List UInt8} (h : payload.length < 2 ^ 24) :
  WellFormed (storeInt3 payload.length ++ storeInt1 sequenceId ++ payload)
  := by
  have hthree : (storeInt3 payload.length).length = 3 := Bytes.length_encode 3 _
  have hone : (storeInt1 sequenceId).length = 1 := Bytes.length_encode 1 _
  have hlength : (storeInt3 payload.length ++ storeInt1 sequenceId ++ payload).length
      = payload.length + 4 := by
    rw [List.length_append, List.length_append, hthree, hone]
    omega
  refine ⟨by omega, ?_⟩
  rw [hlength, List.append_assoc, List.take_left' hthree, storeInt3, value_encode_nat]
  omega

/-- A packet is encoded exactly if there is room for its fields behind the header. -/
theorem encodePacket_iff (hthree : 3 ≤ size) (hsize : size < 2 ^ 24) :
  Encodes (encodePacket size sequenceId fields)
    ↔ ∃ payload, joinFields fields = some payload ∧ 4 + payload.length ≤ size
  := by
  have hone : (storeInt1 sequenceId).length = 1 := Bytes.length_encode 1 _
  have hjoin : joinFields (some (storeInt1 sequenceId) :: fields)
      = (joinFields fields).map (storeInt1 sequenceId ++ ·) := by
    rw [joinFields, Option.bind_eq_bind, Option.bind_some]
    cases joinFields fields <;> rfl
  rw [encodePacket]
  constructor
  · rintro ⟨packet, hpacket, -⟩
    obtain ⟨result, hresult, -⟩ := Option.map_eq_some_iff.mp hpacket
    obtain ⟨bytes, hbytes, hle, -⟩ := (writeFields_eq_some_iff (by exact hthree)).mp hresult
    rw [hjoin] at hbytes
    obtain ⟨payload, hpayload, rfl⟩ := Option.map_eq_some_iff.mp hbytes
    rw [List.length_append, hone] at hle
    exact ⟨payload, hpayload, by change 3 + _ ≤ size at hle; omega⟩
  · rintro ⟨payload, hpayload, hle⟩
    have hwrite : writeFields size [0, 0, 0] (some (storeInt1 sequenceId) :: fields)
        = some ([0, 0, 0] ++ (storeInt1 sequenceId ++ payload)) := by
      apply (writeFields_eq_some_iff (by exact hthree)).mpr
      refine ⟨_, by rw [hjoin, hpayload]; rfl, ?_, rfl⟩
      rw [List.length_append, hone]
      change 3 + _ ≤ size
      omega
    have hlength : (([0, 0, 0] ++ (storeInt1 sequenceId ++ payload) : List UInt8).length : Int) - 4
        = payload.length := by
      rw [List.length_append, List.length_append, hone]
      change ((3 + (1 + payload.length) : Nat) : Int) - 4 = _
      omega
    rw [hwrite, Option.map_some, hlength]
    change Encodes (some (storeInt3 payload.length ++ (storeInt1 sequenceId ++ payload)))
    rw [← List.append_assoc]
    exact ⟨_, rfl, wellFormed_of_payload (by omega)⟩

/-- Fields can be written and take `n` bytes. -/
def Takes (fields : List (Option (List UInt8))) (n : Nat) : Prop :=
  ∃ bytes, joinFields fields = some bytes ∧ bytes.length = n

theorem Takes.nil : Takes [] 0 := ⟨[], rfl, rfl⟩

theorem Takes.cons {bytes : List UInt8} {n : Nat} (h : Takes fields n) :
  Takes (some bytes :: fields) (bytes.length + n)
  := by
  obtain ⟨rest, hrest, rfl⟩ := h
  exact ⟨bytes ++ rest, by rw [joinFields, hrest]; rfl, List.length_append⟩

theorem Takes.append {fields' : List (Option (List UInt8))} {n n' : Nat} (h : Takes fields n)
    (h' : Takes fields' n') :
  Takes (fields ++ fields') (n + n')
  := by
  obtain ⟨bytes', hbytes', rfl⟩ := h'
  induction fields generalizing n with
  | nil =>
    obtain ⟨bytes, hbytes, rfl⟩ := h
    cases hbytes
    exact ⟨bytes', hbytes', (Nat.zero_add _).symm⟩
  | cons field fields ih =>
    obtain ⟨bytes, hbytes, rfl⟩ := h
    cases field with
    | none => cases hbytes
    | some field =>
      rw [joinFields, Option.bind_eq_bind, Option.bind_some] at hbytes
      obtain ⟨rest, hrest, heq⟩ := Option.bind_eq_some_iff.mp hbytes
      cases heq
      rw [List.length_append, Nat.add_assoc]
      exact (ih ⟨rest, hrest, rfl⟩).cons

/-- A packet is encoded exactly if there is room for the bytes of its fields. -/
theorem encodePacket_iff_of_takes {n : Nat} (hthree : 3 ≤ size) (hsize : size < 2 ^ 24)
    (h : Takes fields n) :
  Encodes (encodePacket size sequenceId fields) ↔ 4 + n ≤ size
  := by
  obtain ⟨bytes, hbytes, rfl⟩ := h
  rw [encodePacket_iff hthree hsize, hbytes]
  simp

/-- The number of bytes that `store_lenenc_int` writes. -/
def lenencSize (n : Nat) : Nat :=
  if n < 251 then 1 else if n < 2 ^ 17 then 3 else if n < 2 ^ 25 then 4 else 9

theorem length_storeLenencInt (value : UInt64) :
  (storeLenencInt value).length = lenencSize value.toNat
  := by
  have hsmall : (251 : UInt64).toNat = 251 := rfl
  have htwo : ((2 : UInt64) <<< 16).toNat = 2 ^ 17 := rfl
  have hthree : ((2 : UInt64) <<< 24).toNat = 2 ^ 25 := rfl
  rw [storeLenencInt, lenencSize]
  simp only [UInt64.lt_iff_toNat_lt, hsmall, htwo, hthree]
  split_ifs <;> simp

theorem storeFixLengthString_length (h : s.length < 2 ^ 31) :
  storeFixLengthString s (int32 s.length) = some s
  := by
  rw [int32_of_mem (by omega) (by rw [int32Max]; omega), storeFixLengthString, Int.toNat_natCast]
  split_ifs with hzero hpos
  · obtain rfl : s = [] := List.length_eq_zero_iff.mp (by omega)
    rfl
  · rw [List.take_length]
  · omega

/-- What a string without zeros takes. -/
theorem storeLenencString_length (hzero : 0 ∉ s) (h : s.length < 2 ^ 31) :
  ∃ bytes, storeLenencString s = some bytes ∧ bytes.length = lenencSize s.length + s.length
  := by
  have hint : int32 (strlen s) = s.length := by
    rw [(strlen_eq_iff s).mpr hzero]
    exact int32_of_mem (by omega) (by rw [int32Max]; omega)
  refine ⟨_, (storeLenencString_eq hint).1, ?_⟩
  have hcast : (UInt64.ofNat s.length).toNat = s.length :=
    UInt64.toNat_ofNat_of_lt' (h.trans (by decide))
  rw [List.length_append, length_storeLenencInt, hcast, List.take_length]

end Fits

/-! ### The packets that fit -/

section Packets

variable (capabilities : UInt32) (sequenceId : Int) (result : SqlResult) (spec : TupleCellSpec)

/-- The length of the text that `write_state` sends. -/
def SqlResult.messageLength (result : SqlResult) : Nat :=
  min 2047 (strlen (strrc result.returnCode)
    + if result.stateString = [] then 0 else 3 + strlen result.stateString)

/-- The bytes that a text of `n` bytes takes in a packet of the state: an OK packet or, behind
an error, an error packet. -/
def stateLength (capabilities : UInt32) (returnCode n : Nat) : Nat :=
  if returnCode = 0 then
    7 + (if Has capabilities clientProtocol41 then 4
        else if Has capabilities clientTransactions then 2 else 0)
      + if Has capabilities clientSessionTrack then lenencSize n + n else n
  else 7 + (if Has capabilities clientProtocol41 then 6 else 0) + n

/-- The room in a packet of the state. -/
def stateRoom (returnCode : Nat) : Nat := if returnCode = 0 then 100 else 1000

theorem length_message : result.message.length = result.messageLength := by
  rw [SqlResult.message, SqlResult.messageLength, List.length_take]
  split_ifs
  · rfl
  · rw [List.length_append, List.length_append, Nat.add_assoc]
    rfl

theorem zero_notMem_cString (s : List UInt8) : 0 ∉ cString s := by
  intro hmem
  have hzero := List.mem_takeWhile_imp hmem
  simp at hzero

theorem zero_notMem_message : 0 ∉ result.message := by
  intro hmem
  have htext := List.mem_of_mem_take hmem
  split_ifs at htext
  · exact zero_notMem_cString _ htext
  · obtain htext | hstate := List.mem_append.mp htext
    · obtain hname | harrow := List.mem_append.mp htext
      · exact zero_notMem_cString _ hname
      · exact absurd harrow (by decide)
    · exact zero_notMem_cString _ hstate

/-- An OK packet with a text without zeros. -/
theorem OkPacket.encode_iff (packet : OkPacket) (hzero : 0 ∉ packet.info)
    (hlt : packet.info.length < 2 ^ 31) :
  Encodes (packet.encode capabilities)
    ↔ 4 + (1 + (lenencSize (UInt64.ofInt packet.affectedRows).toNat
          + lenencSize (UInt64.ofInt packet.lastInsertId).toNat)
        + (if Has capabilities clientProtocol41 then 4
          else if Has capabilities clientTransactions then 2 else 0)
        + if Has capabilities clientSessionTrack then
            lenencSize packet.info.length + packet.info.length
          else packet.info.length) ≤ 100
  := by
  have hcounts : Takes [some (storeInt1 packet.header),
      some (storeLenencInt (UInt64.ofInt packet.affectedRows)),
      some (storeLenencInt (UInt64.ofInt packet.lastInsertId))]
      (1 + (lenencSize (UInt64.ofInt packet.affectedRows).toNat
        + lenencSize (UInt64.ofInt packet.lastInsertId).toNat)) := by
    rw [← length_storeLenencInt, ← length_storeLenencInt]
    exact Takes.nil.cons.cons.cons
  have hstatus : Takes (if Has capabilities clientProtocol41 then
        [some (storeInt2 packet.statusFlags), some (storeInt2 packet.warnings)]
      else if Has capabilities clientTransactions then [some (storeInt2 packet.statusFlags)]
      else [])
      (if Has capabilities clientProtocol41 then 4
        else if Has capabilities clientTransactions then 2 else 0) := by
    split_ifs
    · exact Takes.nil.cons.cons
    · exact Takes.nil.cons
    · exact Takes.nil
  have hinfo : Takes (if Has capabilities clientSessionTrack then [storeLenencString packet.info]
      else [storeFixLengthString packet.info (int32 packet.info.length)])
      (if Has capabilities clientSessionTrack then
        lenencSize packet.info.length + packet.info.length
      else packet.info.length) := by
    obtain ⟨bytes, hstring, hbytes⟩ := storeLenencString_length hzero hlt
    split_ifs
    · rw [hstring, ← hbytes]
      exact Takes.nil.cons
    · rw [storeFixLengthString_length hlt]
      exact Takes.nil.cons
  exact encodePacket_iff_of_takes (by decide) (by decide) ((hcounts.append hstatus).append hinfo)

/-- An error packet with the marker and the state that it is made with. -/
theorem ErrPacket.encode_iff (packet : ErrPacket) (hlt : packet.errorMessage.length < 2 ^ 31)
    (hmarker : packet.sqlStateMarker = bytesOf "#") (hstate : packet.sqlState = bytesOf "HY000") :
  Encodes (packet.encode capabilities)
    ↔ 4 + (3 + (if Has capabilities clientProtocol41 then 6 else 0)
        + packet.errorMessage.length) ≤ 1000
  := by
  have hcode : Takes [some (storeInt1 packet.header), some (storeInt2 packet.errorCode)] 3 :=
    Takes.nil.cons.cons
  have hsql : Takes (if Has capabilities clientProtocol41 then
        [storeFixLengthString packet.sqlStateMarker 1, storeFixLengthString packet.sqlState 5]
      else [])
      (if Has capabilities clientProtocol41 then 6 else 0) := by
    rw [hmarker, hstate]
    split_ifs
    · exact Takes.nil.cons.cons
    · exact Takes.nil
  have hmessage : Takes [storeFixLengthString packet.errorMessage
      (int32 packet.errorMessage.length)] packet.errorMessage.length := by
    rw [storeFixLengthString_length hlt]
    exact Takes.nil.cons
  exact encodePacket_iff_of_takes (by decide) (by decide) ((hcode.append hsql).append hmessage)

/-- The state of a statement is sent as it should be exactly if its text leaves enough room. -/
theorem writeState_iff :
  Encodes (writeState capabilities sequenceId result)
    ↔ stateLength capabilities result.returnCode result.messageLength
      ≤ stateRoom result.returnCode
  := by
  have hlength := length_message result
  have hlt : result.message.length < 2 ^ 31 := by
    rw [hlength, SqlResult.messageLength]
    omega
  rw [writeState, stateLength, stateRoom, ← hlength]
  by_cases hsuccess : result.returnCode = 0
  · have h := OkPacket.encode_iff capabilities { sequenceId, info := result.message }
      (zero_notMem_message result) hlt
    have hzero : lenencSize (UInt64.ofInt 0).toNat = 1 := rfl
    dsimp only at h
    rw [hzero] at h
    rw [if_pos hsuccess, if_pos hsuccess, if_pos hsuccess, h]
    omega
  · have h := ErrPacket.encode_iff capabilities
      { sequenceId, errorCode := result.returnCode, errorMessage := result.message } hlt rfl rfl
    dsimp only at h
    rw [if_neg hsuccess, if_neg hsuccess, if_neg hsuccess, h]
    omega

theorem encodeColumnCount_encodes (cellNum : Int) :
  Encodes (encodeColumnCount capabilities sequenceId cellNum)
  := by
  have hflag : Takes (if Has capabilities clientOptionalResultsetMetadata then
      [some (storeInt1 1)] else [])
      (if Has capabilities clientOptionalResultsetMetadata then 1 else 0) := by
    split_ifs
    · exact Takes.nil.cons
    · exact Takes.nil
  have hcount : Takes [some (storeLenencInt (UInt64.ofInt cellNum))]
      (lenencSize (UInt64.ofInt cellNum).toNat) := by
    rw [← length_storeLenencInt]
    exact Takes.nil.cons
  have hsize : lenencSize (UInt64.ofInt cellNum).toNat ≤ 9 := by
    rw [lenencSize]
    split_ifs <;> omega
  apply (encodePacket_iff_of_takes (by decide) (by decide) (hflag.append hcount)).mpr
  split_ifs <;> omega

theorem EofPacket.encode_encodes (packet : EofPacket) : Encodes (packet.encode capabilities) := by
  have hstatus : Takes (if Has capabilities clientProtocol41 then
        [some (storeInt2 packet.warnings), some (storeInt2 packet.statusFlags)]
      else [])
      (if Has capabilities clientProtocol41 then 4 else 0) := by
    split_ifs
    · exact Takes.nil.cons.cons
    · exact Takes.nil
  apply (encodePacket_iff_of_takes (by decide) (by decide) hstatus.cons).mpr
  have hone : (storeInt1 packet.header).length = 1 := Bytes.length_encode 1 _
  rw [hone]
  split_ifs <;> omega

/-- The length of a string as an `int`. -/
def intLength (s : List UInt8) : Int := int32 (strlen s)

/-- The bytes that `store_lenenc_string` writes of a string whose length is an `int`. -/
def stringSize (s : List UInt8) : Nat := lenencSize (intLength s).toNat + (intLength s).toNat

/-- The names of a column leave enough room in its packet. -/
structure TupleCellSpec.Fits (spec : TupleCellSpec) : Prop where
  tableName : 0 ≤ intLength spec.tableName
  aliasName : 0 ≤ intLength spec.aliasName
  room : 25 + 2 * stringSize spec.tableName + 2 * stringSize spec.aliasName ≤ 1024

theorem storeLenencString_size {s : List UInt8} (h : 0 ≤ intLength s) :
  ∃ bytes, storeLenencString s = some bytes ∧ bytes.length = stringSize s
  := by
  obtain ⟨len, hlen⟩ := Int.eq_ofNat_of_zero_le h
  obtain ⟨hstore, hle⟩ := storeLenencString_eq hlen
  have hlt : int32 (strlen s) < 2 ^ 31 := Int.bmod_lt (by decide)
  have hbound : len < 2 ^ 64 := by
    change int32 (strlen s) = len at hlen
    omega
  have hcast : (UInt64.ofNat len).toNat = len := UInt64.toNat_ofNat_of_lt' hbound
  refine ⟨_, hstore, ?_⟩
  rw [List.length_append, length_storeLenencInt, hcast, List.length_take, Nat.min_eq_left hle,
    stringSize, hlen, Int.toNat_natCast]

theorem joinFields_of_none {fields : List (Option (List UInt8))} (h : none ∈ fields) :
  joinFields fields = none
  := by
  induction fields with
  | nil => cases h
  | cons field fields ih =>
    cases field with
    | none => rfl
    | some bytes =>
      obtain heq | hmem := List.mem_cons.mp h
      · cases heq
      · rw [joinFields, ih hmem]
        rfl

theorem not_encodes_of_none {size : Nat} {fields : List (Option (List UInt8))} (hthree : 3 ≤ size)
    (hsize : size < 2 ^ 24) (h : none ∈ fields) :
  ¬ Encodes (encodePacket size sequenceId fields)
  := by
  rw [encodePacket_iff hthree hsize, joinFields_of_none h]
  rintro ⟨payload, hpayload, -⟩
  cases hpayload

theorem TupleCellSpec.encode_iff : Encodes (spec.encode sequenceId) ↔ spec.Fits := by
  obtain htable | htable := lt_or_ge (intLength spec.tableName) 0
  · apply iff_of_false
    · apply not_encodes_of_none _ (by decide) (by decide)
      rw [storeLenencString_eq_none htable]
      simp
    · exact fun h => absurd h.tableName (not_le.mpr htable)
  obtain halias | halias := lt_or_ge (intLength spec.aliasName) 0
  · apply iff_of_false
    · apply not_encodes_of_none _ (by decide) (by decide)
      rw [storeLenencString_eq_none halias]
      simp
    · exact fun h => absurd h.aliasName (not_le.mpr halias)
  obtain ⟨table, hstore, hlength⟩ := storeLenencString_size htable
  obtain ⟨name, hstore', hlength'⟩ := storeLenencString_size halias
  have hdef : bytesOf "def" = [100, 101, 102] := by rfl
  have hsys : bytesOf "sys" = [115, 121, 115] := by rfl
  have hdef' : storeLenencString [100, 101, 102] = some [3, 100, 101, 102] := by decide
  have hsys' : storeLenencString [115, 121, 115] = some [3, 115, 121, 115] := by decide
  have hcatalog : Takes [storeLenencString (bytesOf "def"), storeLenencString (bytesOf "sys")] 8 := by
    rw [hdef, hsys, hdef', hsys']
    exact Takes.nil.cons.cons
  have hnames : Takes
      [storeLenencString spec.tableName, storeLenencString spec.tableName,
        storeLenencString spec.aliasName, storeLenencString spec.aliasName]
      (table.length + (table.length + (name.length + (name.length + 0)))) := by
    rw [hstore, hstore']
    exact Takes.nil.cons.cons.cons.cons
  have hfixed : Takes
      [some (storeLenencInt 0x0c), some (storeInt2 33), some (storeInt4 16384),
        some (storeInt1 253), some (storeInt2 0), some (storeInt1 0x1f), some (storeInt2 0)] 13 :=
    ⟨_, rfl, rfl⟩
  have htakes := hcatalog.append (hnames.append hfixed)
  refine (encodePacket_iff_of_takes (by decide) (by decide) htakes).trans ?_
  constructor
  · intro h
    exact ⟨htable, halias, by omega⟩
  · intro h
    have hroom := h.room
    omega

theorem encodeColumns_iff (tupleSchema : List TupleCellSpec) :
  (∃ packets, encodeColumns sequenceId tupleSchema = some packets
      ∧ ∀ packet ∈ packets, WellFormed packet)
    ↔ ∀ spec ∈ tupleSchema, spec.Fits
  := by
  induction tupleSchema generalizing sequenceId with
  | nil => simp [encodeColumns]
  | cons spec specs ih =>
    rw [List.forall_mem_cons, ← ih (sequenceId + 1), ← spec.encode_iff sequenceId, encodeColumns]
    constructor
    · rintro ⟨packets, hpackets, hall⟩
      obtain ⟨packet, hpacket, hrest⟩ := Option.bind_eq_some_iff.mp hpackets
      obtain ⟨packets', hpackets', heq⟩ := Option.bind_eq_some_iff.mp hrest
      cases heq
      obtain ⟨hfirst, hothers⟩ := List.forall_mem_cons.mp hall
      exact ⟨⟨packet, hpacket, hfirst⟩, packets', hpackets', hothers⟩
    · rintro ⟨⟨packet, hpacket, hfirst⟩, packets', hpackets', hothers⟩
      refine ⟨packet :: packets', ?_, List.forall_mem_cons.mpr ⟨hfirst, hothers⟩⟩
      rw [hpacket, hpackets']
      rfl

/-- The packets for the columns are sent as they should be exactly if the names of every column
leave enough room. -/
theorem sendColumnDefinition_iff (tupleSchema : List TupleCellSpec) :
  (∃ packets, sendColumnDefinition capabilities sequenceId tupleSchema = some packets
      ∧ ∀ packet ∈ packets, WellFormed packet)
    ↔ ∀ spec ∈ tupleSchema, spec.Fits
  := by
  rw [← encodeColumns_iff (sequenceId + 1), sendColumnDefinition]
  split_ifs with hempty heof
  · subst hempty
    simp [encodeColumns]
  · obtain ⟨count, hcount, hwell⟩ :=
      encodeColumnCount_encodes capabilities sequenceId tupleSchema.length
    rw [hcount, Option.bind_eq_bind, Option.bind_some]
    constructor
    · rintro ⟨packets, hpackets, hall⟩
      obtain ⟨columns, hcolumns, heq⟩ := Option.bind_eq_some_iff.mp hpackets
      cases heq
      exact ⟨columns, hcolumns, (List.forall_mem_cons.mp hall).2⟩
    · rintro ⟨columns, hcolumns, hall⟩
      refine ⟨count :: columns, ?_, List.forall_mem_cons.mpr ⟨hwell, hall⟩⟩
      rw [hcolumns]
      rfl
  · obtain ⟨count, hcount, hwell⟩ :=
      encodeColumnCount_encodes capabilities sequenceId tupleSchema.length
    obtain ⟨eof, heof, hlast⟩ := EofPacket.encode_encodes capabilities
      { sequenceId := sequenceId + 1 + tupleSchema.length, statusFlags := 0x02 }
    rw [hcount, heof, Option.bind_eq_bind, Option.bind_some]
    constructor
    · rintro ⟨packets, hpackets, hall⟩
      obtain ⟨columns, hcolumns, heq⟩ := Option.bind_eq_some_iff.mp hpackets
      cases heq
      refine ⟨columns, hcolumns, ?_⟩
      intro packet hmem
      exact hall packet (by simp [hmem])
    · rintro ⟨columns, hcolumns, hall⟩
      refine ⟨count :: columns ++ [eof], ?_, ?_⟩
      · rw [hcolumns]
        rfl
      · intro packet hmem
        obtain hmem | hmem := List.mem_append.mp hmem
        · exact List.forall_mem_cons.mpr ⟨hwell, hall⟩ packet hmem
        · rw [List.mem_singleton.mp hmem]
          exact hlast

/-- The packets with the state of a statement and those with the definitions of its columns
stay within their vectors, with the right lengths, exactly if the texts leave enough room. -/
theorem packets_fit_iff (capabilities : UInt32) (sequenceId : Int) (result : SqlResult)
    (tupleSchema : List TupleCellSpec) :
  (Encodes (writeState capabilities sequenceId result)
      ↔ stateLength capabilities result.returnCode result.messageLength
        ≤ stateRoom result.returnCode)
    ∧ ((∃ packets, sendColumnDefinition capabilities sequenceId tupleSchema = some packets
        ∧ ∀ packet ∈ packets, WellFormed packet)
        ↔ ∀ spec ∈ tupleSchema, spec.Fits)
  := ⟨writeState_iff capabilities sequenceId result,
    sendColumnDefinition_iff capabilities sequenceId tupleSchema⟩

end Packets

/-- A state of ninety bytes behind `SUCCESS` does not fit. -/
theorem packets_not_fit :
  ¬ ∀ capabilities sequenceId result, Encodes (writeState capabilities sequenceId result)
  := by
  intro h
  have hfits := (writeState_iff 512 0 ⟨0, List.replicate 90 97⟩).mp (h 512 0 _)
  exact absurd hfits (by decide)

end MiniOB.Mysql
