import MiniOB.Sql.TableMeta
import MiniOB.Sql.Transport
import MiniOB.Table.UniqueIndex

/-!
# The metadata of a table as JSON

`TableMeta::serialize` and `TableMeta::deserialize` of `storage/table/table_meta.cpp`, with the
metadata of the indexes. The number of the system fields and the size of the records are not
written but found again from the fields, which are sorted by their offsets. Names are texts; a
C string ends at the first NUL.
-/

namespace MiniOB.Sql

open Json (Document)
open Table (IndexMeta)

/-! ### Texts -/

/-- The bytes of a text. -/
def utf8 (s : String) : Str := s.toByteArray.data.toList.map UInt8.toBitVec

/-- The text of bytes, if there is one. -/
def ofUtf8 (bytes : Str) : Option String :=
  String.fromUTF8? ⟨(bytes.map UInt8.ofBitVec).toArray⟩

/-- The text that `c_str` points at. -/
def cText (s : String) : String := String.ofList (s.toList.takeWhile (· ≠ '\x00'))

theorem ofUtf8_utf8 (s : String) : ofUtf8 (utf8 s) = some s := by
  have hsame : UInt8.ofBitVec ∘ UInt8.toBitVec = id := rfl
  have hbytes : (⟨((utf8 s).map UInt8.ofBitVec).toArray⟩ : ByteArray) = s.toByteArray := by
    rw [utf8, List.map_map, hsame, List.map_id]
  rw [ofUtf8, hbytes, String.fromUTF8?, dif_pos s.isValidUTF8]
  rfl

theorem cText_cText (s : String) : cText (cText s) = cText s := by
  rw [cText, cText, String.toList_ofList, List.takeWhile_idem]

/-! ### Tables -/

/-- `TableMeta` with the metadata of the indexes. -/
structure IndexedTableMeta extends TableMeta where
  indexes : List IndexMeta
  deriving DecidableEq, Repr

namespace IndexedTableMeta

/-- A `TableMeta` before it is initialised. -/
def empty : IndexedTableMeta where
  tableId := -1
  name := ""
  fields := []
  sysFieldNum := 0
  recordSize := 0
  indexes := []

/-- `TableMeta::init`, which is given its names as C strings. -/
def init (tableId : BitVec 32) (name : String) (trxFields : List FieldMeta)
    (attributes : List AttrInfo) : Except RC IndexedTableMeta :=
  (TableMeta.init tableId.toInt (cText name)
    (trxFields.map fun field => { field with name := cText field.name })
    (attributes.map fun attr => { attr with name := cText attr.name })).map
      fun table => { table with indexes := [] }

/-- `TableMeta::add_index`. -/
def addIndex (table : IndexedTableMeta) (index : IndexMeta) : IndexedTableMeta :=
  { table with indexes := table.indexes ++ [index] }

/-- `TableMeta::field`. -/
def field (table : IndexedTableMeta) (name : String) : Option FieldMeta :=
  table.fields.find? fun field => cText field.name = name

/-- `TableMeta::trx_fields`. -/
def trxFields (table : IndexedTableMeta) : List FieldMeta := table.fields.take table.sysFieldNum

end IndexedTableMeta

/-- What `TableMeta::init` builds, and what it becomes as indexes over its fields are added. -/
inductive Built : IndexedTableMeta → Prop where
  | init {tableId : BitVec 32} {name : String} {trxFields : List FieldMeta}
      {attributes : List AttrInfo} {table : IndexedTableMeta} :
    IndexedTableMeta.init tableId name trxFields attributes = .ok table → Built table
  | addIndex {table : IndexedTableMeta} {field : FieldMeta} {name : String} {unique : Bool}
      {index : IndexMeta} : Built table → field ∈ table.fields →
    IndexMeta.init (cText name) (cText field.name) unique = .ok index → Built (table.addIndex index)

/-! ### Documents -/

/-- What writes a document to a stream, and `Json::parseFromStream`. -/
structure JsonStream where
  write : Document → Str
  parse : Str → Option Document
  /-- What is written is parsed back. -/
  parse_write : ∀ document, parse (write document) = some document

/-- A line for each element and each member. -/
def JsonStream.styled : JsonStream := ⟨Json.print, Json.parse, Json.parse_print⟩

/-- `asInt` of what `isInt`. -/
def intOf : Document → Option Int
  | .int n => if -2 ^ 31 ≤ n ∧ n ≤ int32Max then some n else none
  | _ => none

/-- `asString` of what `isString`. -/
def stringOf : Document → Option Str
  | .string s => some s
  | _ => none

/-- `asBool` of what `isBool`. -/
def boolOf : Document → Option Bool
  | .bool b => some b
  | _ => none

/-- The elements of what `isArray`. -/
def arrayOf : Document → Option (List Document)
  | .array elements => some elements
  | _ => none

/-- `empty`. -/
def isEmpty : Document → Bool
  | .null => true
  | .array elements => elements.isEmpty
  | .object members => members.isEmpty
  | _ => false

/-- The text of what `isString`, as `asCString` points at it. -/
def textOf (document : Document) : Option String :=
  ((stringOf document).bind ofUtf8).map cText

/-- `"table_id"`. -/
def tableIdKey : Str := [116, 97, 98, 108, 101, 95, 105, 100]

/-- `"table_name"`. -/
def tableNameKey : Str := [116, 97, 98, 108, 101, 95, 110, 97, 109, 101]

/-- `"fields"`. -/
def fieldsKey : Str := [102, 105, 101, 108, 100, 115]

/-- `"indexes"`. -/
def indexesKey : Str := [105, 110, 100, 101, 120, 101, 115]

/-- `"name"`. -/
def nameKey : Str := [110, 97, 109, 101]

/-- `"offset"`. -/
def offsetKey : Str := [111, 102, 102, 115, 101, 116]

/-- `"len"`. -/
def lenKey : Str := [108, 101, 110]

/-- `"visible"`. -/
def visibleKey : Str := [118, 105, 115, 105, 98, 108, 101]

/-- `"nullable"`. -/
def nullableKey : Str := [110, 117, 108, 108, 97, 98, 108, 101]

/-- `"field_name"`. -/
def fieldNameKey : Str := [102, 105, 101, 108, 100, 95, 110, 97, 109, 101]

/-- `"unique"`. -/
def uniqueKey : Str := [117, 110, 105, 113, 117, 101]

/-- `attr_type_to_string`. -/
def attrTypeToString : AttrType → String
  | .undefined => "UNDEFINED"
  | .chars => "CHARS"
  | .ints => "INTS"
  | .floats => "FLOATS"
  | .booleans => "BOOLEANS"
  | .dates => "DATES"
  | .texts => "TEXTS"
  | .nulls => "NULLS"

/-- `attr_type_from_string`. -/
def attrTypeFromString (s : String) : AttrType :=
  if s = "UNDEFINED" then .undefined
  else if s = "CHARS" then .chars
  else if s = "INTS" then .ints
  else if s = "FLOATS" then .floats
  else if s = "BOOLEANS" then .booleans
  else if s = "DATES" then .dates
  else if s = "TEXTS" then .texts
  else if s = "NULLS" then .nulls
  else .undefined

/-- `FieldMeta::to_json`. An object keeps its members in the order of their names. -/
def FieldMeta.toJson (field : FieldMeta) : Document :=
  .object [
    (lenKey, .int field.len),
    (nameKey, .string (utf8 field.name)),
    (nullableKey, .bool field.nullable),
    (offsetKey, .int field.offset),
    (typeKey, .string (utf8 (attrTypeToString field.type))),
    (visibleKey, .bool field.visible)]

/-- `FieldMeta::from_json`, which has no field where it fails. -/
def FieldMeta.fromJson (json : Document) : Option FieldMeta := do
  let name ← (member nameKey json).bind textOf
  let typeName ← (member typeKey json).bind textOf
  let offset ← (member offsetKey json).bind intOf
  let len ← (member lenKey json).bind intOf
  let visible ← (member visibleKey json).bind boolOf
  let nullable ← (member nullableKey json).bind boolOf
  let type := attrTypeFromString typeName
  if type = .undefined then none
  else (FieldMeta.init name type offset len visible nullable).toOption

/-- `IndexMeta::to_json`. -/
def indexToJson (index : IndexMeta) : Document :=
  .object [
    (fieldNameKey, .string (utf8 index.field)),
    (nameKey, .string (utf8 index.name)),
    (uniqueKey, .bool index.unique)]

/-- `IndexMeta::from_json`, which has no index where it fails or throws. -/
def indexFromJson (table : IndexedTableMeta) (json : Document) : Option IndexMeta := do
  let name ← (member nameKey json).bind textOf
  let fieldName ← (member fieldNameKey json).bind textOf
  let unique ← (member uniqueKey json).bind boolOf
  let field ← table.field fieldName
  (IndexMeta.init name (cText field.name) unique).toOption

namespace IndexedTableMeta

variable (J : JsonStream)

/-- `TableMeta::serialize`. Appending makes an array of a document, which is null at first. -/
def serialize (table : IndexedTableMeta) : Str :=
  J.write (.object [
    (fieldsKey, if table.fields = [] then .null else .array (table.fields.map FieldMeta.toJson)),
    (indexesKey, if table.indexes = [] then .null else .array (table.indexes.map indexToJson)),
    (tableIdKey, .int table.tableId),
    (tableNameKey, .string (utf8 table.name))])

/-- `TableMeta::deserialize`, which has no result where it fails or throws. The system fields
are appended to those that are there, and the indexes are kept if there are none. -/
def deserialize (self : IndexedTableMeta) (text : Str) : Option IndexedTableMeta := do
  let root ← J.parse text
  let tableId ← (member tableIdKey root).bind intOf
  let tableName ← (member tableNameKey root).bind fun value => (stringOf value).bind ofUtf8
  let fieldValues ← (member fieldsKey root).bind arrayOf
  let fields ← fieldValues.mapM FieldMeta.fromJson
  let fields := fields.mergeSort fun f1 f2 => f1.offset ≤ f2.offset
  let front ← fields.head?
  let back ← fields.getLast?
  let table : IndexedTableMeta := { self with
    tableId
    name := tableName
    fields
    recordSize := int32 (int32 (back.offset + back.len) - front.offset)
    sysFieldNum := self.sysFieldNum + (fields.filter fun field => !field.visible).length }
  let indexesValue ← member indexesKey root
  if isEmpty indexesValue then return table
  else do
    let indexValues ← arrayOf indexesValue
    let indexes ← indexValues.mapM (indexFromJson table)
    return { table with indexes }

end IndexedTableMeta

/-! ### Where the fields lie -/

/-- The fields lie one behind the other from `start` on. The end of the last one may leave the
integers. -/
def Placed : Int → List FieldMeta → Int → Prop
  | start, [], stop => start = stop
  | start, field :: fields, stop =>
    (field.offset : Int) = start ∧ Placed (int32 (start + field.len)) fields stop

/-- What `FieldMeta::init` makes of a C string and of a place among the integers. -/
structure FieldMeta.Valid (field : FieldMeta) : Prop where
  notBlank : isBlank field.name = false
  name : cText field.name = field.name
  type : field.type ≠ .undefined
  len_pos : 0 < field.len
  len_le : (field.len : Int) ≤ int32Max
  offset_le : (field.offset : Int) ≤ int32Max

theorem int32_le_max (x : Int) : int32 x ≤ int32Max := by
  have h := @Int.bmod_lt x (2 ^ 32) (by decide)
  rw [← int32] at h
  rw [int32Max]
  omega

section Placed

variable {start stop : Int} {fields fields' : List FieldMeta} {field : FieldMeta}

theorem Placed.append {middle : Int} (h : Placed start fields middle)
    (h' : Placed middle fields' stop) :
  Placed start (fields ++ fields') stop
  := by
  induction fields generalizing start with
  | nil =>
    obtain rfl : start = middle := h
    exact h'
  | cons field fields ih => exact ⟨h.1, ih h.2⟩

/-- The next field lies behind a field. -/
theorem Placed.next (h : Placed (int32 (field.offset + field.len)) fields stop)
    (hvalid : field.Valid) (hne : fields ≠ []) :
  int32 (field.offset + field.len) = field.offset + field.len
  := by
  obtain ⟨field', fields, rfl⟩ := List.exists_cons_of_ne_nil hne
  have hlen : int32 field.len = field.len := int32_of_mem (by omega) hvalid.len_le
  have hoffset := hvalid.offset_le
  have hpos := hvalid.len_pos
  rw [int32Max] at hoffset
  obtain ⟨hadd, -⟩ | ⟨hneg, -⟩ := @int32_add field.offset field.len
    (Int.natCast_nonneg _) (by omega) (by omega)
  · rw [hadd, hlen]
  · -- an offset is not negative
    have hfirst := h.1
    omega

theorem Placed.start_le (h : Placed start fields stop) (hvalid : ∀ field ∈ fields, field.Valid) :
  ∀ field ∈ fields, start ≤ field.offset
  := by
  induction fields generalizing start with
  | nil => simp
  | cons field fields ih =>
    obtain ⟨rfl, hrest⟩ := h
    intro field' hmem
    obtain rfl | hmem := List.mem_cons.mp hmem
    · exact le_rfl
    · have hle := ih hrest (fun f hf => hvalid f (List.mem_cons_of_mem _ hf)) field' hmem
      rw [hrest.next (hvalid field List.mem_cons_self) (List.ne_nil_of_mem hmem)] at hle
      omega

/-- The offsets increase from field to field. -/
theorem Placed.pairwise (h : Placed start fields stop) (hvalid : ∀ field ∈ fields, field.Valid) :
  fields.Pairwise fun f1 f2 => f1.offset < f2.offset
  := by
  induction fields generalizing start with
  | nil => exact List.Pairwise.nil
  | cons field fields ih =>
    obtain ⟨rfl, hrest⟩ := h
    have hvalid' := fun f hf => hvalid f (List.mem_cons_of_mem field hf)
    refine List.Pairwise.cons ?_ (ih hrest hvalid')
    intro field' hmem
    have hfield := hvalid field List.mem_cons_self
    have hle := hrest.start_le hvalid' field' hmem
    rw [hrest.next hfield (List.ne_nil_of_mem hmem)] at hle
    have hpos := hfield.len_pos
    omega

theorem Placed.stop_le (h : Placed start fields stop) (hstart : start ≤ int32Max) :
  stop ≤ int32Max
  := by
  induction fields generalizing start with
  | nil =>
    obtain rfl : start = stop := h
    exact hstart
  | cons field fields ih => exact ih h.2 (int32_le_max _)

theorem Placed.stop_eq (h : Placed start fields stop) {back : FieldMeta}
    (hback : fields.getLast? = some back) :
  stop = int32 (back.offset + back.len)
  := by
  induction fields generalizing start with
  | nil => cases hback
  | cons field fields ih =>
    obtain ⟨rfl, hrest⟩ := h
    cases fields with
    | nil =>
      cases hback
      exact hrest.symm
    | cons field' fields =>
      rw [List.getLast?_cons_cons] at hback
      exact ih hrest hback

theorem FieldMeta.init_valid {name : String} {type : AttrType} {offset len : Int}
    {visible nullable : Bool} (h : FieldMeta.init name type offset len visible nullable = .ok field)
    (hname : cText name = name) (hoffset : offset ≤ int32Max) (hlen : len ≤ int32Max) :
  field.Valid ∧ field.visible = visible ∧ (field.offset : Int) = offset ∧ (field.len : Int) = len
  := by
  obtain ⟨hoffset', hlen', rfl⟩ := FieldMeta.init_ok h
  rw [FieldMeta.init] at h
  split at h
  · cases h
  rename_i hblank
  split at h
  · cases h
  rename_i hundefined
  have hoffset_eq : (offset.toNat : Int) = offset := Int.toNat_of_nonneg hoffset'
  have hlen_eq : (len.toNat : Int) = len := Int.toNat_of_nonneg hlen'.le
  refine ⟨⟨eq_false_of_ne_true hblank, hname, fun htype => hundefined (.inl htype), ?_,
    hlen_eq.trans_le hlen, hoffset_eq.trans_le hoffset⟩, rfl, hoffset_eq, hlen_eq⟩
  simp only
  omega

/-- Fields that are placed one after another lie one behind the other. -/
theorem placeFields_placed {visible : Bool} {attrs : List AttrInfo}
    (h : placeFields visible start attrs = .ok (fields, stop)) (hstart : start ≤ int32Max)
    (hnames : ∀ attr ∈ attrs, cText attr.name = attr.name) :
  Placed start fields stop ∧ ∀ field ∈ fields, field.Valid ∧ field.visible = visible
  := by
  induction attrs generalizing start fields with
  | nil =>
    cases h
    exact ⟨rfl, by simp⟩
  | cons attr attrs ih =>
    rw [placeFields] at h
    split at h
    · cases h
    rename_i field hfield
    split at h
    · cases h
    rename_i rest stop' hrest
    cases h
    obtain ⟨hvalid, hvisible, hoffset, hlen⟩ := FieldMeta.init_valid hfield
      (hnames attr List.mem_cons_self) hstart (int32_le_max _)
    obtain ⟨hplaced, hall⟩ := ih hrest (int32_le_max _)
      fun attr' hattr => hnames attr' (List.mem_cons_of_mem attr hattr)
    refine ⟨⟨hoffset, ?_⟩, ?_⟩
    · have hnext : int32 (start + field.len) = int32 (start + attr.length) := by
        rw [hlen, int32, int32, int32, Int.add_bmod_bmod]
      rw [hnext]
      exact hplaced
    · intro field' hmem
      obtain rfl | hmem := List.mem_cons.mp hmem
      · exact ⟨hvalid, hvisible⟩
      · exact hall field' hmem

end Placed

/-! ### What is known of a table -/

/-- What `TableMeta::init` establishes and further indexes leave: the fields lie one behind the
other from 0 on, the records end with them, the invisible ones are the system fields, and every
index has a field. -/
structure IndexedTableMeta.WellFormed (table : IndexedTableMeta) : Prop where
  tableId : -2 ^ 31 ≤ table.tableId ∧ table.tableId ≤ int32Max
  nonempty : table.fields ≠ []
  placed : Placed 0 table.fields table.recordSize
  valid : ∀ field ∈ table.fields, field.Valid
  sysFieldNum : (table.fields.filter fun field => !field.visible).length = table.sysFieldNum
  indexes : ∀ index ∈ table.indexes, isBlank index.name = false ∧ cText index.name = index.name
    ∧ ∃ field ∈ table.fields, index.field = field.name

/-- The system fields are the invisible ones. -/
theorem length_filter_invisible {trx columns : List FieldMeta} {bitmap : FieldMeta}
    (htrx : ∀ field ∈ trx, field.visible = false) (hbitmap : bitmap.visible = false)
    (hcolumns : ∀ field ∈ columns, field.visible = true) :
  ((trx ++ bitmap :: columns).filter fun field => !field.visible).length = trx.length + 1
  := by
  have hsystem : trx.filter (fun field => !field.visible) = trx := by
    rw [List.filter_eq_self]
    intro field hfield
    rw [htrx field hfield]
    rfl
  have hvisible : columns.filter (fun field => !field.visible) = [] := by
    rw [List.filter_eq_nil_iff]
    intro field hfield
    rw [hcolumns field hfield]
    decide
  rw [List.filter_append, hsystem, List.filter_cons_of_pos (by rw [hbitmap]; rfl), hvisible,
    List.length_append, List.length_singleton]

theorem cText_bitmap : cText "__null_bitmap" = "__null_bitmap" := by decide

/-- `TableMeta::init` places the fields of the transactions, the bitmap and the columns. -/
theorem TableMeta.init_placed {tableId : Int} {name : String} {trxFields : List FieldMeta}
    {attributes : List AttrInfo} {table : TableMeta}
    (h : TableMeta.init tableId name trxFields attributes = .ok table)
    (htrx : ∀ field ∈ trxFields, cText field.name = field.name)
    (hattributes : ∀ attr ∈ attributes, cText attr.name = attr.name) :
  table.tableId = tableId ∧ table.fields ≠ [] ∧ Placed 0 table.fields table.recordSize
    ∧ (∀ field ∈ table.fields, field.Valid)
    ∧ (table.fields.filter fun field => !field.visible).length = table.sysFieldNum
  := by
  rw [TableMeta.init] at h
  split at h
  · cases h
  split at h
  · cases h
  split at h
  · cases h
  rename_i trx offset hplaceTrx
  split at h
  · cases h
  rename_i bitmap hbitmap
  split at h
  · cases h
  rename_i columns stop hplaceColumns
  cases h
  obtain ⟨htrxPlaced, htrxValid⟩ := placeFields_placed hplaceTrx (by decide) (by
    intro attr hattr
    obtain ⟨field, hfield, rfl⟩ := List.mem_map.mp hattr
    exact htrx field hfield)
  obtain ⟨hbitmapValid, hbitmapVisible, hbitmapOffset, hbitmapLen⟩ := FieldMeta.init_valid hbitmap
    cText_bitmap (htrxPlaced.stop_le (by decide)) (by decide)
  obtain ⟨hcolumnsPlaced, hcolumnsValid⟩ := placeFields_placed hplaceColumns (int32_le_max _)
    hattributes
  refine ⟨rfl, by simp, htrxPlaced.append ⟨hbitmapOffset, ?_⟩, ?_, ?_⟩
  · rw [hbitmapLen]
    exact hcolumnsPlaced
  · intro field hfield
    rw [List.mem_append, List.mem_cons] at hfield
    obtain hfield | rfl | hfield := hfield
    · exact (htrxValid field hfield).1
    · exact hbitmapValid
    · exact (hcolumnsValid field hfield).1
  · exact length_filter_invisible (fun field hfield => (htrxValid field hfield).2) hbitmapVisible
      fun field hfield => (hcolumnsValid field hfield).2

theorem Built.wellFormed {table : IndexedTableMeta} (h : Built table) : table.WellFormed := by
  induction h with
  | @init tableId name trxFields attributes table h =>
    rw [IndexedTableMeta.init] at h
    cases hinit : TableMeta.init tableId.toInt (cText name)
      (trxFields.map fun field => { field with name := cText field.name })
      (attributes.map fun attr => { attr with name := cText attr.name }) with
    | error rc =>
      rw [hinit] at h
      cases h
    | ok tableMeta =>
      rw [hinit] at h
      cases h
      obtain ⟨htableId, hne, hplaced, hvalid, hsys⟩ := TableMeta.init_placed hinit
        (by
          intro field hfield
          obtain ⟨field', -, rfl⟩ := List.mem_map.mp hfield
          exact cText_cText field'.name)
        (by
          intro attr hattr
          obtain ⟨attr', -, rfl⟩ := List.mem_map.mp hattr
          exact cText_cText attr'.name)
      refine ⟨?_, hne, hplaced, hvalid, hsys, by simp⟩
      rw [htableId, int32Max]
      have hle := BitVec.le_toInt tableId
      have hlt := BitVec.toInt_lt (x := tableId)
      omega
  | @addIndex table field name unique index _ hfield hindex ih =>
    rw [IndexMeta.init] at hindex
    split at hindex
    · cases hindex
    rename_i hblank
    cases hindex
    refine ⟨ih.tableId, ih.nonempty, ih.placed, ih.valid, ih.sysFieldNum, ?_⟩
    intro index hmem
    obtain hmem | hmem := List.mem_append.mp hmem
    · exact ih.indexes index hmem
    · obtain rfl := List.mem_singleton.mp hmem
      exact ⟨eq_false_of_ne_true hblank, cText_cText name, field, hfield,
        (ih.valid field hfield).name⟩

/-! ### Reading back -/

theorem mapM_map_some {α β : Type} {f : α → β} {g : β → Option α} {l : List α}
    (h : ∀ x ∈ l, g (f x) = some x) :
  (l.map f).mapM g = some l
  := by
  induction l with
  | nil => rfl
  | cons x l ih =>
    rw [List.map_cons, List.mapM_cons, h x List.mem_cons_self,
      ih fun y hy => h y (List.mem_cons_of_mem x hy)]
    rfl

theorem textOf_utf8 (s : String) : textOf (.string (utf8 s)) = some (cText s) := by
  rw [textOf, stringOf, Option.bind_some, ofUtf8_utf8, Option.map_some]

theorem intOf_int {n : Int} (hl : -2 ^ 31 ≤ n) (hu : n ≤ int32Max) : intOf (.int n) = some n :=
  if_pos ⟨hl, hu⟩

theorem attrTypeFromString_toString (type : AttrType) :
  attrTypeFromString (cText (attrTypeToString type)) = type
  := by
  cases type <;> decide

/-- A field that is valid is accepted again. -/
theorem FieldMeta.Valid.init_eq {field : FieldMeta} (h : field.Valid) :
  FieldMeta.init field.name field.type field.offset field.len field.visible field.nullable
    = .ok field
  := by
  have hpos := h.len_pos
  have haccepted :
      ¬ (field.type = .undefined ∨ (field.offset : Int) < 0 ∨ (field.len : Int) ≤ 0) := by
    rintro (htype | hoffset | hlen)
    · exact h.type htype
    · omega
    · omega
  rw [FieldMeta.init, h.notBlank, if_neg Bool.false_ne_true, if_neg haccepted]
  rfl

/-- A field is read back from its document. -/
theorem FieldMeta.fromJson_toJson {field : FieldMeta} (h : field.Valid) :
  FieldMeta.fromJson field.toJson = some field
  := by
  have hoffset := intOf_int (by omega) h.offset_le
  have hlen := intOf_int (by omega) h.len_le
  have hname := textOf_utf8 field.name
  have htype := textOf_utf8 (attrTypeToString field.type)
  rw [h.name] at hname
  rw [fromJson, toJson]
  simp [member, List.lookup, nameKey, typeKey, offsetKey, lenKey, visibleKey, nullableKey, hname,
    htype, hoffset, hlen, boolOf, attrTypeFromString_toString, h.type, h.init_eq, Except.toOption]

/-- An index is read back from its document in a table that has its field. -/
theorem indexFromJson_toJson {table : IndexedTableMeta} {index : IndexMeta} {field : FieldMeta}
    (hblank : isBlank index.name = false) (hname : cText index.name = index.name)
    (hfield : field ∈ table.fields) (hindex : index.field = field.name)
    (hvalid : ∀ field ∈ table.fields, field.Valid) :
  indexFromJson table (indexToJson index) = some index
  := by
  have hfieldName : cText index.field = index.field := by
    rw [hindex, (hvalid field hfield).name]
  -- the first field of the name is found, which may be another one
  obtain ⟨field', hfound⟩ : ∃ field', table.field index.field = some field' := by
    rw [← Option.isSome_iff_exists, IndexedTableMeta.field, List.find?_isSome]
    refine ⟨field, hfield, ?_⟩
    rw [decide_eq_true_iff, (hvalid field hfield).name, hindex]
  have hsame : cText field'.name = index.field := by
    simpa using List.find?_some hfound
  have hinit : IndexMeta.init index.name index.field index.unique = .ok index := by
    rw [IndexMeta.init, hblank]
    rfl
  have htexts := textOf_utf8 index.name
  have htextField := textOf_utf8 index.field
  rw [hname] at htexts
  rw [hfieldName] at htextField
  rw [indexFromJson, indexToJson]
  simp [member, List.lookup, nameKey, fieldNameKey, uniqueKey, htexts, htextField, boolOf, hfound,
    hsame, hinit, Except.toOption]

theorem member_root (fields indexes tableId tableName : Document) :
    let root : Document := .object [(fieldsKey, fields), (indexesKey, indexes),
      (tableIdKey, tableId), (tableNameKey, tableName)]
    member fieldsKey root = some fields ∧ member indexesKey root = some indexes
      ∧ member tableIdKey root = some tableId ∧ member tableNameKey root = some tableName :=
  ⟨rfl, rfl, rfl, rfl⟩

/-- A table that is well formed is read back from what is written for it. -/
theorem IndexedTableMeta.WellFormed.deserialize_serialize {table : IndexedTableMeta}
    (h : table.WellFormed) (J : JsonStream) :
  deserialize J empty (serialize J table) = some table
  := by
  have hid := intOf_int h.tableId.1 h.tableId.2
  have hname := ofUtf8_utf8 table.name
  have hfields := mapM_map_some fun field hfield => FieldMeta.fromJson_toJson (h.valid field hfield)
  have hindexes := mapM_map_some (f := indexToJson)
    (g := indexFromJson { table with indexes := [] }) (l := table.indexes) (by
      intro index hmem
      obtain ⟨hblank, hcText, field, hfield, heq⟩ := h.indexes index hmem
      exact indexFromJson_toJson hblank hcText hfield heq h.valid)
  -- the fields are in order already
  have hsorted : table.fields.mergeSort (fun f1 f2 => f1.offset ≤ f2.offset) = table.fields := by
    apply List.mergeSort_of_pairwise
    exact (h.placed.pairwise h.valid).imp fun hlt => decide_eq_true hlt.le
  obtain ⟨front, hfront⟩ : ∃ front, table.fields.head? = some front :=
    ⟨_, List.head?_eq_some_head h.nonempty⟩
  obtain ⟨back, hback⟩ : ∃ back, table.fields.getLast? = some back :=
    ⟨_, List.getLast?_eq_some_getLast h.nonempty⟩
  have hzero : (front.offset : Int) = 0 := by
    obtain ⟨field, fields, hcons⟩ := List.exists_cons_of_ne_nil h.nonempty
    have hplaced := h.placed
    rw [hcons] at hplaced hfront
    cases hfront
    exact hplaced.1
  have hsize : int32 (int32 (back.offset + back.len) - front.offset) = table.recordSize := by
    rw [h.placed.stop_eq hback, hzero, sub_zero, int32, int32, Int.bmod_bmod]
  have hcount : empty.sysFieldNum + (table.fields.filter fun field => !field.visible).length
      = table.sysFieldNum := by
    rw [h.sysFieldNum]
    exact Nat.zero_add _
  obtain ⟨hfieldsMember, hindexesMember, hidMember, hnameMember⟩ := member_root
    (.array (table.fields.map FieldMeta.toJson))
    (if table.indexes = [] then .null else .array (table.indexes.map indexToJson))
    (.int table.tableId) (.string (utf8 table.name))
  rw [deserialize, serialize, J.parse_write, if_neg h.nonempty]
  simp only [hidMember, hnameMember, hfieldsMember, hindexesMember, Option.bind_eq_bind,
    Option.bind_some, hid, stringOf, hname, arrayOf, hfields, hsorted, hfront, hback, hsize, hcount]
  by_cases hnone : table.indexes = []
  · rw [if_pos hnone, isEmpty, if_pos rfl]
    obtain ⟨tableMeta, indexes⟩ := table
    obtain rfl : indexes = [] := hnone
    rfl
  · have hfull : isEmpty (.array (table.indexes.map indexToJson)) = false := by
      simp [isEmpty, hnone]
    rw [if_neg hnone, hfull, if_neg Bool.false_ne_true, Option.bind_some]
    exact Option.bind_eq_some_iff.mpr ⟨table.indexes, hindexes, rfl⟩

/-- What has been written of a table gives the table back, whatever its indexes. The same fields
are the system fields again, and the last of them is the bitmap of the `NULL`s. -/
theorem metadata_restored (J : JsonStream) {table : IndexedTableMeta} (h : Built table) :
  ∃ table', IndexedTableMeta.deserialize J .empty (table.serialize J) = some table'
    ∧ table' = table ∧ table'.nullBitmapField = table.nullBitmapField
    ∧ table'.trxFields = table.trxFields
  := ⟨table, h.wellFormed.deserialize_serialize J, rfl, rfl, rfl⟩

/-- A table of two columns with an index over the second one. -/
def indexedTable : IndexedTableMeta where
  tableId := 7
  name := "t"
  fields := [⟨"__trx_xid_begin", .ints, 0, 4, false, false⟩,
    ⟨"__trx_xid_end", .ints, 4, 4, false, false⟩, ⟨"__null_bitmap", .ints, 8, 4, false, false⟩,
    ⟨"id", .ints, 12, 4, true, false⟩, ⟨"name", .chars, 16, 3, true, true⟩]
  sysFieldNum := 3
  recordSize := 19
  indexes := [⟨"i", "name", true⟩]

theorem metadata_restored_indexedTable :
  IndexedTableMeta.deserialize .styled .empty (indexedTable.serialize .styled) = some indexedTable
  := by
  have hinit : IndexedTableMeta.init 7 "t" [⟨"__trx_xid_begin", .ints, 0, 4, false, false⟩,
      ⟨"__trx_xid_end", .ints, 4, 4, false, false⟩]
      [⟨"id", .ints, 4, false⟩, ⟨"name", .chars, 3, true⟩]
        = .ok { indexedTable with indexes := [] } := by decide
  have hbuilt : Built indexedTable :=
    @Built.addIndex _ ⟨"name", .chars, 16, 3, true, true⟩ "i" true _ (.init hinit) (by decide)
      (by decide)
  obtain ⟨table', hread, rfl, -⟩ := metadata_restored .styled hbuilt
  exact hread

end MiniOB.Sql
