import MiniOB.Sql.Value

/-!
# Schemas

`FieldMeta` and `TableMeta` of `storage/field/field_meta.cpp` and `storage/table/table_meta.cpp`:
the place of each column in the records of a table. The fields of the transactions come first,
then the bitmap of the `NULL`s, then the columns.
-/

namespace MiniOB.Sql

/-- `FieldMeta`. -/
structure FieldMeta where
  name : String
  type : AttrType
  offset : Nat
  len : Nat
  visible : Bool
  nullable : Bool
  deriving DecidableEq, Repr

/-- `AttrInfoSqlNode`. -/
structure AttrInfo where
  name : String
  type : AttrType
  length : Nat
  nullable : Bool
  deriving DecidableEq, Repr

/-- `TableMeta`, with the number of its system fields. -/
structure TableMeta where
  tableId : Int
  name : String
  fields : List FieldMeta
  sysFieldNum : Nat
  recordSize : Int
  deriving DecidableEq, Repr

/-- `is_blank`. -/
def isBlank (s : String) : Bool := s.toList.all fun c => c = ' ' ∨ ('\t' ≤ c ∧ c ≤ '\r')

/-- `FieldMeta::init`. -/
def FieldMeta.init (name : String) (type : AttrType) (offset len : Int) (visible nullable : Bool) :
    Except RC FieldMeta :=
  if isBlank name then .error .invalidArgument
  else if type = .undefined ∨ offset < 0 ∨ len ≤ 0 then .error .invalidArgument
  else .ok {
    name
    type
    offset := offset.toNat
    len := len.toNat
    visible
    nullable }

/-- Fields are placed one after another from the offset `field_offset` on. -/
def placeFields (visible : Bool) : Int → List AttrInfo → Except RC (List FieldMeta × Int)
  | fieldOffset, [] => .ok ([], fieldOffset)
  | fieldOffset, attr :: attrs =>
    match FieldMeta.init attr.name attr.type fieldOffset (int32 attr.length) visible attr.nullable with
    | .error rc => .error rc
    | .ok field =>
      match placeFields visible (int32 (fieldOffset + attr.length)) attrs with
      | .error rc => .error rc
      | .ok (fields, fieldOffset) => .ok (field :: fields, fieldOffset)

namespace TableMeta

/-- `TableMeta::init`, with the fields `trx_fields` of the transactions, if there are any. -/
def init (tableId : Int) (name : String) (trxFields : List FieldMeta)
    (attributes : List AttrInfo) : Except RC TableMeta :=
  if isBlank name then .error .invalidArgument
  else if attributes = [] then .error .invalidArgument
  else
    match placeFields false 0 (trxFields.map fun field => ⟨field.name, field.type, field.len, false⟩)
      with
    | .error rc => .error rc
    | .ok (trx, fieldOffset) =>
      match FieldMeta.init "__null_bitmap" .ints fieldOffset 4 false false with
      | .error rc => .error rc
      | .ok bitmap =>
        match placeFields true (int32 (fieldOffset + 4)) attributes with
        | .error rc => .error rc
        | .ok (fields, fieldOffset) => .ok {
            tableId
            name
            fields := trx ++ bitmap :: fields
            sysFieldNum := trx.length + 1
            recordSize := fieldOffset }

/-- `TableMeta::null_bitmap_field`. -/
def nullBitmapField (table : TableMeta) : Option FieldMeta := table.fields[table.sysFieldNum - 1]?

/-- The fields of the columns. -/
def columns (table : TableMeta) : List FieldMeta := table.fields.drop table.sysFieldNum

end TableMeta

/-! ### Where the fields lie -/

/-- The fields lie one after another from `start` to `stop`. -/
def Laid : Nat → List FieldMeta → Nat → Prop
  | start, [], stop => start = stop
  | start, field :: fields, stop =>
    field.offset = start ∧ 0 < field.len ∧ Laid (start + field.len) fields stop

/-- The bytes that the fields take. -/
def size (fields : List FieldMeta) : Nat := (fields.map FieldMeta.len).sum

/-- The field has what the column has been declared with. -/
structure Declared (attr : AttrInfo) (field : FieldMeta) : Prop where
  name : field.name = attr.name
  type : field.type = attr.type
  nullable : field.nullable = attr.nullable

theorem size_cons (field : FieldMeta) (fields : List FieldMeta) :
  size (field :: fields) = field.len + size fields
  := by
  rw [size, List.map_cons, List.sum_cons, size]

theorem size_append (fields fields' : List FieldMeta) :
  size (fields ++ fields') = size fields + size fields'
  := by
  rw [size, List.map_append, List.sum_append, size, size]

/-- What `FieldMeta::init` accepts. -/
theorem FieldMeta.init_ok {name : String} {type : AttrType} {offset len : Int}
    {visible nullable : Bool} {field : FieldMeta}
    (h : FieldMeta.init name type offset len visible nullable = .ok field) :
  0 ≤ offset ∧ 0 < len
    ∧ field = ⟨name, type, offset.toNat, len.toNat, visible, nullable⟩
  := by
  rw [FieldMeta.init] at h
  split at h
  · cases h
  split at h
  · cases h
  · rename_i hvalid
    simp only [not_or, not_lt, not_le] at hvalid
    cases h
    exact ⟨hvalid.2.1, hvalid.2.2, rfl⟩

/-- An offset that has been moved by a length is negative when it leaves the integers. -/
theorem int32_add {offset len : Int} (hoffset : 0 ≤ offset) (hmax : offset < 2 ^ 31)
    (hlen : 0 < int32 len) :
  int32 (offset + len) = offset + int32 len ∧ offset + int32 len < 2 ^ 31
    ∨ int32 (offset + len) < 0 ∧ 2 ^ 31 ≤ offset + int32 len
  := by
  have hadd : int32 (offset + len) = int32 (offset + int32 len) := by
    rw [int32, int32, int32, Int.add_bmod_bmod]
  have hlt : int32 len < 2 ^ 31 := by
    have h := @Int.bmod_lt len (2 ^ 32) (by decide)
    rw [← int32] at h
    omega
  rw [hadd]
  obtain h | h := lt_or_ge (offset + int32 len) (2 ^ 31)
  · left
    refine ⟨int32_of_mem (by omega) ?_, h⟩
    rw [int32Max]
    omega
  · right
    refine ⟨?_, h⟩
    rw [int32, Int.bmod_def]
    split <;> omega

variable {visible : Bool} {start last : Int} {attrs : List AttrInfo} {fields : List FieldMeta}

/-- No field is placed at a negative offset. -/
theorem placeFields_nonneg (h : placeFields visible start attrs = .ok (fields, last))
    (hattrs : attrs ≠ []) :
  0 ≤ start
  := by
  cases attrs with
  | nil => exact absurd rfl hattrs
  | cons attr attrs =>
    rw [placeFields] at h
    split at h
    · cases h
    · rename_i hfield
      exact (FieldMeta.init_ok hfield).1

/-- Fields that have been placed lie one after another, unless the last of them ends beyond the
integers. -/
theorem placeFields_ok (h : placeFields visible start attrs = .ok (fields, last))
    (hstart : 0 ≤ start) (hmax : start < 2 ^ 31) :
  List.Forall₂ Declared attrs fields
    ∧ (last = start + size fields ∧ last < 2 ^ 31 ∧ Laid start.toNat fields last.toNat
      ∨ last < 0 ∧ 2 ^ 31 ≤ start + size fields ∧ fields ≠ [])
  := by
  induction attrs generalizing start fields with
  | nil =>
    cases h
    refine ⟨.nil, .inl ⟨?_, hmax, rfl⟩⟩
    simp [size]
  | cons attr attrs ih =>
    rw [placeFields] at h
    split at h
    · cases h
    rename_i field hfield
    split at h
    · cases h
    rename_i rest last' hrest
    cases h
    obtain ⟨_, hlen, rfl⟩ := FieldMeta.init_ok hfield
    have hdeclared : Declared attr
        ⟨attr.name, attr.type, start.toNat, (int32 attr.length).toNat, visible, attr.nullable⟩ :=
      ⟨rfl, rfl, rfl⟩
    rw [size_cons]
    obtain ⟨hnext, hlt⟩ | ⟨hneg, hle⟩ := int32_add hstart hmax hlen
    · rw [hnext] at hrest
      obtain ⟨hall, hlast⟩ := ih hrest (by omega) hlt
      refine ⟨.cons hdeclared hall, ?_⟩
      obtain ⟨hlast, hlt', hlaid⟩ | ⟨hlast, hle, _⟩ := hlast
      · left
        refine ⟨by push_cast; omega, hlt', rfl, by simp only; omega, ?_⟩
        rwa [show start.toNat + (int32 attr.length).toNat = (start + int32 attr.length).toNat
          by omega]
      · right
        exact ⟨hlast, by push_cast; omega, List.cons_ne_nil _ _⟩
    · -- The next field would get a negative offset, so there is none.
      obtain rfl | hne := eq_or_ne attrs []
      · cases hrest
        refine ⟨.cons hdeclared .nil, .inr ⟨hneg, ?_, List.cons_ne_nil _ _⟩⟩
        push_cast
        simp only [size, List.map_nil, List.sum_nil]
        omega
      · have hnonneg := placeFields_nonneg hrest hne
        omega

/-- What is known of a schema: the fields of the transactions, the bitmap of the `NULL`s and the
columns, and where they lie. -/
structure TableMeta.Layout (attributes : List AttrInfo) (table : TableMeta)
    (trx : List FieldMeta) (bitmap : FieldMeta) : Prop where
  fields : table.fields = trx ++ bitmap :: table.columns
  sysFieldNum : table.sysFieldNum = trx.length + 1
  bitmapLen : bitmap.len = 4
  nonempty : attributes ≠ []
  declared : List.Forall₂ Declared attributes table.columns
  laid : size table.fields < 2 ^ 31 →
    Laid (bitmap.offset + 4) table.columns table.recordSize.toNat
  recordSize : 0 ≤ table.recordSize ↔ size table.fields < 2 ^ 31

/-- The columns are what follows the system fields. -/
theorem TableMeta.layout_of_parts {tableId last : Int} {name : String}
    {attributes : List AttrInfo} (trx : List FieldMeta) (bitmap : FieldMeta)
    (columns : List FieldMeta) (hlen : bitmap.len = 4) (hne : attributes ≠ [])
    (hall : List.Forall₂ Declared attributes columns)
    (hlaid : size (trx ++ bitmap :: columns) < 2 ^ 31 →
      Laid (bitmap.offset + 4) columns last.toNat)
    (hlast : 0 ≤ last ↔ size (trx ++ bitmap :: columns) < 2 ^ 31) :
  TableMeta.Layout attributes
    ⟨tableId, name, trx ++ bitmap :: columns, trx.length + 1, last⟩ trx bitmap
  := by
  have hcolumns : TableMeta.columns
      ⟨tableId, name, trx ++ bitmap :: columns, trx.length + 1, last⟩ = columns := by
    rw [TableMeta.columns, List.drop_append, List.drop_of_length_le (Nat.le_succ _),
      Nat.add_sub_cancel_left]
    rfl
  constructor
  case fields => rw [hcolumns]
  case sysFieldNum => rfl
  case bitmapLen => apply hlen
  case nonempty => apply hne
  case declared =>
    rw [hcolumns]
    apply hall
  case laid =>
    rw [hcolumns]
    apply hlaid
  case recordSize => apply hlast

theorem TableMeta.init_ok {tableId : Int} {name : String} {trxFields : List FieldMeta}
    {attributes : List AttrInfo} {table : TableMeta}
    (h : TableMeta.init tableId name trxFields attributes = .ok table) :
  ∃ trx bitmap, table.Layout attributes trx bitmap
  := by
  rw [TableMeta.init] at h
  split at h
  · cases h
  split at h
  · cases h
  rename_i hattributes
  split at h
  · cases h
  rename_i trx offset htrx
  split at h
  · cases h
  rename_i bitmap hbitmap
  split at h
  · cases h
  rename_i columns last hcolumns
  cases h
  obtain ⟨hoffset, _, rfl⟩ := FieldMeta.init_ok hbitmap
  obtain ⟨_, ⟨hsum, hmax, _⟩ | ⟨hneg, _⟩⟩ := placeFields_ok htrx (Int.le_refl 0) (by decide)
  · have hcolumnsOffset := placeFields_nonneg hcolumns hattributes
    have hint : int32 4 = 4 := by decide
    obtain ⟨hnext, hlt⟩ | ⟨hneg, _⟩ := int32_add hoffset hmax (show 0 < int32 4 by decide)
    · rw [hnext, hint] at hcolumns
      rw [hint] at hlt
      obtain ⟨hall, hlast⟩ := placeFields_ok hcolumns (by omega) hlt
      refine ⟨trx, _, layout_of_parts trx _ columns rfl hattributes hall ?_ ?_⟩
      · simp only [size_append, size_cons]
        rintro hsize
        obtain ⟨_, _, hlaid⟩ | ⟨_, hle, _⟩ := hlast
        · rwa [show offset.toNat + 4 = (offset + 4).toNat by omega]
        · omega
      · simp only [size_append, size_cons]
        obtain ⟨heq, hlt, _⟩ | ⟨hneg, hle, _⟩ := hlast <;> omega
    · omega
  · omega

theorem Declared.of_mem {attributes : List AttrInfo} {columns : List FieldMeta} {field : FieldMeta}
    (h : List.Forall₂ Declared attributes columns) (hmem : field ∈ columns) :
  ∃ attr ∈ attributes, Declared attr field
  := by
  induction h with
  | nil => cases hmem
  | cons hdeclared _ ih =>
    obtain rfl | hmem := List.mem_cons.mp hmem
    · exact ⟨_, List.mem_cons_self, hdeclared⟩
    · obtain ⟨attr, hattr, hdeclared⟩ := ih hmem
      exact ⟨attr, List.mem_cons_of_mem _ hattr, hdeclared⟩

theorem TableMeta.Layout.columns_ne_nil {attributes : List AttrInfo} {table : TableMeta}
    {trx : List FieldMeta} {bitmap : FieldMeta} (hlayout : table.Layout attributes trx bitmap) :
  table.columns ≠ []
  := by
  intro hnil
  have hlength := hlayout.declared.length_eq
  rw [hnil, List.length_nil, List.length_eq_zero_iff] at hlength
  exact hlayout.nonempty hlength

end MiniOB.Sql
