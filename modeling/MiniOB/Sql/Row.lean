import MiniOB.Sql.TableMeta

/-!
# Rows

`Table::make_record` of `storage/table/table.cpp` and `RowTuple::cell_at` of `sql/expr/tuple.h`:
the record of a list of values, and the value that is read back from a column. The bitmap of the
`NULL`s has 32 bits.
-/

namespace MiniOB.Sql

/-- The memory that a call finds: the fresh memory of the record, and what follows the data of
each value. -/
structure Memory where
  fresh : Bytes
  after : Nat → Bytes

/-- The bytes that `make_record` copies for a column. -/
def copied (field : FieldMeta) (value : Value) (after : Bytes) : Str :=
  let copyLen :=
    if field.type = .chars ∧ value.length < field.len then value.length + 1 else field.len
  if value = .nulls then List.replicate copyLen 0
  else Memory.read (value.data after) 0 copyLen

/-- The columns are copied one after another. -/
def copyValues (after : Nat → Bytes) : Nat → List FieldMeta → List Value → Bytes → Bytes
  | i, field :: fields, value :: values, record =>
    copyValues after (i + 1) fields values
      (Memory.write record field.offset (copied field value (after i)))
  | _, _, _, record => record

/-- The bits of the columns that are `NULL`, from the field `i` on. -/
def setNullBits : Nat → List Value → Bytes → Bytes
  | _, [], bits => bits
  | i, value :: values, bits =>
    setNullBits (i + 1) values (if value = .nulls then Bitmap.setBit bits i else bits)

/-- The type of a value agrees with that of a column. -/
def accepts (field : FieldMeta) (value : Value) : Bool :=
  value.attrType = .nulls ∧ field.nullable ∨ field.type = value.attrType

namespace TableMeta

/-- `Table::make_record`. Without memory for the record there is no result. -/
def makeRecord (table : TableMeta) (values : List Value) (memory : Memory) :
    Option (Except RC Bytes) :=
  if values.length + table.sysFieldNum ≠ table.fields.length then some (.error .schemaFieldMissing)
  else if !(List.zipWith accepts table.columns values).all id then
    some (.error .schemaFieldTypeMismatch)
  else if table.recordSize < 0 then none
  else
    match table.nullBitmapField with
    | none => none
    | some bitmap =>
      let record := copyValues memory.after 0 table.columns values memory.fresh
      let nulls := setNullBits table.sysFieldNum values fun _ => 0
      some (.ok (Memory.write record bitmap.offset (Memory.read nulls 0 4)))

/-- `atoi`. -/
def atoi (s : Str) : Nat :=
  (s.takeWhile fun b => 48 ≤ b ∧ b ≤ 57).foldl (fun n b => n * 10 + (b.toNat - 48)) 0

/-- `RowTuple::cell_at`, with the texts that `g_mem_text` holds. A failed assertion has no
result. -/
def cellAt (table : TableMeta) (texts : Nat → Str) (record : Bytes) (index : Nat) :
    Option (Except RC Value) :=
  match table.fields[index]?, table.nullBitmapField with
  | none, _ => some (.error .invalidArgument)
  | _, none => none
  | some field, some bitmap =>
    if Bitmap.getBit (fun i => record (bitmap.offset + i)) index then some (.ok .nulls)
    else if field.type = .texts then
      let key := strAt record field.offset 4
      if key.length ≤ 3 then some (.ok (.chars (texts (atoi key)))) else none
    else (Value.setData field.type record field.offset field.len).map .ok

end TableMeta

/-! ### The bytes of a record -/

variable {field : FieldMeta} {fields : List FieldMeta} {value : Value} {values : List Value}
  {after : Nat → Bytes} {record record' : Bytes} {start stop i k j : Nat}

theorem length_copied_le (field : FieldMeta) (value : Value) (after : Bytes) :
  (copied field value after).length ≤ field.len
  := by
  rw [copied]
  split
  · rw [List.length_replicate]
    split <;> omega
  · rw [Memory.length_read]
    split <;> omega

/-- Copying the columns leaves what lies before them. -/
theorem copyValues_lt (hlaid : Laid start fields stop) (hj : j < start) :
  copyValues after i fields values record j = record j
  := by
  induction fields generalizing start i values record with
  | nil =>
    cases values <;> rfl
  | cons field fields ih =>
    cases values with
    | nil => rfl
    | cons value values =>
      obtain ⟨hoffset, _, hrest⟩ := hlaid
      rw [copyValues, ih hrest (by omega), Memory.write_lt (by omega)]

/-- The bytes copied for a column are found at its place. -/
theorem copyValues_at (hlaid : Laid start fields stop) (hfield : fields[k]? = some field)
    (hvalue : values[k]? = some value)
    (hj : j < (copied field value (after (i + k))).length) :
  copyValues after i fields values record (field.offset + j)
    = (copied field value (after (i + k)))[j]
  := by
  induction fields generalizing start i k values record with
  | nil => cases hfield
  | cons first fields ih =>
    cases values with
    | nil => cases hvalue
    | cons head values =>
      obtain ⟨hoffset, _, hrest⟩ := hlaid
      rw [copyValues]
      cases k with
      | zero =>
        cases hfield
        cases hvalue
        have hle := length_copied_le field value (after (i + 0))
        rw [copyValues_lt hrest (by omega)]
        apply Memory.write_add hj
      | succ k =>
        rw [List.getElem?_cons_succ] at hfield hvalue
        simp only [← Nat.add_assoc, Nat.add_right_comm i k 1] at hj ⊢
        apply ih hrest hfield hvalue

theorem getBit_setNullBit (value : Value) (i : Nat) (bits : Bytes) (k : Nat) :
  Bitmap.getBit (if value = .nulls then Bitmap.setBit bits i else bits) k
    = if k = i ∧ value = .nulls then true else Bitmap.getBit bits k
  := by
  split
  · rename_i hnull
    simp only [Bitmap.getBit_setBit, hnull, and_true]
  · rename_i hnull
    simp only [hnull, and_false, if_false]

/-- The bit of a column in the bitmap of the `NULL`s. -/
theorem getBit_setNullBits (values : List Value) (i : Nat) (bits : Bytes) (k : Nat) :
  Bitmap.getBit (setNullBits i values bits) k
    = if i ≤ k ∧ values[k - i]? = some .nulls then true else Bitmap.getBit bits k
  := by
  induction values generalizing i bits with
  | nil => simp [setNullBits]
  | cons value values ih =>
    rw [setNullBits, ih, getBit_setNullBit]
    obtain hlt | rfl | hgt := lt_trichotomy k i
    · simp only [show ¬ i + 1 ≤ k by omega, show ¬ k = i by omega, show ¬ i ≤ k by omega,
        false_and, if_false]
    · simp [show ¬ k + 1 ≤ k by omega]
    · obtain ⟨d, rfl⟩ := Nat.exists_eq_add_of_lt hgt
      have hget : (value :: values)[i + d + 1 - i]? = values[i + d + 1 - (i + 1)]? := by
        rw [show i + d + 1 - i = d + 1 by omega, show i + d + 1 - (i + 1) = d by omega,
          List.getElem?_cons_succ]
      simp only [hget, show i + 1 ≤ i + d + 1 by omega, show i ≤ i + d + 1 by omega,
        show ¬ i + d + 1 = i by omega, true_and, false_and, if_false]

/-! ### Reading a column back -/

/-- The value can be stored in the column: it is `NULL` where this is allowed, or it has the type
of the column. A string fits into the column and has no zero byte. -/
def Fits (field : FieldMeta) (value : Value) : Prop :=
  value = .nulls ∧ field.nullable = true
    ∨ value.attrType = field.type ∧ ∀ s, value = .chars s → s.length ≤ field.len ∧ 0 ∉ s

/-- The types whose values are stored as they are. -/
def AttrType.Plain (type : AttrType) : Prop :=
  type = .chars ∨ type = .ints ∨ type = .floats ∨ type = .dates

/-- The column has room for the values of its type. -/
def Roomy (field : FieldMeta) : Prop := field.type ≠ .chars → 4 ≤ field.len

theorem copied_of_ne (hne : value ≠ .nulls) (hchars : field.type ≠ .chars) (after : Bytes) :
  copied field value after = Memory.read (value.data after) 0 field.len
  := by
  rw [copied, if_neg hne, if_neg]
  rintro ⟨heq, _⟩
  exact hchars heq

theorem data_of_lt {after : Bytes} (hj : j < value.content.length) :
  value.data after j = value.content[j]
  := by
  have hwrite : Memory.write after 0 value.content (0 + j) = value.content[j] :=
    Memory.write_add hj
  rwa [Nat.zero_add] at hwrite

/-- A number is stored and read back. -/
theorem numAt_copied {n : BitVec 32} {after : Bytes} (hne : value ≠ .nulls)
    (hchars : field.type ≠ .chars) (hcontent : value.content = numBytes n) (hroom : 4 ≤ field.len)
    (hcopied : ∀ j (hj : j < (copied field value after).length),
      record (field.offset + j) = (copied field value after)[j]) :
  numAt record field.offset = n
  := by
  have heq := copied_of_ne hne hchars after
  apply numAt_of_bytes
  intro j hj
  have hlt : j < (copied field value after).length := by
    rw [heq, Memory.length_read]
    omega
  have hcontent' : j < value.content.length := by
    rw [hcontent]
    exact hj
  rw [hcopied j hlt]
  simp only [heq, Memory.getElem_read, Nat.zero_add, data_of_lt hcontent']
  simp only [hcontent]
  rfl

/-- Of a string as much is read back as the column has room for. -/
theorem strAt_copied {s : Str} {after : Bytes} (htype : field.type = .chars) (hs : 0 ∉ s)
    (hcopied : ∀ j (hj : j < (copied field (.chars s) after).length),
      record (field.offset + j) = (copied field (.chars s) after)[j]) :
  strAt record field.offset field.len = s.take field.len
  := by
  have hread := Memory.read_eq hcopied
  have hwrite := Memory.read_write after 0 (s ++ [0])
  rw [List.length_append, List.length_singleton] at hwrite
  obtain hlt | hge := Nat.lt_or_ge s.length field.len
  · have heq : copied field (.chars s) after = s ++ [0] := by
      rw [copied, if_neg (by simp), if_pos ⟨htype, hlt⟩]
      apply hwrite
    obtain ⟨d, hd⟩ := Nat.exists_eq_add_of_lt hlt
    rw [heq, List.length_append, List.length_singleton] at hread
    rw [List.take_of_length_le (by omega)]
    apply strAt_of_terminated hs
    rw [hd, Nat.add_right_comm, Memory.read_add, hread, List.append_assoc]
    rfl
  · have heq : copied field (.chars s) after = s.take field.len := by
      rw [copied, if_neg (by simp), if_neg fun h => absurd h.2 (Nat.not_lt.mpr hge)]
      obtain ⟨d, hd⟩ := Nat.exists_eq_add_of_le hge
      rw [hd, Nat.add_assoc, Memory.read_add] at hwrite
      have htake := congrArg (List.take field.len) hwrite
      rwa [List.take_left' (Memory.length_read _ _ _), List.take_append_of_le_length hge] at htake
    rw [heq, List.length_take, Nat.min_eq_left hge] at hread
    apply strAt_of_full _ hread
    intro hmem
    exact hs (List.mem_of_mem_take hmem)

/-- The key of a text is read back as far as its first four bytes tell. -/
theorem strAt_copied_text {key : Str} {after : Bytes} (htype : field.type = .texts)
    (hkey : 0 ∉ key) (hroom : 4 ≤ field.len)
    (hcopied : ∀ j (hj : j < (copied field (.texts key) after).length),
      record (field.offset + j) = (copied field (.texts key) after)[j]) :
  strAt record field.offset 4 = key.take 4
  := by
  have heq : copied field (.texts key) after = Memory.read ((Value.texts key).data after) 0 field.len :=
    copied_of_ne (by simp) (by simp [htype]) after
  have hread := Memory.read_eq hcopied
  have hwrite := Memory.read_write after 0 (key ++ [0])
  rw [List.length_append, List.length_singleton] at hwrite
  have hfirst : Memory.read record field.offset 4 = Memory.read ((Value.texts key).data after) 0 4 := by
    obtain ⟨d, hd⟩ := Nat.exists_eq_add_of_le hroom
    rw [heq, Memory.length_read, hd, Memory.read_add, Memory.read_add] at hread
    exact List.append_inj_left hread (by rw [Memory.length_read, Memory.length_read])
  change _ = Memory.read (Memory.write after 0 (key ++ [0])) 0 4 at hfirst
  obtain hlt | hge := Nat.lt_or_ge key.length 4
  · obtain ⟨d, hd⟩ := Nat.exists_eq_add_of_lt hlt
    rw [List.take_of_length_le (by omega)]
    apply strAt_of_terminated hkey
    rw [hfirst, hd, Nat.add_right_comm, Memory.read_add, hwrite, List.append_assoc]
    rfl
  · obtain ⟨d, hd⟩ := Nat.exists_eq_add_of_le hge
    rw [hd, Nat.add_assoc, Memory.read_add] at hwrite
    have htake := congrArg (List.take 4) hwrite
    rw [List.take_left' (Memory.length_read _ _ _), List.take_append_of_le_length hge] at htake
    apply strAt_of_full _ (hfirst.trans htake)
    intro hmem
    exact hkey (List.mem_of_mem_take hmem)

/-- A string or the key of a text without a zero byte. -/
def Value.ZeroFree : Value → Prop
  | chars s => 0 ∉ s
  | texts key => 0 ∉ key
  | _ => True

/-- What is read back of a value that has been copied to a column. -/
def shown (texts : Nat → Str) (field : FieldMeta) : Value → Option Value
  | .chars s => some (.chars (s.take field.len))
  | .texts key => if key.length ≤ 3 then some (.chars (texts (TableMeta.atoi key))) else none
  | value => some value

/-- A column is read back when its bytes and its bit are found. -/
theorem cellAt_copied {table : TableMeta} {bitmap : FieldMeta} {texts : Nat → Str} {after : Bytes}
    {index : Nat} (hfield : table.fields[index]? = some field)
    (hbitmap : table.nullBitmapField = some bitmap)
    (hbit : Bitmap.getBit (fun i => record (bitmap.offset + i)) index = decide (value = .nulls))
    (htype : field.type.Plain ∨ field.type = .texts) (hroom : Roomy field)
    (haccepts : accepts field value = true) (hzero : value.ZeroFree)
    (hcopied : ∀ j (hj : j < (copied field value after).length),
      record (field.offset + j) = (copied field value after)[j]) :
  table.cellAt texts record index = (shown texts field value).map .ok
  := by
  rw [TableMeta.cellAt, hfield, hbitmap]
  simp only [hbit, decide_eq_true_eq]
  obtain rfl | hne := eq_or_ne value .nulls
  · rw [if_pos rfl]
    rfl
  rw [if_neg hne]
  have heq : field.type = value.attrType := by
    simp only [accepts, decide_eq_true_eq] at haccepts
    obtain ⟨hnull, _⟩ | heq := haccepts
    · cases value <;> first | exact absurd rfl hne | cases hnull
    · apply heq
  have hnum : ∀ n, field.type ≠ .chars → value.content = numBytes n →
      numAt record field.offset = n :=
    fun n hchars hcontent => numAt_copied hne hchars hcontent (hroom hchars) hcopied
  cases value with
  | chars s =>
    rw [if_neg (by rw [heq]; simp [Value.attrType]), heq]
    change some (Except.ok (Value.chars (strAt record field.offset field.len))) = _
    rw [strAt_copied heq hzero hcopied]
    rfl
  | texts key =>
    have hchars : field.type ≠ .chars := by simp [heq, Value.attrType]
    rw [if_pos (show field.type = .texts from heq), strAt_copied_text heq hzero (hroom hchars) hcopied, shown, List.length_take]
    obtain hle | hgt := Nat.lt_or_ge 3 key.length
    · rw [if_neg (by omega), if_neg (by omega)]
      rfl
    · rw [if_pos (by omega), if_pos (by omega), List.take_of_length_le (by omega)]
      rfl
  | ints n =>
    rw [if_neg (by simp [heq, Value.attrType]), heq]
    change some (Except.ok (Value.ints (numAt record field.offset))) = _
    rw [hnum n (by simp [heq, Value.attrType]) rfl]
    rfl
  | floats n =>
    rw [if_neg (by simp [heq, Value.attrType]), heq]
    change some (Except.ok (Value.floats (numAt record field.offset))) = _
    rw [hnum n (by simp [heq, Value.attrType]) rfl]
    rfl
  | dates n =>
    rw [if_neg (by simp [heq, Value.attrType]), heq]
    change some (Except.ok (Value.dates (numAt record field.offset))) = _
    rw [hnum n (by simp [heq, Value.attrType]) rfl]
    rfl
  | undefined =>
    rw [heq] at htype
    obtain (h | h | h | h) | h := htype <;> cases h
  | booleans b =>
    rw [heq] at htype
    obtain (h | h | h | h) | h := htype <;> cases h
  | nulls => exact absurd rfl hne

theorem Fits.accepts (hfits : Fits field value) : accepts field value = true := by
  obtain ⟨rfl, hnullable⟩ | ⟨htype, _⟩ := hfits
  · simp [Sql.accepts, Value.attrType, hnullable]
  · simp [Sql.accepts, htype]

/-- A value that fits into its column is read back. -/
theorem Fits.shown (hfits : Fits field value) (hplain : field.type.Plain) (texts : Nat → Str) :
  value.ZeroFree ∧ shown texts field value = some value
  := by
  obtain ⟨rfl, _⟩ | ⟨htype, hchars⟩ := hfits
  · exact ⟨trivial, rfl⟩
  cases value with
  | chars s =>
    obtain ⟨hlen, hs⟩ := hchars s rfl
    refine ⟨hs, ?_⟩
    rw [Sql.shown, List.take_of_length_le hlen]
  | texts key =>
    rw [← htype] at hplain
    obtain h | h | h | h := hplain <;> cases h
  | ints n => exact ⟨trivial, rfl⟩
  | floats n => exact ⟨trivial, rfl⟩
  | dates n => exact ⟨trivial, rfl⟩
  | booleans b => exact ⟨trivial, rfl⟩
  | undefined => exact ⟨trivial, rfl⟩
  | nulls => exact ⟨trivial, rfl⟩

/-! ### Records of a schema -/

/-- One value for each column, which can be stored there. -/
structure Matches (columns : List FieldMeta) (values : List Value) : Prop where
  length : values.length = columns.length
  fits : ∀ (k : Nat) field value, columns[k]? = some field → values[k]? = some value →
    Fits field value

/-- The record is made, and each column is read back as it was given. -/
def RoundTrips (table : TableMeta) (texts : Nat → Str) (values : List Value) (memory : Memory) :
    Prop :=
  ∃ record, table.makeRecord values memory = some (.ok record)
    ∧ ∀ k value, values[k]? = some value →
      table.cellAt texts record (table.sysFieldNum + k) = some (.ok value)

/-- The bitmap has a bit for every field, every column has room for the values of its type, and
the size of the records is an integer. -/
structure Sound (table : TableMeta) : Prop where
  fields_le : table.fields.length ≤ 32
  roomy : ∀ field ∈ table.columns, Roomy field
  size_lt : size table.fields < 2 ^ 31

/-- The record that `make_record` leaves in the memory. -/
def recordOf (table : TableMeta) (bitmap : FieldMeta) (values : List Value) (memory : Memory) :
    Bytes :=
  Memory.write (copyValues memory.after 0 table.columns values memory.fresh) bitmap.offset
    (Memory.read (setNullBits table.sysFieldNum values fun _ => 0) 0 4)

theorem Laid.le_offset (hlaid : Laid start fields stop) (hfield : fields[k]? = some field) :
  start ≤ field.offset
  := by
  induction fields generalizing start k with
  | nil => cases hfield
  | cons first fields ih =>
    obtain ⟨hoffset, _, hrest⟩ := hlaid
    cases k with
    | zero =>
      cases hfield
      omega
    | succ k =>
      have hle := ih hrest hfield
      omega

/-- The types of all values agree with those of the columns. -/
theorem all_accepts_iff :
  (List.zipWith accepts fields values).all id = true
    ↔ ∀ (k : Nat) field value, fields[k]? = some field → values[k]? = some value →
      accepts field value = true
  := by
  rw [List.all_eq_true]
  constructor
  · intro h k field value hfield hvalue
    apply h (accepts field value) (List.mem_iff_getElem?.mpr ⟨k, ?_⟩)
    rw [List.getElem?_zipWith, hfield, hvalue]
  · intro h b hb
    obtain ⟨k, hk⟩ := List.mem_iff_getElem?.mp hb
    rw [List.getElem?_zipWith] at hk
    cases hfield : fields[k]? with
    | none => simp [hfield] at hk
    | some field =>
      cases hvalue : values[k]? with
      | none => simp [hfield, hvalue] at hk
      | some value =>
        simp only [hfield, hvalue, Option.some.injEq] at hk
        rw [← hk]
        apply h k field value hfield hvalue

section Layout

variable {table : TableMeta} {attributes : List AttrInfo} {trx : List FieldMeta}
  {bitmap : FieldMeta} {memory : Memory} {texts : Nat → Str}

namespace TableMeta.Layout

theorem length_fields (hlayout : table.Layout attributes trx bitmap) :
  table.fields.length = table.sysFieldNum + table.columns.length
  := by
  rw [hlayout.fields, hlayout.sysFieldNum, List.length_append, List.length_cons]
  omega

theorem nullBitmapField (hlayout : table.Layout attributes trx bitmap) :
  table.nullBitmapField = some bitmap
  := by
  rw [TableMeta.nullBitmapField, hlayout.sysFieldNum, Nat.add_sub_cancel, hlayout.fields,
    List.getElem?_append_right (Nat.le_refl _), Nat.sub_self]
  rfl

theorem getElem?_column (table : TableMeta) (k : Nat) :
  table.fields[table.sysFieldNum + k]? = table.columns[k]?
  := by
  rw [TableMeta.columns, List.getElem?_drop]

theorem makeRecord_of_accepts (hlayout : table.Layout attributes trx bitmap)
    (hlength : values.length = table.columns.length)
    (haccepts : (List.zipWith accepts table.columns values).all id = true) (memory : Memory) :
  table.makeRecord values memory
    = if table.recordSize < 0 then none else some (.ok (recordOf table bitmap values memory))
  := by
  have hcount : values.length + table.sysFieldNum = table.fields.length := by
    rw [hlayout.length_fields, hlength, Nat.add_comm]
  rw [TableMeta.makeRecord, if_neg (not_not.mpr hcount), haccepts, if_neg (by decide),
    hlayout.nullBitmapField]
  rfl

theorem makeRecord_eq (hlayout : table.Layout attributes trx bitmap)
    (hmatches : Matches table.columns values) (memory : Memory) :
  table.makeRecord values memory
    = if table.recordSize < 0 then none else some (.ok (recordOf table bitmap values memory))
  := by
  apply hlayout.makeRecord_of_accepts hmatches.length
  rw [all_accepts_iff]
  intro k field value hfield hvalue
  apply (hmatches.fits k field value hfield hvalue).accepts

end TableMeta.Layout

/-- The bit of a column in a record, as far as the bitmap reaches. -/
theorem getBit_recordOf (hk : table.sysFieldNum + k < 32) :
  Bitmap.getBit (fun i => recordOf table bitmap values memory (bitmap.offset + i))
      (table.sysFieldNum + k)
    = decide (values[k]? = some .nulls)
  := by
  have hbyte : recordOf table bitmap values memory
        (bitmap.offset + (table.sysFieldNum + k) / 8)
      = setNullBits table.sysFieldNum values (fun _ => 0) ((table.sysFieldNum + k) / 8) := by
    rw [recordOf, Memory.write_add (by rw [Memory.length_read]; omega), Memory.getElem_read,
      Nat.zero_add]
  have hbit := getBit_setNullBits values table.sysFieldNum (fun _ => 0) (table.sysFieldNum + k)
  rw [Nat.add_sub_cancel_left] at hbit
  rw [Bitmap.getBit, hbyte, ← Bitmap.getBit, hbit]
  simp [Bitmap.getBit]

/-- The first field of a record, which is a system field, is never `NULL`. -/
theorem cellAt_first (hlayout : table.Layout attributes trx bitmap)
    (hfield : table.fields.head? = some field) (htype : field.type = .ints) :
  ∃ n, table.cellAt texts (recordOf table bitmap values memory) 0 = some (.ok (.ints n))
  := by
  have hbyte : recordOf table bitmap values memory (bitmap.offset + 0 / 8)
      = setNullBits table.sysFieldNum values (fun _ => 0) (0 / 8) := by
    rw [recordOf, Memory.write_add (by rw [Memory.length_read]; omega), Memory.getElem_read,
      Nat.zero_add]
  have hbit : Bitmap.getBit (fun i => recordOf table bitmap values memory (bitmap.offset + i)) 0
      = false := by
    have hnulls := getBit_setNullBits values table.sysFieldNum (fun _ => 0) 0
    rw [Bitmap.getBit, hbyte, ← Bitmap.getBit, hnulls]
    simp [Bitmap.getBit, hlayout.sysFieldNum]
  rw [List.head?_eq_getElem?] at hfield
  rw [TableMeta.cellAt, hfield, hlayout.nullBitmapField]
  dsimp only
  rw [hbit, htype]
  exact ⟨_, rfl⟩

/-- The bytes of a column in a record. -/
theorem recordOf_at (hlayout : table.Layout attributes trx bitmap)
    (hsize : size table.fields < 2 ^ 31) (hfield : table.columns[k]? = some field)
    (hvalue : values[k]? = some value)
    (hj : j < (copied field value (memory.after k)).length) :
  recordOf table bitmap values memory (field.offset + j)
    = (copied field value (memory.after k))[j]
  := by
  have hlaid := hlayout.laid hsize
  have hle := hlaid.le_offset hfield
  rw [recordOf, Memory.write_ge (by rw [Memory.length_read]; omega)]
  have hcopy := @copyValues_at (j := j) _ _ _ _ memory.after memory.fresh _ _ 0 k hlaid hfield
    hvalue
  simp only [Nat.zero_add] at hcopy
  apply hcopy hj

/-- The cells of a record of a sound schema. -/
theorem Sound.cellAt (hsound : Sound table) (hlayout : table.Layout attributes trx bitmap)
    (hfield : table.columns[k]? = some field) (hvalue : values[k]? = some value)
    (htype : field.type.Plain ∨ field.type = .texts) (haccepts : accepts field value = true)
    (hzero : value.ZeroFree) :
  table.cellAt texts (recordOf table bitmap values memory) (table.sysFieldNum + k)
    = (shown texts field value).map .ok
  := by
  have hlength := hlayout.length_fields
  have hk := (List.getElem?_eq_some_iff.mp hfield).1
  have hle := hsound.fields_le
  have hbit := @getBit_recordOf values k table bitmap memory (by omega)
  rw [hvalue] at hbit
  simp only [Option.some.injEq] at hbit
  rw [← TableMeta.Layout.getElem?_column] at hfield
  apply cellAt_copied hfield hlayout.nullBitmapField hbit htype
    (hsound.roomy field (List.mem_of_getElem? (TableMeta.Layout.getElem?_column table k ▸ hfield)))
    haccepts hzero
  intro j hj
  rw [TableMeta.Layout.getElem?_column] at hfield
  apply recordOf_at hlayout hsound.size_lt hfield hvalue hj

/-- Records of a sound schema are read back. -/
theorem Sound.roundTrips (hsound : Sound table) (hlayout : table.Layout attributes trx bitmap)
    (hplain : ∀ field ∈ table.columns, field.type.Plain)
    (hmatches : Matches table.columns values) :
  RoundTrips table texts values memory
  := by
  have hnonneg := hlayout.recordSize.mpr hsound.size_lt
  refine ⟨recordOf table bitmap values memory, ?_, ?_⟩
  · rw [hlayout.makeRecord_eq hmatches, if_neg (by omega)]
  intro k value hvalue
  have hk : k < table.columns.length := by
    rw [← hmatches.length]
    exact (List.getElem?_eq_some_iff.mp hvalue).1
  have hfield := List.getElem?_eq_getElem hk
  have hfits := hmatches.fits k _ value hfield hvalue
  have hplain' := hplain _ (List.getElem_mem hk)
  obtain ⟨hzero, hshown⟩ := hfits.shown hplain' texts
  rw [hsound.cellAt hlayout hfield hvalue (.inl hplain') hfits.accepts hzero, hshown]
  rfl

/-! ### Schemas whose records are not read back -/

/-- A value of the type of a column: a number, or a string that fills the column. -/
def sample (n : BitVec 32) (b : BitVec 8) (field : FieldMeta) : Value :=
  match field.type with
  | .chars => .chars (List.replicate field.len b)
  | .ints => .ints n
  | .floats => .floats n
  | .dates => .dates n
  | _ => .nulls

variable {n : BitVec 32} {b : BitVec 8}

theorem sample_ne_nulls (hplain : field.type.Plain) (n : BitVec 32) (b : BitVec 8) :
  sample n b field ≠ .nulls
  := by
  obtain h | h | h | h := hplain <;> simp [sample, h]

theorem fits_sample (hplain : field.type.Plain) (n : BitVec 32) (hb : b ≠ 0) :
  Fits field (sample n b field)
  := by
  right
  obtain h | h | h | h := hplain
  · rw [sample, h]
    refine ⟨rfl, ?_⟩
    rintro s heq
    cases heq
    refine ⟨by rw [List.length_replicate], ?_⟩
    intro hmem
    exact hb (List.eq_of_mem_replicate hmem).symm
  · simp [sample, h, Value.attrType]
  · simp [sample, h, Value.attrType]
  · simp [sample, h, Value.attrType]

/-- The content of a number. -/
theorem content_sample (hplain : field.type.Plain) (hchars : field.type ≠ .chars)
    (n : BitVec 32) (b : BitVec 8) :
  (sample n b field).content = numBytes n
  := by
  obtain h | h | h | h := hplain
  · exact absurd h hchars
  · simp [sample, h, Value.content]
  · simp [sample, h, Value.content]
  · simp [sample, h, Value.content]

theorem matches_sample (hplain : ∀ field ∈ fields, field.type.Plain) (n : BitVec 32)
    (hb : b ≠ 0) :
  Matches fields (fields.map (sample n b))
  := by
  refine ⟨List.length_map _, ?_⟩
  intro k field value hfield hvalue
  rw [List.getElem?_map, hfield] at hvalue
  cases hvalue
  apply fits_sample (hplain field (List.mem_of_getElem? hfield)) n hb

/-- Copying bytes of one kind into memory of this kind. -/
theorem copyValues_const (hrecord : ∀ j, record j = b)
    (hcopied : ∀ (k : Nat) field value, fields[k]? = some field → values[k]? = some value →
      ∀ x ∈ copied field value (after (i + k)), x = b) (j : Nat) :
  copyValues after i fields values record j = b
  := by
  induction fields generalizing i values record with
  | nil =>
    cases values <;> apply hrecord
  | cons field fields ih =>
    cases values with
    | nil => apply hrecord
    | cons value values =>
      rw [copyValues]
      apply ih
      · intro j
        obtain heq | hmem := Memory.write_cases record field.offset (copied field value (after i)) j
        · rw [heq, hrecord]
        · apply hcopied 0 field value rfl rfl _ hmem
      · intro k field value hfield hvalue
        have h := hcopied (k + 1) field value hfield hvalue
        rwa [← Nat.add_assoc, Nat.add_right_comm] at h

/-- The bytes of a full string and of the number whose bits are all set. -/
theorem copied_ones (hplain : field.type.Plain) :
  ∀ x ∈ copied field (sample (BitVec.allOnes 32) 255 field) (fun _ => 255), x = 255
  := by
  intro x hx
  have hne := sample_ne_nulls hplain (BitVec.allOnes 32) 255
  obtain hchars | hchars := eq_or_ne field.type .chars
  · have hsample : sample (BitVec.allOnes 32) 255 field = .chars (List.replicate field.len 255) := by
      rw [sample, hchars]
    have hlt : ¬ (Value.chars (List.replicate field.len 255)).length < field.len := by
      change ¬ (List.replicate field.len (255 : BitVec 8)).length < field.len
      rw [List.length_replicate]
      omega
    rw [hsample, copied, if_neg (by simp), if_neg (fun h => hlt h.2)] at hx
    obtain ⟨j, hj, rfl⟩ := List.mem_iff_getElem.mp hx
    rw [Memory.length_read] at hj
    rw [Memory.getElem_read, Nat.zero_add, data_of_lt (by simp [Value.content]; omega)]
    simp [Value.content, hj]
  · rw [copied_of_ne hne hchars] at hx
    obtain ⟨j, hj, rfl⟩ := List.mem_iff_getElem.mp hx
    rw [Memory.getElem_read, Nat.zero_add, Value.data, content_sample hplain hchars]
    have hones : ∀ x ∈ numBytes (BitVec.allOnes 32), x = 255 := by decide
    obtain heq | hmem := Memory.write_cases (fun _ => 255) 0 (numBytes (BitVec.allOnes 32)) j
    · apply heq
    · apply hones _ hmem

/-- Two numbers that differ in the last byte only leave the same bytes in a short column. -/
theorem copied_short (hplain : field.type.Plain) (hchars : field.type ≠ .chars)
    (hlen : field.len < 4) (after : Bytes) :
  copied field (sample 0x1000000 1 field) after = copied field (sample 0 1 field) after
  := by
  rw [copied_of_ne (sample_ne_nulls hplain _ _) hchars,
    copied_of_ne (sample_ne_nulls hplain _ _) hchars]
  apply Memory.read_congr
  intro j hj
  have hlt : ∀ n : BitVec 32, 0 + j < (sample n 1 field).content.length := by
    intro n
    rw [content_sample hplain hchars]
    change 0 + j < 4
    omega
  rw [data_of_lt (hlt _), data_of_lt (hlt _)]
  simp only [content_sample hplain hchars]
  obtain rfl | rfl | rfl : j = 0 ∨ j = 1 ∨ j = 2 := by omega
  · rfl
  · rfl
  · rfl

/-- Values that are copied alike leave the same record. -/
theorem copyValues_congr {values' : List Value} (hlength : values.length = values'.length)
    (hcopied : ∀ (k : Nat) field value value', fields[k]? = some field → values[k]? = some value →
      values'[k]? = some value' →
      copied field value (after (i + k)) = copied field value' (after (i + k))) :
  copyValues after i fields values record = copyValues after i fields values' record
  := by
  induction fields generalizing i values values' record with
  | nil => cases values <;> cases values' <;> rfl
  | cons field fields ih =>
    cases values with
    | nil =>
      cases values' with
      | nil => rfl
      | cons value' values' => cases hlength
    | cons value values =>
      cases values' with
      | nil => cases hlength
      | cons value' values' =>
        have hfirst := hcopied 0 field value value' rfl rfl rfl
        rw [Nat.add_zero] at hfirst
        rw [copyValues, copyValues, hfirst]
        apply ih (Nat.succ.inj hlength)
        intro k field value value' hfield hvalue hvalue'
        have h := hcopied (k + 1) field value value' hfield hvalue hvalue'
        rwa [← Nat.add_assoc, Nat.add_right_comm] at h

theorem setNullBits_congr {values' : List Value} (hlength : values.length = values'.length)
    (hnull : ∀ (k : Nat) value value', values[k]? = some value → values'[k]? = some value' →
      (value = .nulls ↔ value' = .nulls)) (i : Nat) (bits : Bytes) :
  setNullBits i values bits = setNullBits i values' bits
  := by
  induction values generalizing values' i bits with
  | nil =>
    cases values' with
    | nil => rfl
    | cons value' values' => cases hlength
  | cons value values ih =>
    cases values' with
    | nil => cases hlength
    | cons value' values' =>
      have hfirst := hnull 0 value value' rfl rfl
      rw [setNullBits, setNullBits]
      simp only [hfirst]
      apply ih (Nat.succ.inj hlength)
      intro k value value' hvalue hvalue'
      apply hnull (k + 1) value value' hvalue hvalue'

/-- All values of the schema are read back. -/
def AlwaysRoundTrips (table : TableMeta) (texts : Nat → Str) : Prop :=
  ∀ values memory, Matches table.columns values → RoundTrips table texts values memory

/-- The size of the records is an integer when they are made. -/
theorem size_of_roundTrips (hlayout : table.Layout attributes trx bitmap)
    (hmatches : Matches table.columns values) (h : RoundTrips table texts values memory) :
  size table.fields < 2 ^ 31
  := by
  obtain ⟨record, hrecord, _⟩ := h
  rw [hlayout.makeRecord_eq hmatches] at hrecord
  split at hrecord
  · cases hrecord
  · rename_i hsize
    apply hlayout.recordSize.mp (not_lt.mp hsize)

/-- The cells of a record that has been made. -/
theorem cellAt_of_roundTrips (hlayout : table.Layout attributes trx bitmap)
    (hmatches : Matches table.columns values) (h : RoundTrips table texts values memory)
    (hvalue : values[k]? = some value) :
  table.cellAt texts (recordOf table bitmap values memory) (table.sysFieldNum + k)
    = some (.ok value)
  := by
  obtain ⟨record, hrecord, hcells⟩ := h
  rw [hlayout.makeRecord_eq hmatches] at hrecord
  split at hrecord
  · cases hrecord
  · cases hrecord
    apply hcells k value hvalue

/-- Past the bitmap the bit of a column is a bit of a value. -/
theorem fields_le_of_roundTrips (hlayout : table.Layout attributes trx bitmap)
    (hattributes : table.columns ≠ []) (hplain : ∀ field ∈ table.columns, field.type.Plain)
    (h : AlwaysRoundTrips table texts) :
  table.fields.length ≤ 32
  := by
  by_contra hgt
  have hlength := hlayout.length_fields
  have hpos := List.length_pos_iff.mpr hattributes
  have hk : table.columns.length - 1 < table.columns.length := by omega
  have hmatches := matches_sample hplain (BitVec.allOnes 32) (b := 255) (by decide)
  have hvalue : (table.columns.map (sample (BitVec.allOnes 32) 255))[table.columns.length - 1]?
      = some (sample (BitVec.allOnes 32) 255 table.columns[table.columns.length - 1]) := by
    rw [List.getElem?_map, List.getElem?_eq_getElem hk]
    rfl
  have hcell := cellAt_of_roundTrips hlayout hmatches
    (h _ ⟨fun _ => 255, fun _ _ => 255⟩ hmatches) hvalue
  have hbyte : recordOf table bitmap (table.columns.map (sample (BitVec.allOnes 32) 255))
      ⟨fun _ => 255, fun _ _ => 255⟩
      (bitmap.offset + (table.sysFieldNum + (table.columns.length - 1)) / 8) = 255 := by
    rw [recordOf, Memory.write_ge (by rw [Memory.length_read]; omega)]
    apply copyValues_const (fun _ => rfl)
    intro k field value hfield hvalue
    rw [List.getElem?_map, hfield] at hvalue
    cases hvalue
    apply copied_ones (hplain field (List.mem_of_getElem? hfield))
  have hbit : Bitmap.getBit (fun i => recordOf table bitmap
      (table.columns.map (sample (BitVec.allOnes 32) 255)) ⟨fun _ => 255, fun _ _ => 255⟩
      (bitmap.offset + i)) (table.sysFieldNum + (table.columns.length - 1)) = true := by
    have hones : ∀ i < 8, (255 : BitVec 8).getLsbD i = true := by decide
    rw [Bitmap.getBit, hbyte]
    apply hones _ (Nat.mod_lt _ (by decide))
  rw [TableMeta.cellAt, TableMeta.Layout.getElem?_column, List.getElem?_eq_getElem hk,
    hlayout.nullBitmapField] at hcell
  simp only [hbit, if_true, Option.some.injEq, Except.ok.injEq] at hcell
  exact sample_ne_nulls (hplain _ (List.getElem_mem hk)) _ _ hcell.symm

/-- A number does not fit into less than four bytes. -/
theorem roomy_of_roundTrips (hlayout : table.Layout attributes trx bitmap)
    (hplain : ∀ field ∈ table.columns, field.type.Plain) (h : AlwaysRoundTrips table texts)
    {field : FieldMeta} (hmem : field ∈ table.columns) :
  Roomy field
  := by
  intro hchars
  by_contra hlt
  obtain ⟨k, hk, rfl⟩ := List.mem_iff_getElem.mp hmem
  have hplain' := hplain _ hmem
  -- The values of the column differ, and the other values are the same.
  let given := fun n => (table.columns.map (sample 0 1)).set k (sample n 1 table.columns[k])
  have hgiven : ∀ n, (given n)[k]? = some (sample n 1 table.columns[k]) := by
    intro n
    apply List.getElem?_set_self
    rwa [List.length_map]
  have hother : ∀ n k', k' ≠ k → (given n)[k']? = (table.columns.map (sample 0 1))[k']? :=
    fun n k' hne => List.getElem?_set_ne hne.symm
  have hmatches : ∀ n, Matches table.columns (given n) := by
    intro n
    have hbase := matches_sample hplain 0 (b := 1) (by decide)
    refine ⟨by rw [List.length_set, hbase.length], ?_⟩
    intro k' field value hfield hvalue
    obtain rfl | hne := eq_or_ne k' k
    · rw [hgiven] at hvalue
      rw [List.getElem?_eq_getElem hk] at hfield
      cases hfield
      cases hvalue
      apply fits_sample hplain' n (by decide)
    · rw [hother n k' hne] at hvalue
      apply hbase.fits k' field value hfield hvalue
  have hlength : (given 0x1000000).length = (given 0).length := by
    rw [(hmatches _).length, (hmatches _).length]
  let memory : Memory := ⟨fun _ => 0, fun _ _ => 0⟩
  have hsame : recordOf table bitmap (given 0x1000000) memory
      = recordOf table bitmap (given 0) memory := by
    have hcopy : copyValues memory.after 0 table.columns (given 0x1000000) memory.fresh
        = copyValues memory.after 0 table.columns (given 0) memory.fresh := by
      apply copyValues_congr hlength
      intro k' field value value' hfield hvalue hvalue'
      obtain rfl | hne := eq_or_ne k' k
      · rw [hgiven] at hvalue hvalue'
        rw [List.getElem?_eq_getElem hk] at hfield
        cases hfield
        cases hvalue
        cases hvalue'
        apply copied_short hplain' hchars (not_le.mp hlt)
      · rw [hother _ k' hne] at hvalue hvalue'
        rw [hvalue] at hvalue'
        cases hvalue'
        rfl
    have hnull : setNullBits table.sysFieldNum (given 0x1000000) (fun _ => 0)
        = setNullBits table.sysFieldNum (given 0) (fun _ => 0) := by
      apply setNullBits_congr hlength
      intro k' value value' hvalue hvalue'
      obtain rfl | hne := eq_or_ne k' k
      · rw [hgiven] at hvalue hvalue'
        cases hvalue
        cases hvalue'
        simp only [sample_ne_nulls hplain']
      · rw [hother _ k' hne] at hvalue hvalue'
        rw [hvalue] at hvalue'
        cases hvalue'
        rfl
    rw [recordOf, recordOf, hcopy, hnull]
  have hcell := cellAt_of_roundTrips hlayout (hmatches 0x1000000)
    (h _ memory (hmatches 0x1000000)) (hgiven 0x1000000)
  have hcell' := cellAt_of_roundTrips hlayout (hmatches 0) (h _ memory (hmatches 0)) (hgiven 0)
  rw [hsame, hcell'] at hcell
  have hcontent := congrArg Value.content (Except.ok.inj (Option.some.inj hcell))
  rw [content_sample hplain' hchars, content_sample hplain' hchars] at hcontent
  revert hcontent
  decide

end Layout

/-- All values of a schema are read back from their records if and only if the bitmap has a bit
for every field, every number has four bytes, and the size of the records is an integer. -/
theorem roundTrips_iff {tableId : Int} {name : String} {trxFields : List FieldMeta}
    {attributes : List AttrInfo} {table : TableMeta}
    (hinit : TableMeta.init tableId name trxFields attributes = .ok table)
    (hplain : ∀ attr ∈ attributes, attr.type.Plain) (texts : Nat → Str) :
  AlwaysRoundTrips table texts ↔ Sound table
  := by
  obtain ⟨trx, bitmap, hlayout⟩ := TableMeta.init_ok hinit
  have hcolumns : ∀ field ∈ table.columns, field.type.Plain := by
    intro field hmem
    obtain ⟨attr, hattr, hdeclared⟩ := Declared.of_mem hlayout.declared hmem
    rw [hdeclared.type]
    apply hplain attr hattr
  constructor
  · intro h
    have hmatches := matches_sample hcolumns 0 (b := 1) (by decide)
    exact {
      fields_le := fields_le_of_roundTrips hlayout hlayout.columns_ne_nil hcolumns h
      roomy := fun field hmem => roomy_of_roundTrips hlayout hcolumns h hmem
      size_lt := size_of_roundTrips hlayout hmatches
        (h _ ⟨fun _ => 0, fun _ _ => 0⟩ hmatches) }
  · intro hsound values memory hmatches
    apply hsound.roundTrips hlayout hcolumns hmatches

/-- A table of a number and a string that may be `NULL`, with the fields of a transaction. -/
def pairTable : TableMeta where
  tableId := 1
  name := "t"
  fields := [⟨"__trx_xid_begin", .ints, 0, 4, false, false⟩,
    ⟨"__trx_xid_end", .ints, 4, 4, false, false⟩, ⟨"__null_bitmap", .ints, 8, 4, false, false⟩,
    ⟨"id", .ints, 12, 4, true, false⟩, ⟨"name", .chars, 16, 3, true, true⟩]
  sysFieldNum := 3
  recordSize := 19

theorem roundTrips_iff_pair : AlwaysRoundTrips pairTable (fun _ => []) := by
  have hinit : TableMeta.init 1 "t" [⟨"__trx_xid_begin", .ints, 0, 4, false, false⟩,
      ⟨"__trx_xid_end", .ints, 4, 4, false, false⟩]
      [⟨"id", .ints, 4, false⟩, ⟨"name", .chars, 3, true⟩] = .ok pairTable := by decide
  have hplain : ∀ attr ∈ [(⟨"id", .ints, 4, false⟩ : AttrInfo), ⟨"name", .chars, 3, true⟩],
      attr.type.Plain := by simp [AttrType.Plain]
  apply (roundTrips_iff hinit hplain fun _ => []).mpr
  refine ⟨by decide, ?_, by decide⟩
  simp [pairTable, TableMeta.columns, Roomy]

/-- A table of 32 numbers. -/
def wideTable : TableMeta where
  tableId := 1
  name := "t"
  fields := ⟨"__null_bitmap", .ints, 0, 4, false, false⟩
    :: (List.range 32).map fun i => ⟨"c", .ints, 4 + 4 * i, 4, true, false⟩
  sysFieldNum := 1
  recordSize := 132

/-- In a table of 32 numbers the last one is read as `NULL` when the first one is odd. -/
theorem wideTable_null :
  TableMeta.init 1 "t" [] (List.replicate 32 ⟨"c", .ints, 4, false⟩) = .ok wideTable
    ∧ Matches wideTable.columns (List.replicate 32 (.ints 1))
    ∧ (∃ record,
      wideTable.makeRecord (List.replicate 32 (.ints 1)) ⟨fun _ => 0, fun _ _ => 0⟩
        = some (.ok record)
      ∧ wideTable.cellAt (fun _ => []) record 32 = some (.ok .nulls))
    ∧ ¬ AlwaysRoundTrips wideTable fun _ => []
  := by
  have hmatches : Matches wideTable.columns (List.replicate 32 (.ints 1)) := by
    refine ⟨by decide, ?_⟩
    intro k field value hfield hvalue
    have htype : ∀ field ∈ wideTable.columns, field.type = .ints := by decide
    rw [List.eq_of_mem_replicate (List.mem_of_getElem? hvalue)]
    right
    rw [htype field (List.mem_of_getElem? hfield)]
    refine ⟨rfl, ?_⟩
    intro s hs
    cases hs
  refine ⟨by decide, hmatches, ⟨_, rfl, rfl⟩, ?_⟩
  intro h
  obtain ⟨record, hrecord, hcells⟩ := h _ ⟨fun _ => 0, fun _ _ => 0⟩ hmatches
  have hcell := hcells 31 (.ints 1) (by decide)
  cases hrecord
  cases hcell

end MiniOB.Sql
