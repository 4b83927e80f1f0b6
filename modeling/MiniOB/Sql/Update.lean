import MiniOB.Sql.Row

/-!
# The records of an update

`UpdateRecordMaker` of `sql/operator/update_record_maker.cpp`: the record of a row in which some
columns have been given new values. The new values come in the order of the statement, the
columns in the order of the table.
-/

namespace MiniOB.Sql

namespace TableMeta

/-- `RowTuple::find_cell` with the name of the table. -/
def findCell (table : TableMeta) (texts : Nat → Str) (record : Bytes) (fieldName : String) :
    Option (Except RC Value) :=
  match table.fields.findIdx? fun field => field.name = fieldName with
  | some i => table.cellAt texts record i
  | none => some (.error .notfound)

end TableMeta

/-- `update_field_order_` after `UpdateRecordMaker::init`: the numbers of the fields to be
updated, as they come in the table. -/
def updateFieldOrder (table : TableMeta) (fields : List FieldMeta) : List Nat :=
  (List.range' table.sysFieldNum table.columns.length).filter fun i =>
    match table.fields[i]? with
    | some cur => fields.any fun field => field.name = cur.name
    | none => false

/-- The value that `UpdateRecordMaker::update` takes for the field `i`: a new value, or the one
that the row has. -/
def columnValue (order : List Nat) (newValues : List Value)
    (getValue : String → Option (Except RC Value)) (i : Nat) (field : FieldMeta) :
    Option (Except RC Value) :=
  match order.findIdx? fun j => j = i with
  | some j => newValues[j]?.map Except.ok
  | none => getValue field.name

/-- The loop of `UpdateRecordMaker::update` over the columns from the field `i` on. -/
def columnValues (order : List Nat) (newValues : List Value)
    (getValue : String → Option (Except RC Value)) :
    Nat → List FieldMeta → Option (Except RC (List Value))
  | _, [] => some (.ok [])
  | i, field :: fields =>
    match columnValue order newValues getValue i field with
    | none => none
    | some (.error rc) => some (.error rc)
    | some (.ok value) =>
      match columnValues order newValues getValue (i + 1) fields with
      | some (.ok values) => some (.ok (value :: values))
      | other => other

/-- `UpdateRecordMaker::update`. -/
def UpdateRecordMaker.update (table : TableMeta) (fields : List FieldMeta) (texts : Nat → Str)
    (record : Bytes) (newValues : List Value) (memory : Memory) : Option (Except RC Bytes) :=
  let order := updateFieldOrder table fields
  if newValues.length ≠ order.length then some (.error .invalidArgument)
  else
    match columnValues order newValues (table.findCell texts record) table.sysFieldNum table.columns
      with
    | none => none
    | some (.error rc) => some (.error rc)
    | some (.ok values) => table.makeRecord values memory

/-! ### What an update is for -/

/-- A `SET` list: numbers of columns, with values that have been converted to their types. -/
abbrev Assignments := List (Nat × Value)

/-- The columns of a `SET` list. -/
def Assignments.fields (assignments : Assignments) (table : TableMeta) : List FieldMeta :=
  assignments.filterMap fun x => table.columns[x.1]?

/-- The value that is seen in a column after it has been set: a text is seen as a string. -/
def expected (texts : Nat → Str) : Value → Value
  | .texts key => .chars (texts (TableMeta.atoi key))
  | value => value

/-- The `SET` list names different columns, and its values can be stored in them. -/
structure Assignable (table : TableMeta) (assignments : Assignments) : Prop where
  distinct : (assignments.map Prod.fst).Nodup
  storable : ∀ k value, (k, value) ∈ assignments → ∃ field, table.columns[k]? = some field
    ∧ Fits field value ∧ value.ZeroFree

/-- `NULL` is found only in columns that may be `NULL`. -/
def RowOk (table : TableMeta) (texts : Nat → Str) (record : Bytes) : Prop :=
  ∀ (k : Nat) field, table.columns[k]? = some field →
    table.cellAt texts record (table.sysFieldNum + k) = some (.ok .nulls) → field.nullable = true

/-- The update makes a record in which each column of the `SET` list has its new value, and each
other column the value it had. -/
def UpdatesRight (table : TableMeta) (texts : Nat → Str) (record : Bytes)
    (assignments : Assignments) (memory : Memory) : Prop :=
  ∃ record', UpdateRecordMaker.update table (assignments.fields table) texts record
      (assignments.map Prod.snd) memory = some (.ok record')
    ∧ (∀ k value, (k, value) ∈ assignments →
      table.cellAt texts record' (table.sysFieldNum + k) = some (.ok (expected texts value)))
    ∧ ∀ k < table.columns.length, k ∉ assignments.map Prod.fst →
      table.cellAt texts record' (table.sysFieldNum + k)
        = table.cellAt texts record (table.sysFieldNum + k)

/-- The number of columns before the column `k` that the `SET` list names. -/
def rank (assignments : Assignments) (k : Nat) : Nat :=
  (List.range k).countP fun i => i ∈ assignments.map Prod.fst

/-- The value of the `SET` list that comes to the column `k` when the named columns are taken as
they come in the table and the values as they come in the statement. -/
def positional (assignments : Assignments) (k : Nat) : Option Value :=
  (assignments.map Prod.snd)[rank assignments k]?

/-- Each named column gets a value that reads as its own. -/
def InOrder (table : TableMeta) (texts : Nat → Str) (assignments : Assignments) : Prop :=
  ∀ k value, (k, value) ∈ assignments → ∃ field other, table.columns[k]? = some field
    ∧ positional assignments k = some other ∧ accepts field other = true
    ∧ shown texts field other = some (expected texts value)

/-- The texts that are not set are `NULL`. -/
def OtherTextsNull (table : TableMeta) (texts : Nat → Str) (record : Bytes)
    (assignments : Assignments) : Prop :=
  ∀ (k : Nat) field, table.columns[k]? = some field → k ∉ assignments.map Prod.fst →
    field.type = .texts →
    table.cellAt texts record (table.sysFieldNum + k) = some (.ok .nulls)

/-! ### The order of the columns -/

section Order

variable {table : TableMeta} {attributes : List AttrInfo} {trx : List FieldMeta}
  {bitmap : FieldMeta} {assignments : Assignments} {field : FieldMeta} {k : Nat}

/-- A field is found by its name. -/
theorem findIdx?_name {fields : List FieldMeta} (hnames : (fields.map FieldMeta.name).Nodup)
    {i : Nat} (hfield : fields[i]? = some field) :
  fields.findIdx? (fun other => other.name = field.name) = some i
  := by
  obtain ⟨hi, rfl⟩ := List.getElem?_eq_some_iff.mp hfield
  rw [List.findIdx?_eq_some_iff_getElem]
  refine ⟨hi, by simp, ?_⟩
  intro j hj heq
  have hlt : j < (fields.map FieldMeta.name).length := by
    rw [List.length_map]
    omega
  have hlt' : i < (fields.map FieldMeta.name).length := by
    rw [List.length_map]
    omega
  have hname : (fields.map FieldMeta.name)[j] = (fields.map FieldMeta.name)[i] := by
    simpa using heq
  rw [hnames.getElem_inj_iff] at hname
  omega

/-- The columns of the `SET` list are those whose numbers it names. -/
theorem any_name_iff (hnames : (table.fields.map FieldMeta.name).Nodup) (hfield : table.columns[k]? = some field) :
  ((assignments.fields table).any fun other => other.name = field.name) = true
    ↔ k ∈ assignments.map Prod.fst
  := by
  rw [List.any_eq_true]
  constructor
  · rintro ⟨other, hmem, hname⟩
    obtain ⟨⟨k', value⟩, hassigned, hother⟩ := List.mem_filterMap.mp hmem
    have hname : other.name = field.name := by simpa using hname
    rw [← TableMeta.Layout.getElem?_column] at hother hfield
    have hi := findIdx?_name hnames hother
    rw [hname, findIdx?_name hnames hfield] at hi
    rw [show k = k' by simpa using hi]
    exact List.mem_map.mpr ⟨(k', value), hassigned, rfl⟩
  · intro hmem
    obtain ⟨⟨k', value⟩, hassigned, rfl⟩ := List.mem_map.mp hmem
    exact ⟨field, List.mem_filterMap.mpr ⟨(k', value), hassigned, hfield⟩, by simp⟩

theorem updateFieldOrder_eq (hnames : (table.fields.map FieldMeta.name).Nodup)
    (assignments : Assignments) :
  updateFieldOrder table (assignments.fields table)
    = (List.range' table.sysFieldNum table.columns.length).filter fun i =>
      i - table.sysFieldNum ∈ assignments.map Prod.fst
  := by
  apply List.filter_congr
  intro i hi
  rw [List.mem_range'_1] at hi
  obtain ⟨k, rfl⟩ := Nat.exists_eq_add_of_le hi.1
  have hk : k < table.columns.length := by omega
  have hfield := List.getElem?_eq_getElem hk
  rw [TableMeta.Layout.getElem?_column, hfield, Nat.add_sub_cancel_left]
  simp only
  rw [Bool.eq_iff_iff, any_name_iff hnames hfield, decide_eq_true_eq]

/-- Where a number stands among the numbers that have been filtered. -/
theorem findIdx?_filter_range' (p : Nat → Bool) (start n k : Nat) (hk : k < n) :
  ((List.range' start n).filter p).findIdx? (fun j => j = start + k)
    = if p (start + k) then some ((List.range' start k).countP p) else none
  := by
  have hsplit : List.range' start n
      = List.range' start k ++ (start + k) :: List.range' (start + k + 1) (n - k - 1) := by
    have hrest : List.range' (start + k) (n - k)
        = (start + k) :: List.range' (start + k + 1) (n - k - 1) := by
      rw [show n - k = n - k - 1 + 1 by omega, List.range'_succ, Nat.add_sub_cancel]
    have happend := @List.range'_append_1 start k (n - k)
    rw [show k + (n - k) = n by omega, hrest] at happend
    exact happend.symm
  have hbefore : ((List.range' start k).filter p).findIdx? (fun j => j = start + k) = none := by
    rw [List.findIdx?_eq_none_iff]
    intro j hj
    have hmem := List.mem_range'_1.mp (List.mem_of_mem_filter hj)
    simp
    omega
  have hafter : ((List.range' (start + k + 1) (n - k - 1)).filter p).findIdx?
      (fun j => j = start + k) = none := by
    rw [List.findIdx?_eq_none_iff]
    intro j hj
    have hmem := List.mem_range'_1.mp (List.mem_of_mem_filter hj)
    simp
    omega
  rw [hsplit, List.filter_append, List.findIdx?_append, hbefore, List.filter_cons]
  split
  · rw [List.findIdx?_cons, decide_eq_true rfl, List.countP_eq_length_filter]
    simp
  · rw [hafter]
    rfl

theorem countP_range' (assignments : Assignments) (start k : Nat) :
  (List.range' start k).countP (fun i => i - start ∈ assignments.map Prod.fst)
    = rank assignments k
  := by
  rw [List.range'_eq_map_range, List.countP_map, rank]
  apply List.countP_congr
  intro i _
  simp

/-- Where a column stands among those to be updated. -/
theorem findIdx?_updateFieldOrder (hnames : (table.fields.map FieldMeta.name).Nodup)
    (assignments : Assignments) (hk : k < table.columns.length) :
  (updateFieldOrder table (assignments.fields table)).findIdx?
      (fun j => j = table.sysFieldNum + k)
    = if k ∈ assignments.map Prod.fst then some (rank assignments k) else none
  := by
  rw [updateFieldOrder_eq hnames, findIdx?_filter_range' _ _ _ _ hk,
    Nat.add_sub_cancel_left, countP_range']
  simp only [decide_eq_true_eq]

theorem length_updateFieldOrder (hnames : (table.fields.map FieldMeta.name).Nodup)
    (hassignable : Assignable table assignments) :
  (updateFieldOrder table (assignments.fields table)).length = assignments.length
  := by
  rw [updateFieldOrder_eq hnames, ← List.countP_eq_length_filter, countP_range', rank,
    List.countP_eq_length_filter]
  have hperm : ((List.range table.columns.length).filter fun i => i ∈ assignments.map Prod.fst).Perm
      (assignments.map Prod.fst) := by
    rw [List.perm_ext_iff_of_nodup (List.nodup_range.filter _) hassignable.distinct]
    intro i
    rw [List.mem_filter, List.mem_range, decide_eq_true_eq]
    refine ⟨fun h => h.2, fun hmem => ⟨?_, hmem⟩⟩
    obtain ⟨⟨k, value⟩, hassigned, rfl⟩ := List.mem_map.mp hmem
    obtain ⟨field, hfield, _⟩ := hassignable.storable k value hassigned
    exact (List.getElem?_eq_some_iff.mp hfield).1
  rw [hperm.length_eq, List.length_map]

end Order

/-! ### The values of the new record -/

section Values

variable {order : List Nat} {newValues values : List Value}
  {getValue : String → Option (Except RC Value)} {i : Nat} {fields : List FieldMeta}

theorem columnValues_cons (field : FieldMeta) (fields : List FieldMeta) :
  columnValues order newValues getValue i (field :: fields) = some (.ok values)
    ↔ ∃ value rest, values = value :: rest
      ∧ columnValue order newValues getValue i field = some (.ok value)
      ∧ columnValues order newValues getValue (i + 1) fields = some (.ok rest)
  := by
  rw [columnValues]
  constructor
  · intro h
    split at h
    · cases h
    · cases h
    · rename_i value hvalue
      split at h
      · rename_i rest hrest
        cases h
        exact ⟨value, rest, rfl, hvalue, hrest⟩
      · rename_i hother
        exact absurd h (hother values)
  · rintro ⟨value, rest, rfl, hvalue, hrest⟩
    rw [hvalue, hrest]

/-- The values that the loop has collected. -/
theorem columnValues_ok
    (h : columnValues order newValues getValue i fields = some (.ok values)) :
  values.length = fields.length ∧ ∀ (k : Nat) field value, fields[k]? = some field →
    values[k]? = some value → columnValue order newValues getValue (i + k) field = some (.ok value)
  := by
  induction fields generalizing i values with
  | nil =>
    cases h
    refine ⟨rfl, ?_⟩
    intro k field value hfield
    cases hfield
  | cons field fields ih =>
    obtain ⟨value, rest, rfl, hvalue, hrest⟩ := (columnValues_cons field fields).mp h
    obtain ⟨hlength, hrest⟩ := ih hrest
    refine ⟨congrArg (· + 1) hlength, ?_⟩
    intro k other found hother hfound
    cases k with
    | zero =>
      cases hother
      cases hfound
      apply hvalue
    | succ k =>
      have h := hrest k other found hother hfound
      rwa [Nat.add_assoc, Nat.add_comm 1 k] at h

/-- The loop succeeds when every column has a value. -/
theorem columnValues_exists
    (h : ∀ (k : Nat) field, fields[k]? = some field →
      ∃ value, columnValue order newValues getValue (i + k) field = some (.ok value)) :
  ∃ values, columnValues order newValues getValue i fields = some (.ok values)
  := by
  induction fields generalizing i with
  | nil => exact ⟨[], rfl⟩
  | cons field fields ih =>
    obtain ⟨value, hvalue⟩ := h 0 field rfl
    have hnext : ∀ (k : Nat) other, fields[k]? = some other →
        ∃ value, columnValue order newValues getValue (i + 1 + k) other = some (.ok value) := by
      intro k other hother
      rw [Nat.add_assoc, Nat.add_comm 1 k]
      apply h (k + 1) other hother
    obtain ⟨rest, hrest⟩ := ih hnext
    exact ⟨value :: rest, (columnValues_cons field fields).mpr ⟨value, rest, rfl, hvalue, hrest⟩⟩

end Values

section Update

variable {table : TableMeta} {attributes : List AttrInfo} {trx : List FieldMeta}
  {bitmap : FieldMeta} {assignments : Assignments} {field : FieldMeta} {k : Nat}
  {texts : Nat → Str} {record record' : Bytes} {values : List Value} {value : Value}
  {memory : Memory}

theorem TableMeta.findCell_column (hnames : (table.fields.map FieldMeta.name).Nodup)
    (hfield : table.columns[k]? = some field) :
  table.findCell texts record field.name = table.cellAt texts record (table.sysFieldNum + k)
  := by
  rw [← TableMeta.Layout.getElem?_column] at hfield
  rw [TableMeta.findCell, findIdx?_name hnames hfield]

/-- What a row has in a column that is not for texts. -/
theorem cellAt_plain (hlayout : table.Layout attributes trx bitmap)
    (hfield : table.columns[k]? = some field) (hplain : field.type.Plain) :
  ∃ value, table.cellAt texts record (table.sysFieldNum + k) = some (.ok value)
    ∧ (value = .nulls ∨ value.attrType = field.type
      ∧ ∀ s, value = .chars s → s.length ≤ field.len ∧ 0 ∉ s)
  := by
  rw [← TableMeta.Layout.getElem?_column] at hfield
  rw [TableMeta.cellAt, hfield, hlayout.nullBitmapField]
  simp only
  split
  · exact ⟨.nulls, rfl, .inl rfl⟩
  obtain h | h | h | h := hplain
  · rw [h]
    refine ⟨.chars (strAt record field.offset field.len), rfl, .inr ⟨rfl, ?_⟩⟩
    rintro s heq
    cases heq
    refine ⟨?_, ?_⟩
    · have hle := (List.takeWhile_sublist (l := Memory.read record field.offset field.len)
        (· ≠ 0)).length_le
      rwa [Memory.length_read] at hle
    · intro hmem
      have hne := List.mem_takeWhile_imp hmem
      simp at hne
  · rw [h]
    exact ⟨.ints _, rfl, .inr ⟨rfl, by simp⟩⟩
  · rw [h]
    exact ⟨.floats _, rfl, .inr ⟨rfl, by simp⟩⟩
  · rw [h]
    exact ⟨.dates _, rfl, .inr ⟨rfl, by simp⟩⟩

/-- What a row has in a column for texts is `NULL` or a string. -/
theorem cellAt_texts (hlayout : table.Layout attributes trx bitmap)
    (hfield : table.columns[k]? = some field) (htype : field.type = .texts)
    (hcell : table.cellAt texts record (table.sysFieldNum + k) = some (.ok value)) :
  value = .nulls ∨ ∃ s, value = .chars s
  := by
  rw [← TableMeta.Layout.getElem?_column] at hfield
  rw [TableMeta.cellAt, hfield, hlayout.nullBitmapField] at hcell
  simp only [htype, if_true] at hcell
  split at hcell
  · cases hcell
    exact .inl rfl
  split at hcell
  · cases hcell
    exact .inr ⟨_, rfl⟩
  · cases hcell

/-- The value that comes to a column. -/
theorem columnValue_eq (hnames : (table.fields.map FieldMeta.name).Nodup)
    (hfield : table.columns[k]? = some field) :
  columnValue (updateFieldOrder table (assignments.fields table)) (assignments.map Prod.snd)
      (table.findCell texts record) (table.sysFieldNum + k) field
    = if k ∈ assignments.map Prod.fst then (positional assignments k).map .ok
      else table.cellAt texts record (table.sysFieldNum + k)
  := by
  have hk := (List.getElem?_eq_some_iff.mp hfield).1
  rw [columnValue, findIdx?_updateFieldOrder hnames assignments hk]
  split
  · rename_i j hj
    split at hj
    · rename_i hmem
      cases hj
      rw [if_pos hmem]
      rfl
    · cases hj
  · rename_i hj
    split at hj
    · cases hj
    · rename_i hmem
      rw [if_neg hmem, TableMeta.findCell_column hnames hfield]

/-! ### When an update is right -/

theorem update_eq (hnames : (table.fields.map FieldMeta.name).Nodup)
    (hassignable : Assignable table assignments) :
  UpdateRecordMaker.update table (assignments.fields table) texts record
      (assignments.map Prod.snd) memory
    = match columnValues (updateFieldOrder table (assignments.fields table))
          (assignments.map Prod.snd) (table.findCell texts record) table.sysFieldNum
          table.columns with
      | none => none
      | some (.error rc) => some (.error rc)
      | some (.ok values) => table.makeRecord values memory
  := by
  rw [UpdateRecordMaker.update, if_neg]
  rw [List.length_map, length_updateFieldOrder hnames hassignable]
  exact fun hne => hne rfl

/-- The record that an update has made. -/
theorem update_ok (hlayout : table.Layout attributes trx bitmap)
    (hnames : (table.fields.map FieldMeta.name).Nodup)
    (hassignable : Assignable table assignments)
    (h : UpdateRecordMaker.update table (assignments.fields table) texts record
      (assignments.map Prod.snd) memory = some (.ok record')) :
  ∃ values, record' = recordOf table bitmap values memory
    ∧ ∀ (k : Nat) field, table.columns[k]? = some field → ∃ value, values[k]? = some value
      ∧ accepts field value = true
      ∧ (if k ∈ assignments.map Prod.fst then (positional assignments k).map .ok
        else table.cellAt texts record (table.sysFieldNum + k)) = some (.ok value)
  := by
  rw [update_eq hnames hassignable] at h
  split at h
  · cases h
  · cases h
  rename_i values hvalues
  obtain ⟨hlength, hsource⟩ := columnValues_ok hvalues
  have haccepts := h
  rw [TableMeta.makeRecord] at haccepts
  split at haccepts
  · cases haccepts
  split at haccepts
  · cases haccepts
  rename_i hall
  have hall : (List.zipWith accepts table.columns values).all id = true := by simpa using hall
  rw [hlayout.makeRecord_of_accepts hlength hall] at h
  split at h
  · cases h
  cases h
  refine ⟨values, rfl, ?_⟩
  intro k field hfield
  have hk := (List.getElem?_eq_some_iff.mp hfield).1
  rw [← hlength] at hk
  have hvalue := List.getElem?_eq_getElem hk
  refine ⟨values[k], hvalue, all_accepts_iff.mp hall k field _ hfield hvalue, ?_⟩
  rw [← columnValue_eq hnames hfield]
  apply hsource k field _ hfield hvalue

/-- The update succeeds when every column gets a value of its type. -/
theorem update_exists (hlayout : table.Layout attributes trx bitmap) (hsound : Sound table)
    (hnames : (table.fields.map FieldMeta.name).Nodup)
    (hassignable : Assignable table assignments)
    (h : ∀ (k : Nat) field, table.columns[k]? = some field → ∃ value,
      accepts field value = true
      ∧ (if k ∈ assignments.map Prod.fst then (positional assignments k).map .ok
        else table.cellAt texts record (table.sysFieldNum + k)) = some (.ok value))
    (memory : Memory) :
  ∃ record', UpdateRecordMaker.update table (assignments.fields table) texts record
    (assignments.map Prod.snd) memory = some (.ok record')
  := by
  have hvalues : ∀ (k : Nat) field, table.columns[k]? = some field → ∃ value,
      columnValue (updateFieldOrder table (assignments.fields table)) (assignments.map Prod.snd)
        (table.findCell texts record) (table.sysFieldNum + k) field = some (.ok value) := by
    intro k field hfield
    obtain ⟨value, _, hvalue⟩ := h k field hfield
    exact ⟨value, (columnValue_eq hnames hfield).trans hvalue⟩
  obtain ⟨values, hvalues⟩ := columnValues_exists hvalues
  obtain ⟨hlength, hsource⟩ := columnValues_ok hvalues
  have hall : (List.zipWith accepts table.columns values).all id = true := by
    rw [all_accepts_iff]
    intro k field value hfield hvalue
    obtain ⟨other, haccepts, hother⟩ := h k field hfield
    have heq := hsource k field value hfield hvalue
    rw [columnValue_eq hnames hfield, hother] at heq
    cases heq
    apply haccepts
  have hnonneg := hlayout.recordSize.mpr hsound.size_lt
  refine ⟨recordOf table bitmap values memory, ?_⟩
  rw [update_eq hnames hassignable, hvalues]
  simp only
  rw [hlayout.makeRecord_of_accepts hlength hall, if_neg (by omega)]

theorem positional_mem (h : positional assignments k = some value) :
  ∃ k', (k', value) ∈ assignments
  := by
  obtain ⟨⟨k', other⟩, hmem, rfl⟩ := List.mem_map.mp (List.mem_of_getElem? h)
  exact ⟨k', hmem⟩

/-- In a list that names the columns as they come in the table, each column has its own place. -/
theorem getElem?_rank_of_sorted (hsorted : (assignments.map Prod.fst).Pairwise (· < ·))
    (hmem : (k, value) ∈ assignments) :
  assignments[rank assignments k]? = some (k, value)
  := by
  obtain ⟨before, behind, rfl⟩ := List.append_of_mem hmem
  rw [List.map_append, List.map_cons, List.pairwise_append, List.pairwise_cons] at hsorted
  obtain ⟨hbefore, ⟨hbehind, _⟩, hcross⟩ := hsorted
  have hperm : ((List.range k).filter fun i =>
      i ∈ (before ++ (k, value) :: behind).map Prod.fst).Perm (before.map Prod.fst) := by
    rw [List.perm_ext_iff_of_nodup (List.nodup_range.filter _)
      (hbefore.imp fun h => Nat.ne_of_lt h)]
    intro i
    rw [List.mem_filter, List.mem_range, decide_eq_true_eq, List.map_append, List.map_cons,
      List.mem_append, List.mem_cons]
    constructor
    · rintro ⟨hlt, hmem | rfl | hmem⟩
      · apply hmem
      · omega
      · have hgt := hbehind i hmem
        omega
    · intro hmem
      exact ⟨hcross i hmem k List.mem_cons_self, .inl hmem⟩
  have hrank : rank (before ++ (k, value) :: behind) k = before.length := by
    rw [rank, List.countP_eq_length_filter, hperm.length_eq, List.length_map]
  rw [hrank, List.getElem?_append_right le_rfl, Nat.sub_self]
  rfl

/-- An update is right when the values come in an order that suits the columns and no text has to
be kept. -/
theorem updatesRight_of_inOrder (hlayout : table.Layout attributes trx bitmap)
    (hsound : Sound table) (hnames : (table.fields.map FieldMeta.name).Nodup)
    (htypes : ∀ field ∈ table.columns, field.type.Plain ∨ field.type = .texts)
    (hassignable : Assignable table assignments) (hrow : RowOk table texts record)
    (htexts : OtherTextsNull table texts record assignments)
    (horder : InOrder table texts assignments) (memory : Memory) :
  UpdatesRight table texts record assignments memory
  := by
  -- What comes to a column that is not named is what the row has there.
  have hkept : ∀ (k : Nat) field, table.columns[k]? = some field →
      k ∉ assignments.map Prod.fst → ∃ value,
      table.cellAt texts record (table.sysFieldNum + k) = some (.ok value)
      ∧ accepts field value = true ∧ value.ZeroFree ∧ shown texts field value = some value := by
    intro k field hfield hmem
    obtain hplain | htype := htypes field (List.mem_of_getElem? hfield)
    · have hread : ∃ value, table.cellAt texts record (table.sysFieldNum + k) = some (.ok value)
          ∧ (value = .nulls ∨ value.attrType = field.type
            ∧ ∀ s, value = .chars s → s.length ≤ field.len ∧ 0 ∉ s) :=
        cellAt_plain hlayout hfield hplain
      obtain ⟨value, hcell, hvalue⟩ := hread
      have hfits : Fits field value := by
        obtain rfl | hvalue := hvalue
        · exact .inl ⟨rfl, hrow k field hfield hcell⟩
        · exact .inr hvalue
      obtain ⟨hzero, hshown⟩ := hfits.shown hplain texts
      exact ⟨value, hcell, hfits.accepts, hzero, hshown⟩
    · have hcell := htexts k field hfield hmem htype
      refine ⟨.nulls, hcell, ?_, trivial, rfl⟩
      simp [accepts, Value.attrType, hrow k field hfield hcell]
  have hvalues : ∀ (k : Nat) field, table.columns[k]? = some field → ∃ value,
      accepts field value = true
      ∧ (if k ∈ assignments.map Prod.fst then (positional assignments k).map .ok
        else table.cellAt texts record (table.sysFieldNum + k)) = some (.ok value) := by
    intro k field hfield
    obtain hmem | hmem := em (k ∈ assignments.map Prod.fst)
    · obtain ⟨⟨k', value⟩, hassigned, rfl⟩ := List.mem_map.mp hmem
      obtain ⟨field', other, hfield', hother, haccepts, _⟩ := horder k' value hassigned
      rw [hfield'] at hfield
      cases hfield
      rw [if_pos hmem, hother]
      exact ⟨other, haccepts, rfl⟩
    · obtain ⟨value, hcell, haccepts, _⟩ := hkept k field hfield hmem
      rw [if_neg hmem]
      exact ⟨value, haccepts, hcell⟩
  obtain ⟨record', hrecord⟩ := update_exists hlayout hsound hnames hassignable hvalues memory
  obtain ⟨values, rfl, hcells⟩ := update_ok hlayout hnames hassignable hrecord
  refine ⟨_, hrecord, ?_, ?_⟩
  · intro k value hassigned
    obtain ⟨field, other, hfield, hother, haccepts, hshown⟩ := horder k value hassigned
    obtain ⟨found, hfound, _, hsource⟩ := hcells k field hfield
    rw [if_pos (List.mem_map.mpr ⟨(k, value), hassigned, rfl⟩), hother] at hsource
    cases hsource
    obtain ⟨k', hassigned'⟩ := positional_mem hother
    obtain ⟨_, _, _, hzero⟩ := hassignable.storable k' other hassigned'
    rw [hsound.cellAt hlayout hfield hfound (htypes field (List.mem_of_getElem? hfield)) haccepts
      hzero, hshown]
    rfl
  · intro k hk hmem
    have hfield := List.getElem?_eq_getElem hk
    obtain ⟨value, hcell, haccepts, hzero, hshown⟩ := hkept k _ hfield hmem
    obtain ⟨found, hfound, _, hsource⟩ := hcells k _ hfield
    rw [if_neg hmem, hcell] at hsource
    cases hsource
    rw [hcell, hsound.cellAt hlayout hfield hfound (htypes _ (List.getElem_mem hk)) haccepts hzero,
      hshown]
    rfl

/-- An update that succeeds finds `NULL` in the texts that are not set. -/
theorem otherTextsNull_of_update (hlayout : table.Layout attributes trx bitmap)
    (hnames : (table.fields.map FieldMeta.name).Nodup)
    (hassignable : Assignable table assignments)
    (h : UpdateRecordMaker.update table (assignments.fields table) texts record
      (assignments.map Prod.snd) memory = some (.ok record')) :
  OtherTextsNull table texts record assignments
  := by
  obtain ⟨values, -, hcells⟩ := update_ok hlayout hnames hassignable h
  intro k field hfield hmem htype
  obtain ⟨value, _, haccepts, hsource⟩ := hcells k field hfield
  rw [if_neg hmem] at hsource
  obtain rfl | ⟨s, rfl⟩ := cellAt_texts hlayout hfield htype hsource
  · apply hsource
  · simp [accepts, Value.attrType, htype] at haccepts

/-- The update of a row is right if and only if the texts that are not set are `NULL` and each
column that is set gets, by its place among the columns of the table, a value of the list that
reads as its own. -/
theorem updatesRight_iff {tableId : Int} {name : String} {trxFields : List FieldMeta}
    (hinit : TableMeta.init tableId name trxFields attributes = .ok table)
    (htypes : ∀ attr ∈ attributes, attr.type.Plain ∨ attr.type = .texts) (hsound : Sound table)
    (hnames : (table.fields.map FieldMeta.name).Nodup)
    (hassignable : Assignable table assignments) (hrow : RowOk table texts record)
    (memory : Memory) :
  UpdatesRight table texts record assignments memory
    ↔ OtherTextsNull table texts record assignments ∧ InOrder table texts assignments
  := by
  obtain ⟨trx, bitmap, hlayout⟩ := TableMeta.init_ok hinit
  have htypes' : ∀ field ∈ table.columns, field.type.Plain ∨ field.type = .texts := by
    intro field hmem
    obtain ⟨attr, hattr, hdeclared⟩ := Declared.of_mem hlayout.declared hmem
    rw [hdeclared.type]
    apply htypes attr hattr
  constructor
  · rintro ⟨record', hrecord, hassigned, hkept⟩
    constructor
    · apply otherTextsNull_of_update hlayout hnames hassignable hrecord
    · obtain ⟨values, rfl, hcells⟩ := update_ok hlayout hnames hassignable hrecord
      intro k value hmem
      obtain ⟨field, hfield, _, _⟩ := hassignable.storable k value hmem
      obtain ⟨other, hother, haccepts, hsource⟩ := hcells k field hfield
      rw [if_pos (List.mem_map.mpr ⟨(k, value), hmem, rfl⟩)] at hsource
      obtain ⟨other', hpositional, heq⟩ := Option.map_eq_some_iff.mp hsource
      cases heq
      obtain ⟨k', hassigned'⟩ := positional_mem hpositional
      obtain ⟨_, _, _, hzero⟩ := hassignable.storable k' other hassigned'
      have hcell := hassigned k value hmem
      rw [hsound.cellAt hlayout hfield hother (htypes' field (List.mem_of_getElem? hfield))
        haccepts hzero] at hcell
      obtain ⟨seen, hseen, heq⟩ := Option.map_eq_some_iff.mp hcell
      cases heq
      exact ⟨field, other, hfield, hpositional, haccepts, hseen⟩
  · rintro ⟨htexts, horder⟩
    apply updatesRight_of_inOrder hlayout hsound hnames htypes' hassignable hrow htexts horder

end Update

end MiniOB.Sql
