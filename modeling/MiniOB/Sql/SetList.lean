import MiniOB.Sql.Date
import MiniOB.Sql.Update

/-!
# The SET list of an UPDATE

The loop of `UpdateStmt::create` (`sql/stmt/update_stmt.cpp`) over the `SET` list. It finds the
columns by their names and converts the values to their types: a text is put into the
`InMemoryTextStorage`, and its key is the value.
-/

namespace MiniOB.Sql

/-- `InMemoryTextStorage`. A key that has not been put has the empty text. -/
structure InMemoryTextStorage where
  nextKey : Nat
  storage : Nat → Str

namespace InMemoryTextStorage

/-- `InMemoryTextStorage::put`. -/
def put (memText : InMemoryTextStorage) (text : Str) : Nat × InMemoryTextStorage :=
  (memText.nextKey, ⟨memText.nextKey + 1, Function.update memText.storage memText.nextKey text⟩)

/-- The texts as `RowTuple::cell_at` takes them, by `c_str`. -/
def texts (memText : InMemoryTextStorage) (key : Nat) : Str := cStr (memText.storage key)

end InMemoryTextStorage

/-- What `try_convert_value` returns for a conversion that throws for a `NULL`, which is caught,
and fails an assertion for what is `UNDEFINED`. -/
def orNull (value : Value) : Option Value → Except Stop Value
  | some converted => .ok converted
  | none => if value.attrType = .nulls then .ok .nulls else .error .assertion

/-- `try_convert_value`. -/
def tryConvertValue (L : Library) (value : Value) : AttrType → Except Stop Value
  | .undefined => .error .assertion
  | .chars => orNull value ((value.getString L).map fun s => .chars (cStr s))
  | .ints => orNull value ((value.getInt L).map .ints)
  | .floats => orNull value ((value.getFloat L).map .floats)
  | .booleans => orNull value ((value.getBoolean L.doubles).map .booleans)
  | .dates =>
    match value.getString L with
    | none => .ok .nulls
    | some s =>
      match dateOf (cStr s) with
      | none => .error (.rc .incorrectDateFormat)
      | some date => .ok (.dates date)
  | .texts => orNull value ((value.getString L).map fun s => .texts (cStr s))
  | .nulls => .ok .nulls

namespace UpdateStmt

/-- The value that `UpdateStmt::create` makes of the value of an assignment. That `get_string`
throws for a `NULL` is caught nowhere. -/
def convertedValue (L : Library) (field : FieldMeta) (origin : Value)
    (memText : InMemoryTextStorage) : Except Stop (Value × InMemoryTextStorage) :=
  if field.type = .texts then
    if origin.length > 65536 then .error (.rc .updateValueTooLong)
    else
      match origin.getString L with
      | none => .error .nullCast
      | some text => .ok (.texts (printInt 0 (memText.put text).1), (memText.put text).2)
  else (tryConvertValue L origin field.type).map fun converted => (converted, memText)

/-- The loop of `UpdateStmt::create`: the fields and the values of the statement, with the texts
that are stored then. -/
def create (L : Library) (table : TableMeta) : List (String × Value) → InMemoryTextStorage →
    Except Stop (List FieldMeta × List Value × InMemoryTextStorage)
  | [], memText => .ok ([], [], memText)
  | (attributeName, origin) :: assignments, memText =>
    match table.fields.find? fun field => field.name = attributeName with
    | none => .error (.rc .schemaFieldNotExist)
    | some field =>
      match convertedValue L field origin memText with
      | .error stop => .error stop
      | .ok (converted, memText) =>
        (create L table assignments memText).map fun made =>
          (field :: made.1, converted :: made.2.1, made.2.2)

end UpdateStmt

/-! ### What a SET list is for -/

/-- The assignments of the statement: a column is given by its name. -/
def Assignments.named (setList : Assignments) (table : TableMeta) : List (String × Value) :=
  setList.filterMap fun x => table.columns[x.1]?.map fun field => (field.name, x.2)

/-- The cell of a column that has been set to a value: the value is converted to the type of the
column, and a text is seen as a string. -/
def cellOf (L : Library) (field : FieldMeta) (origin : Value) : Value :=
  if origin = .nulls then .nulls
  else if field.type = .texts then .chars (cStr (origin.toStr L))
  else (tryConvertValue L origin field.type).toOption.getD .nulls

/-- The value can be converted to the type of the column, and what it gives can be stored
there. -/
def Convertible (L : Library) (field : FieldMeta) (origin : Value) : Prop :=
  if field.type = .texts then origin.length ≤ 65536 ∧ (origin = .nulls → field.nullable = true)
  else ∃ converted, tryConvertValue L origin field.type = .ok converted ∧ Fits field converted

/-- The list names different columns, with values that can be converted. -/
structure Settable (L : Library) (table : TableMeta) (setList : Assignments) : Prop where
  distinct : (setList.map Prod.fst).Nodup
  convertible : ∀ k origin, (k, origin) ∈ setList → ∃ field, table.columns[k]? = some field
    ∧ Convertible L field origin

/-- The statement is accepted, and the update makes a record in which each column of the list has
the cell of its value, and each other column the cell it had. -/
def SetsRight (L : Library) (table : TableMeta) (memText : InMemoryTextStorage) (record : Bytes)
    (setList : Assignments) (memory : Memory) : Prop :=
  ∃ fields values memText' record',
    UpdateStmt.create L table (setList.named table) memText = .ok (fields, values, memText')
    ∧ UpdateRecordMaker.update table fields memText'.texts record values memory
      = some (.ok record')
    ∧ (∀ k origin field, (k, origin) ∈ setList → table.columns[k]? = some field →
      table.cellAt memText'.texts record' (table.sysFieldNum + k)
        = some (.ok (cellOf L field origin)))
    ∧ ∀ k < table.columns.length, k ∉ setList.map Prod.fst →
      table.cellAt memText'.texts record' (table.sysFieldNum + k)
        = table.cellAt memText.texts record (table.sysFieldNum + k)

/-- No column for texts is set to `NULL`. -/
def NoTextToNull (table : TableMeta) (setList : Assignments) : Prop :=
  ∀ k origin field, (k, origin) ∈ setList → table.columns[k]? = some field →
    field.type = .texts → origin ≠ .nulls

/-- The assignment is to a column for texts. -/
def isText (table : TableMeta) (x : Nat × Value) : Bool :=
  table.columns[x.1]?.map FieldMeta.type = some .texts

/-- The key of the text that stands at a place of the list. -/
def keyAt (table : TableMeta) (nextKey : Nat) (setList : Assignments) (j : Nat) : Nat :=
  nextKey + (setList.take j).countP (isText table)

/-- What a column has room for of a string. -/
def cut (field : FieldMeta) : Value → Value
  | .chars s => .chars (if field.type = .chars then s.take field.len else s)
  | value => value

/-- The assignment that stands at the place which the column has among the named columns of the
table is to a column of the same type, or has a `NULL`, and it gives the cell that the own value
of the column gives. A text has a key of three digits. -/
def Suits (L : Library) (table : TableMeta) (nextKey : Nat) (setList : Assignments) : Prop :=
  ∀ k origin, (k, origin) ∈ setList → ∃ field k' origin' field', table.columns[k]? = some field
    ∧ setList[rank setList k]? = some (k', origin') ∧ table.columns[k']? = some field'
    ∧ (cellOf L field' origin' = .nulls ∨ field'.type = field.type)
    ∧ cut field (cellOf L field' origin') = cellOf L field origin
    ∧ (field.type = .texts → keyAt table nextKey setList (rank setList k) < 1000)

section

variable {L : Library} {table : TableMeta} {attributes : List AttrInfo} {field field' : FieldMeta}
  {origin origin' value : Value} {values : List Value} {setList : Assignments}
  {memText memText' : InMemoryTextStorage} {record : Bytes} {k key nextKey : Nat}

/-! ### Keys -/

theorem printInt_zero (n : Nat) :
  printInt 0 n = Decimal.digits n
  := by
  rw [printInt_natCast, Nat.zero_sub]
  rfl

theorem atoi_printInt (n : Nat) :
  TableMeta.atoi (printInt 0 n) = n
  := by
  have htake := (Decimal.takeWhile_append (t := []) (Decimal.isDigit_of_mem_digits (n := n))
    (by simp)).1
  rw [List.append_nil] at htake
  rw [printInt_zero]
  change Decimal.value ((Decimal.digits n).takeWhile Decimal.isDigit) = n
  rw [htake, Decimal.value_digits]

theorem zero_notMem_printInt (n : Nat) :
  0 ∉ printInt 0 n
  := by
  rw [printInt_zero]
  intro hmem
  exact absurd (Decimal.isDigit_of_mem_digits 0 hmem) (by decide)

/-- The keys of three digits. -/
theorem length_printInt_le_iff (n : Nat) :
  (printInt 0 n).length ≤ 3 ↔ n < 1000
  := by
  rw [printInt_zero, Decimal.length_digits_le_iff (by decide)]
  rfl

theorem keyAt_zero :
  keyAt table nextKey setList 0 = nextKey
  := rfl

theorem keyAt_succ (x : Nat × Value) (j : Nat) :
  keyAt table nextKey (x :: setList) (j + 1)
    = keyAt table (nextKey + if isText table x then 1 else 0) setList j
  := by
  rw [keyAt, keyAt, List.take_succ_cons, List.countP_cons]
  omega

/-! ### Converted values -/

theorem tryConvertValue_nulls {type : AttrType} (h : type ≠ .undefined) :
  tryConvertValue L .nulls type = .ok .nulls
  := by
  cases type <;> first | rfl | exact absurd rfl h

/-- What a value that is no text is converted to is its cell. -/
theorem cellOf_of_ok (htype : field.type ≠ .texts)
    (h : tryConvertValue L origin field.type = .ok value) :
  cellOf L field origin = value
  := by
  unfold cellOf
  split
  · rename_i hnulls
    have hundefined : field.type ≠ .undefined := by
      intro heq
      rw [heq] at h
      cases h
    rw [hnulls, tryConvertValue_nulls hundefined] at h
    cases h
    rfl
  · rw [h]
    rfl

theorem cellOf_text (htype : field.type = .texts) (hnull : origin ≠ .nulls) :
  cellOf L field origin = .chars (cStr (origin.toStr L))
  := by
  rw [cellOf, if_neg hnull, if_pos htype]

/-- The cell of a column that is not for texts can be stored there. -/
theorem Convertible.fits (h : Convertible L field origin) (htype : field.type ≠ .texts) :
  tryConvertValue L origin field.type = .ok (cellOf L field origin)
    ∧ Fits field (cellOf L field origin)
  := by
  rw [Convertible, if_neg htype] at h
  obtain ⟨converted, hconverted, hfits⟩ := h
  rw [cellOf_of_ok htype hconverted]
  exact ⟨hconverted, hfits⟩

/-- A column with a `NULL` may have one. -/
theorem Convertible.nullable (h : Convertible L field origin)
    (hplain : field.type.Plain ∨ field.type = .texts)
    (hcell : cellOf L field origin = .nulls) :
  field.nullable = true
  := by
  obtain htype | htype := em (field.type = .texts)
  · rw [Convertible, if_pos htype] at h
    apply h.2
    by_contra hnull
    rw [cellOf_text htype hnull] at hcell
    cases hcell
  · have hfits := (h.fits htype).2
    rw [hcell] at hfits
    obtain ⟨_, hnullable⟩ | ⟨heq, _⟩ := hfits
    · exact hnullable
    · rw [← heq] at hplain
      obtain (h | h | h | h) | h := hplain <;> cases h

/-- A value stands for another one: for a text there is its key, and the text is found with it. -/
def Stores (L : Library) (memText : InMemoryTextStorage) (key : Nat) (field : FieldMeta)
    (origin value : Value) : Prop :=
  if field.type = .texts then
    value = .texts (printInt 0 key) ∧ memText.storage key = origin.toStr L
  else value = cellOf L field origin

theorem convertedValue_ok (memText : InMemoryTextStorage) (h : Convertible L field origin)
    (hnull : field.type = .texts → origin ≠ .nulls) :
  ∃ value memText', UpdateStmt.convertedValue L field origin memText = .ok (value, memText')
    ∧ memText'.nextKey = memText.nextKey + (if field.type = .texts then 1 else 0)
    ∧ (∀ key < memText.nextKey, memText'.storage key = memText.storage key)
    ∧ Stores L memText' memText.nextKey field origin value
  := by
  unfold UpdateStmt.convertedValue Stores
  obtain htype | htype := em (field.type = .texts)
  · have hstring : origin.getString L = some (origin.toStr L) := by
      rw [Value.getString, if_neg fun heq => hnull htype (Value.eq_nulls heq)]
    rw [Convertible, if_pos htype] at h
    rw [if_pos htype, if_neg (by omega), hstring]
    refine ⟨_, _, rfl, ?_, ?_, ?_⟩
    · rw [if_pos htype]
      rfl
    · intro key hkey
      apply Function.update_of_ne (by omega)
    · rw [if_pos htype]
      exact ⟨rfl, Function.update_self ..⟩
  · rw [if_neg htype, (h.fits htype).1]
    refine ⟨_, memText, rfl, ?_, fun _ _ => rfl, ?_⟩
    · rw [if_neg htype]
      rfl
    · rw [if_neg htype]

/-- The texts that a statement finds stay where they are. -/
theorem Stores.of_kept {memText₁ memText₂ : InMemoryTextStorage}
    (h : Stores L memText₁ key field origin value)
    (hkept : field.type = .texts → memText₂.storage key = memText₁.storage key) :
  Stores L memText₂ key field origin value
  := by
  unfold Stores at h ⊢
  split at h
  · rename_i htype
    rw [if_pos htype, hkept htype]
    exact h
  · rename_i htype
    rwa [if_neg htype]

theorem Fits.ne_texts (h : Fits field value) (htype : field.type ≠ .texts) (key : Str) :
  value ≠ .texts key
  := by
  rintro rfl
  obtain ⟨heq, _⟩ | ⟨heq, _⟩ := h
  · cases heq
  · exact htype heq.symm

/-- What is seen of the value is the cell. -/
theorem Stores.expected (h : Stores L memText key field origin value)
    (hconvertible : Convertible L field origin) (hnull : field.type = .texts → origin ≠ .nulls) :
  expected memText.texts value = cellOf L field origin
  := by
  unfold Stores at h
  split at h
  · rename_i htype
    obtain ⟨rfl, hstorage⟩ := h
    rw [cellOf_text htype (hnull htype), Sql.expected, atoi_printInt, InMemoryTextStorage.texts,
      hstorage]
  · rename_i htype
    have hne := (hconvertible.fits htype).2.ne_texts htype
    rw [h]
    cases hcell : cellOf L field origin with
    | texts key => exact absurd hcell (hne key)
    | _ => rfl

theorem Stores.storable (h : Stores L memText key field origin value)
    (hconvertible : Convertible L field origin) :
  Fits field value ∧ value.ZeroFree
  := by
  unfold Stores at h
  split at h
  · rename_i htype
    obtain ⟨rfl, -⟩ := h
    exact ⟨.inr ⟨htype.symm, by simp⟩, zero_notMem_printInt key⟩
  · rename_i htype
    have hfits := (hconvertible.fits htype).2
    rw [← h] at hfits
    refine ⟨hfits, ?_⟩
    cases value with
    | texts key => exact absurd rfl (hfits.ne_texts htype key)
    | chars s =>
      obtain ⟨heq, _⟩ | ⟨_, hchars⟩ := hfits
      · cases heq
      · exact (hchars s rfl).2
    | _ => trivial

theorem accepts_of_ne (hne : value ≠ .nulls) :
  accepts field value = true ↔ field.type = value.attrType
  := by
  have hattr : value.attrType ≠ .nulls := fun heq => hne (Value.eq_nulls heq)
  simp [accepts, hattr]

/-- When a column takes the value of another one for its own. -/
theorem Stores.accepted_iff (h : Stores L memText key field' origin' value)
    (hconvertible' : Convertible L field' origin') (hnull' : field'.type = .texts → origin' ≠ .nulls)
    (hconvertible : Convertible L field origin) (hnull : field.type = .texts → origin ≠ .nulls)
    (hplain : field.type.Plain ∨ field.type = .texts)
    (hplain' : field'.type.Plain ∨ field'.type = .texts) :
  (accepts field value = true ∧ shown memText.texts field value = some (cellOf L field origin))
    ↔ (cellOf L field' origin' = .nulls ∨ field'.type = field.type)
      ∧ cut field (cellOf L field' origin') = cellOf L field origin
      ∧ (field.type = .texts → key < 1000)
  := by
  unfold Stores at h
  split at h
  · -- only a column for texts takes the key of a text
    rename_i htype'
    obtain ⟨rfl, hstorage⟩ := h
    simp only [accepts_of_ne (show Value.texts (printInt 0 key) ≠ .nulls by simp),
      Value.attrType, shown,
      cellOf_text htype' (hnull' htype'), length_printInt_le_iff, atoi_printInt,
      InMemoryTextStorage.texts, hstorage, htype', cut]
    constructor
    · rintro ⟨htype, hshown⟩
      split at hshown
      · rename_i hkey
        refine ⟨.inr htype.symm, ?_, fun _ => hkey⟩
        rw [if_neg (by simp [htype])]
        exact Option.some.inj hshown
      · cases hshown
    · rintro ⟨heq | htype, hcut, hkey⟩
      · cases heq
      · refine ⟨htype.symm, ?_⟩
        rw [if_neg (by simp [← htype])] at hcut
        rw [if_pos (hkey htype.symm), hcut]
  · rename_i htype'
    have hfits := (hconvertible'.fits htype').2
    rw [← h] at hfits ⊢
    obtain ⟨rfl, -⟩ | ⟨htype, hchars⟩ := hfits
    · -- a column takes a NULL that is its own
      constructor
      · rintro ⟨-, hshown⟩
        have hcell := Option.some.inj hshown
        refine ⟨.inl rfl, hcell, fun htext => ?_⟩
        rw [cellOf_text htext (hnull htext)] at hcell
        cases hcell
      · rintro ⟨-, hcut, -⟩
        refine ⟨?_, congrArg some hcut⟩
        simp [accepts, Value.attrType, hconvertible.nullable hplain hcut.symm]
    · have hne : value ≠ .nulls := by
        rintro rfl
        rw [← htype] at hplain'
        obtain (h | h | h | h) | h := hplain' <;> cases h
      have haccepts : accepts field value = true ↔ field'.type = field.type := by
        rw [accepts_of_ne hne, htype]
        exact eq_comm
      have hshown : field'.type = field.type →
          shown memText.texts field value = some (cut field value) := by
        intro heq
        cases value with
        | chars s =>
          rw [shown, cut, if_pos]
          rw [← heq, ← htype]
          rfl
        | texts key => exact absurd htype.symm htype'
        | _ => rfl
      constructor
      · rintro ⟨haccepted, hcell⟩
        have heq := haccepts.mp haccepted
        rw [hshown heq] at hcell
        refine ⟨.inr heq, Option.some.inj hcell, fun htext => ?_⟩
        exact absurd (heq.trans htext) htype'
      · rintro ⟨hnulls | heq, hcut, -⟩
        · exact absurd hnulls hne
        · rw [hshown heq, hcut]
          exact ⟨haccepts.mpr heq, rfl⟩

/-- The values of a list that has been accepted. -/
structure Stored (L : Library) (table : TableMeta) (memText memText' : InMemoryTextStorage)
    (setList : Assignments) (values : List Value) : Prop where
  length : values.length = setList.length
  kept : ∀ key < memText.nextKey, memText'.storage key = memText.storage key
  stores : ∀ (j k : Nat) origin field, setList[j]? = some (k, origin) →
    table.columns[k]? = some field → ∃ value, values[j]? = some value
      ∧ Stores L memText' (keyAt table memText.nextKey setList j) field origin value

theorem getElem?_named (hfield : table.columns[k]? = some field) :
  Assignments.named ((k, origin) :: setList) table
    = (field.name, origin) :: Assignments.named setList table
  := by
  rw [Assignments.named, List.filterMap_cons_some (b := (field.name, origin))]
  · rfl
  · simp [hfield]

theorem find?_name (hnames : (table.fields.map FieldMeta.name).Nodup)
    (hfield : table.columns[k]? = some field) :
  table.fields.find? (fun other => other.name = field.name) = some field
  := by
  rw [← TableMeta.Layout.getElem?_column] at hfield
  have hfound := findIdx?_name hnames hfield
  rw [List.findIdx?_eq_some_iff_getElem] at hfound
  obtain ⟨hlt, hname, hbefore⟩ := hfound
  rw [List.find?_eq_some_iff_getElem]
  refine ⟨by simp, _, hlt, (List.getElem?_eq_some_iff.mp hfield).2, ?_⟩
  intro j hj
  simpa using hbefore j hj

/-- A list with values that can be converted, and no `NULL` for a text, is accepted. -/
theorem create_ok (hnames : (table.fields.map FieldMeta.name).Nodup) :
    ∀ (setList : Assignments) (memText : InMemoryTextStorage),
      (∀ k origin, (k, origin) ∈ setList → ∃ field, table.columns[k]? = some field
        ∧ Convertible L field origin) →
      NoTextToNull table setList →
      ∃ values memText', UpdateStmt.create L table (setList.named table) memText
          = .ok (setList.fields table, values, memText')
        ∧ Stored L table memText memText' setList values := by
  intro setList
  induction setList with
  | nil =>
    intro memText _ _
    refine ⟨[], memText, rfl, rfl, fun _ _ => rfl, ?_⟩
    intro j k origin field hget
    cases hget
  | cons x setList ih =>
    obtain ⟨k, origin⟩ := x
    intro memText hconvertible hnull
    obtain ⟨field, hfield, hconv⟩ := hconvertible k origin List.mem_cons_self
    obtain ⟨value, memText₁, hvalue, hkey, hkept, hstores⟩ :=
      convertedValue_ok memText hconv (hnull k origin field List.mem_cons_self hfield)
    obtain ⟨values, memText₂, hcreate, hlength, hkept₂, hrest⟩ := ih memText₁
      (fun k origin hmem => hconvertible k origin (List.mem_cons_of_mem _ hmem))
      (fun k origin field hmem => hnull k origin field (List.mem_cons_of_mem _ hmem))
    refine ⟨value :: values, memText₂, ?_, ?_, ?_, ?_⟩
    · have hfields : Assignments.fields ((k, origin) :: setList) table
          = field :: Assignments.fields setList table := by
        rw [Assignments.fields,
          List.filterMap_cons_some (f := fun x : Nat × Value => table.columns[x.1]?) hfield]
        rfl
      rw [getElem?_named hfield, UpdateStmt.create, find?_name hnames hfield, hfields]
      simp only [hvalue, hcreate]
      rfl
    · rw [List.length_cons, List.length_cons, hlength]
    · intro key hlt
      rw [hkept₂ key (by omega), hkept key hlt]
    · intro j k' origin' field' hget hfield'
      cases j with
      | zero =>
        cases hget
        rw [hfield] at hfield'
        cases hfield'
        refine ⟨value, rfl, hstores.of_kept fun htype => ?_⟩
        apply hkept₂
        rw [hkey, if_pos htype]
        exact Nat.lt_succ_self _
      | succ j =>
        rw [keyAt_succ, isText, hfield]
        have hstores' := hrest j k' origin' field' hget hfield'
        rw [hkey] at hstores'
        simpa using hstores'

/-- A list that is accepted sets no text to `NULL`. -/
theorem noTextToNull_of_create (hnames : (table.fields.map FieldMeta.name).Nodup) :
    ∀ (setList : Assignments) (memText : InMemoryTextStorage),
      (∀ k origin, (k, origin) ∈ setList → ∃ field, table.columns[k]? = some field
        ∧ Convertible L field origin) →
      (UpdateStmt.create L table (Assignments.named setList table) memText).isOk = true →
      NoTextToNull table setList := by
  intro setList
  induction setList with
  | nil =>
    rintro memText _ _ k origin field hmem
    cases hmem
  | cons x setList ih =>
    obtain ⟨k, origin⟩ := x
    intro memText hconvertible hcreate
    obtain ⟨field, hfield, hconv⟩ := hconvertible k origin List.mem_cons_self
    rw [getElem?_named hfield, UpdateStmt.create, find?_name hnames hfield] at hcreate
    dsimp only at hcreate
    split at hcreate
    · cases hcreate
    · rename_i converted memText' hvalue
      intro k' origin' field' hmem hfield' htype
      obtain h | h := List.mem_cons.mp hmem
      · cases h
        rw [hfield] at hfield'
        cases hfield'
        rintro rfl
        rw [UpdateStmt.convertedValue, if_pos htype] at hvalue
        cases hvalue
      · apply ih memText' (fun k origin h => hconvertible k origin (List.mem_cons_of_mem _ h)) _
          k' origin' field' h hfield' htype
        cases hrest : UpdateStmt.create L table (Assignments.named setList table) memText' with
        | error stop =>
          rw [hrest] at hcreate
          cases hcreate
        | ok made => rfl

/-! ### The rows -/

/-- A `NULL` is seen whatever the texts are, and so is what is no text. -/
theorem cellAt_texts_congr {texts texts' : Nat → Str}
    (hfield : table.columns[k]? = some field)
    (h : field.type = .texts →
      table.cellAt texts record (table.sysFieldNum + k) = some (.ok .nulls)) :
  table.cellAt texts' record (table.sysFieldNum + k)
    = table.cellAt texts record (table.sysFieldNum + k)
  := by
  rw [← TableMeta.Layout.getElem?_column] at hfield
  unfold TableMeta.cellAt at h ⊢
  rw [hfield] at h ⊢
  cases hbitmap : table.nullBitmapField with
  | none => rfl
  | some bitmap =>
    rw [hbitmap] at h
    dsimp only at h ⊢
    split
    · rfl
    · rename_i hbit
      split
      · rename_i htype
        have h := h htype
        rw [if_neg hbit, if_pos htype] at h
        split at h <;> cases h
      · rfl

/-- The columns of a list with the values that have been made for them. -/
def paired (setList : Assignments) (values : List Value) : Assignments :=
  (setList.map Prod.fst).zip values

theorem mem_paired :
  (k, value) ∈ paired setList values
    ↔ ∃ (j : Nat) (origin : Value), setList[j]? = some (k, origin) ∧ values[j]? = some value
  := by
  rw [paired, List.mem_iff_getElem?]
  simp only [List.getElem?_zip_eq_some, List.getElem?_map, Option.map_eq_some_iff]
  constructor
  · rintro ⟨j, ⟨⟨_, origin⟩, hget, rfl⟩, hvalue⟩
    exact ⟨j, origin, hget, hvalue⟩
  · rintro ⟨j, origin, hget, hvalue⟩
    exact ⟨j, ⟨(k, origin), hget, rfl⟩, hvalue⟩

namespace Stored

theorem map_fst (h : Stored L table memText memText' setList values) :
  (paired setList values).map Prod.fst = setList.map Prod.fst
  := by
  rw [paired, List.map_fst_zip]
  rw [List.length_map, h.length]

theorem map_snd (h : Stored L table memText memText' setList values) :
  (paired setList values).map Prod.snd = values
  := by
  rw [paired, List.map_snd_zip]
  rw [List.length_map, h.length]

theorem fields_eq (h : Stored L table memText memText' setList values) :
  (paired setList values).fields table = setList.fields table
  := by
  have hfields : ∀ assignments : Assignments, assignments.fields table
      = (assignments.map Prod.fst).filterMap fun k => table.columns[k]? := by
    intro assignments
    rw [List.filterMap_map]
    rfl
  rw [hfields, hfields, h.map_fst]

theorem positional_eq (h : Stored L table memText memText' setList values) (k : Nat) :
  positional (paired setList values) k = values[rank setList k]?
  := by
  rw [positional, h.map_snd, rank, rank, h.map_fst]

/-- The value that has been made for an assignment, and the column that it is for. -/
theorem value_at (h : Stored L table memText memText' setList values)
    (hsettable : Settable L table setList) {j : Nat} (hget : setList[j]? = some (k, origin)) :
  ∃ field value, table.columns[k]? = some field ∧ Convertible L field origin
    ∧ values[j]? = some value
    ∧ Stores L memText' (keyAt table memText.nextKey setList j) field origin value
  := by
  obtain ⟨field, hfield, hconvertible⟩ :=
    hsettable.convertible k origin (List.mem_of_getElem? hget)
  obtain ⟨value, hvalue, hstores⟩ := h.stores j k origin field hget hfield
  exact ⟨field, value, hfield, hconvertible, hvalue, hstores⟩

theorem assignable (h : Stored L table memText memText' setList values)
    (hsettable : Settable L table setList) :
  Assignable table (paired setList values)
  := by
  constructor
  · rw [h.map_fst]
    exact hsettable.distinct
  · intro k value hmem
    obtain ⟨j, origin, hget, hvalue⟩ := mem_paired.mp hmem
    obtain ⟨field, value', hfield, hconvertible, hvalue', hstores⟩ := h.value_at hsettable hget
    rw [hvalue] at hvalue'
    cases hvalue'
    exact ⟨field, hfield, hstores.storable hconvertible⟩

/-- What is seen of a value that has been made is the cell of its column. -/
theorem expected_eq (h : Stored L table memText memText' setList values)
    (hsettable : Settable L table setList) (hnull : NoTextToNull table setList) {j : Nat}
    (hget : setList[j]? = some (k, origin)) (hvalue : values[j]? = some value)
    (hfield : table.columns[k]? = some field) :
  expected memText'.texts value = cellOf L field origin
  := by
  obtain ⟨field', value', hfield', hconvertible, hvalue', hstores⟩ := h.value_at hsettable hget
  rw [hfield] at hfield'
  rw [hvalue] at hvalue'
  cases hfield'
  cases hvalue'
  apply hstores.expected hconvertible
  exact hnull k origin field (List.mem_of_getElem? hget) hfield

/-- The order in which the values come suits the columns. -/
theorem inOrder_iff (h : Stored L table memText memText' setList values)
    (hsettable : Settable L table setList) (hnull : NoTextToNull table setList)
    (htypes : ∀ field ∈ table.columns, field.type.Plain ∨ field.type = .texts) :
  InOrder table memText'.texts (paired setList values) ↔ Suits L table memText.nextKey setList
  := by
  have hnull' : ∀ {j k : Nat} {origin : Value} {field : FieldMeta},
      setList[j]? = some (k, origin) → table.columns[k]? = some field →
      field.type = .texts → origin ≠ .nulls :=
    fun hget hfield => hnull _ _ _ (List.mem_of_getElem? hget) hfield
  constructor
  · intro horder k origin hmem
    obtain ⟨j, hget⟩ := List.mem_iff_getElem?.mp hmem
    obtain ⟨field, value, hfield, hconvertible, hvalue, -⟩ := h.value_at hsettable hget
    obtain ⟨field₀, other, hfield₀, hother, haccepts, hshown⟩ :=
      horder k value (mem_paired.mpr ⟨j, origin, hget, hvalue⟩)
    rw [hfield] at hfield₀
    cases hfield₀
    rw [h.positional_eq] at hother
    have hlt := (List.getElem?_eq_some_iff.mp hother).1
    rw [h.length] at hlt
    have hget' : setList[rank setList k]?
        = some (setList[rank setList k].1, setList[rank setList k].2) :=
      List.getElem?_eq_getElem hlt
    obtain ⟨field', value', hfield', hconvertible', hvalue', hstores'⟩ :=
      h.value_at hsettable hget'
    rw [hother] at hvalue'
    cases hvalue'
    rw [h.expected_eq hsettable hnull hget hvalue hfield] at hshown
    obtain ⟨htype, hcut, hkey⟩ := (hstores'.accepted_iff hconvertible' (hnull' hget' hfield')
      hconvertible (hnull' hget hfield) (htypes field (List.mem_of_getElem? hfield))
      (htypes field' (List.mem_of_getElem? hfield'))).mp ⟨haccepts, hshown⟩
    exact ⟨field, _, _, field', hfield, hget', hfield', htype, hcut, hkey⟩
  · intro hsuits k value hmem
    obtain ⟨j, origin, hget, hvalue⟩ := mem_paired.mp hmem
    obtain ⟨field, k', origin', field', hfield, hget', hfield', htype, hcut, hkey⟩ :=
      hsuits k origin (List.mem_of_getElem? hget)
    obtain ⟨field₀, value₀, hfield₀, hconvertible, -, -⟩ := h.value_at hsettable hget
    obtain ⟨field₁, other, hfield₁, hconvertible', hother, hstores'⟩ := h.value_at hsettable hget'
    rw [hfield] at hfield₀
    rw [hfield'] at hfield₁
    cases hfield₀
    cases hfield₁
    obtain ⟨haccepts, hshown⟩ := (hstores'.accepted_iff hconvertible' (hnull' hget' hfield')
      hconvertible (hnull' hget hfield) (htypes field (List.mem_of_getElem? hfield))
      (htypes field' (List.mem_of_getElem? hfield'))).mpr ⟨htype, hcut, hkey⟩
    refine ⟨field, other, hfield, ?_, haccepts, ?_⟩
    · rw [h.positional_eq, hother]
    · rw [hshown, h.expected_eq hsettable hnull hget hvalue hfield]

end Stored

theorem cut_cellOf (hconvertible : Convertible L field origin) :
  cut field (cellOf L field origin) = cellOf L field origin
  := by
  obtain htype | htype := em (field.type = .texts)
  · rw [cellOf]
    split
    · rfl
    · rw [cut, if_neg (by simp [htype])]
  · cases hcell : cellOf L field origin with
    | chars s =>
      have hfits := (hconvertible.fits htype).2
      rw [hcell] at hfits
      obtain ⟨heq, _⟩ | ⟨heq, hchars⟩ := hfits
      · cases heq
      · have hchars' : field.type = .chars := heq.symm
        rw [cut, if_pos hchars', List.take_of_length_le (hchars s rfl).1]
    | _ => rfl

/-- A list that names the columns as they come in the table suits them, as long as the keys have
three digits. -/
theorem suits_of_sorted (hsettable : Settable L table setList)
    (hsorted : (setList.map Prod.fst).Pairwise (· < ·))
    (hkeys : nextKey + setList.countP (isText table) ≤ 1000) :
  Suits L table nextKey setList
  := by
  intro k origin hmem
  obtain ⟨field, hfield, hconvertible⟩ := hsettable.convertible k origin hmem
  have hget := getElem?_rank_of_sorted hsorted hmem
  refine ⟨field, k, origin, field, hfield, hget, hfield, .inr rfl, cut_cellOf hconvertible, ?_⟩
  intro htype
  have htext : isText table (k, origin) = true := by
    simp [isText, hfield, htype]
  obtain ⟨hlt, hat⟩ := List.getElem?_eq_some_iff.mp hget
  have hcount : (setList.take (rank setList k)).countP (isText table) + 1
      ≤ setList.countP (isText table) := by
    conv_rhs => rw [← List.take_append_drop (rank setList k) setList, List.countP_append,
      List.drop_eq_getElem_cons hlt, hat, List.countP_cons_of_pos htext]
    omega
  rw [keyAt]
  omega

/-- A statement sets a row right if and only if it sets no text to `NULL`, the texts that it does
not set are `NULL` in the row, and each column that is set gets, by its place among the columns of
the table, a value that gives the cell of its own. -/
theorem setsRight_iff {tableId : Int} {name : String} {trxFields : List FieldMeta}
    (hinit : TableMeta.init tableId name trxFields attributes = .ok table)
    (htypes : ∀ attr ∈ attributes, attr.type.Plain ∨ attr.type = .texts) (hsound : Sound table)
    (hnames : (table.fields.map FieldMeta.name).Nodup) (hsettable : Settable L table setList)
    (hrow : RowOk table memText.texts record) (memory : Memory) :
  SetsRight L table memText record setList memory
    ↔ NoTextToNull table setList ∧ OtherTextsNull table memText.texts record setList
      ∧ Suits L table memText.nextKey setList
  := by
  obtain ⟨trx, bitmap, hlayout⟩ := TableMeta.init_ok hinit
  have htypes' : ∀ field ∈ table.columns, field.type.Plain ∨ field.type = .texts := by
    intro field hmem
    obtain ⟨attr, hattr, hdeclared⟩ := Declared.of_mem hlayout.declared hmem
    rw [hdeclared.type]
    apply htypes attr hattr
  have hrow' : ∀ texts, RowOk table texts record := by
    intro texts k field hfield hcell
    apply hrow k field hfield
    rw [cellAt_texts_congr hfield fun _ => hcell]
    exact hcell
  constructor
  · rintro ⟨fields, values, memText', record', hcreate, hupdate, hset, hkept⟩
    have hnull := noTextToNull_of_create hnames setList memText hsettable.convertible
      (by rw [hcreate]; rfl)
    obtain ⟨values', memText₁, hcreate', hstored⟩ :=
      create_ok hnames setList memText hsettable.convertible hnull
    rw [hcreate] at hcreate'
    cases hcreate'
    have hassignable := hstored.assignable hsettable
    replace hupdate : UpdateRecordMaker.update table ((paired setList values).fields table)
        memText'.texts record ((paired setList values).map Prod.snd) memory
        = some (.ok record') := by
      rwa [hstored.fields_eq, hstored.map_snd]
    have hothers' := otherTextsNull_of_update hlayout hnames hassignable hupdate
    have hothers : OtherTextsNull table memText.texts record setList := by
      intro k field hfield hmem htype
      rw [← hstored.map_fst] at hmem
      have hcell := hothers' k field hfield hmem htype
      rwa [cellAt_texts_congr hfield fun _ => hcell]
    have hright : UpdatesRight table memText'.texts record (paired setList values) memory := by
      refine ⟨record', hupdate, ?_, ?_⟩
      · intro k value hmem
        obtain ⟨j, origin, hget, hvalue⟩ := mem_paired.mp hmem
        obtain ⟨field, _, hfield, -, -, -⟩ := hstored.value_at hsettable hget
        rw [hset k origin field (List.mem_of_getElem? hget) hfield,
          hstored.expected_eq hsettable hnull hget hvalue hfield]
      · intro k hk hmem
        rw [hstored.map_fst] at hmem
        rw [hkept k hk hmem]
        have hfield := List.getElem?_eq_getElem hk
        exact (cellAt_texts_congr hfield (hothers k _ hfield hmem)).symm
    have horder := ((updatesRight_iff hinit htypes hsound hnames hassignable (hrow' _)
      memory).mp hright).2
    exact ⟨hnull, hothers, (hstored.inOrder_iff hsettable hnull htypes').mp horder⟩
  · rintro ⟨hnull, hothers, hsuits⟩
    obtain ⟨values, memText', hcreate, hstored⟩ :=
      create_ok hnames setList memText hsettable.convertible hnull
    have hothers' : OtherTextsNull table memText'.texts record (paired setList values) := by
      intro k field hfield hmem htype
      rw [hstored.map_fst] at hmem
      rw [cellAt_texts_congr hfield (hothers k field hfield hmem)]
      exact hothers k field hfield hmem htype
    obtain ⟨record', hupdate, hset, hkept⟩ := (updatesRight_iff hinit htypes hsound hnames
      (hstored.assignable hsettable) (hrow' _) memory).mpr
        ⟨hothers', (hstored.inOrder_iff hsettable hnull htypes').mpr hsuits⟩
    rw [hstored.fields_eq, hstored.map_snd] at hupdate
    refine ⟨_, values, memText', record', hcreate, hupdate, ?_, ?_⟩
    · intro k origin field hmem hfield
      obtain ⟨j, hget⟩ := List.mem_iff_getElem?.mp hmem
      obtain ⟨field', value, hfield', -, hvalue, -⟩ := hstored.value_at hsettable hget
      rw [hset k value (mem_paired.mpr ⟨j, origin, hget, hvalue⟩),
        hstored.expected_eq hsettable hnull hget hvalue hfield]
    · intro k hk hmem
      have hfield := List.getElem?_eq_getElem hk
      rw [← cellAt_texts_congr hfield (hothers k _ hfield hmem)]
      apply hkept k hk
      rwa [hstored.map_fst]

end

/-- A table of two numbers and a text. -/
def abcTable : TableMeta where
  tableId := 1
  name := "t"
  fields := [⟨"__null_bitmap", .ints, 0, 4, false, false⟩, ⟨"a", .ints, 4, 4, true, false⟩,
    ⟨"b", .ints, 8, 4, true, false⟩, ⟨"c", .texts, 12, 4, true, true⟩]
  sysFieldNum := 1
  recordSize := 16

/-- A row with the numbers `0` and a `NULL`. -/
def abcRecord : Bytes := fun i => if i = 0 then 8 else 0

theorem init_abcTable :
  TableMeta.init 1 "t" []
      [⟨"a", .ints, 4, false⟩, ⟨"b", .ints, 4, false⟩, ⟨"c", .texts, 4, true⟩]
    = .ok abcTable
  := by decide

/-- `SET a = 10, c = 'x'`. -/
theorem setsRight_iff_sorted :
  SetsRight .withoutFloats abcTable ⟨0, fun _ => []⟩ abcRecord
    [(0, .ints 10), (2, .chars [120])] ⟨fun _ => 0, fun _ _ => 0⟩
  := by
  have hsound : Sound abcTable := by
    refine ⟨by decide, ?_, by decide⟩
    simp [abcTable, TableMeta.columns, Roomy]
  have hsettable : Settable .withoutFloats abcTable [(0, .ints 10), (2, .chars [120])] := by
    constructor
    · decide
    · intro k origin hmem
      obtain h | h := List.mem_cons.mp hmem
      · cases h
        exact ⟨_, rfl, .ints 10, rfl, .inr ⟨rfl, by simp⟩⟩
      · cases List.mem_singleton.mp h
        exact ⟨_, rfl, by decide, fun _ => rfl⟩
  have hrow : RowOk abcTable (InMemoryTextStorage.texts ⟨0, fun _ => []⟩) abcRecord := by
    intro k field hfield hcell
    rcases k with _ | _ | _ | k
    · cases hcell
    · cases hcell
    · cases hfield
      rfl
    · cases hfield
  apply (setsRight_iff init_abcTable (by simp [AttrType.Plain]) hsound (by decide) hsettable hrow
    _).mpr
  refine ⟨?_, ?_, ?_⟩
  · rintro k origin field hmem - -
    obtain h | h := List.mem_cons.mp hmem
    · cases h
      simp
    · cases List.mem_singleton.mp h
      simp
  · intro k field hfield hmem htype
    rcases k with _ | _ | _ | k
    · simp at hmem
    · cases hfield
      cases htype
    · simp at hmem
    · cases hfield
  · apply suits_of_sorted hsettable <;> decide

/-- `SET b = 20, a = 10` puts 20 into `a` and 10 into `b`. -/
theorem not_setsRight_swapped :
  ¬ SetsRight .withoutFloats abcTable ⟨0, fun _ => []⟩ abcRecord [(1, .ints 20), (0, .ints 10)]
    ⟨fun _ => 0, fun _ _ => 0⟩
  := by
  rintro ⟨fields, values, memText', record', hcreate, hupdate, hset, -⟩
  cases hcreate
  cases hupdate
  have hcell := hset 0 (.ints 10) _ (by simp) rfl
  cases hcell

end MiniOB.Sql
