import MiniOB.Lib.Run
import MiniOB.Table.Table

/-!
# Tables and their indexes agree

Every index of a table holds one entry for each live record of the table, under the value
of its column, as long as no index is built over the transaction fields, which the
transactions rewrite in place.
-/

namespace MiniOB.Table

open Transition

variable {D : Type}

/-! ### One index -/

section Index

variable {index : Index D} {records : RID → Option (Record D)} {record : Record D} {rid : RID}

/-- The index holds exactly the entries of the records. -/
def Index.Agrees (index : Index D) (records : RID → Option (Record D)) : Prop :=
  ∀ value rid, (value, rid) ∈ index.entries ↔
    ∃ record, records rid = some record ∧ index.column.value record = value

/-- The entry of a record in the index. -/
def Index.entry (index : Index D) (record : Record D) (rid : RID) : ColumnValue × RID :=
  (index.column.value record, rid)

/-- The index with the entry of a record added. -/
def Index.add (record : Record D) (rid : RID) (index : Index D) : Index D :=
  { index with entries := insert (index.entry record rid) index.entries }

/-- The index with the entry of a record removed. -/
def Index.remove (record : Record D) (rid : RID) (index : Index D) : Index D :=
  { index with entries := index.entries.erase (index.entry record rid) }

@[simp]
theorem Index.add_column : (index.add record rid).column = index.column := rfl

@[simp]
theorem Index.remove_column : (index.remove record rid).column = index.column := rfl

@[simp]
theorem Index.mem_add {e : ColumnValue × RID} :
  e ∈ (index.add record rid).entries ↔ index.entry record rid = e ∨ e ∈ index.entries
  := by
  simp only [Index.add, Finset.mem_insert, eq_comm]

@[simp]
theorem Index.entry_add {record' : Record D} {rid' : RID} :
  (index.add record rid).entry record' rid' = index.entry record' rid'
  := rfl

theorem Index.insertEntry_of_fault (fault : Fault) :
  index.insertEntry record rid (some fault) = (fault.1, index)
  := rfl

theorem Index.insertEntry_of_fresh (hfresh : index.entry record rid ∉ index.entries) :
  index.insertEntry record rid none = (.success, index.add record rid)
  := by
  rw [Index.entry] at hfresh
  simp only [Index.insertEntry, EntrySet.insertEntry, if_neg hfresh, Index.add, Index.entry]

theorem Index.insertEntry_of_mem (hmem : index.entry record rid ∈ index.entries) :
  index.insertEntry record rid none = (.recordDuplicateKey, index)
  := by
  rw [Index.entry] at hmem
  simp only [Index.insertEntry, EntrySet.insertEntry, if_pos hmem]

theorem Index.deleteEntry_of_mem (hmem : index.entry record rid ∈ index.entries) :
  index.deleteEntry record rid = (.success, index.remove record rid)
  := by
  rw [Index.entry] at hmem
  simp only [Index.deleteEntry, EntrySet.deleteEntry, if_pos hmem, Index.remove, Index.entry]

theorem Index.deleteEntry_of_not_mem (hmem : index.entry record rid ∉ index.entries) :
  index.deleteEntry record rid = (.recordNotExist, index)
  := by
  rw [Index.entry] at hmem
  simp only [Index.deleteEntry, EntrySet.deleteEntry, if_neg hmem]

theorem Index.remove_add (hfresh : index.entry record rid ∉ index.entries) :
  (index.add record rid).remove record rid = index
  := by
  rw [Index.remove, Index.entry_add]
  simp only [Index.add, Finset.erase_insert hfresh]

/-- An index has no entry for an identifier that is free. -/
theorem Index.Agrees.fresh (h : index.Agrees records) (hfree : records rid = none) :
  index.entry record rid ∉ index.entries
  := by
  intro hmem
  obtain ⟨_, hlive, _⟩ := (h _ _).mp hmem
  rw [hfree] at hlive
  contradiction

theorem Index.Agrees.add (h : index.Agrees records) (hfree : records rid = none) :
  (index.add record rid).Agrees (Function.update records rid (some record))
  := by
  intro value rid'
  simp only [Index.add, Index.entry, Finset.mem_insert, Prod.mk.injEq, h value rid']
  by_cases hrid : rid' = rid
  · subst hrid
    simp [hfree, eq_comm]
  · simp [hrid]

theorem Index.Agrees.remove (h : index.Agrees records)
    (hmem : index.entry record rid ∈ index.entries) :
  (index.remove record rid).Agrees (Function.update records rid none)
  := by
  obtain ⟨_, hlive, hvalue⟩ := (h _ _).mp hmem
  intro value rid'
  simp only [Index.remove, Index.entry, Finset.mem_erase, ne_eq, Prod.mk.injEq, h value rid']
  by_cases hrid : rid' = rid
  · subst hrid
    simp only [hlive, ← hvalue, Function.update_self]
    grind
  · simp [hrid]

/-- An index over a field does not notice a change of the transaction fields. -/
theorem Index.Agrees.of_same_data {records' : RID → Option (Record D)} {value : D → ColumnValue}
    (hcolumn : index.column = .field value)
    (hdata : ∀ rid, (records' rid).map Record.data = (records rid).map Record.data)
    (h : index.Agrees records) :
  index.Agrees records'
  := by
  intro v rid
  have hrid := hdata rid
  rw [h v rid, hcolumn]
  simp only [Column.value]
  cases hold : records rid <;> cases hnew : records' rid <;> rw [hold, hnew] at hrid <;> simp_all

end Index

/-! ### The loops over the indexes -/

section Loops

variable {indexes indexes' : List (Index D)} {record : Record D} {rid : RID}

/-- The loop of `insert_entry_of_indexes` adds the entry to every index, or the loop of
`delete_entry_of_indexes` that follows its failure undoes what it has done. The latter
stops at the first index that the former has not reached. -/
theorem insertEntryOfIndexes_cases {faults : List (Option Fault)} {rc : RC}
    (hfresh : ∀ index ∈ indexes, index.entry record rid ∉ index.entries)
    (h : insertEntryOfIndexes record rid faults indexes = (rc, indexes')) :
  rc = .success ∧ indexes' = indexes.map (Index.add record rid)
    ∨ rc ≠ .success ∧ (deleteEntryOfIndexes record rid false indexes').2 = indexes
  := by
  induction indexes generalizing faults rc indexes' with
  | nil =>
    cases h
    simp
  | cons index indexes ih =>
    have hindex := hfresh index List.mem_cons_self
    rw [insertEntryOfIndexes] at h
    cases hfault : faults.headD none with
    | some fault =>
      obtain ⟨rc', hrc'⟩ := fault
      rw [hfault, Index.insertEntry_of_fault] at h
      cases rc' <;> first | contradiction | skip
      all_goals
        cases h
        right
        simp [deleteEntryOfIndexes, Index.deleteEntry_of_not_mem hindex]
    | none =>
      rw [hfault, Index.insertEntry_of_fresh hindex] at h
      cases hrest : insertEntryOfIndexes record rid faults.tail indexes with
      | mk rc' rest =>
        simp only [hrest] at h
        cases h
        obtain ⟨hrc, hall⟩ | ⟨hrc, hundo⟩ :=
          ih (fun index hmem => hfresh index (List.mem_cons_of_mem _ hmem)) hrest
        · left
          simp [hrc, hall]
        · right
          refine ⟨hrc, ?_⟩
          rw [deleteEntryOfIndexes, Index.deleteEntry_of_mem (by simp)]
          simp only [hundo, Index.remove_add hindex]

/-- The loop of `Table::delete_record` passes its assertions only if every index has the
entry, and removes it from all of them. -/
theorem deleteEntries_eq (h : deleteEntries record rid indexes = .ok indexes') :
  (∀ index ∈ indexes, index.entry record rid ∈ index.entries)
    ∧ indexes' = indexes.map (Index.remove record rid)
  := by
  induction indexes generalizing indexes' with
  | nil =>
    cases h
    simp
  | cons index indexes ih =>
    rw [deleteEntries] at h
    by_cases hmem : index.entry record rid ∈ index.entries
    · rw [Index.deleteEntry_of_mem hmem] at h
      cases hrest : deleteEntries record rid indexes with
      | error _ => simp [hrest, Except.map] at h
      | ok rest =>
        simp only [hrest, Except.map, Except.ok.injEq] at h
        obtain ⟨hall, hmap⟩ := ih hrest
        simpa [← h, hmem, hmap] using hall
    · rw [Index.deleteEntry_of_not_mem hmem] at h
      contradiction

/-- The loop of `create_index` adds the entries of the rows. -/
theorem mem_insertRows {rows : List (RID × Record D)} {faults : List (Option Fault)}
    {index index' : Index D} (h : insertRows rows faults index = (.success, index')) :
  index'.column = index.column
    ∧ ∀ e, e ∈ index'.entries ↔ e ∈ index.entries ∨ ∃ row ∈ rows, index.entry row.2 row.1 = e
  := by
  induction rows generalizing faults index with
  | nil =>
    cases h
    simp
  | cons row rows ih =>
    obtain ⟨rid, record⟩ := row
    rw [insertRows] at h
    cases hfault : faults.headD none with
    | some fault =>
      obtain ⟨rc, hrc⟩ := fault
      rw [hfault, Index.insertEntry_of_fault] at h
      cases rc <;> first | contradiction | simp at h
    | none =>
      by_cases hmem : index.entry record rid ∈ index.entries
      · rw [hfault, Index.insertEntry_of_mem hmem] at h
        simp at h
      · rw [hfault, Index.insertEntry_of_fresh hmem] at h
        obtain ⟨hcolumn, hentries⟩ := ih h
        refine ⟨hcolumn, fun e => ?_⟩
        rw [hentries e]
        simp only [Index.mem_add, Index.entry_add, List.mem_cons, exists_eq_or_imp]
        tauto

end Loops

/-! ### The tables -/

/-- Every index of every table agrees with the records of the table. -/
def Tables.Agrees (s : Tables D) : Prop :=
  ∀ table, ∀ index ∈ s.indexes table, index.Agrees fun rid => s.store ⟨table, rid⟩

/-- No index is built over a transaction field. -/
def Tables.FieldIndexed (s : Tables D) : Prop :=
  ∀ table, ∀ index ∈ s.indexes table, ∃ value, index.column = .field value

/-- The invariant of the tables. -/
structure Tables.Inv (s : Tables D) : Prop where
  agrees : s.Agrees
  fieldIndexed : s.FieldIndexed

/-- The records of one table after a change of one place. -/
theorem update_store (store : Store D) (table table' : TableId) (rid : RID)
    (record : Option (Record D)) :
  (fun rid' => Function.update store ⟨table, rid⟩ record ⟨table', rid'⟩)
    = if table' = table then Function.update (fun rid' => store ⟨table, rid'⟩) rid record
      else fun rid' => store ⟨table', rid'⟩
  := by
  funext rid'
  split
  · rename_i htable
    subst htable
    by_cases hrid : rid' = rid <;> simp [hrid]
  · rename_i htable
    simp [htable]

section Tables

variable {s : Tables D} {table : TableId} {place : Place} {record : Record D} {rid : RID}

/-- A change of one table: its indexes agree with its records afterwards. -/
theorem Tables.Inv.update (h : s.Inv) (record : Option (Record D)) {indexes : List (Index D)}
    (hagrees : ∀ index ∈ indexes,
      index.Agrees (Function.update (fun rid => s.store ⟨table, rid⟩) rid record))
    (hfield : ∀ index ∈ indexes, ∃ value, index.column = .field value) :
  Tables.Inv ⟨Function.update s.store ⟨table, rid⟩ record, Function.update s.indexes table indexes⟩
  := by
  constructor
  · intro table' index hmem
    simp only [update_store]
    by_cases htable : table' = table
    · subst htable
      simp only [Function.update_self] at hmem
      simpa using hagrees index hmem
    · simp only [Function.update_of_ne htable] at hmem
      simpa [htable] using h.agrees table' index hmem
  · intro table' index hmem
    by_cases htable : table' = table
    · subst htable
      simp only [Function.update_self] at hmem
      apply hfield index hmem
    · simp only [Function.update_of_ne htable] at hmem
      apply h.fieldIndexed table' index hmem

/-- A store with the same records up to the transaction fields. -/
def SameData (store store' : Store D) : Prop :=
  ∀ place, (store' place).map Record.data = (store place).map Record.data

theorem SameData.refl (store : Store D) : SameData store store := fun _ => rfl

theorem SameData.trans {store store' store'' : Store D} (h : SameData store store')
    (h' : SameData store' store'') :
  SameData store store''
  := by
  intro place
  rw [h' place, h place]

theorem SameData.update {store : Store D} {record' : Record D}
    (hlive : store place = some record) (hdata : record'.data = record.data) :
  SameData store (Function.update store place (some record'))
  := by
  intro place'
  by_cases hplace : place' = place
  · subst hplace
    simp [hlive, hdata]
  · rw [Function.update_of_ne hplace]

theorem Tables.Inv.of_same_data (h : s.Inv) {store : Store D} (hdata : SameData s.store store) :
  Tables.Inv { s with store := store }
  := by
  constructor
  · intro table index hmem
    obtain ⟨value, hcolumn⟩ := h.fieldIndexed table index hmem
    apply Index.Agrees.of_same_data hcolumn _ (h.agrees table index hmem)
    intro rid
    apply hdata
  · apply h.fieldIndexed

/-- A failed `insert_record` leaves the tables as they were. -/
theorem insertRecord_cases (h : s.Agrees) (placed : Except RC RID)
    (hfree : ∀ rid, placed = .ok rid → s.store ⟨table, rid⟩ = none)
    (faults : List (Option Fault)) (record : Record D) :
  (∃ rc, insertRecord table placed faults record s = (.error rc, s))
    ∨ ∃ rid, placed = .ok rid ∧ insertRecord table placed faults record s =
      (.ok rid, ⟨Function.update s.store ⟨table, rid⟩ (some record),
        Function.update s.indexes table ((s.indexes table).map (Index.add record rid))⟩)
  := by
  cases placed with
  | error rc =>
    left
    use rc
    rfl
  | ok rid =>
    have hrid := hfree rid rfl
    have hfresh : ∀ index ∈ s.indexes table, index.entry record rid ∉ index.entries :=
      fun index hmem => (h table index hmem).fresh hrid
    rw [insertRecord]
    cases hindexes : insertEntryOfIndexes record rid faults (s.indexes table) with
    | mk rc indexes =>
      obtain ⟨rfl, rfl⟩ | ⟨hrc, hundo⟩ := insertEntryOfIndexes_cases hfresh hindexes
      · right
        use rid
      · left
        use rc
        have hstore : Function.update s.store ⟨table, rid⟩ none = s.store := by
          rw [← hrid, Function.update_eq_self]
        simp [hundo, hstore]

theorem Tables.Inv.add (h : s.Inv) (hfree : s.store ⟨table, rid⟩ = none) (record : Record D) :
  Tables.Inv ⟨Function.update s.store ⟨table, rid⟩ (some record),
    Function.update s.indexes table ((s.indexes table).map (Index.add record rid))⟩
  := by
  apply h.update
  · intro index hmem
    obtain ⟨index, hindex, rfl⟩ := List.mem_map.mp hmem
    apply (h.agrees table index hindex).add hfree
  · intro index hmem
    obtain ⟨index, hindex, rfl⟩ := List.mem_map.mp hmem
    apply h.fieldIndexed table index hindex

theorem Tables.Inv.insertRecord (h : s.Inv) (placed : Except RC RID)
    (hfree : ∀ rid, placed = .ok rid → s.store ⟨table, rid⟩ = none)
    (faults : List (Option Fault)) (record : Record D) :
  (insertRecord table placed faults record s).2.Inv
  := by
  obtain ⟨rc, heq⟩ | ⟨rid, hplaced, heq⟩ := insertRecord_cases h.agrees placed hfree faults record
  · rw [heq]
    apply h
  · rw [heq]
    apply h.add (hfree rid hplaced)

theorem Tables.Inv.deleteRecordData (h : s.Inv) {rc : RC} {s' : Tables D}
    (heq : deleteRecordData place record s = .ok (rc, s')) :
  s'.Inv ∧ s'.store = Function.update s.store place none
  := by
  rw [Table.deleteRecordData] at heq
  cases hindexes : deleteEntries record place.rid (s.indexes place.table) with
  | error _ => simp [hindexes] at heq
  | ok indexes =>
    obtain ⟨hmem, rfl⟩ := deleteEntries_eq hindexes
    have hinv : Tables.Inv ⟨Function.update s.store place none, Function.update s.indexes
        place.table ((s.indexes place.table).map (Index.remove record place.rid))⟩ := by
      apply h.update
      · intro index' hmem'
        obtain ⟨index, hindex, rfl⟩ := List.mem_map.mp hmem'
        apply (h.agrees _ index hindex).remove (hmem index hindex)
      · intro index' hmem'
        obtain ⟨index, hindex, rfl⟩ := List.mem_map.mp hmem'
        apply h.fieldIndexed _ index hindex
    rw [hindexes] at heq
    cases hlive : s.store place with
    | none =>
      have hstore : Function.update s.store place none = s.store := by
        rw [← hlive, Function.update_eq_self]
      simp only [hlive] at heq
      cases heq
      rw [hstore] at hinv ⊢
      exact ⟨hinv, rfl⟩
    | some record' =>
      simp only [hlive] at heq
      cases heq
      exact ⟨hinv, rfl⟩

theorem Tables.Inv.deleteRecord (h : s.Inv) {rc : RC} {s' : Tables D}
    (heq : deleteRecord place s = .ok (rc, s')) :
  s'.Inv ∧ s'.store = Function.update s.store place none
  := by
  rw [Table.deleteRecord] at heq
  cases hlive : s.store place with
  | none =>
    simp only [hlive] at heq
    cases heq
    refine ⟨h, ?_⟩
    rw [← hlive, Function.update_eq_self]
  | some record =>
    simp only [hlive] at heq
    apply h.deleteRecordData heq

theorem Tables.Inv.createIndex (h : s.Inv) {column : Column D} {value : D → ColumnValue}
    (hcolumn : column = .field value) (created : RC) {rows : List (RID × Record D)}
    (hrows : ∀ rid record, (rid, record) ∈ rows ↔ s.store ⟨table, rid⟩ = some record)
    (faults : List (Option Fault)) (saved : RC) :
  (createIndex table column created rows faults saved s).2.Inv
  := by
  rw [Table.createIndex]
  split
  · apply h
  split
  · rename_i index hbuilt
    obtain ⟨hcolumn', hentries⟩ := mem_insertRows hbuilt
    have hagrees : index.Agrees fun rid => s.store ⟨table, rid⟩ := by
      intro v rid
      simp only [hentries, hcolumn', Finset.notMem_empty, false_or, Index.entry, Prod.mk.injEq,
        Prod.exists, hrows]
      grind
    constructor
    · intro table' index' hmem
      by_cases htable : table' = table
      · subst htable
        simp only [Function.update_self, List.mem_append, List.mem_singleton] at hmem
        obtain hmem | rfl := hmem
        · apply h.agrees table' index' hmem
        · apply hagrees
      · simp only [Function.update_of_ne htable] at hmem
        apply h.agrees table' index' hmem
    · intro table' index' hmem
      by_cases htable : table' = table
      · subst htable
        simp only [Function.update_self, List.mem_append, List.mem_singleton] at hmem
        obtain hmem | rfl := hmem
        · apply h.fieldIndexed table' index' hmem
        · use value
          rw [hcolumn', hcolumn]
      · simp only [Function.update_of_ne htable] at hmem
        apply h.fieldIndexed table' index' hmem
  · apply h

end Tables

/-! ### Transactions -/

section Transactions

variable {db db' : Database D} {store store' : Store D} {trx : Mvcc.MvccTrx}

theorem commitOperation_sameData {commitXid : Int} {op : Mvcc.Operation}
    (h : Mvcc.commitOperation trx commitXid store op = .ok store') :
  SameData store store'
  := by
  rw [Mvcc.commitOperation] at h
  cases hlive : store op.place with
  | none => simp [hlive] at h
  | some record =>
    cases htype : op.type <;> simp only [hlive, htype] at h <;> split at h <;> cases h
    all_goals
      apply SameData.update hlive
      rfl

theorem foldlM_commitOperation_sameData {commitXid : Int} {ops : List Mvcc.Operation}
    (h : ops.foldlM (Mvcc.commitOperation trx commitXid) store = .ok store') :
  SameData store store'
  := by
  induction ops generalizing store with
  | nil =>
    cases h
    apply SameData.refl
  | cons op ops ih =>
    rw [List.foldlM_cons] at h
    cases hop : Mvcc.commitOperation trx commitXid store op with
    | error _ =>
      rw [hop] at h
      contradiction
    | ok store₁ =>
      rw [hop] at h
      apply (commitOperation_sameData hop).trans (ih h)

theorem rollbackOperation_sameData {rc rc' : RC} {op : Mvcc.Operation}
    (htype : op.type = .delete)
    (h : Mvcc.rollbackOperation trx (rc, store) op = .ok (rc', store')) :
  SameData store store'
  := by
  simp only [Mvcc.rollbackOperation, htype] at h
  split at h
  · contradiction
  cases hlive : store op.place with
  | none => simp [hlive] at h
  | some record =>
    simp only [hlive] at h
    split at h
    · cases h
      apply SameData.refl
    split at h <;> cases h
    apply SameData.update hlive
    rfl

/-- A turn of the loop of `rollback` does the same to the records as it does without the
indexes, and keeps the invariant of the tables. -/
theorem rollbackOperation_spec {state state' : RC × Tables D} {op : Mvcc.Operation}
    (hs : state.2.Inv) (h : rollbackOperation trx state op = .ok state') :
  state'.2.Inv ∧ Mvcc.rollbackOperation trx (state.1, state.2.store) op =
    .ok (state'.1, state'.2.store)
  := by
  obtain ⟨rc, s⟩ := state
  obtain ⟨rc', s'⟩ := state'
  rw [rollbackOperation] at h
  cases htype : op.type with
  | insert =>
    simp only [Mvcc.rollbackOperation, htype]
    cases hlive : s.store op.place with
    | none =>
      cases hrecovering : trx.recovering with
      | true =>
        simp only [htype, hlive, hrecovering] at h
        cases h
        exact ⟨hs, rfl⟩
      | false => simp [htype, hlive, hrecovering] at h
    | some record =>
      simp only [htype, hlive] at h
      split at h
      · rename_i hother
        cases h
        refine ⟨hs, ?_⟩
        simp only [if_pos hother]
      · rename_i hown
        have hdelete := hs.deleteRecord h
        have hrc : rc' = .success := by
          simp only [deleteRecord, deleteRecordData, hlive] at h
          split at h <;> cases h
          rfl
        refine ⟨hdelete.1, ?_⟩
        simp only [if_neg hown, hdelete.2, hrc]
  | delete =>
    simp only [htype] at h
    split at h
    · contradiction
    · rename_i hop
      cases h
      exact ⟨hs.of_same_data (rollbackOperation_sameData htype hop), hop⟩

theorem foldlM_rollbackOperation_spec {ops : List Mvcc.Operation} {state state' : RC × Tables D}
    (hs : state.2.Inv) (h : ops.foldlM (rollbackOperation trx) state = .ok state') :
  state'.2.Inv ∧ ops.foldlM (Mvcc.rollbackOperation trx) (state.1, state.2.store) =
    .ok (state'.1, state'.2.store)
  := by
  induction ops generalizing state with
  | nil =>
    cases h
    exact ⟨hs, rfl⟩
  | cons op ops ih =>
    rw [List.foldlM_cons] at h
    cases hop : rollbackOperation trx state op with
    | error _ =>
      rw [hop] at h
      contradiction
    | ok state₁ =>
      rw [hop] at h
      obtain ⟨hinv, heq⟩ := rollbackOperation_spec hs hop
      rw [List.foldlM_cons, heq]
      apply ih hinv h

end Transactions

/-! ### Runs -/

/-- The invariant of a database. -/
def Database.Inv (db : Database D) : Prop := db.tables.Inv

theorem Database.inv_init : (Database.init : Database D).Inv := by
  constructor <;> intro table index hmem <;> simp [Database.tables, Database.init] at hmem

section Step

variable {db db' : Database D} {rc : RC} {t : Mvcc.TrxRef}

theorem Database.Inv.of_same_data (h : db.Inv) {mvcc : Mvcc.State D}
    (hdata : SameData db.mvcc.store mvcc.store) :
  Database.Inv { db with mvcc := mvcc }
  := by
  apply Tables.Inv.of_same_data h hdata

theorem pushOperation_store {op : Mvcc.Operation} {entry : Mvcc.LogEntry} {s s' : Mvcc.State D}
    (h : Mvcc.pushOperation t op entry s = .ok (rc, s')) :
  rc = .success ∧ s'.store = s.store
  := by
  simp only [Mvcc.pushOperation] at h
  split at h <;> cases h
  exact ⟨rfl, rfl⟩

theorem startIfNeed_sameData {s s' : Mvcc.State D} (h : Mvcc.startIfNeed t s = .ok (rc, s')) :
  SameData s.store s'.store
  := by
  rw [Mvcc.startIfNeed] at h
  split at h
  · cases h
    apply SameData.refl
  split at h <;> cases h
  apply SameData.refl

theorem deleteRecord_sameData {place : Place} {s s' : Mvcc.State D}
    (h : Mvcc.deleteRecord t place s = .ok (rc, s')) :
  SameData s.store s'.store
  := by
  rw [Mvcc.deleteRecord] at h
  cases hlive : s.store place with
  | none =>
    simp only [hlive] at h
    cases h
    apply SameData.refl
  | some record =>
    simp only [hlive] at h
    split at h
    · rw [(pushOperation_store h).2]
      apply SameData.update hlive
      rfl
    · cases h
      apply SameData.refl

theorem commit_sameData {s s' : Mvcc.State D} (h : Mvcc.commit t s = .ok (rc, s')) :
  SameData s.store s'.store
  := by
  simp only [Mvcc.commit, Mvcc.commitWithTrxId] at h
  split at h
  · contradiction
  rename_i store hloop
  have hdata := foldlM_commitOperation_sameData hloop
  split at h
  · cases h
    apply hdata
  split at h <;> cases h
  apply hdata

/-- `MvccTrx::insert_record` fails with the tables as they were, or puts the record into
the table and its indexes. -/
theorem trxInsertRecord_cases (h : db.Inv) {table : TableId} {placed : Except RC RID}
    {faults : List (Option Fault)} {data : D}
    (hfree : ∀ rid, placed = .ok rid → db.mvcc.store ⟨table, rid⟩ = none)
    (hexec : trxInsertRecord t table placed faults data db = .ok (rc, db')) :
  db' = db ∨ rc = .success ∧ db'.Inv
  := by
  obtain ⟨rc', heq⟩ | ⟨rid, hplaced, heq⟩ := insertRecord_cases h.agrees placed hfree faults
    ⟨-(db.mvcc.trxes t).trxId, Mvcc.maxTrxId, data⟩
  · left
    simp only [trxInsertRecord, heq, Mvcc.insertRecord] at hexec
    cases hexec
    rfl
  · right
    simp only [trxInsertRecord, heq, Mvcc.insertRecord] at hexec
    split at hexec <;> cases hexec
    rename_i hpush
    obtain ⟨hrc, hstore⟩ := pushOperation_store hpush
    refine ⟨hrc, ?_⟩
    rw [Database.Inv, Database.tables, hstore]
    apply Tables.Inv.add h (hfree rid hplaced)

theorem Database.Inv.trxRollback (h : db.Inv) (hexec : trxRollback t db = .ok (rc, db')) :
  db'.Inv
  := by
  simp only [Table.trxRollback] at hexec
  split at hexec <;> cases hexec
  rename_i hloop hrollback
  have hstart : ((RC.success, db.tables) : RC × Tables D).2.Inv := h
  obtain ⟨hinv, hstore⟩ := foldlM_rollbackOperation_spec hstart hloop
  simp only [Mvcc.rollback, Database.tables] at hrollback hstore
  simp only [hstore] at hrollback
  split at hrollback
  · cases hrollback
    apply hinv
  split at hrollback <;> cases hrollback
  apply hinv

/-- Every admissible call that returns keeps the tables and their indexes in agreement,
unless it builds an index over a transaction field. -/
theorem Database.Inv.step (h : db.Inv) {call : Call D}
    (hfield : ∀ table column created rows faults saved,
      call = .createIndex table column created rows faults saved →
      ∃ value, column = .field value)
    (hstep : Step db call db') :
  db'.Inv
  := by
  obtain ⟨hadm, rc, hexec⟩ := hstep
  cases call with
  | insertRecord table placed faults record =>
    have hinv := Tables.Inv.insertRecord h placed hadm faults record
    simp only [exec] at hexec
    split at hexec <;> rename_i heq <;> rw [heq] at hinv <;> cases hexec <;> exact hinv
  | deleteRecord place =>
    simp only [exec] at hexec
    cases hdelete : deleteRecord place db.tables with
    | error _ => simp [hdelete, Except.map] at hexec
    | ok result =>
      rw [hdelete] at hexec
      cases hexec
      apply (Tables.Inv.deleteRecord h hdelete).1
  | deleteRecordData place record =>
    simp only [exec] at hexec
    cases hdelete : deleteRecordData place record db.tables with
    | error _ => simp [hdelete, Except.map] at hexec
    | ok result =>
      rw [hdelete] at hexec
      cases hexec
      apply (Tables.Inv.deleteRecordData h hdelete).1
  | createIndex table column created rows faults saved =>
    obtain ⟨value, hcolumn⟩ := hfield _ _ _ _ _ _ rfl
    cases hexec
    apply Tables.Inv.createIndex h hcolumn created hadm faults saved
  | trxStart t =>
    simp only [exec, trxCall, Mvcc.exec] at hexec
    split at hexec <;> cases hexec
    apply h.of_same_data (startIfNeed_sameData ‹_›)
  | trxInsert t table placed faults data =>
    obtain rfl | ⟨_, hinv⟩ := trxInsertRecord_cases h hadm hexec
    · apply h
    · apply hinv
  | trxDelete t place =>
    simp only [exec, trxCall, Mvcc.exec] at hexec
    split at hexec <;> cases hexec
    apply h.of_same_data (deleteRecord_sameData ‹_›)
  | trxCommit t =>
    simp only [exec, trxCall, Mvcc.exec] at hexec
    split at hexec <;> cases hexec
    apply h.of_same_data (commit_sameData ‹_›)
  | trxRollback t =>
    apply h.trxRollback hexec

end Step

/-- A call that meets the condition `ok` leads from `db` to `db'`. -/
def StepIf (ok : Call D → Prop) (db : Database D) (call : Call D) (db' : Database D) : Prop :=
  ok call ∧ Step db call db'

/-- The call does not build an index over a transaction field. -/
def OverField : Call D → Prop
  | .createIndex _ column _ _ _ _ => ∃ value, column = .field value
  | _ => True

/-- Along the runs whose calls meet `ok`, the entries of every index are those of the live
records of its table, and a call of `insert_record` that fails in an index leaves the
records and the indexes as they were. -/
def IndexesAgree (ok : Call D → Prop) : Prop :=
  ∀ (h : List (Database D × Call D)) (db : Database D), Run (StepIf ok) Database.init h db →
    (∀ table, ∀ index ∈ db.indexes table, ∀ value rid, (value, rid) ∈ index.entries ↔
      ∃ record, db.mvcc.store ⟨table, rid⟩ = some record ∧ index.column.value record = value)
    ∧ ∀ table rid, db.mvcc.store ⟨table, rid⟩ = none → ∀ faults,
      (∀ record rc db', rc ≠ .success →
        exec db (.insertRecord table (.ok rid) faults record) = .ok (rc, db') → db' = db)
      ∧ ∀ t data rc db', rc ≠ .success →
        exec db (.trxInsert t table (.ok rid) faults data) = .ok (rc, db') → db' = db

theorem inv_of_run {h : List (Database D × Call D)} {db : Database D}
    (hrun : Run (StepIf OverField) Database.init h db) :
  db.Inv
  := by
  apply hrun.invariant Database.inv_init
  rintro db call db' hinv ⟨hok, hstep⟩
  apply hinv.step _ hstep
  rintro table column created rows faults saved rfl
  apply hok

theorem indexes_agree : IndexesAgree (OverField (D := D)) := by
  intro h db hrun
  have hinv := inv_of_run hrun
  refine ⟨hinv.agrees, fun table rid hlive faults => ?_⟩
  have hfree : ∀ rid', .ok rid = (.ok rid' : Except RC RID) →
      db.mvcc.store ⟨table, rid'⟩ = none := by
    rintro _ ⟨⟩
    apply hlive
  constructor
  · intro record rc db' hrc hexec
    obtain ⟨rc', heq⟩ | ⟨_, _, heq⟩ := insertRecord_cases hinv.agrees (.ok rid) hfree faults
      record
    · simp only [exec, heq] at hexec
      cases hexec
      rfl
    · simp only [exec, heq] at hexec
      cases hexec
      contradiction
  · intro t data rc db' hrc hexec
    obtain heq | ⟨hsuccess, _⟩ := trxInsertRecord_cases hinv hfree hexec
    · apply heq
    · contradiction

/-- A run that makes an index over the begin field stale: the entry of a record is made
under minus the id of the inserting transaction, and the commit changes the record. -/
theorem stale_index_run :
  ∃ h db, Run (StepIf fun _ : Call Unit => True) Database.init h db
    ∧ (db.indexes 0).map Index.entries = [{(.int (-1), ⟨1, 0⟩)}]
    ∧ (db.indexes 0).map (fun index => index.column.value ⟨2, Mvcc.maxTrxId, ()⟩) = [.int 2]
    ∧ db.mvcc.store ⟨0, ⟨1, 0⟩⟩ = some ⟨2, Mvcc.maxTrxId, ()⟩
  := by
  refine ⟨_, _, .tail (.tail (.tail (.tail .refl
    (e := .createIndex 0 .beginXid .success [] [] .success) ⟨trivial, ?_, _, rfl⟩)
    (e := .trxStart 0) ⟨trivial, by trivial, _, rfl⟩)
    (e := .trxInsert 0 0 (.ok ⟨1, 0⟩) [] ()) ⟨trivial, ?_, _, rfl⟩)
    (e := .trxCommit 0) ⟨trivial, by trivial, _, rfl⟩, ?_, ?_, ?_⟩
  · intro rid record
    simp [Database.init, Mvcc.State.init]
  · intro rid _
    rfl
  all_goals decide +kernel

theorem indexes_disagree : ¬ IndexesAgree fun _ : Call Unit => True := by
  intro hagree
  obtain ⟨h, db, hrun, hentries, hvalue, hlive⟩ := stale_index_run
  obtain ⟨index, hindexes, hindex⟩ := List.map_eq_singleton_iff.mp hentries
  rw [hindexes, List.map_singleton, List.singleton_inj] at hvalue
  have hmem := (hagree h db hrun).1 0 index (by simp [hindexes]) (.int (-1)) ⟨1, 0⟩
  rw [hindex] at hmem
  obtain ⟨record, hrecord, hstale⟩ := hmem.mp (Finset.mem_singleton_self _)
  rw [hlive, Option.some_inj] at hrecord
  rw [← hrecord, hvalue] at hstale
  contradiction

end MiniOB.Table
