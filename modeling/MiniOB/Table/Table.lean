import MiniOB.Index.EntrySet
import MiniOB.Trx.MvccTrx

/-!
# Tables with indexes

`Table` of `storage/table/table.cpp` with the index maintenance of its calls, and the calls
of `MvccTrx` that go through it. The records of a table are the live records of its record
file; an index is the set of its entries.
-/

namespace MiniOB.Table

/-- The value of a column under the comparison of its index: a number for `INTS` and
`DATES`, the bytes up to the first zero for `CHARS`. -/
inductive ColumnValue where
  | int (value : Int)
  | chars (value : List (BitVec 8))
  deriving DecidableEq, Repr

/-- A column of a table: one of the two transaction fields, or a field that is computed
from the rest of the record. `TableMeta::field` finds all of them by name. -/
inductive Column (D : Type) where
  | beginXid
  | endXid
  | field (value : D → ColumnValue)

variable {D : Type}

/-- The value of the column in a record. -/
def Column.value : Column D → Record D → ColumnValue
  | .beginXid, record => .int record.beginXid
  | .endXid, record => .int record.endXid
  | .field value, record => value record.data

/-- An index: its column, and its entries. -/
structure Index (D : Type) where
  column : Column D
  entries : Finset (ColumnValue × RID)

/-- The code with which an insertion into an index fails for want of a page. -/
abbrev Fault := { rc : RC // rc ≠ .success }

/-- `BplusTreeIndex::insert_entry`. With a `fault` it changes nothing. -/
def Index.insertEntry (index : Index D) (record : Record D) (rid : RID) (fault : Option Fault) :
    RC × Index D :=
  match fault with
  | some fault => (fault, index)
  | none =>
    let (rc, entries) := EntrySet.insertEntry (index.column.value record, rid) index.entries
    (rc, { index with entries := entries })

/-- `BplusTreeIndex::delete_entry`. -/
def Index.deleteEntry (index : Index D) (record : Record D) (rid : RID) : RC × Index D :=
  let (rc, entries) := EntrySet.deleteEntry (index.column.value record, rid) index.entries
  (rc, { index with entries := entries })

/-- `Table::insert_entry_of_indexes`, over the indexes from the one that `faults` numbers
`0` on. -/
def insertEntryOfIndexes (record : Record D) (rid : RID) :
    List (Option Fault) → List (Index D) → RC × List (Index D)
  | _, [] => (.success, [])
  | faults, index :: indexes =>
    match index.insertEntry record rid (faults.headD none) with
    | (.success, index) =>
      let (rc, indexes) := insertEntryOfIndexes record rid faults.tail indexes
      (rc, index :: indexes)
    | (rc, index) => (rc, index :: indexes)

/-- `Table::delete_entry_of_indexes`. -/
def deleteEntryOfIndexes (record : Record D) (rid : RID) (errorOnNotExists : Bool) :
    List (Index D) → RC × List (Index D)
  | [] => (.success, [])
  | index :: indexes =>
    match index.deleteEntry record rid with
    | (.success, index) =>
      let (rc, indexes) := deleteEntryOfIndexes record rid errorOnNotExists indexes
      (rc, index :: indexes)
    | (rc, index) =>
      if rc ≠ .recordInvalidKey ∨ errorOnNotExists = false then (rc, index :: indexes)
      else
        let (rc', indexes') := deleteEntryOfIndexes record rid errorOnNotExists indexes
        (if indexes = [] then rc else rc', index :: indexes')

/-- The tables of a database: their records and their indexes. -/
structure Tables (D : Type) where
  store : Store D
  indexes : TableId → List (Index D)

/-- The assertions that stop the server when they fail. -/
inductive Failure where
  /-- `Table::delete_record`: every index has the entry of the record. -/
  | indexEntry
  /-- An assertion of the transactions. -/
  | trx (failure : Mvcc.AssertFailure)
  deriving DecidableEq, Repr

/-- `Table::insert_record`. The argument `placed` is the answer of
`RecordFileHandler::insert_record`. -/
def insertRecord (table : TableId) (placed : Except RC RID) (faults : List (Option Fault))
    (record : Record D) (s : Tables D) : Except RC RID × Tables D :=
  match placed with
  | .error rc => (.error rc, s)
  | .ok rid =>
    let store := Function.update s.store ⟨table, rid⟩ (some record)
    match insertEntryOfIndexes record rid faults (s.indexes table) with
    | (.success, indexes) => (.ok rid, ⟨store, Function.update s.indexes table indexes⟩)
    | (rc, indexes) =>
      let (_, indexes) := deleteEntryOfIndexes record rid false indexes
      (.error rc,
        ⟨Function.update store ⟨table, rid⟩ none, Function.update s.indexes table indexes⟩)

/-- The loop of `Table::delete_record` over the indexes. -/
def deleteEntries (record : Record D) (rid : RID) :
    List (Index D) → Except Failure (List (Index D))
  | [] => .ok []
  | index :: indexes =>
    match index.deleteEntry record rid with
    | (.success, index) => (deleteEntries record rid indexes).map (index :: ·)
    | _ => .error .indexEntry

/-- `Table::delete_record` of the record that the caller has read at the place. -/
def deleteRecordData (place : Place) (record : Record D) (s : Tables D) :
    Except Failure (RC × Tables D) :=
  match deleteEntries record place.rid (s.indexes place.table) with
  | .error failure => .error failure
  | .ok indexes =>
    let indexes := Function.update s.indexes place.table indexes
    match s.store place with
    | none => .ok (.recordNotExist, ⟨s.store, indexes⟩)
    | some _ => .ok (.success, ⟨Function.update s.store place none, indexes⟩)

/-- `Table::delete_record` of an identifier. -/
def deleteRecord (place : Place) (s : Tables D) : Except Failure (RC × Tables D) :=
  match s.store place with
  | none => .ok (.recordNotExist, s)
  | some record => deleteRecordData place record s

/-- The loop of `Table::create_index` over the records that the scanner returns. -/
def insertRows : List (RID × Record D) → List (Option Fault) → Index D → RC × Index D
  | [], _, index => (.success, index)
  | (rid, record) :: rows, faults, index =>
    match index.insertEntry record rid (faults.headD none) with
    | (.success, index) => insertRows rows faults.tail index
    | (rc, index) => (rc, index)

/-- `Table::create_index`, for the records `rows` of the table. The argument `created` is
the answer of the checks and of the creation of the index file, `saved` the one of adding
the index to the metadata of the table, at which the index is already in use. -/
def createIndex (table : TableId) (column : Column D) (created : RC)
    (rows : List (RID × Record D)) (faults : List (Option Fault)) (saved : RC) (s : Tables D) :
    RC × Tables D :=
  if created ≠ .success then (created, s)
  else
    match insertRows rows faults ⟨column, ∅⟩ with
    | (.success, index) =>
      (saved, { s with
        indexes := Function.update s.indexes table (s.indexes table ++ [index]) })
    | (rc, _) => (rc, s)

/-! ### Transactions over tables -/

/-- A database: its transactions, with the records, and the indexes of its tables. -/
structure Database (D : Type) where
  mvcc : Mvcc.State D
  indexes : TableId → List (Index D)

/-- The tables of a database. -/
def Database.tables (db : Database D) : Tables D := ⟨db.mvcc.store, db.indexes⟩

/-- The database with other tables. -/
def Database.setTables (db : Database D) (tables : Tables D) : Database D :=
  ⟨{ db.mvcc with store := tables.store }, tables.indexes⟩

/-- A new, empty database. -/
def Database.init : Database D := ⟨Mvcc.State.init, fun _ => []⟩

/-- `MvccTrx::insert_record`, through `Table::insert_record`. -/
def trxInsertRecord (t : Mvcc.TrxRef) (table : TableId) (placed : Except RC RID)
    (faults : List (Option Fault)) (data : D) (db : Database D) :
    Except Failure (RC × Database D) :=
  let record := ⟨-(db.mvcc.trxes t).trxId, Mvcc.maxTrxId, data⟩
  let (placed, tables) := insertRecord table placed faults record db.tables
  match Mvcc.insertRecord t table placed data db.mvcc with
  | .error failure => .error (.trx failure)
  | .ok (rc, mvcc) => .ok (rc, ⟨mvcc, tables.indexes⟩)

/-- One turn of the loop of `MvccTrx::rollback`, which removes inserted records through
`Table::delete_record`. -/
def rollbackOperation (trx : Mvcc.MvccTrx) (state : RC × Tables D) (op : Mvcc.Operation) :
    Except Failure (RC × Tables D) :=
  let (rc, tables) := state
  match op.type, tables.store op.place, trx.recovering with
  | .insert, none, true => .ok (.recordNotExist, tables)
  | .insert, none, false => .error (.trx .rollbackDelete)
  | .insert, some record, recovering =>
    if recovering ∧ record.beginXid ≠ -trx.trxId then .ok (.success, tables)
    else deleteRecord op.place tables
  | .delete, _, _ =>
    match Mvcc.rollbackOperation trx (rc, tables.store) op with
    | .error failure => .error (.trx failure)
    | .ok (rc, store) => .ok (rc, { tables with store := store })

/-- `MvccTrx::rollback`, through `Table::delete_record`. -/
def trxRollback (t : Mvcc.TrxRef) (db : Database D) : Except Failure (RC × Database D) :=
  let trx := db.mvcc.trxes t
  match trx.operations.reverse.foldlM (rollbackOperation trx) (.success, db.tables),
      Mvcc.rollback t db.mvcc with
  | .error failure, _ => .error failure
  | .ok _, .error failure => .error (.trx failure)
  | .ok (_, tables), .ok (rc, mvcc) => .ok (rc, ⟨mvcc, tables.indexes⟩)

/-- A call on the tables or the transactions of a database. -/
inductive Call (D : Type) where
  | insertRecord (table : TableId) (placed : Except RC RID) (faults : List (Option Fault))
      (record : Record D)
  | deleteRecord (place : Place)
  | deleteRecordData (place : Place) (record : Record D)
  | createIndex (table : TableId) (column : Column D) (created : RC)
      (rows : List (RID × Record D)) (faults : List (Option Fault)) (saved : RC)
  | trxStart (t : Mvcc.TrxRef)
  | trxInsert (t : Mvcc.TrxRef) (table : TableId) (placed : Except RC RID)
      (faults : List (Option Fault)) (data : D)
  | trxDelete (t : Mvcc.TrxRef) (place : Place)
  | trxCommit (t : Mvcc.TrxRef)
  | trxRollback (t : Mvcc.TrxRef)

/-- A call on the transactions that leaves the indexes alone. -/
def trxCall (event : Mvcc.Event D) (db : Database D) : Except Failure (RC × Database D) :=
  match Mvcc.exec db.mvcc event with
  | .error failure => .error (.trx failure)
  | .ok (rc, mvcc) => .ok (rc, { db with mvcc := mvcc })

/-- The outcome of a call. -/
def exec (db : Database D) : Call D → Except Failure (RC × Database D)
  | .insertRecord table placed faults record =>
    match insertRecord table placed faults record db.tables with
    | (.ok _, tables) => .ok (.success, db.setTables tables)
    | (.error rc, tables) => .ok (rc, db.setTables tables)
  | .deleteRecord place =>
    (deleteRecord place db.tables).map fun (rc, tables) => (rc, db.setTables tables)
  | .deleteRecordData place record =>
    (deleteRecordData place record db.tables).map fun (rc, tables) => (rc, db.setTables tables)
  | .createIndex table column created rows faults saved =>
    let (rc, tables) := createIndex table column created rows faults saved db.tables
    .ok (rc, db.setTables tables)
  | .trxStart t => trxCall (.startIfNeed t) db
  | .trxInsert t table placed faults data => trxInsertRecord t table placed faults data db
  | .trxDelete t place => trxCall (.deleteRecord t place) db
  | .trxCommit t => trxCall (.commit t) db
  | .trxRollback t => trxRollback t db

/-- What the record file sees to: it never gives out an identifier that is in use, and a
scan returns the records of the table. -/
def Admissible (db : Database D) : Call D → Prop
  | .insertRecord table placed _ _ =>
    ∀ rid, placed = .ok rid → db.mvcc.store ⟨table, rid⟩ = none
  | .trxInsert _ table placed _ _ =>
    ∀ rid, placed = .ok rid → db.mvcc.store ⟨table, rid⟩ = none
  | .createIndex table _ _ rows _ _ =>
    ∀ rid record, (rid, record) ∈ rows ↔ db.mvcc.store ⟨table, rid⟩ = some record
  | _ => True

/-- A call that returns leads from `db` to `db'`. -/
def Step (db : Database D) (call : Call D) (db' : Database D) : Prop :=
  Admissible db call ∧ ∃ rc, exec db call = .ok (rc, db')

end MiniOB.Table
