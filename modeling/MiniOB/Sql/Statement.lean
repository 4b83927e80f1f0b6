import MiniOB.Table.Table
import MiniOB.Trx.Isolation

/-!
# UPDATE and DELETE statements

`UpdatePhysicalOperator` and `DeletePhysicalOperator` of `sql/operator` on multi-version
transactions, run by `SqlResult` as `PlainCommunicator` runs it: the result is opened, which
does all the work of the statement, and then closed, after a failure too. The child operator
of a statement is the scan of its table. It changes no record, so it is given by what its
calls answer.
-/

namespace MiniOB.Sql

open Mvcc
open Table (Fault)

/-- A row that a scan delivers, with what `Table::visit_record` answers when the row is
visited there again to be deleted. -/
structure ScannedRow where
  rid : RID
  visited : RC

/-- A row of an UPDATE, with what the construction of its new record answers, and what
`Table::insert_record` answers for that record. -/
structure UpdatedRow (D : Type) extends ScannedRow where
  updated : Except Fault D
  placed : Except Fault RID

/-- The child operator of a statement: the answer of `open`, the rows that `next` delivers,
the code with which `next` ends, and the answer of `close`. -/
structure Child (R : Type) where
  opened : RC
  rows : List R
  last : Fault
  closed : RC

variable {D : Type}

/-- `MvccTrx::delete_record` on a scanned row. -/
def deleteScannedRow (t : TrxRef) (table : TableId) (row : ScannedRow) (s : State D) : Outcome D :=
  if row.visited ≠ .success then
    .ok (row.visited, s)
  else
    Mvcc.deleteRecord t ⟨table, row.rid⟩ s

/-- The loop that deletes the records of `rows`. -/
def deleteRecords (t : TrxRef) (table : TableId) : List ScannedRow → State D → Outcome D
  | [], s => .ok (.success, s)
  | row :: rows, s =>
    match deleteScannedRow t table row s with
    | .ok (.success, s') => deleteRecords t table rows s'
    | outcome => outcome

/-- The loop that inserts the new records, each with the place it is given. -/
def insertRecords (t : TrxRef) (table : TableId) :
    List (D × Except Fault RID) → State D → Outcome D
  | [], s => .ok (.success, s)
  | (data, placed) :: rows, s =>
    match Mvcc.insertRecord t table (placed.mapError Subtype.val) data s with
    | .ok (.success, s') => insertRecords t table rows s'
    | outcome => outcome

/-- `UpdatePhysicalOperator::open`. -/
def UpdatePhysicalOperator.open (t : TrxRef) (table : TableId) (child : Child (UpdatedRow D))
    (s : State D) : Outcome D :=
  if child.opened ≠ .success then
    .ok (child.opened, s)
  else
    match child.rows.mapM UpdatedRow.updated with
    | .error rc => .ok (rc, s)
    | .ok records =>
      if child.last.val ≠ .recordEof then
        .ok (child.last, s)
      else if child.closed ≠ .success then
        .ok (child.closed, s)
      else
        match deleteRecords t table (child.rows.map UpdatedRow.toScannedRow) s with
        | .ok (.success, s') =>
          insertRecords t table (records.zip (child.rows.map UpdatedRow.placed)) s'
        | outcome => outcome

/-- `DeletePhysicalOperator::open`. The rows end with any code other than `SUCCESS`, and what
the child answers when it is closed is not looked at. -/
def DeletePhysicalOperator.open (t : TrxRef) (table : TableId) (child : Option (Child ScannedRow))
    (s : State D) : Outcome D :=
  match child with
  | none => .ok (.success, s)
  | some child =>
    if child.opened ≠ .success then
      .ok (child.opened, s)
    else
      deleteRecords t table child.rows s

/-- A statement on a table. -/
inductive Statement (D : Type) where
  | update (table : TableId) (child : Child (UpdatedRow D))
  | delete (table : TableId) (child : Option (Child ScannedRow))

/-- The `open` of the operator of a statement. -/
def Statement.open (t : TrxRef) : Statement D → State D → Outcome D
  | .update table child => UpdatePhysicalOperator.open t table child
  | .delete table child => DeletePhysicalOperator.open t table child

/-- `SqlResult::open`. The answer of `start_if_need` is not looked at. -/
def SqlResult.open (t : TrxRef) (statement : Statement D) (s : State D) : Outcome D :=
  match startIfNeed t s with
  | .error failure => .error failure
  | .ok (_, s') => statement.open t s'

/-- `SqlResult::close`. Both operators answer `SUCCESS` when they are closed, so that the
transaction is committed unless the session is in the mode of several operations. -/
def SqlResult.close (t : TrxRef) (multiOperation : Bool) (s : State D) : Outcome D :=
  if multiOperation then .ok (.success, s) else commit t s

/-- A statement from its start to its end, as `write_result_internal` runs it: the code of
the failed `open` is the result, with the result closed nevertheless. -/
def Statement.execute (t : TrxRef) (multiOperation : Bool) (statement : Statement D)
    (s : State D) : Outcome D :=
  match SqlResult.open t statement s with
  | .error failure => .error failure
  | .ok (rc, s₁) =>
    match SqlResult.close t multiOperation s₁ with
    | .error failure => .error failure
    | .ok (closed, s₂) => .ok (if rc ≠ .success then rc else closed, s₂)

end MiniOB.Sql
