import MiniOB.Index.RangeScan
import MiniOB.Sql.Compare
import MiniOB.Sql.Update
import MiniOB.Trx.MvccTrx

/-!
# Table scans and index scans

`TableScanPhysicalOperator` and `IndexScanPhysicalOperator` of `sql/operator`, and the choice
between them that `PhysicalPlanGenerator` makes for a `TableGetLogicalOperator`. An index scan
looks for the bytes of a constant, whatever the type of the constant is. Its loop and its
filter are not those of a table scan: a predicate without a truth value throws out of the
filter, and a row that another transaction has locked ends the scan.

An index is the list of its entries in the order of its tree. Its keys are bytes, those of the
user key and behind them those of the identifier, and `compare_int` reads four of them.
-/

namespace MiniOB.Sql

open BplusTree (ridMin ridMax ridCompare)

/-- What stops an evaluation or a scan: a return code, an exception that nothing catches, or
a failed assertion. -/
inductive Stop where
  | rc (rc : RC)
  | nullCast
  | assertion
  deriving DecidableEq, Repr

/-- An index of a table on one of its fields, with its entries: a key and the place of the
record. -/
structure TableIndex where
  field : FieldMeta
  entries : List (Str × RID)

/-- A row of a table: its place and its record. -/
abbrev TableRow := RID × Record Bytes

/-- A table: its schema, its rows in the order of a scan, its indexes, and the texts that its
records refer to. -/
structure TableData where
  table : TableMeta
  rows : List TableRow
  indexes : List TableIndex
  texts : Nat → Str

/-! ### Predicates -/

/-- An operand of a comparison: `FieldExpr`, `ValueExpr`, or any other expression, given by its
value on a record. -/
inductive Operand where
  | field (tableName fieldName : String)
  | value (value : Value)
  | other (eval : Bytes → Except Stop Value)

/-- A predicate of a scan, which is a `ComparisonExpr`. -/
structure Predicate where
  comp : CompOp
  left : Operand
  right : Operand

/-- The value of an operand: `get_value` of the expression. -/
def Operand.getValue (data : TableData) (record : Bytes) : Operand → Except Stop Value
  | .field tableName fieldName =>
    if tableName ≠ data.table.name then .error (.rc .notfound)
    else
      match data.table.findCell data.texts record fieldName with
      | none => .error .assertion
      | some (.error rc) => .error (.rc rc)
      | some (.ok v) => .ok v
  | .value v => .ok v
  | .other eval => eval record

/-- `ComparisonExpr::get_value`: a truth value, or `NULL`. -/
def Predicate.getValue (F : Doubles) (data : TableData) (record : Bytes) (predicate : Predicate) :
    Except Stop (Option Bool) :=
  match predicate.left.getValue data record with
  | .error stop => .error stop
  | .ok left =>
    match predicate.right.getValue data record with
    | .error stop => .error stop
    | .ok right => .ok (compareValue F predicate.comp left right)

/-! ### The table scan -/

/-- `TableScanPhysicalOperator::filter`. -/
def TableScan.filter (F : Doubles) (data : TableData) (record : Bytes) :
    List Predicate → Except Stop Bool
  | [] => .ok true
  | predicate :: predicates =>
    match predicate.getValue F data record with
    | .error stop => .error stop
    | .ok none => .ok false
    | .ok (some false) => .ok false
    | .ok (some true) => TableScan.filter F data record predicates

/-- The rows that `TableScanPhysicalOperator::next` delivers until it answers `RECORD_EOF`. What
visiting a record answers counts only if the record is invisible. -/
def TableScan.run (F : Doubles) (data : TableData) (predicates : List Predicate) (trxId : Int)
    (mode : ReadWriteMode) : List TableRow → Except Stop (List TableRow)
  | [] => .ok []
  | row :: rows =>
    if Mvcc.visitRecord trxId row.2 mode = .recordInvisible then
      run F data predicates trxId mode rows
    else
      match TableScan.filter F data row.2.data predicates with
      | .error stop => .error stop
      | .ok true => (run F data predicates trxId mode rows).map (row :: ·)
      | .ok false => run F data predicates trxId mode rows

/-! ### The index scan -/

/-- `IndexScanPhysicalOperator::filter`, which lets the exception of `get_boolean` pass. -/
def IndexScan.filter (F : Doubles) (data : TableData) (record : Bytes) :
    List Predicate → Except Stop Bool
  | [] => .ok true
  | predicate :: predicates =>
    match predicate.getValue F data record with
    | .error stop => .error stop
    | .ok none => .error .nullCast
    | .ok (some false) => .ok false
    | .ok (some true) => IndexScan.filter F data record predicates

/-- `fix_user_key`, of the key at which `userKey` points. It fails an assertion if the string
there is shorter than `keyLen`. -/
def fixUserKey (attrLength : Nat) (userKey : Bytes) (keyLen : Nat) (wantGreater : Bool) :
    Option Str :=
  if ∃ i < keyLen, userKey i = 0 then none
  else if keyLen ≤ attrLength then
    some (Memory.read userKey 0 keyLen ++ List.replicate (attrLength - keyLen) 0)
  else
    let keyBuf := Memory.read userKey 0 attrLength
    if userKey attrLength = 0 then some keyBuf
    else if wantGreater then some (keyBuf.modify (attrLength - 1) (· + 1))
    else some keyBuf

/-- The key of an entry, `make_key`: the user key and behind it the identifier. -/
def makeKey (entry : Str × RID) : Str :=
  entry.1 ++ numBytes (BitVec.ofInt 32 entry.2.pageNum) ++ numBytes (BitVec.ofInt 32 entry.2.slotNum)

/-- The number in the first four bytes of a key. -/
def keyNumber (key : Str) : BitVec 32 :=
  key.getD 3 0 ++ key.getD 2 0 ++ key.getD 1 0 ++ key.getD 0 0

/-- The string in the first `attrLength` bytes of a key. -/
def keyString (attrLength : Nat) (key : Str) : Str := (key.take attrLength).takeWhile (· ≠ 0)

/-- `AttrComparator`, of a column of `INTS`, `DATES` or `CHARS`, by its sign. -/
def attrCompare (field : FieldMeta) (k₁ k₂ : Str) : Int :=
  if field.type = .chars then compareStr (keyString field.len k₁) (keyString field.len k₂)
  else ((keyNumber k₁).toInt - (keyNumber k₂).toInt).sign

/-- `KeyComparator`, on the keys of two entries. -/
def keyCompare (field : FieldMeta) (e₁ e₂ : Str × RID) : Int :=
  if attrCompare field (makeKey e₁) (makeKey e₂) ≠ 0 then
    attrCompare field (makeKey e₁) (makeKey e₂)
  else ridCompare e₁.2 e₂.2

/-- The bounds of the scan for the value, `fix_user_key` applied to both. -/
def IndexScan.bounds (field : FieldMeta) (value : Value) (after : Bytes) : Option (Str × Str) :=
  if field.type = .chars then
    match fixUserKey field.len (value.data after) value.length true,
        fixUserKey field.len (value.data after) value.length false with
    | some left, some right => some (left, right)
    | _, _ => none
  else
    let key := Memory.read (value.data after) 0 field.len
    some (key, key)

/-- The entries that `BplusTreeScanner` delivers: those from the left bound with the smallest
`RID` up to the right one with the largest. -/
def scanEntries (field : FieldMeta) (left right : Str) (entries : List (Str × RID)) :
    List (Str × RID) :=
  (entries.dropWhile fun entry => keyCompare field entry (left, ridMin) < 0).takeWhile
    fun entry => ¬ 0 < keyCompare field entry (right, ridMax)

/-- The rows that `IndexScanPhysicalOperator::next` delivers until it answers `RECORD_EOF`. The
record is visited again after the filter, and what that answers counts. -/
def IndexScan.run (F : Doubles) (data : TableData) (predicates : List Predicate) (trxId : Int)
    (mode : ReadWriteMode) : List (Str × RID) → Except Stop (List TableRow)
  | [] => .ok []
  | entry :: entries =>
    match data.rows.find? fun row => row.1 = entry.2 with
    | none => .error (.rc .recordNotExist)
    | some row =>
      if Mvcc.visitRecord trxId row.2 mode = .recordInvisible then
        run F data predicates trxId mode entries
      else
        match IndexScan.filter F data row.2.data predicates with
        | .error stop => .error stop
        | .ok false => run F data predicates trxId mode entries
        | .ok true =>
          if Mvcc.visitRecord trxId row.2 mode = .success then
            (run F data predicates trxId mode entries).map (row :: ·)
          else
            .error (.rc (Mvcc.visitRecord trxId row.2 mode))

/-- The rows of an index scan for the value, from `open` on. -/
def IndexScan.rows (F : Doubles) (data : TableData) (predicates : List Predicate) (trxId : Int)
    (mode : ReadWriteMode) (index : TableIndex) (value : Value) (after : Bytes) :
    Except Stop (List TableRow) :=
  match IndexScan.bounds index.field value after with
  | none => .error .assertion
  | some (left, right) =>
    IndexScan.run F data predicates trxId mode
      (scanEntries index.field left right index.entries)

/-! ### The plan -/

/-- The field and the constant of a predicate that an index can serve. -/
def Predicate.indexOperands (predicate : Predicate) : Option (String × Value) :=
  match predicate.comp, predicate.left, predicate.right with
  | .equalTo, .field _ fieldName, .value value =>
    if value.attrType ≠ .nulls then some (fieldName, value) else none
  | .equalTo, .value value, .field _ fieldName =>
    if value.attrType ≠ .nulls then some (fieldName, value) else none
  | _, _, _ => none

/-- `Table::find_index_by_field`. -/
def TableData.findIndexByField (data : TableData) (fieldName : String) : Option TableIndex :=
  data.indexes.find? fun index => index.field.name = fieldName

/-- The index and the constant of the index scan that `create_plan` chooses for the predicates
of a `TableGetLogicalOperator`, if it does not choose a table scan. -/
def createPlan (data : TableData) : List Predicate → Option (TableIndex × Value)
  | [] => none
  | predicate :: predicates =>
    match predicate.indexOperands with
    | none => createPlan data predicates
    | some (fieldName, value) =>
      match data.findIndexByField fieldName with
      | some index => some (index, value)
      | none => createPlan data predicates

/-- The rows that the plan delivers. What lies in memory behind the constant is `after`. -/
def planRows (F : Doubles) (data : TableData) (predicates : List Predicate) (trxId : Int)
    (mode : ReadWriteMode) (after : Bytes) : Except Stop (List TableRow) :=
  match createPlan data predicates with
  | none => TableScan.run F data predicates trxId mode data.rows
  | some (index, value) => IndexScan.rows F data predicates trxId mode index value after

end MiniOB.Sql
