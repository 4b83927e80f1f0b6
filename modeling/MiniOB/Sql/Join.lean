import MiniOB.Common
import MiniOB.Sql.Compare

/-!
# Joins

The tuples of `sql/expr/tuple.h` that a join handles, `NestedLoopJoinPhysicalOperator`,
`PredicatePhysicalOperator` and `RbTreeEqJoinPhysicalOperator` of `sql/operator`, and the choice
between them that `PhysicalPlanGenerator` makes for a `JoinLogicalOperator`. An operator keeps
one tuple, whose cells change from row to row.
-/

namespace MiniOB.Sql

/-! ### Tuples -/

/-- `TupleCellSpec`. -/
structure TupleCellSpec where
  tableName : String
  fieldName : String
  aliasName : String := ""
  deriving DecidableEq, Repr

/-- A tuple without its cells: `RowTuple`, `JoinedTuple` or `CacheTuple`. -/
inductive TupleShape where
  | row (tableName : String) (fieldNames : List String)
  | joined (left right : TupleShape)
  | cache (cellSpecs : List TupleCellSpec)
  deriving DecidableEq, Repr

namespace TupleShape

/-- `cell_num`. -/
def cellNum : TupleShape → Nat
  | row _ fieldNames => fieldNames.length
  | joined left right => left.cellNum + right.cellNum
  | cache cellSpecs => cellSpecs.length

/-- `cell_at`, which answers `rc` outside the tuple. -/
def cellAt (rc : RC) (cells : List Value) (index : Nat) : Except RC Value :=
  match cells[index]? with
  | some cell => .ok cell
  | none => .error rc

/-- `find_cell`. A `CacheTuple` looks for the alias first. -/
def findCell : TupleShape → List Value → TupleCellSpec → Except RC Value
  | row tableName fieldNames, cells, spec =>
    if spec.tableName ≠ tableName then .error .notfound
    else
      match fieldNames.findIdx? fun fieldName => spec.fieldName = fieldName with
      | some i => cellAt .invalidArgument cells i
      | none => .error .notfound
  | joined left right, cells, spec =>
    match left.findCell (cells.take left.cellNum) spec with
    | .error .notfound => right.findCell (cells.drop left.cellNum) spec
    | result => result
  | cache cellSpecs, cells, spec =>
    match cellSpecs.findIdx? fun cellSpec => spec.aliasName = cellSpec.aliasName with
    | some i => cellAt .notfound cells i
    | none =>
      match cellSpecs.findIdx? fun cellSpec =>
        spec.tableName = cellSpec.tableName ∧ spec.fieldName = cellSpec.fieldName with
      | some i => cellAt .notfound cells i
      | none => .error .notfound

end TupleShape

/-- The rows that an operator delivers: its tuple, and the cells of each row. -/
structure Rows where
  shape : TupleShape
  rows : List (List Value)
  deriving DecidableEq, Repr

/-! ### Conditions -/

/-- An operand of a condition: `FieldExpr`, or any other expression, given by its value on the
cells that it finds. -/
inductive JoinOperand where
  | field (tableName fieldName : String)
  | other (eval : (TupleCellSpec → Except RC Value) → Except RC Value)

/-- The condition of a join: `ComparisonExpr`, or any other expression. -/
inductive JoinCondition where
  | comparison (comp : CompOp) (left right : JoinOperand)
  | other (eval : (TupleCellSpec → Except RC Value) → Except RC (Option Bool))

/-- `get_value` of an operand. -/
def JoinOperand.getValue (find : TupleCellSpec → Except RC Value) : JoinOperand → Except RC Value
  | field tableName fieldName => find { tableName, fieldName }
  | other eval => eval find

/-- `get_value` of a condition: a truth value, or `NULL`. -/
def JoinCondition.getValue (F : Doubles) (find : TupleCellSpec → Except RC Value) :
    JoinCondition → Except RC (Option Bool)
  | comparison comp left right =>
    match left.getValue find with
    | .error rc => .error rc
    | .ok leftValue =>
      match right.getValue find with
      | .error rc => .error rc
      | .ok rightValue => .ok (compareValue F comp leftValue rightValue)
  | other eval => eval find

/-! ### Nested loops -/

/-- The rows of `NestedLoopJoinPhysicalOperator`, which opens the right child anew for each row
of the left one. -/
def NestedLoopJoin.run (left right : Rows) : Rows where
  shape := .joined left.shape right.shape
  rows := left.rows.flatMap fun l => right.rows.map fun r => l ++ r

/-- The rows of its child that `PredicatePhysicalOperator` lets through. -/
def PredicateOper.filter (F : Doubles) (condition : JoinCondition) (shape : TupleShape) :
    List (List Value) → Except RC (List (List Value))
  | [] => .ok []
  | row :: rows =>
    match condition.getValue F (shape.findCell row) with
    | .error rc => .error rc
    | .ok (some true) => (filter F condition shape rows).map (row :: ·)
    | .ok _ => filter F condition shape rows

/-- `PredicatePhysicalOperator`. -/
def PredicateOper.run (F : Doubles) (condition : JoinCondition) (child : Rows) : Except RC Rows :=
  (filter F condition child.shape child.rows).map fun rows => { child with rows }

/-! ### The join by a red-black tree -/

/-- `std::less<Value>`: what cannot be compared is not less. -/
def less (F : Doubles) (lhs rhs : Value) : Bool :=
  match lhs.compare F rhs with
  | some cmp => cmp < 0
  | none => false

/-- `std::multimap<Value, std::unique_ptr<Tuple>>`, in the order of its keys. The tuples are
`CacheTuple`s. -/
abbrev HashTable := List (Value × List Value)

namespace HashTable

variable (F : Doubles)

/-- `insert`, behind the entries that the key is not less than. -/
def insert (entry : Value × List Value) (table : HashTable) : HashTable :=
  table.takeWhile (fun other => ¬ less F entry.1 other.1)
    ++ entry :: table.dropWhile fun other => ¬ less F entry.1 other.1

/-- `equal_range`, from the lower bound of the key up to its upper bound. -/
def equalRange (key : Value) (table : HashTable) : HashTable :=
  (table.dropWhile fun entry => less F entry.1 key).takeWhile fun entry => ¬ less F key entry.1

end HashTable

/-- `CacheTupleManager::cloneTuple`: the cells of the `CacheTuple`. -/
def cloneTuple (cellSpecs : List TupleCellSpec) (shape : TupleShape) (cells : List Value) :
    Except RC (List Value) :=
  if shape.cellNum ≠ cellSpecs.length then .error .invalidArgument else .ok cells

namespace RbTreeEqJoin

variable (F : Doubles)

/-- `generate_hash_table`, with the cell that the left expression looks for. -/
def generateHashTable (leftExpr : TupleCellSpec) (cellSpecs : List TupleCellSpec)
    (shape : TupleShape) : HashTable → List (List Value) → Except RC HashTable
  | table, [] => .ok table
  | table, row :: rows =>
    match cloneTuple cellSpecs shape row with
    | .error rc => .error rc
    | .ok cells =>
      match (TupleShape.cache cellSpecs).findCell cells leftExpr with
      | .error rc => .error rc
      | .ok value => generateHashTable leftExpr cellSpecs shape (table.insert F (value, cells)) rows

/-- The rows that `next` delivers until it answers `RECORD_EOF`: those with the range of each row
of the right child. -/
def next (rightExpr : TupleCellSpec) (shape : TupleShape) (table : HashTable) :
    List (List Value) → Except RC (List (List Value))
  | [] => .ok []
  | row :: rows =>
    match shape.findCell row rightExpr with
    | .error rc => .error rc
    | .ok value =>
      (next rightExpr shape table rows).map fun rest =>
        (table.equalRange F value).map (fun entry => entry.2 ++ row) ++ rest

/-- `RbTreeEqJoinPhysicalOperator`. -/
def run (leftExpr rightExpr : TupleCellSpec) (cellSpecs : List TupleCellSpec) (left right : Rows) :
    Except RC Rows :=
  match generateHashTable F leftExpr cellSpecs left.shape [] left.rows with
  | .error rc => .error rc
  | .ok table =>
    (next F rightExpr right.shape table right.rows).map fun rows =>
      { shape := .joined (.cache cellSpecs) right.shape, rows }

end RbTreeEqJoin

/-! ### Plans -/

/-- The rows of a table, as a scan delivers them. The first field is a system field of `INTS`,
which is never `NULL` (`cellAt_first`). -/
structure TableRows where
  tableName : String
  fieldNames : List String
  rows : List (List Value)
  nonempty : fieldNames ≠ []
  width : ∀ row ∈ rows, row.length = fieldNames.length
  first : ∀ row ∈ rows, ∃ n, row.head? = some (.ints n)

/-- `TableGetLogicalOperator` and `JoinLogicalOperator`. -/
inductive JoinOper where
  | tableGet (table : TableRows)
  | join (left right : JoinOper) (condition : Option JoinCondition)

namespace JoinOper

/-- `LogicalPlanUtils::get_tuple_schema`. -/
def getTupleSchema : JoinOper → List TupleCellSpec
  | tableGet table =>
    table.fieldNames.map fun fieldName => { tableName := table.tableName, fieldName }
  | join left right _ => left.getTupleSchema ++ right.getTupleSchema

end JoinOper

/-- The cells that the two sides of a condition look for, if it is planned as a
`RbTreeEqJoinPhysicalOperator`. -/
def JoinCondition.eqFields : JoinCondition → Option (TupleCellSpec × TupleCellSpec)
  | comparison .equalTo (.field tableName fieldName) (.field tableName' fieldName') =>
    some ({ tableName, fieldName }, { tableName := tableName', fieldName := fieldName' })
  | _ => none

/-- The rows of the physical plan that `create_plan` makes of a `JoinLogicalOperator` whose
children deliver these rows. -/
def joinRows (F : Doubles) (condition : Option JoinCondition) (cellSpecs : List TupleCellSpec)
    (left right : Rows) : Except RC Rows :=
  match condition with
  | none => .ok (NestedLoopJoin.run left right)
  | some condition =>
    match condition.eqFields with
    | some (leftExpr, rightExpr) => RbTreeEqJoin.run F leftExpr rightExpr cellSpecs left right
    | none => PredicateOper.run F condition (NestedLoopJoin.run left right)

/-- The rows of the physical plan of a logical plan. -/
def JoinOper.run (F : Doubles) : JoinOper → Except RC Rows
  | tableGet table => .ok { shape := .row table.tableName table.fieldNames, rows := table.rows }
  | join left right condition =>
    match left.run F with
    | .error rc => .error rc
    | .ok leftRows =>
      match right.run F with
      | .error rc => .error rc
      | .ok rightRows => joinRows F condition left.getTupleSchema leftRows rightRows

end MiniOB.Sql
