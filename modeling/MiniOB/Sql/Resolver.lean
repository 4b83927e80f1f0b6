import MiniOB.Sql.Join
import MiniOB.Sql.Plan
import MiniOB.Sql.Refactor
import MiniOB.Sql.TableMeta
import MiniOB.Sql.Typing

/-!
# Resolving names

`ExpressionGenerator` and the resolvers of `sql/expr/expression_resolver.cpp`, which make
expressions of parsed ones, with `TableSqlResovler` of `sql/stmt/table_stmt.cpp` and
`SelectStmt::create`. A field finds its cell in a tuple by the name of its table, whatever this is
called in the statement.

A subquery in the FROM, for which there is no plan, is left out. What becomes of the functions and
of an `IN` with a subquery is given from outside.
-/

namespace MiniOB.Sql.Resolver

/-! ### Descriptions of tables -/

/-- A name of the parser. -/
def nameOf (s : Str) : String := String.ofList (s.map fun b => Char.ofNat b.toNat)

/-- `FieldDesc`. -/
structure FieldDesc where
  fieldName : String
  visible : Bool

/-- `TableFactorDesc`: a table with the name that it has in the statement, or a subquery with the
names of its columns. -/
inductive TableFactorDesc where
  | table (tableName : String) (table : TableMeta)
  | subquery (tableName : String) (fields : List FieldDesc)

namespace TableFactorDesc

/-- `table_name`. -/
def tableName : TableFactorDesc → String
  | .table tableName _ => tableName
  | .subquery tableName _ => tableName

/-- `fields`. -/
def fields : TableFactorDesc → List FieldDesc
  | .table _ t => t.fields.map fun field => ⟨field.name, field.visible⟩
  | .subquery _ fields => fields

/-- The names of the fields that are shown. -/
def visibleFields (desc : TableFactorDesc) : List String :=
  (desc.fields.filter FieldDesc.visible).map FieldDesc.fieldName

end TableFactorDesc

/-- The tables that have a field of this name, once for each such field. -/
def tablesWith (descs : List TableFactorDesc) (fieldName : String) : List TableFactorDesc :=
  descs.flatMap fun desc => (desc.fields.filter (·.fieldName = fieldName)).map fun _ => desc

/-- `field_table_map_`, a `std::unordered_multimap`, which keeps the tables with the same field
name in an order of its own. -/
structure FieldTableMap (descs : List TableFactorDesc) where
  equalRange : String → List TableFactorDesc
  perm : ∀ fieldName, (equalRange fieldName).Perm (tablesWith descs fieldName)

/-- The map that keeps the order of the insertions. -/
def FieldTableMap.inOrder (descs : List TableFactorDesc) : FieldTableMap descs :=
  ⟨tablesWith descs, fun _ => List.Perm.refl _⟩

/-! ### Tuples -/

/-- What a `FieldExpr` or a `TupleCellExpr` refers to. -/
inductive CellRef where
  | field (table : TableMeta) (field : FieldMeta)
  | cell (cellSpec : TupleCellSpec)

/-- What is looked for in a tuple. -/
def CellRef.spec : CellRef → TupleCellSpec
  | .field t f => { tableName := t.name, fieldName := f.name }
  | .cell cellSpec => cellSpec

/-- `value_type`. -/
def CellRef.valueType : CellRef → AttrType
  | .field _ f => f.type
  | .cell _ => .undefined

/-- A tuple with its cells. -/
structure Tuple where
  shape : TupleShape
  cells : List Value

/-- Expressions over tuples that find a cell by its names. -/
abbrev environment (L : Library) : Environment where
  library := L
  Field := CellRef
  fieldType := CellRef.valueType
  Tuple := Tuple
  fakeTuple := ⟨.row "" [], []⟩
  findCell tuple ref :=
    match tuple.shape.findCell tuple.cells ref.spec with
    | .ok v => .ok v
    | .error rc => .error (.rc rc)

/-- `Expression`. -/
abbrev TupleExpr (L : Library) := Expression (environment L)

/-! ### The generator -/

/-- `ExpressionGenerator`. Of `db_` it is kept whether there is one. -/
structure ExpressionGenerator where
  tableDesc : List TableFactorDesc
  fieldTableMap : FieldTableMap tableDesc
  outterAliasSet : List String := []
  currentTupleSchema : List TupleCellSpec := []
  db : Bool := true

section

variable {L : Library}

/-- `FieldExpr(table, table->table_meta().field(attr_name))`, which has no use without a field. -/
def fieldExpr (table : TableMeta) (attrName : String) : Except Stop (TupleExpr L) :=
  match table.fields.find? (·.name = attrName) with
  | some field => .ok (.field (.field table field))
  | none => .error .assertion

namespace ExpressionGenerator

variable (g : ExpressionGenerator)

/-- The part of `generate_expression` for a field that comes after the aliases. -/
def matchTables (relName attrName : String) : Except Stop (TupleExpr L) :=
  let matchedTables := g.fieldTableMap.equalRange attrName
  if ¬ g.db then .error (.rc .schemaTableNotExist)
  else if matchedTables.isEmpty then .error (.rc .schemaFieldMissing)
  else if relName = "" then
    match matchedTables with
    | [.table _ table] => fieldExpr table attrName
    | [.subquery _ _] => .error .assertion
    | _ => .error (.rc .schemaFieldAmbiguous)
  else
    match matchedTables.find? (·.tableName = relName) with
    | some (.table _ table) => fieldExpr table attrName
    | some (.subquery _ _) => .ok (.field (.cell { tableName := relName, fieldName := attrName }))
    | none => .error (.rc .schemaTableNotExist)

/-- `generate_expression` for a field. The name of the aliased field takes the place of an alias
of the current query, whatever table is named with it. -/
def generateField (relName attrName : String) : Except Stop (TupleExpr L) :=
  if attrName = "*" then .error (.rc .invalidArgument)
  else
    match g.currentTupleSchema.find? (·.aliasName = attrName) with
    | some cell => g.matchTables relName cell.fieldName
    | none =>
      if relName ∈ g.outterAliasSet then
        .ok (.field (.cell { tableName := "", fieldName := "", aliasName := attrName }))
      else g.matchTables relName attrName

end ExpressionGenerator

/-- The cast of a text beside a date. A constant that is no date is refused. -/
def castToDate (expr : TupleExpr L) : Except Stop (TupleExpr L) :=
  let castExpr : TupleExpr L := .cast expr .dates
  match castExpr.tryGetValue with
  | .ok testValue =>
    if testValue.attrType = .nulls then .error (.rc .incorrectDateValue) else .ok castExpr
  | .error _ => .ok castExpr

/-- The expression beside this other one in a comparison. -/
def castBesideDate (other expr : TupleExpr L) : Except Stop (TupleExpr L) :=
  if other.valueType = .dates ∧ expr.valueType.isText then castToDate expr else .ok expr

/-- `generate_expression` for a comparison of these two. -/
def generateComparison (compOp : CompOp) (left right : TupleExpr L) :
    Except Stop (TupleExpr L) := do
  let right ← castBesideDate left right
  let left ← castBesideDate right left
  return .comparison compOp left right

variable {Q : Type} (other : ExpressionSqlNode Q → Except Stop (TupleExpr L))

namespace ExpressionGenerator

mutual

/-- `generate_expression`. -/
def generate (g : ExpressionGenerator) : ExpressionSqlNode Q → Except Stop (TupleExpr L)
  | .field _ relationName attributeName =>
    g.generateField (nameOf relationName) (nameOf attributeName)
  | .value _ v => .ok (.value v)
  | .unary kind _ child => do
    let child ← generate g child
    match kind with
    | .cast targetType => return .cast child targetType
    | .not => return .not child
    | .like pattern => return .like pattern child
    | .isNull => return .isNull child
  | .binary kind _ left right => do
    let left ← generate g left
    let right ← generate g right
    match kind with
    | .comparison compOp => generateComparison compOp left right
    | .conjunction conjunctionType => return .conjunction conjunctionType [left, right]
    | .arithmetic arithmeticType => return .arithmetic arithmeticType left right
  | .function name functionName paramExprs => other (.function name functionName paramExprs)
  | .inSubquery name child subquery => do
    let _ ← generate g child
    match subquery with
    | .inl _ => .error (.rc .invalidArgument)
    | .inr cell => other (.inSubquery name child (.inr cell))
  | .inList _ child valueList => do
    let child ← generate g child
    let values ← generateList g valueList
    return .isIn child values
  | .exists _ _ => .error .assertion
  | .aggregate _ _ _ => .error (.rc .invalidArgument)
  | .subquery _ => .error (.rc .invalidArgument)
  | .cellRef cell =>
    .ok (.field (.cell { tableName := "", fieldName := "", aliasName := nameOf cell.aliasName }))

/-- The loop over the values of an `IN`. -/
def generateList (g : ExpressionGenerator) :
    List (ExpressionSqlNode Q) → Except Stop (List (TupleExpr L))
  | [] => .ok []
  | sqlNode :: sqlNodes => do
    let expr ← generate g sqlNode
    let exprs ← generateList g sqlNodes
    return expr :: exprs

end

end ExpressionGenerator

end

/-! ### The tables of a statement -/

/-- `TableReferenceSqlNode`: a table with its alias, or a join. -/
inductive TableReferenceSqlNode (Q : Type) where
  | primary (relationName aliasName : Str)
  | join (left right : TableReferenceSqlNode Q) (condition : Option (ExpressionSqlNode Q))

/-- `TableStmt`. -/
inductive TableStmt (L : Library) where
  | table (table : TableMeta)
  | join (left right : TableStmt L) (joinCondition : Option (TupleExpr L))

/-- What statements are resolved with: the tables of the database, the order of the fields in the
hash tables, what is not resolved here, and for the refactoring the attributes of the subqueries
and the random numbers. -/
structure Context (L : Library) (Q : Type) where
  findTable : String → Option TableMeta
  fieldTableMap : ∀ descs, FieldTableMap descs
  other : ExpressionSqlNode Q → Except Stop (TupleExpr L)
  attributes : Q → Nat
  rand : Nat → Nat

section

variable {L : Library} {Q : Type} (R : Context L Q)

/-- The `ExpressionGenerator` of a resolver. -/
def Context.generator (descs : List TableFactorDesc)
    (outterTuple currentTupleSchema : List TupleCellSpec) : ExpressionGenerator where
  tableDesc := descs
  fieldTableMap := R.fieldTableMap descs
  outterAliasSet := outterTuple.map TupleCellSpec.aliasName
  currentTupleSchema := currentTupleSchema

/-- `TableSqlResovler::create`, with the `table_descs_`. The condition of a join is resolved with
all the tables that have been met. -/
def createTable : TableReferenceSqlNode Q → List TableFactorDesc →
    Except Stop (TableStmt L × List TableFactorDesc)
  | .primary relationName aliasName, tableDescs =>
    match R.findTable (nameOf relationName) with
    | some table =>
      let tableName := if aliasName.isEmpty then nameOf relationName else nameOf aliasName
      .ok (.table table, tableDescs ++ [.table tableName table])
    | none => .error (.rc .schemaTableNotExist)
  | .join left right condition, tableDescs => do
    let (leftTable, tableDescs) ← createTable left tableDescs
    let (rightTable, tableDescs) ← createTable right tableDescs
    match condition with
    | none => return (.join leftTable rightTable none, tableDescs)
    | some condition =>
      let joinCondition ← (R.generator tableDescs [] []).generate R.other condition
      return (.join leftTable rightTable (some joinCondition), tableDescs)

/-- The join of the tables that `TableSqlResovler::create` makes of a list of them. -/
def joinTables (first : TableReferenceSqlNode Q) (rest : List (TableReferenceSqlNode Q)) :
    TableReferenceSqlNode Q :=
  rest.foldl (fun sqlNode table => .join sqlNode table none) first

end

/-! ### The projection -/

/-- `AggregateDesc`, with the alias of its cell. -/
structure AggregateDesc (L : Library) where
  type : AggregateType
  child : TupleExpr L
  childSpec : Str

/-- `ProjectExpressionResovler`, with the expressions made so far. A `TupleCellSpec` of a subquery
is given by its alias. -/
structure ProjectExpressionResovler (L : Library) where
  queryExprs : List (TupleExpr L) := []
  aggregateDesc : List (AggregateDesc L) := []
  attrTuple : List TupleCellSpec := []
  subqueryCellDesc : List Str := []
  mustAggregate : Bool := false
  mustNotAggregate : Bool := false
  rands : Nat := 0

/-- An `ExpressionWithAliasSqlNode`. -/
structure ExpressionWithAliasSqlNode (Q : Type) where
  expr : ExpressionSqlNode Q
  aliasName : Str

/-- `name` of an `ExpressionSqlNode`. -/
def nodeName {Q : Type} : ExpressionSqlNode Q → Str
  | .field name _ _ => name
  | .value name _ => name
  | .unary _ name _ => name
  | .binary _ name _ _ => name
  | .function name _ _ => name
  | .inSubquery name _ _ => name
  | .inList name _ _ => name
  | .exists name _ => name
  | .aggregate name _ _ => name
  | .subquery node => node.name
  | .cellRef cell => cell.name

/-- The table of a wildcard, if the expression is one. -/
def wildcardOf {Q : Type} : ExpressionSqlNode Q → Option Str
  | .field _ relationName attributeName =>
    if nameOf attributeName = "*" then some relationName else none
  | _ => none

/-- The `TupleCellSpec` of an expression in the projection. -/
def attrSpec {Q : Type} (sqlNode : ExpressionSqlNode Q) (aliasName : Str) : TupleCellSpec :=
  match sqlNode with
  | .field _ relationName attributeName =>
    { tableName := nameOf relationName
      fieldName := nameOf attributeName
      aliasName := nameOf aliasName }
  | sqlNode =>
    { tableName := ""
      fieldName := ""
      aliasName := nameOf (if aliasName.isEmpty then nodeName sqlNode else aliasName) }

section

variable {L : Library} {Q : Type} (R : Context L Q) (g : ExpressionGenerator)

/-- The expressions of these fields of a table. -/
def tableFields (tableName : String) : List String → Except Stop (List (TupleExpr L))
  | [] => .ok []
  | fieldName :: fieldNames => do
    let expr ← g.generateField tableName fieldName
    let exprs ← tableFields tableName fieldNames
    return expr :: exprs

/-- The expressions and the names of a wildcard for all tables. -/
def allFields : List TableFactorDesc → Except Stop (List (TupleExpr L) × List TupleCellSpec)
  | [] => .ok ([], [])
  | desc :: descs => do
    let exprs ← tableFields g desc.tableName desc.visibleFields
    let (rest, specs) ← allFields descs
    return (exprs ++ rest,
      desc.visibleFields.map (fun fieldName => { tableName := desc.tableName, fieldName }) ++ specs)

/-- `wildcard_fields`. For one table there is an expression without an object where one cannot be
made, and there are no names. -/
def wildcardFields (relationName : String) :
    Except Stop (List (TupleExpr L) × List TupleCellSpec) :=
  if relationName = "" then allFields g g.tableDesc
  else
    match g.tableDesc.find? (·.tableName = relationName) with
    | none => .error (.rc .schemaTableNotExist)
    | some desc =>
      match tableFields g desc.tableName desc.visibleFields with
      | .ok exprs => .ok (exprs, [])
      | .error _ => .error .assertion

/-- `push_groupping`. -/
def pushGroupping (refactor : ExpressionStructRefactor Q) (s : ProjectExpressionResovler L) :
    Except Stop (ProjectExpressionResovler L) :=
  let aggregateChilds := refactor.aggregateChilds
  if s.mustNotAggregate ∧ ¬ aggregateChilds.isEmpty ∨ s.mustAggregate ∧ aggregateChilds.isEmpty then
    .error (.rc .invalidAggregate)
  else if aggregateChilds.isEmpty then .ok { s with mustNotAggregate := true }
  else do
    let exprs ← g.generateList R.other aggregateChilds
    let descs := List.zipWith (fun (type, cell) child => ⟨type, child, cell⟩)
      (refactor.aggregateTypes.zip refactor.aggregateCells) exprs
    return { s with mustAggregate := true, aggregateDesc := s.aggregateDesc ++ descs }

/-- The case of an ordinary expression in `resolve_projection_list`. What the refactoring answers
is not looked at. -/
def resolveExpr (sqlNode : ExpressionWithAliasSqlNode Q) (s : ProjectExpressionResovler L) :
    Except Stop (ProjectExpressionResovler L) :=
  match ExpressionStructRefactor.refactor R.rand R.attributes [sqlNode.expr] { rands := s.rands }
    with
  | some (_, [expr], refactor) => do
    let queryExpr ← g.generate R.other expr
    let s ← pushGroupping R g refactor s
    return { s with
      queryExprs := s.queryExprs ++ [queryExpr]
      subqueryCellDesc := s.subqueryCellDesc ++ refactor.subqueryCells
      attrTuple := s.attrTuple ++ [attrSpec expr sqlNode.aliasName]
      rands := refactor.rands }
  | _ => .error .assertion

/-- `resolve_projection_list`. -/
def resolveProjectionList : List (ExpressionWithAliasSqlNode Q) → ProjectExpressionResovler L →
    Except Stop (ProjectExpressionResovler L)
  | [], s => .ok s
  | sqlNode :: sqlNodes, s =>
    match wildcardOf sqlNode.expr with
    | some relationName => do
      let (exprs, specs) ← wildcardFields g (nameOf relationName)
      resolveProjectionList sqlNodes
        { s with queryExprs := s.queryExprs ++ exprs, attrTuple := s.attrTuple ++ specs }
    | none => do
      let s ← resolveExpr R g sqlNode s
      resolveProjectionList sqlNodes s

end

/-! ### Statements -/

/-- `SelectSqlNode`. -/
structure SelectSqlNode (Q : Type) where
  attributes : List (ExpressionWithAliasSqlNode Q)
  relations : List (TableReferenceSqlNode Q)
  condition : Option (ExpressionSqlNode Q)
  groupBy : List (ExpressionSqlNode Q)

/-- `SelectStmt`. -/
structure SelectStmt (L : Library) where
  tableStmt : Option (TableStmt L)
  tupleSchema : List TupleCellSpec
  aggregateList : List (AggregateDesc L)
  projectExprList : List (TupleExpr L)
  filter : Option (TupleExpr L)

section

variable {L : Library} {Q : Type} (R : Context L Q)

/-- `resolve_table`. -/
def resolveTable : List (TableReferenceSqlNode Q) →
    Except Stop (Option (TableStmt L) × List TableFactorDesc)
  | [] => .ok (none, [])
  | first :: rest => do
    let (tableStmt, tableDescs) ← createTable R (joinTables first rest) []
    return (some tableStmt, tableDescs)

/-- `WhereConditionExpressionResolver::resolve`. The subqueries of the condition are dropped. -/
def resolveWhere (tableDescs : List TableFactorDesc) (tupleSchema : List TupleCellSpec)
    (rands : Nat) (condition : ExpressionSqlNode Q) : Except Stop (TupleExpr L) :=
  match ExpressionStructRefactor.refactor R.rand R.attributes [condition] { rands } with
  | some (.success, [expr], refactor) =>
    if ¬ refactor.aggregateChilds.isEmpty then .error (.rc .invalidAggregate)
    else (R.generator tableDescs [] tupleSchema).generate R.other expr
  | some (rc, _, _) => .error (.rc rc)
  | none => .error .assertion

/-- `SelectStmt::create`. -/
def SelectStmt.create (selectSql : SelectSqlNode Q) : Except Stop (SelectStmt L) :=
  if ¬ selectSql.groupBy.isEmpty then .error (.rc .unimplement)
  else do
    let (tableStmt, tableDescs) ← resolveTable R selectSql.relations
    if selectSql.attributes.isEmpty then .error .assertion
    else
      let resolver ← resolveProjectionList R (R.generator tableDescs [] []) selectSql.attributes {}
      if ¬ resolver.subqueryCellDesc.isEmpty then .error (.rc .unimplement)
      else
        let stmt : SelectStmt L := {
          tableStmt
          tupleSchema := resolver.attrTuple
          aggregateList := resolver.aggregateDesc
          projectExprList := resolver.queryExprs
          filter := none }
        match selectSql.condition with
        | none => return stmt
        | some condition =>
          let filter ← resolveWhere R tableDescs resolver.attrTuple resolver.rands condition
          return { stmt with filter := some filter }

end

end MiniOB.Sql.Resolver
