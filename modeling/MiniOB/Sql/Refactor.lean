import MiniOB.Lib.Regex
import MiniOB.Lib.Run
import MiniOB.Sql.Group

/-!
# Refactoring expressions

`ExpressionStructValidator` and `ExpressionStructRefactor` of `sql/expr/expression_refactor.cpp`,
which take the calls of aggregate functions and the subqueries out of parsed expressions. The
statement between the parentheses of a subquery is of any type.
-/

namespace MiniOB.Sql

/-! ### Parsed expressions -/

/-- A `CastExpressionSqlNode`, `NotExpressionSqlNode`, `LikeExpressionSqlNode` or
`IsNullExpressionSqlNode`, without its child. -/
inductive UnaryKind where
  | cast (targetType : AttrType)
  | not
  | like (pattern : Str)
  | isNull

/-- A `ComparisonExpressionSqlNode`, `ConjunctionExpressionSqlNode` or
`ArithmeticExpressionSqlNode`, without its children. -/
inductive BinaryKind where
  | comparison (compOp : CompOp)
  | conjunction (conjunctionType : ConjunctionType)
  | arithmetic (arithmeticType : ArithmeticType)

/-- `SubqueryExpressionSqlNode`. -/
structure SubqueryExpressionSqlNode (Q : Type) where
  name : Str
  subquery : Q

/-- `TupleCellExpressionSqlNode`. Nothing sets its other names here. -/
structure TupleCellExpressionSqlNode where
  name : Str
  aliasName : Str

/-- Where the parser puts a subquery, and the refactoring a reference in its place. -/
abbrev SubqueryPlace (Q : Type) := SubqueryExpressionSqlNode Q ⊕ TupleCellExpressionSqlNode

/-- `ExpressionSqlNode`. An `InExpressionSqlNode` has a subquery or a list of values. -/
inductive ExpressionSqlNode (Q : Type) where
  | field (name relationName attributeName : Str)
  | value (name : Str) (value : Value)
  | unary (kind : UnaryKind) (name : Str) (child : ExpressionSqlNode Q)
  | binary (kind : BinaryKind) (name : Str) (left right : ExpressionSqlNode Q)
  | function (name functionName : Str) (paramExprs : List (ExpressionSqlNode Q))
  | inSubquery (name : Str) (child : ExpressionSqlNode Q) (subquery : SubqueryPlace Q)
  | inList (name : Str) (child : ExpressionSqlNode Q) (valueList : List (ExpressionSqlNode Q))
  | exists (name : Str) (subquery : SubqueryPlace Q)
  | aggregate (name : Str) (aggregateType : AggregateType) (child : ExpressionSqlNode Q)
  | subquery (node : SubqueryExpressionSqlNode Q)
  | cellRef (cell : TupleCellExpressionSqlNode)

/-- `aggregate_name_map`, whose names are `count`, `sum`, `avg`, `max` and `min`. -/
def aggregateNameMap : List (Str × AggregateType) :=
  [([99, 111, 117, 110, 116], .count), ([115, 117, 109], .sum), ([97, 118, 103], .avg),
    ([109, 97, 120], .max), ([109, 105, 110], .min)]

/-- `get_aggregate_type`. -/
def getAggregateType (functionName : Str) : AggregateType :=
  (aggregateNameMap.lookup ((cStr functionName).map Regex.lower)).getD .invalid

/-- `is_aggregate_function`. -/
def isAggregateFunction (functionName : Str) : Bool :=
  (aggregateNameMap.lookup ((cStr functionName).map Regex.lower)).isSome

/-- `SubqueryType`. -/
inductive SubqueryType where
  | singleCell
  | singleCol
  | exists
  | table
  deriving DecidableEq, Repr

/-! ### The validator -/

/-- `ExpressionStructValidator`. -/
structure ExpressionStructValidator where
  allowAggregate : Bool := true
  allowNonAggregate : Bool := true

namespace ExpressionSqlNode

section

variable {Q : Type} (attributes : Q → Nat)

/-- The case of a subquery in `validate`, by the number of its attributes. -/
def validateSubquery (allowMultipleCol : Bool) (node : SubqueryExpressionSqlNode Q)
    (v : ExpressionStructValidator) : Except Stop ExpressionStructValidator :=
  if 1 < attributes node.subquery ∧ ¬ allowMultipleCol then .error (.rc .subqueryMoreThanOneCol)
  else .ok v

mutual

/-- `ExpressionStructValidator::validate`. An `IN` is not asked for what its child is compared
with. -/
def validate (inAggregate allowMultipleCol : Bool) :
    ExpressionSqlNode Q → ExpressionStructValidator → Except Stop ExpressionStructValidator
  | field _ _ _, v =>
    if ¬ v.allowNonAggregate ∧ ¬ inAggregate then .error (.rc .invalidAggregate)
    else .ok { v with allowAggregate := false }
  | value _ _, v => .ok v
  | unary (.cast _) _ child, v => child.validate inAggregate allowMultipleCol v
  | unary _ _ child, v => child.validate inAggregate false v
  | binary _ _ left right, v => do
    let v ← left.validate inAggregate false v
    right.validate inAggregate false v
  | function _ functionName paramExprs, v =>
    if isAggregateFunction functionName then
      if inAggregate then .error (.rc .invalidAggregate)
      else if ¬ v.allowAggregate then .error (.rc .invalidAggregate)
      else
        match paramExprs with
        | [param] => do
          let v ← param.validate true false { v with allowNonAggregate := false }
          return { v with allowAggregate := true }
        | _ => .error (.rc .invalidAggregate)
    else validateAll inAggregate paramExprs v
  | inSubquery _ child _, v => child.validate inAggregate false v
  | inList _ child _, v => child.validate inAggregate false v
  | .exists _ (.inl node), v => validateSubquery attributes true node v
  | .exists _ (.inr _), _ => .error .assertion
  | subquery node, v => validateSubquery attributes allowMultipleCol node v
  | aggregate _ _ _, _ => .error .assertion
  | cellRef _, _ => .error .assertion

/-- The loop over the parameters of a function. -/
def validateAll (inAggregate : Bool) :
    List (ExpressionSqlNode Q) → ExpressionStructValidator → Except Stop ExpressionStructValidator
  | [], v => .ok v
  | arg :: args, v => do
    let v ← arg.validate inAggregate false v
    validateAll inAggregate args v

end

/-- The first loop of `refactor`. -/
def validateList (allowAggregate allowNonAggregate : Bool) :
    List (ExpressionSqlNode Q) → Except Stop Unit
  | [] => .ok ()
  | sqlNode :: sqlNodes => do
    let v ← sqlNode.validate attributes false false {}
    if ¬ v.allowNonAggregate ∧ ¬ allowAggregate then .error (.rc .invalidAggregate)
    else
      let allowNonAggregate := allowNonAggregate && v.allowNonAggregate
      if ¬ v.allowAggregate ∧ ¬ allowNonAggregate then .error (.rc .invalidAggregate)
      else validateList (allowAggregate && v.allowAggregate) allowNonAggregate sqlNodes

end

/-! ### The codes of the validator -/

variable {Q : Type} {attributes : Q → Nat} {v : ExpressionStructValidator}

theorem bind_ne_success {α β : Type} {x : Except Stop α} {f : α → Except Stop β}
    (hx : x ≠ .error (.rc .success)) (hf : ∀ a, f a ≠ .error (.rc .success)) :
  x >>= f ≠ .error (.rc .success)
  := by
  cases x with
  | error stop =>
    intro h
    apply hx
    simpa [bind, Except.bind] using h
  | ok a => exact hf a

theorem validateSubquery_ne_success {allowMultipleCol : Bool}
    {node : SubqueryExpressionSqlNode Q} :
  validateSubquery attributes allowMultipleCol node v ≠ .error (.rc .success)
  := by
  rw [validateSubquery]
  split_ifs <;> simp

mutual

theorem validate_ne_success : ∀ (node : ExpressionSqlNode Q) {inAggregate allowMultipleCol : Bool}
    {v : ExpressionStructValidator},
    node.validate attributes inAggregate allowMultipleCol v ≠ .error (.rc .success)
  | .field _ _ _, _, _, _ => by
    rw [validate]
    split_ifs <;> simp
  | .value _ _, _, _, _ => by simp [validate]
  | .unary (.cast _) _ child, _, _, _ => validate_ne_success child
  | .unary .not _ child, _, _, _ => validate_ne_success child
  | .unary (.like _) _ child, _, _, _ => validate_ne_success child
  | .unary .isNull _ child, _, _, _ => validate_ne_success child
  | .binary _ _ left right, _, _, _ =>
    bind_ne_success (validate_ne_success left) fun _ => validate_ne_success right
  | .function _ _ params, _, _, _ => by
    rw [validate.eq_def]
    dsimp only
    split_ifs
    · simp
    · split
      · apply bind_ne_success (validate_ne_success _)
        intro v h
        cases h
      · simp
    · simp
    · exact validateAll_ne_success params
  | .inSubquery _ child _, _, _, _ => validate_ne_success child
  | .inList _ child _, _, _, _ => validate_ne_success child
  | .exists _ (.inl _), _, _, _ => validateSubquery_ne_success
  | .exists _ (.inr _), _, _, _ => by simp [validate]
  | .subquery _, _, _, _ => validateSubquery_ne_success
  | .aggregate _ _ _, _, _, _ => by simp [validate]
  | .cellRef _, _, _, _ => by simp [validate]

theorem validateAll_ne_success : ∀ (nodes : List (ExpressionSqlNode Q)) {inAggregate : Bool}
    {v : ExpressionStructValidator},
    validateAll attributes inAggregate nodes v ≠ .error (.rc .success)
  | [], _, _ => by simp [validateAll]
  | node :: nodes, _, _ =>
    bind_ne_success (validate_ne_success node) fun _ => validateAll_ne_success nodes

end

theorem validateList_ne_success : ∀ (nodes : List (ExpressionSqlNode Q))
    {allowAggregate allowNonAggregate : Bool},
    validateList attributes allowAggregate allowNonAggregate nodes ≠ .error (.rc .success)
  | [], _, _ => by simp [validateList]
  | node :: nodes, _, _ => by
    apply bind_ne_success (validate_ne_success node)
    intro v
    dsimp only
    split_ifs
    · simp
    · simp
    · exact validateList_ne_success nodes

end ExpressionSqlNode

/-! ### The refactoring -/

/-- `ExpressionStructRefactor`, which is used without grouping expressions, and how often `rand`
has been called. A `TupleCellSpec` is given by its alias. -/
structure ExpressionStructRefactor (Q : Type) where
  aggregateTypes : List AggregateType := []
  aggregateChilds : List (ExpressionSqlNode Q) := []
  aggregateCells : List Str := []
  subqueries : List (SubqueryExpressionSqlNode Q) := []
  subqueryTypes : List SubqueryType := []
  subqueryCells : List Str := []
  currentSubqueryType : SubqueryType := .singleCell
  rands : Nat := 0

namespace ExpressionStructRefactor

variable {Q : Type} (rand : Nat → Nat)

/-- `init`. -/
def init (s : ExpressionStructRefactor Q) : ExpressionStructRefactor Q :=
  { s with
    aggregateTypes := []
    aggregateChilds := []
    subqueries := []
    subqueryCells := []
    subqueryTypes := []
    currentSubqueryType := .singleCell }

/-- The child is the `*` of `count(*)`. -/
def isCountStar : AggregateType → ExpressionSqlNode Q → Bool
  | .count, .field name _ _ => name = [42]
  | _, _ => false

/-- The case of an aggregate in `refactor_internal`, with the visit of its child. -/
def refactorAggregate (name : Str) (aggregateType : AggregateType)
    (refactorChild : ExpressionStructRefactor Q →
      Option (ExpressionSqlNode Q × ExpressionStructRefactor Q))
    (s : ExpressionStructRefactor Q) :
    Option (ExpressionSqlNode Q × ExpressionStructRefactor Q) := do
  let tupleCell := cStr (name ++ printInt 0 (rand s.rands))
  let oldSubqueryType := s.currentSubqueryType
  let (child, s) ← refactorChild { s with rands := s.rands + 1, currentSubqueryType := .singleCell }
  return (.cellRef ⟨name, tupleCell⟩,
    { s with
      currentSubqueryType := oldSubqueryType
      aggregateTypes := s.aggregateTypes ++ [aggregateType]
      aggregateChilds := s.aggregateChilds ++ [child]
      aggregateCells := s.aggregateCells ++ [tupleCell] })

/-- The case of a subquery in `refactor_internal`, with the reference that takes its place. -/
def refactorSubquery (node : SubqueryExpressionSqlNode Q) (s : ExpressionStructRefactor Q) :
    TupleCellExpressionSqlNode × ExpressionStructRefactor Q :=
  (⟨[], cStr node.name⟩,
    { s with
      subqueries := s.subqueries ++ [node]
      subqueryTypes := s.subqueryTypes ++ [s.currentSubqueryType]
      subqueryCells := s.subqueryCells ++ [cStr node.name] })

/-- The visit of the subquery of an `IN` or an `EXISTS`, for a result of this type. -/
def refactorPlace (subqueryType : SubqueryType) (place : SubqueryPlace Q)
    (s : ExpressionStructRefactor Q) :
    Option (SubqueryPlace Q × ExpressionStructRefactor Q) :=
  match place with
  | .inl node =>
    let (cell, s') := refactorSubquery node { s with currentSubqueryType := subqueryType }
    some (.inr cell, { s' with currentSubqueryType := s.currentSubqueryType })
  | .inr _ => none

mutual

/-- `refactor_internal`, which has no result where an assertion fails. It always succeeds. -/
def refactorInternal : ExpressionSqlNode Q → ExpressionStructRefactor Q →
    Option (ExpressionSqlNode Q × ExpressionStructRefactor Q)
  | .field name relationName attributeName, s =>
    some (.field name relationName attributeName, { s with currentSubqueryType := .singleCell })
  | .value name value, s =>
    some (.value name value, { s with currentSubqueryType := .singleCell })
  | .unary kind name child, s => do
    let (child, s') ← refactorInternal child { s with currentSubqueryType := .singleCell }
    return (.unary kind name child, { s' with currentSubqueryType := s.currentSubqueryType })
  | .binary kind name left right, s => do
    let (left, s') ← refactorInternal left { s with currentSubqueryType := .singleCell }
    -- the old type is back before the second child is visited
    let (right, s') ← refactorInternal right
      { s' with currentSubqueryType := s.currentSubqueryType }
    return (.binary kind name left right, { s' with currentSubqueryType := s.currentSubqueryType })
  | .function name functionName paramExprs, s =>
    if isAggregateFunction functionName then
      match paramExprs with
      | [param] => do
        let aggregateType := getAggregateType functionName
        let (node, s') ← refactorAggregate rand name aggregateType
          (if isCountStar aggregateType param then fun s => some (.value [] (.ints 1), s)
            else refactorInternal param)
          { s with currentSubqueryType := .singleCell }
        return (node, { s' with currentSubqueryType := s.currentSubqueryType })
      | _ => none
    -- the parameters of another function are not visited
    else some (.function name functionName paramExprs, s)
  | .aggregate name aggregateType child, s =>
    refactorAggregate rand name aggregateType
      (if isCountStar aggregateType child then fun s => some (.value [] (.ints 1), s)
        else refactorInternal child) s
  | .subquery node, s =>
    let (cell, s) := refactorSubquery node s
    some (.cellRef cell, s)
  -- neither is the child of an `IN`
  | .inSubquery name child subquery, s => do
    let (subquery, s) ← refactorPlace .singleCol subquery s
    return (.inSubquery name child subquery, s)
  | .inList name child valueList, s => do
    let (valueList, s') ← refactorList valueList { s with currentSubqueryType := .singleCell }
    return (.inList name child valueList, { s' with currentSubqueryType := s.currentSubqueryType })
  | .exists name subquery, s => do
    let (subquery, s) ← refactorPlace .exists subquery s
    return (.exists name subquery, s)
  | .cellRef _, _ => none

/-- The loops over the values of an `IN` and over the expressions of `refactor`. -/
def refactorList : List (ExpressionSqlNode Q) → ExpressionStructRefactor Q →
    Option (List (ExpressionSqlNode Q) × ExpressionStructRefactor Q)
  | [], s => some ([], s)
  | sqlNode :: sqlNodes, s => do
    let (sqlNode, s) ← refactorInternal sqlNode s
    let (sqlNodes, s) ← refactorList sqlNodes s
    return (sqlNode :: sqlNodes, s)

end

/-- `refactor`. -/
def refactor (attributes : Q → Nat) (querySqlList : List (ExpressionSqlNode Q))
    (s : ExpressionStructRefactor Q) :
    Option (RC × List (ExpressionSqlNode Q) × ExpressionStructRefactor Q) :=
  match ExpressionSqlNode.validateList attributes true true querySqlList with
  | .error (.rc rc) => some (rc, querySqlList, s.init)
  | .error _ => none
  | .ok () => (refactorList rand querySqlList s.init).map fun (nodes, s) => (.success, nodes, s)

end ExpressionStructRefactor

end MiniOB.Sql
