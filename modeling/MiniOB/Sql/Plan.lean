import MiniOB.Sql.Expression

/-!
# Plans

The logical plans that `LogicalPlanGenerator` makes of a SELECT, an UPDATE or a DELETE, what
`OptimizeStage::rewrite` makes of them, and the physical plans of `PhysicalPlanGenerator` with
the rows that they deliver.

Only the operators above the tables are rewritten. A join is given by the rows that it delivers.
-/

namespace MiniOB.Sql

variable (S : Signature)

/-- What `next` delivers until it answers something else than `SUCCESS`, which is `RECORD_EOF`
where nothing stops it. -/
structure Delivery where
  rows : List S.Tuple
  stop : Option Stop

/-- A table: its rows that the transaction sees, and the rows of the index scan that the planner
chooses for the comparisons of a `TableGetLogicalOperator`, if it chooses one. -/
structure TableAccess where
  rows : List S.Tuple
  indexScan : List S.Comparison → Option (Except Stop (List S.Tuple))
  indexScan_nil : indexScan [] = none

/-- The logical operators with one child. What is aggregated does not depend on the order of the
rows. -/
inductive Oper where
  | predicate (expr : Expr S)
  | project (eval : S.Tuple → Except Stop S.Tuple)
  | group (aggregate : Multiset S.Tuple → Except Stop (List S.Tuple))
  | update
  | delete (filter : Option (Expr S))

/-- `LogicalOperator`. An operator without children has the empty plan below it. -/
inductive Plan where
  | empty
  | tableGet (table : TableAccess S) (predicates : List S.Comparison)
  | join (rows : Delivery S)
  | oper (oper : Oper S) (child : Plan)

variable {S}

/-! ### Rewriting -/

/-- `PredicateRewriteRule::rewrite`, with `change_made`. -/
def predicateRewrite : Plan S → Plan S × Bool
  | .oper op (.oper (.predicate (.value v)) child) =>
    if v.getBoolean S.doubles = some true then (.oper op child, true)
    else (.oper op .empty, true)
  | plan => (plan, false)

/-- `PredicatePushdownRewriter::rewrite`, with `change_made`. -/
def predicatePushdown : Plan S → Plan S × Bool
  | .oper (.predicate expr) (.tableGet table predicates) =>
    let (rest, pushed) := getExprsCanPushdown expr
    let expr := rest.getD (.value (.booleans true))
    if pushed.isEmpty then (.oper (.predicate expr) (.tableGet table predicates), false)
    else (.oper (.predicate expr) (.tableGet table pushed), true)
  | plan => (plan, false)

/-- The rules of a `Rewriter`, one after another. -/
def applyRules (plan : Plan S) : Plan S × Bool :=
  let (plan, change) := predicateRewrite plan
  let (plan, change') := predicatePushdown plan
  (plan, change || change')

/-- The number of operators. -/
def Plan.size : Plan S → Nat
  | .oper _ child => child.size + 1
  | _ => 0

theorem size_predicateRewrite_le (plan : Plan S) : (predicateRewrite plan).1.size ≤ plan.size := by
  unfold predicateRewrite
  split
  · split <;> simp [Plan.size]
  · rfl

theorem size_predicatePushdown (plan : Plan S) : (predicatePushdown plan).1.size = plan.size := by
  unfold predicatePushdown
  split
  · dsimp only
    split <;> rfl
  · rfl

theorem size_applyRules_le (plan : Plan S) : (applyRules plan).1.size ≤ plan.size := by
  rw [applyRules]
  dsimp only
  rw [size_predicatePushdown]
  exact size_predicateRewrite_le plan

/-- `Rewriter::rewrite`: the rules on the operator, and then its children. -/
def Plan.rewrite (plan : Plan S) : Plan S × Bool :=
  match _h : applyRules plan with
  | (.oper op child, change) =>
    let (child, change') := child.rewrite
    (.oper op child, change || change')
  | (plan, change) => (plan, change)
termination_by plan.size
decreasing_by
  have hle := size_applyRules_le plan
  rw [_h] at hle
  exact hle

/-- The loop of `OptimizeStage::rewrite`, of at most `fuel` rounds. -/
def rewriteLoop : Nat → Plan S → Option (Plan S)
  | 0, _ => none
  | fuel + 1, plan =>
    match plan.rewrite with
    | (plan, true) => rewriteLoop fuel plan
    | (plan, false) => some plan

/-! ### Statements -/

/-- What a SELECT selects from. -/
inductive FromClause (S : Signature) where
  | table (access : TableAccess S)
  | join (rows : Delivery S)

/-- `SelectStmt`. -/
structure SelectStmt (S : Signature) where
  table : Option (FromClause S)
  aggregate : Option (Multiset S.Tuple → Except Stop (List S.Tuple))
  filter : Option (Expr S)
  project : S.Tuple → Except Stop S.Tuple

/-- The statements that are rewritten. -/
inductive Stmt (S : Signature) where
  | select (stmt : SelectStmt S)
  | update (table : TableAccess S) (filter : Option (Expr S))
  | delete (table : TableAccess S) (filter : Option (Expr S))

/-- The plan of what is selected from. -/
def FromClause.plan : FromClause S → Plan S
  | .table access => .tableGet access []
  | .join rows => .join rows

/-- The plan below the predicate of a SELECT. -/
def SelectStmt.source (stmt : SelectStmt S) : Plan S := (stmt.table.map FromClause.plan).getD .empty

/-- A predicate over a plan, if there is a filter. -/
def filtered (filter : Option (Expr S)) (plan : Plan S) : Plan S :=
  match filter with
  | some expr => .oper (.predicate expr) plan
  | none => plan

/-- `LogicalPlanGenerator::create_plan`. -/
def Stmt.plan : Stmt S → Plan S
  | select stmt =>
    let child := filtered stmt.filter stmt.source
    match stmt.aggregate with
    | some aggregate => .oper (.project stmt.project) (.oper (.group aggregate) child)
    | none => .oper (.project stmt.project) child
  | update table filter => .oper .update (filtered filter (.tableGet table []))
  | delete table filter => .oper (.delete filter) (.tableGet table [])

/-! ### What the operators deliver -/

/-- A row in front of a delivery. -/
def Delivery.cons (row : S.Tuple) (d : Delivery S) : Delivery S := { d with rows := row :: d.rows }

/-- The rows that `PredicatePhysicalOperator` lets through. -/
def keep (expr : Expr S) (stop : Option Stop) : List S.Tuple → Delivery S
  | [] => { rows := [], stop }
  | row :: rows =>
    match expr.getValue row with
    | .error stop => { rows := [], stop := some stop }
    | .ok v =>
      if v.getBoolean S.doubles = some true then (keep expr stop rows).cons row
      else keep expr stop rows

/-- The tuples of `ProjectPhysicalOperator`, whose cells are evaluated row by row. -/
def projected (eval : S.Tuple → Except Stop S.Tuple) (stop : Option Stop) :
    List S.Tuple → Delivery S
  | [] => { rows := [], stop }
  | row :: rows =>
    match eval row with
    | .error stop => { rows := [], stop := some stop }
    | .ok tuple => (projected eval stop rows).cons tuple

/-- The rows for which `TableScanPhysicalOperator::filter` answers that the comparisons are
true. -/
def scanFilter (row : S.Tuple) : List S.Comparison → Except Stop Bool
  | [] => .ok true
  | comparison :: comparisons =>
    match S.compare comparison row with
    | .error stop => .error stop
    | .ok (some true) => scanFilter row comparisons
    | .ok _ => .ok false

/-- The loop of `TableScanPhysicalOperator::next`. -/
def tableScan (comparisons : List S.Comparison) : List S.Tuple → Except Stop (List S.Tuple)
  | [] => .ok []
  | row :: rows =>
    match scanFilter row comparisons with
    | .error stop => .error stop
    | .ok true => (tableScan comparisons rows).map (row :: ·)
    | .ok false => tableScan comparisons rows

/-- What a scan delivers. Of one that is stopped, nothing is used. -/
def scanned : Except Stop (List S.Tuple) → Delivery S
  | .ok rows => { rows, stop := none }
  | .error stop => { rows := [], stop := some stop }

/-- What an operator delivers for what its child delivers. An UPDATE and a DELETE deliver the
rows that they change: the UPDATE does nothing if its child is stopped, the DELETE does not
notice. -/
def Oper.run : Oper S → Delivery S → Delivery S
  | .predicate expr, d => keep expr d.stop d.rows
  | .project eval, d => projected eval d.stop d.rows
  | .group aggregate, d =>
    match d.stop with
    | none => scanned (aggregate d.rows)
    | some stop => { rows := [], stop := some stop }
  | .update, d => if d.stop = none then d else { d with rows := [] }
  | .delete none, d => { d with stop := none }
  | .delete (some expr), d => { keep expr d.stop d.rows with stop := none }

/-! ### Physical plans -/

/-- `PhysicalOperator`: the scan of a table or of an index, or a join, a SELECT without a table,
or an operator with a child. -/
inductive PhysicalPlan (S : Signature) where
  | scan (rows : Delivery S)
  | constSelect (eval : S.Tuple → Except Stop S.Tuple)
  | oper (oper : Oper S) (child : PhysicalPlan S)

/-- The rows of the physical plan of a `TableGetLogicalOperator`. -/
def TableAccess.access (table : TableAccess S) (predicates : List S.Comparison) : Delivery S :=
  match table.indexScan predicates with
  | some result => scanned result
  | none => scanned (tableScan predicates table.rows)

/-- `PhysicalPlanGenerator::create_plan`, with what it does for an operator without children. -/
def createPhysicalPlan : Plan S → Except Stop (PhysicalPlan S)
  | .empty => .error .assertion
  | .tableGet table predicates => .ok (.scan (table.access predicates))
  | .join rows => .ok (.scan rows)
  | .oper (.project eval) .empty => .ok (.constSelect eval)
  | .oper (.group _) .empty => .error (.rc .unimplement)
  | .oper op child => (createPhysicalPlan child).map (.oper op)

/-- The rows of a physical plan. -/
def PhysicalPlan.run : PhysicalPlan S → Delivery S
  | .scan rows => rows
  | .constSelect eval => (Oper.project eval).run { rows := [S.fakeTuple], stop := none }
  | .oper op child => op.run child.run

/-- What a plan means, before anything is rewritten: a predicate keeps a row if its condition is
true, and a SELECT without a table has one row. -/
def Plan.meaning : Plan S → Delivery S
  | .empty => { rows := [S.fakeTuple], stop := none }
  | .tableGet table predicates => scanned (tableScan predicates table.rows)
  | .join rows => rows
  | .oper op child => op.run child.meaning

end MiniOB.Sql
