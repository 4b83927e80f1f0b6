import MiniOB.Sql.Preservation
import MiniOB.Sql.Selection

/-!
# What a planned SELECT returns

`LogicalPlanGenerator`, `OptimizeStage::rewrite` and `PhysicalPlanGenerator` on the statements
that `SelectStmt::create` makes. A comparison of the WHERE that is pushed down is evaluated by the
scan of the table, or by a scan of one of its indexes. A join whose condition sets one field equal
to another is not made by nested loops.
-/

namespace MiniOB.Sql.Resolver

open Expression (bind_eq_ok)

/-! ### The planner -/

section

variable {L : Library}

/-- The planner takes `RbTreeEqJoinPhysicalOperator` for a join with this condition. -/
def usesRbTreeEqJoin : TupleExpr L → Bool
  | .comparison .equalTo (.field (.field _ _)) (.field (.field _ _)) => true
  | _ => false

/-- All joins are nested loops. -/
def TableStmt.Nested : TableStmt L → Prop
  | .table _ => True
  | .join left right joinCondition =>
    left.Nested ∧ right.Nested ∧ ∀ expr, joinCondition = some expr → ¬ usesRbTreeEqJoin expr

/-- What the scan of an index of the table delivers, if the planner takes one for the comparisons
of a `TableGetLogicalOperator`. -/
structure IndexScans (L : Library) where
  scan : TableMeta → List (environment L).signature.Comparison → Option (Except Stop (List Tuple))
  scan_nil : ∀ t, scan t [] = none

variable (content : TableMeta → List (List Value)) (indexes : IndexScans L)

/-- A table with its rows and its index scans. -/
def tableAccess (t : TableMeta) : TableAccess (environment L).signature where
  rows := (content t).map fun row => ⟨.row t.name (t.fields.map FieldMeta.name), row⟩
  indexScan := indexes.scan t
  indexScan_nil := indexes.scan_nil t

/-- What a SELECT selects from. -/
def TableStmt.fromClause : TableStmt L → FromClause (environment L).signature
  | .table t => .table (tableAccess content indexes t)
  | .join left right joinCondition =>
    .join ((TableStmt.join left right joinCondition).deliver content)

/-- A tuple of `ProjectPhysicalOperator`. No name is looked up in it. -/
def projectTuple (cells : List Value) : Tuple := ⟨.row "" [], cells⟩

/-- The statement that is planned, for one without aggregates. -/
def SelectStmt.planned (stmt : SelectStmt L) : Sql.SelectStmt (environment L).signature where
  table := stmt.tableStmt.map (TableStmt.fromClause content indexes)
  aggregate := none
  filter := stmt.filter.map Expression.toExpr
  project tuple := (Expression.getValues tuple stmt.projectExprList).map projectTuple

/-- The statement is planned with nested loops, its plan is rewritten, and what the operators
deliver, without an error, are these rows in some order. -/
def SelectStmt.Returns (stmt : SelectStmt L) (rows : List (List Value)) : Prop :=
  stmt.aggregateList = []
    ∧ (∀ tableStmt, stmt.tableStmt = some tableStmt → tableStmt.Nested)
    ∧ Preserved (.select (stmt.planned content indexes)) (rows.map projectTuple)

end

section

variable {L : Library} {Q : Type} {R : Context L Q} {content : TableMeta → List (List Value)}
  {indexes : IndexScans L} {scope scope' : Scope} {shape : TupleShape} {expr : TupleExpr L}
  {row : List Value} {tuple : Tuple} {tableStmt : TableStmt L} {stmt : SelectStmt L}

/-! ### Before the plan is rewritten -/

theorem projected_eq (exprs : List (TupleExpr L)) (stop : Option Stop) : ∀ tuples : List Tuple,
    projected (S := (environment L).signature)
        (fun tuple => (Expression.getValues tuple exprs).map projectTuple) stop tuples
      = ⟨(projectCells exprs stop tuples).1.map projectTuple, (projectCells exprs stop tuples).2⟩
  | [] => rfl
  | tuple :: tuples => by
    have ih := projected_eq exprs stop tuples
    rw [projected, projectCells]
    cases Expression.getValues tuple exprs with
    | error stop => rfl
    | ok cells =>
      exact congrArg (Delivery.cons (projectTuple cells)) ih

theorem meaning_fromClause (tableStmt : TableStmt L) :
  (tableStmt.fromClause content indexes).plan.meaning = tableStmt.deliver content
  := by
  cases tableStmt with
  | table t => exact meaning_tableGet _
  | join left right joinCondition => rfl

/-- The plan means what the operators deliver that `execute` is made of. -/
theorem meaning_planned {rows : List (List Value)} (h : stmt.execute content = some (rows, none)) :
  stmt.aggregateList = []
    ∧ (Stmt.select (stmt.planned content indexes)).plan.meaning = ⟨rows.map projectTuple, none⟩
  := by
  rw [SelectStmt.execute] at h
  split at h
  · rename_i tableStmt htable haggregate
    refine ⟨haggregate, ?_⟩
    have h := Option.some.inj h
    have hsource : (stmt.planned content indexes).source.meaning = tableStmt.deliver content := by
      rw [Sql.SelectStmt.source, SelectStmt.planned, htable]
      exact meaning_fromClause tableStmt
    have hproject : ∀ d : Delivery (environment L).signature,
        projectCells stmt.projectExprList d.stop d.rows = (rows, none) →
        (Oper.project (stmt.planned content indexes).project).run d
          = ⟨rows.map projectTuple, none⟩ := by
      intro d hd
      have hprojected := projected_eq stmt.projectExprList d.stop d.rows
      rw [hd] at hprojected
      exact hprojected
    rw [Stmt.plan]
    dsimp only
    cases hfilter : stmt.filter with
    | none =>
      have hplanned : (stmt.planned content indexes).filter = none := by
        rw [SelectStmt.planned, hfilter]
        rfl
      rw [hfilter, ← hsource] at h
      rw [hplanned]
      exact hproject _ h
    | some expr =>
      have hplanned : (stmt.planned content indexes).filter = some expr.toExpr := by
        rw [SelectStmt.planned, hfilter]
        rfl
      rw [hfilter, ← hsource] at h
      rw [hplanned]
      exact hproject _ h
  · cases h

/-! ### Comparisons that are pushed down -/

mutual

/-- A comparison of an expression that finds its fields has an answer. -/
theorem compare_of_finds : ∀ expr : TupleExpr L, expr.Throughout (Expression.Finds tuple) →
    ∀ comparison ∈ (getExprsCanPushdown (S := (environment L).signature) expr.toExpr).2,
      ∃ answer, (environment L).signature.compare comparison tuple = .ok answer
  | .comparison comp left right, hfinds, comparison, hmem => by
    obtain ⟨-, hleft, hright⟩ := hfinds
    obtain ⟨v, hv, -⟩ := Expression.getValue_hasType left hleft
    obtain ⟨w, hw, -⟩ := Expression.getValue_hasType right hright
    rw [Expression.toExpr, getExprsCanPushdown] at hmem
    split_ifs at hmem with hfield
    · obtain rfl := List.mem_singleton.mp hmem
      refine ⟨compareValue L.doubles comp v w, ?_⟩
      dsimp only [Environment.signature]
      rw [hv, hw]
      rfl
    · cases hmem
  | .conjunction .and children, hfinds, comparison, hmem => by
    rw [Expression.toExpr, getExprsCanPushdown] at hmem
    exact compare_of_allFinds children hfinds.2 comparison hmem
  | .conjunction .or _, _, _, hmem => by
    rw [Expression.toExpr, getExprsCanPushdown] at hmem
    cases hmem
  | .value _, _, _, hmem => by cases hmem
  | .field _, _, _, hmem => by cases hmem
  | .cast _ _, _, _, hmem => by cases hmem
  | .arithmetic _ _ _, _, _, hmem => by cases hmem
  | .like _ _, _, _, hmem => by cases hmem
  | .not _, _, _, hmem => by cases hmem
  | .isIn _ _, _, _, hmem => by cases hmem
  | .isNull _, _, _, hmem => by cases hmem

theorem compare_of_allFinds : ∀ children : List (TupleExpr L),
    Expression.AllThroughout (Expression.Finds tuple) children →
    ∀ comparison ∈
      (pushdownChildren (S := (environment L).signature) (Expression.toExprs children)).2,
      ∃ answer, (environment L).signature.compare comparison tuple = .ok answer
  | [], _, _, hmem => by cases hmem
  | child :: children, hfinds, comparison, hmem => by
    rw [Expression.toExprs, pushdownChildren] at hmem
    obtain hmem | hmem := List.mem_append.mp hmem
    · exact compare_of_finds child hfinds.1 comparison hmem
    · exact compare_of_allFinds children hfinds.2 comparison hmem

end

theorem scanFilter_of_compare {S : Signature} {row : S.Tuple} : ∀ {comparisons : List S.Comparison},
    (∀ comparison ∈ comparisons, ∃ answer, S.compare comparison row = .ok answer) →
    ∃ answer, scanFilter row comparisons = .ok answer
  | [], _ => ⟨true, rfl⟩
  | comparison :: comparisons, h => by
    have ih := scanFilter_of_compare fun c hc => h c (List.mem_cons_of_mem _ hc)
    obtain ⟨answer, hanswer⟩ := h comparison List.mem_cons_self
    rw [scanFilter, hanswer]
    cases answer with
    | none => exact ⟨false, rfl⟩
    | some answer =>
      cases answer with
      | true => exact ih
      | false => exact ⟨false, rfl⟩

/-- The scan of the table of a statement with a meaning is not stopped. -/
theorem answers_of_resolves {selectSql : SelectSqlNode Q} {rows : List (List Value)}
    (h : Resolves content selectSql scope rows tableStmt stmt) :
  (Stmt.select (stmt.planned content indexes)).Answers
  := by
  intro table comparisons hpushed tuple htuple
  rw [Stmt.pushed, SelectStmt.planned, h.table] at hpushed
  obtain ⟨-, hfilter⟩ | ⟨condition, filter, -, hfilter, hall⟩ := h.filter
  · rw [hfilter] at hpushed
    split at hpushed <;> simp_all
  · rw [hfilter] at hpushed
    cases tableStmt with
    | join left right joinCondition => cases hpushed
    | table t =>
      cases hpushed
      have hdeliver := congrArg Delivery.rows h.delivers.deliver
      rw [show (tableAccess content indexes t).rows = _ from hdeliver] at htuple
      obtain ⟨row, hrow, rfl⟩ := List.mem_map.mp htuple
      exact scanFilter_of_compare (compare_of_finds filter (hall row (h.delivers.typed row hrow)).2)

/-! ### The rows -/

end

def contentJoined (t : TableMeta) : List (List Value) :=
  if t.name = "t" then
    [[.ints 1, .chars [97]], [.ints 2, .chars [98]], [.nulls, .chars [99]]]
  else [[.chars [97]], [.chars [99]]]

theorem means_of_three {node : ExpressionSqlNode Unit}
    (h : ∀ a b c, ∃ v, meaning .withoutFloats (denote scopeJoined.columns [a, b, c]) node = some v) :
  Means .withoutFloats scopeJoined.columns node
  := by
  intro row hlength
  obtain ⟨a, b, c, rfl⟩ := List.length_eq_three.mp hlength.symm
  exact h a b c

theorem selectMeans_joined :
  SelectMeans .withoutFloats contextOfTables contentJoined selectJoined scopeJoined
    [[.ints 1, .chars [97], .chars [97]], [.ints 1, .chars [97], .chars [99]],
      [.ints 2, .chars [98], .chars [99]]]
  := by
  have hstrings : Means .withoutFloats scopeJoined.columns conditionOfStrings :=
    means_of_three fun _ _ _ => ⟨_, rfl⟩
  have hnull : Means .withoutFloats scopeJoined.columns conditionNotNull :=
    means_of_three fun _ _ _ => ⟨_, rfl⟩
  have hitem : Means .withoutFloats scopeJoined.columns (.field (Q := Unit) [] [117] [115]) :=
    means_of_three fun _ _ _ => ⟨_, rfl⟩
  have htables : TableMeans .withoutFloats contextOfTables contentJoined
      (joinTables (.join (.primary [116] [120]) (.primary [117] []) (some conditionOfStrings)) [])
      scopeJoined [[.ints 1, .chars [97], .chars [97]], [.ints 1, .chars [97], .chars [99]],
        [.ints 2, .chars [98], .chars [99]], [.nulls, .chars [99], .chars [99]]] :=
    .join (.primary rfl) (.primary rfl) hstrings
  refine .select rfl htables ?_ ?_
  · intro item hmem
    obtain rfl | rfl : item = _ ∨ item = _ := by simpa [selectJoined] using hmem
    · exact .inl rfl
    · exact .inr hitem
  · rintro _ ⟨⟩
    exact hnull

/-- No index is scanned. -/
def noIndexScans : IndexScans .withoutFloats := ⟨fun _ _ => none, fun _ => rfl⟩

end MiniOB.Sql.Resolver
