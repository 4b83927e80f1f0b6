import MiniOB.Sql.Resolution

/-!
# What a SELECT returns

The rows that a SELECT from tables means, by rules for the joins in its FROM, and the rows that
nested loops over its tables deliver once `SelectStmt::create` has resolved its names. What the
planner does about it comes after.
-/

namespace MiniOB.Sql.Resolver

open Expression (bind_eq_ok)

/-! ### What the operators deliver -/

section

variable {L : Library} (content : TableMeta → List (List Value))

/-- The shape of the tuples. -/
def TableStmt.shape : TableStmt L → TupleShape
  | .table t => .row t.name (t.fields.map FieldMeta.name)
  | .join left right _ => .joined left.shape right.shape

/-- `JoinedTuple`. -/
def joinTuple (left right : Tuple) : Tuple :=
  ⟨.joined left.shape right.shape, left.cells ++ right.cells⟩

/-- The tuples of `NestedLoopJoinPhysicalOperator`, for those of the left child and what the right
one delivers each time. -/
def nestedLoops (right : Delivery (environment L).signature) (stop : Option Stop) :
    List Tuple → Delivery (environment L).signature
  | [] => ⟨[], stop⟩
  | tuple :: tuples =>
    let joined := right.rows.map (joinTuple tuple)
    match right.stop with
    | some stop => ⟨joined, some stop⟩
    | none =>
      let rest := nestedLoops right stop tuples
      ⟨joined ++ rest.rows, rest.stop⟩

/-- What the operators of the tables deliver, with a `PredicatePhysicalOperator` for the condition
of a join. -/
def TableStmt.deliver : TableStmt L → Delivery (environment L).signature
  | .table t => ⟨(content t).map fun row => ⟨.row t.name (t.fields.map FieldMeta.name), row⟩, none⟩
  | .join left right joinCondition =>
    let joined := nestedLoops right.deliver left.deliver.stop left.deliver.rows
    match joinCondition with
    | none => joined
    | some expr => keep expr.toExpr joined.stop joined.rows

/-- The cells that `ProjectPhysicalOperator` evaluates, row by row. -/
def projectCells (exprs : List (TupleExpr L)) (stop : Option Stop) :
    List Tuple → List (List Value) × Option Stop
  | [] => ([], stop)
  | tuple :: tuples =>
    match Expression.getValues tuple exprs with
    | .error stop => ([], some stop)
    | .ok cells =>
      let rest := projectCells exprs stop tuples
      (cells :: rest.1, rest.2)

/-- The rows of a SELECT from tables without aggregates, and what stops it, if anything does. -/
def SelectStmt.execute (stmt : SelectStmt L) : Option (List (List Value) × Option Stop) :=
  match stmt.tableStmt, stmt.aggregateList with
  | some tableStmt, [] =>
    let tables := tableStmt.deliver content
    let kept :=
      match stmt.filter with
      | none => tables
      | some expr => keep expr.toExpr tables.stop tables.rows
    some (projectCells stmt.projectExprList kept.stop kept.rows)
  | _, _ => none

end

/-! ### What a SELECT means -/

section

variable (L : Library) {Q : Type} (columns : List Column)

/-- The expression has a meaning in every row. -/
def Means (node : ExpressionSqlNode Q) : Prop :=
  ∀ row, columns.length = row.length → ∃ v, meaning L (denote columns row) node = some v

/-- The value of an expression in a row. -/
def valueIn (row : List Value) (node : ExpressionSqlNode Q) : Value :=
  (meaning L (denote columns row) node).getD .nulls

/-- The condition is true of the row. -/
def holdsIn (node : ExpressionSqlNode Q) (row : List Value) : Bool :=
  (valueIn L columns row node).getBoolean L.doubles = some true

/-- The cells that an element of the projection gives: of all columns that are shown, of those of
one table, or the value of an expression. -/
def itemCells (row : List Value) (item : ExpressionWithAliasSqlNode Q) : List Value :=
  match wildcardOf item.expr with
  | some relationName =>
    ((columns.zip row).filter fun p =>
      p.1.field.visible ∧ (nameOf relationName = "" ∨ p.1.tableName = nameOf relationName)).map
        Prod.snd
  | none => [valueIn L columns row item.expr]

/-- The cells that a projection gives. -/
def projectRow (items : List (ExpressionWithAliasSqlNode Q)) (row : List Value) : List Value :=
  items.flatMap (itemCells L columns row)

variable (R : Context L Q) (content : TableMeta → List (List Value))

/-- Each row of the one with each row of the other. -/
def crossRows (rows rows' : List (List Value)) : List (List Value) :=
  rows.flatMap fun row => rows'.map fun row' => row ++ row'

/-- What a table reference means: the tables in scope and the rows. The condition of a join speaks
about its own tables. -/
inductive TableMeans : TableReferenceSqlNode Q → Scope → List (List Value) → Prop where
  | primary {relationName aliasName : Str} {t : TableMeta}
      (ht : R.findTable (nameOf relationName) = some t) :
    TableMeans (.primary relationName aliasName)
      [(if aliasName.isEmpty then nameOf relationName else nameOf aliasName, t)] (content t)
  | cross {left right : TableReferenceSqlNode Q} {scope scope' : Scope}
      {rows rows' : List (List Value)} (hleft : TableMeans left scope rows)
      (hright : TableMeans right scope' rows') :
    TableMeans (.join left right none) (scope ++ scope') (crossRows rows rows')
  | join {left right : TableReferenceSqlNode Q} {scope scope' : Scope}
      {rows rows' : List (List Value)} {condition : ExpressionSqlNode Q}
      (hleft : TableMeans left scope rows) (hright : TableMeans right scope' rows')
      (hmeans : Means L (scope ++ scope').columns condition) :
    TableMeans (.join left right (some condition)) (scope ++ scope')
      ((crossRows rows rows').filter (holdsIn L (scope ++ scope').columns condition))

/-- The rows for which the condition holds, if there is one. -/
def whereRows (condition : Option (ExpressionSqlNode Q)) (rows : List (List Value)) :
    List (List Value) :=
  match condition with
  | none => rows
  | some condition => rows.filter (holdsIn L columns condition)

/-- What a SELECT from tables means: the tables in scope and the rows. -/
inductive SelectMeans (selectSql : SelectSqlNode Q) : Scope → List (List Value) → Prop where
  | select {first : TableReferenceSqlNode Q} {rest : List (TableReferenceSqlNode Q)} {scope : Scope}
      {rows : List (List Value)} (hrelations : selectSql.relations = first :: rest)
      (htables : TableMeans L R content (joinTables first rest) scope rows)
      (hattributes : ∀ item ∈ selectSql.attributes,
        (wildcardOf item.expr).isSome ∨ Means L scope.columns item.expr)
      (hcondition : ∀ condition, selectSql.condition = some condition →
        Means L scope.columns condition) :
    SelectMeans selectSql scope
      ((whereRows L scope.columns selectSql.condition rows).map
        (projectRow L scope.columns selectSql.attributes))

end

section

variable {L : Library} {Q : Type} {R : Context L Q} {content : TableMeta → List (List Value)}
  {scope scope' : Scope} {shape : TupleShape} {expr : TupleExpr L} {row : List Value}

/-! ### Conditions and joins -/

/-- The expression computes what the condition means in each of the typed rows. -/
def ComputesAll (shape : TupleShape) (scope : Scope) (expr : TupleExpr L)
    (node : ExpressionSqlNode Q) : Prop :=
  ∀ row, RowTyped scope.columns row →
    Computes ⟨shape, row⟩ expr (valueIn L scope.columns row node)

/-- A condition that has been generated for tables with these among them. -/
theorem computesAll_generate {g : ExpressionGenerator} {node : ExpressionSqlNode Q}
    (hdesc : g.tableDesc = scope'.descs) (hsub : scope ⊆ scope')
    (hnames : (scope'.map Prod.fst).Nodup) (hdistinct : scope.Distinct) (hspans : Spans shape scope)
    (houtter : g.outterAliasSet = []) (hhides : HidesNothing g.currentTupleSchema scope)
    (hexpr : g.generate R.other node = .ok expr) (hmeans : Means L scope.columns node) :
  ComputesAll shape scope expr node
  := by
  intro row htyped
  obtain ⟨v, hv⟩ := hmeans row htyped.length_eq
  have hreads : Reads (L := L) g ⟨shape, row⟩ (denote scope.columns row) :=
    fun _ _ _ _ hfield hdenote => getValue_generateField hdesc hsub hnames hdistinct hspans htyped
      houtter hhides hfield hdenote
  rw [valueIn, hv]
  exact computes_generate hreads node hexpr hv

/-- The rows that are kept are those for which the condition holds. -/
theorem keep_eq {node : ExpressionSqlNode Q} (hexpr : ComputesAll shape scope expr node) :
    ∀ {rows : List (List Value)}, (∀ row ∈ rows, RowTyped scope.columns row) →
    keep (S := (environment L).signature) expr.toExpr none (rows.map fun row => ⟨shape, row⟩)
      = ⟨(rows.filter (holdsIn L scope.columns node)).map fun row => ⟨shape, row⟩, none⟩
  | [], _ => rfl
  | row :: rows, htyped => by
    have ih := keep_eq hexpr fun row hrow => htyped row (List.mem_cons_of_mem _ hrow)
    have hvalue : Expr.getValue (S := (environment L).signature) ⟨shape, row⟩ expr.toExpr
        = .ok (valueIn L scope.columns row node) :=
      (Expression.getValue_toExpr expr).trans (hexpr row (htyped row List.mem_cons_self)).1
    rw [List.map_cons, keep, hvalue, List.filter_cons, holdsIn]
    dsimp only
    by_cases hholds : (valueIn L scope.columns row node).getBoolean L.doubles = some true
    · rw [if_pos hholds, ih, if_pos (by simpa using hholds)]
      rfl
    · rw [if_neg hholds, ih, if_neg (by simpa using hholds)]

/-- Nested loops deliver the cross product. -/
theorem nestedLoops_eq (shape shape' : TupleShape) (rows' : List (List Value)) :
    ∀ rows : List (List Value),
    nestedLoops (L := L) ⟨rows'.map fun row => ⟨shape', row⟩, none⟩ none
        (rows.map fun row => ⟨shape, row⟩)
      = ⟨(crossRows rows rows').map fun row => ⟨.joined shape shape', row⟩, none⟩
  | [] => rfl
  | row :: rows => by
    rw [List.map_cons, nestedLoops, nestedLoops_eq shape shape' rows' rows, crossRows, crossRows,
      List.flatMap_cons, List.map_append, List.map_map, List.map_map]
    rfl

theorem rowTyped_crossRows {rows rows' : List (List Value)}
    (h : ∀ row ∈ rows, RowTyped scope.columns row) (h' : ∀ row ∈ rows', RowTyped scope'.columns row) :
  ∀ row ∈ crossRows rows rows', RowTyped (scope ++ scope').columns row
  := by
  intro row hrow
  obtain ⟨left, hleft, hrow⟩ := List.mem_flatMap.mp hrow
  obtain ⟨right, hright, rfl⟩ := List.mem_map.mp hrow
  rw [Scope.columns_append]
  exact rowTyped_append (h left hleft) (h' right hright)

theorem Scope.Distinct.of_append (h : (scope ++ scope').Distinct) :
  scope.Distinct ∧ scope'.Distinct
  := by
  have hnames := h.names
  have htables := h.tables
  have hnamed := h.named
  rw [List.map_append] at hnames htables hnamed
  rw [List.mem_append, not_or] at hnamed
  constructor
  · exact ⟨(List.nodup_append.mp hnames).1, hnamed.1, (List.nodup_append.mp htables).1,
      fun t ht => h.fields t (List.mem_append_left _ ht)⟩
  · exact ⟨(List.nodup_append.mp hnames).2.1, hnamed.2, (List.nodup_append.mp htables).2.1,
      fun t ht => h.fields t (List.mem_append_right _ ht)⟩

/-- The cells of the tables in scope have the types of the columns. -/
def ContentTyped (content : TableMeta → List (List Value)) (scope : Scope) : Prop :=
  ∀ t ∈ scope, ∀ row ∈ content t.2, List.Forall₂ (fun f v => v.HasType f.type) t.2.fields row

theorem ContentTyped.of_append (h : ContentTyped content (scope ++ scope')) :
  ContentTyped content scope ∧ ContentTyped content scope'
  := by
  constructor
  · exact fun t ht => h t (List.mem_append_left _ ht)
  · exact fun t ht => h t (List.mem_append_right _ ht)

/-- What is made of a table reference that has a meaning, behind these tables: their tuples have
its tables, and the operators deliver its rows. -/
structure Delivers (content : TableMeta → List (List Value)) (scope : Scope)
    (rows : List (List Value)) (stmt : TableStmt L) : Prop where
  spans : Spans stmt.shape scope
  typed : ∀ row ∈ rows, RowTyped scope.columns row
  deliver : stmt.deliver content = ⟨rows.map fun row => ⟨stmt.shape, row⟩, none⟩

/-- The join of two table references, before its condition. -/
theorem Delivers.cross {left right : TableStmt L} {rows rows' : List (List Value)}
    (hleft : Delivers content scope rows left) (hright : Delivers content scope' rows' right) :
  Delivers content (scope ++ scope') (crossRows rows rows') (.join left right none)
  := by
  constructor
  · exact .joined hleft.spans hright.spans
  · exact rowTyped_crossRows hleft.typed hright.typed
  · rw [TableStmt.deliver, hleft.deliver, hright.deliver]
    exact nestedLoops_eq left.shape right.shape rows' rows

theorem Delivers.filter {left right : TableStmt L} {rows : List (List Value)}
    {node : ExpressionSqlNode Q} (h : Delivers content scope rows (.join left right none))
    (hexpr : ComputesAll (.joined left.shape right.shape) scope expr node) :
  Delivers content scope (rows.filter (holdsIn L scope.columns node)) (.join left right (some expr))
  := by
  have hdeliver := h.deliver
  rw [TableStmt.deliver] at hdeliver
  constructor
  · exact h.spans
  · exact fun row hrow => h.typed row (List.mem_of_mem_filter hrow)
  · rw [TableStmt.deliver]
    dsimp only at hdeliver ⊢
    rw [hdeliver]
    exact keep_eq hexpr h.typed

theorem createTable_ok {ref : TableReferenceSqlNode Q} {rows : List (List Value)}
    (h : TableMeans L R content ref scope rows) : ∀ {pre : Scope} {stmt : TableStmt L}
    {descs : List TableFactorDesc}, createTable R ref pre.descs = .ok (stmt, descs) →
    ((pre ++ scope).map Prod.fst).Nodup → scope.Distinct → ContentTyped content scope →
    descs = (pre ++ scope).descs ∧ Delivers content scope rows stmt := by
  induction h with
  | @primary relationName aliasName t ht =>
    intro pre stmt descs hcreate _ _ htyped
    rw [createTable, ht] at hcreate
    cases hcreate
    refine ⟨by rw [Scope.descs_append]; rfl, .row _ t, ?_, rfl⟩
    intro row hrow
    have hrow := htyped _ (List.mem_singleton_self _) row hrow
    rw [RowTyped, Scope.columns, List.flatMap_singleton, Scope.columnsOf, List.forall₂_map_left_iff]
    exact hrow
  | @cross left right scope scope' rows rows' _ _ ihleft ihright =>
    intro pre stmt descs hcreate hnames hdistinct htyped
    rw [createTable] at hcreate
    obtain ⟨⟨leftTable, descs₁⟩, hcreateLeft, hcreate⟩ := bind_eq_ok.mp hcreate
    obtain ⟨⟨rightTable, descs₂⟩, hcreateRight, hcreate⟩ := bind_eq_ok.mp hcreate
    cases hcreate
    rw [← List.append_assoc] at hnames ⊢
    have hnames₁ := hnames
    rw [List.map_append] at hnames₁
    obtain ⟨rfl, hleft⟩ := ihleft hcreateLeft (List.nodup_append.mp hnames₁).1 hdistinct.of_append.1
      htyped.of_append.1
    obtain ⟨rfl, hright⟩ := ihright hcreateRight hnames hdistinct.of_append.2 htyped.of_append.2
    exact ⟨rfl, hleft.cross hright⟩
  | @join left right scope scope' rows rows' condition _ _ hmeans ihleft ihright =>
    intro pre stmt descs hcreate hnames hdistinct htyped
    rw [createTable] at hcreate
    obtain ⟨⟨leftTable, descs₁⟩, hcreateLeft, hcreate⟩ := bind_eq_ok.mp hcreate
    obtain ⟨⟨rightTable, descs₂⟩, hcreateRight, hcreate⟩ := bind_eq_ok.mp hcreate
    obtain ⟨joinCondition, hcondition, hcreate⟩ := bind_eq_ok.mp hcreate
    cases hcreate
    rw [← List.append_assoc] at hnames ⊢
    have hnames₁ := hnames
    rw [List.map_append] at hnames₁
    obtain ⟨rfl, hleft⟩ := ihleft hcreateLeft (List.nodup_append.mp hnames₁).1 hdistinct.of_append.1
      htyped.of_append.1
    obtain ⟨rfl, hright⟩ := ihright hcreateRight hnames hdistinct.of_append.2 htyped.of_append.2
    refine ⟨rfl, (hleft.cross hright).filter ?_⟩
    -- the tables before this join are there as well when its condition is resolved
    have hsub : scope ++ scope' ⊆ pre ++ scope ++ scope' := by
      rw [List.append_assoc]
      exact List.subset_append_right pre _
    exact computesAll_generate (g := R.generator _ [] []) rfl hsub hnames hdistinct
      (.joined hleft.spans hright.spans) rfl (fun _ hcell => by cases hcell) hcondition hmeans

/-! ### Wildcards -/

theorem Scope.Distinct.columns_nodup (h : scope.Distinct) : scope.columns.Nodup := by
  rw [columns, List.nodup_flatMap]
  constructor
  · intro t ht
    apply List.Nodup.map
    · intro f f' heq
      cases heq
      rfl
    · exact List.Nodup.of_map _ (h.fields t ht)
  · have hnames := h.names
    rw [List.Nodup, List.pairwise_map] at hnames
    apply hnames.imp
    intro t t' hne c hc hc'
    obtain ⟨f, -, rfl⟩ := List.mem_map.mp hc
    obtain ⟨f', -, heq⟩ := List.mem_map.mp hc'
    exact hne (congrArg Column.tableName heq).symm

/-- A filter that only one member of the list passes. -/
theorem filter_eq_singleton {α : Type} {P : α → Prop} [DecidablePred P] {l : List α} {a : α}
    (hnodup : l.Nodup) (ha : a ∈ l) (h : ∀ b ∈ l, P b ↔ b = a) :
  l.filter (fun b => P b) = [a]
  := by
  obtain ⟨l₁, l₂, rfl⟩ := List.append_of_mem ha
  rw [List.nodup_middle, List.nodup_cons, List.mem_append, not_or] at hnodup
  have hrest : ∀ l' ⊆ l₁ ++ a :: l₂, a ∉ l' → l'.filter (fun b => P b) = [] := by
    intro l' hsub hnotMem
    rw [List.filter_eq_nil_iff]
    intro b hb hP
    apply hnotMem
    rwa [← (h b (hsub hb)).mp (of_decide_eq_true hP)]
  rw [List.filter_append, List.filter_cons, if_pos (decide_eq_true ((h a ha).mpr rfl)),
    hrest l₁ (List.subset_append_left _ _) hnodup.1.1,
    hrest l₂ (fun b hb => List.mem_append_right _ (List.mem_cons_of_mem _ hb)) hnodup.1.2]
  rfl

/-- The full name of a column means its cell. -/
theorem denote_of_mem (hdistinct : scope.Distinct) (hlength : scope.columns.length = row.length)
    {p : Column × Value} (hp : p ∈ scope.columns.zip row) :
  denote scope.columns row p.1.tableName p.1.field.name = some p.2
  := by
  have hnodup : ((scope.columns.zip row).map Prod.fst).Nodup := by
    rw [List.map_fst_zip hlength.le]
    exact hdistinct.columns_nodup
  have hc := Scope.mem_columns.mp (List.of_mem_zip hp).1
  have hne : p.1.tableName ≠ "" := by
    intro hnil
    apply hdistinct.named
    rw [← hnil]
    exact List.mem_map.mpr ⟨_, hc.1, rfl⟩
  have hfilter : (scope.columns.zip row).filter
      (fun q => q.1.Named p.1.tableName p.1.field.name) = [p] := by
    apply filter_eq_singleton (List.Nodup.of_map _ hnodup) hp
    intro q hq
    constructor
    · rintro ⟨hfield, hname⟩
      have hq₁ := Scope.mem_columns.mp (List.of_mem_zip hq).1
      have htable := hdistinct.eq_of_tableName hq₁.1 hc.1 (hname.resolve_left hne)
      have hfeq : q.1.field = p.1.field := by
        apply List.inj_on_of_nodup_map (hdistinct.fields _ hc.1) _ hc.2 hfield
        rw [show p.1.table = q.1.table from (congrArg Prod.snd htable).symm]
        exact hq₁.2
      apply List.inj_on_of_nodup_map hnodup hq hp
      exact Column.ext (congrArg Prod.fst htable) (congrArg Prod.snd htable) hfeq
    · rintro rfl
      exact ⟨rfl, .inr rfl⟩
  rw [denote, hfilter]

/-- The expressions are those of the columns. -/
def FieldsOf (g : ExpressionGenerator) (columns : List Column) (exprs : List (TupleExpr L)) :
    Prop :=
  List.Forall₂ (fun c expr => g.generateField c.tableName c.field.name = .ok expr) columns exprs

theorem tableFields_ok {g : ExpressionGenerator} {name : String} {t : TableMeta} :
    ∀ {fields : List FieldMeta} {exprs : List (TupleExpr L)},
    tableFields g name (fields.map FieldMeta.name) = .ok exprs →
    FieldsOf g (fields.map fun f => ⟨name, t, f⟩) exprs
  | [], _, h => by
    cases h
    exact .nil
  | f :: fields, _, h => by
    obtain ⟨expr, hexpr, h⟩ := bind_eq_ok.mp h
    obtain ⟨exprs, hexprs, h⟩ := bind_eq_ok.mp h
    cases h
    exact .cons hexpr (tableFields_ok hexprs)

/-- The columns of a table that are shown. -/
theorem visibleFields_table (name : String) (t : TableMeta) :
  (TableFactorDesc.table name t).visibleFields
      = (t.fields.filter FieldMeta.visible).map FieldMeta.name
    ∧ (Scope.columnsOf (name, t)).filter (·.field.visible)
      = (t.fields.filter FieldMeta.visible).map fun f => ⟨name, t, f⟩
  := by
  constructor
  · rw [TableFactorDesc.visibleFields, TableFactorDesc.fields, List.filter_map, List.map_map]
    rfl
  · rw [Scope.columnsOf, List.filter_map]
    rfl

theorem fieldsOf_table {g : ExpressionGenerator} {name : String} {t : TableMeta}
    {exprs : List (TupleExpr L)}
    (h : tableFields g name (TableFactorDesc.table name t).visibleFields = .ok exprs) :
  FieldsOf g ((Scope.columnsOf (name, t)).filter (·.field.visible)) exprs
  := by
  rw [(visibleFields_table name t).1] at h
  rw [(visibleFields_table name t).2]
  exact tableFields_ok h

theorem fieldsOf_all {g : ExpressionGenerator} : ∀ {scope : Scope} {exprs : List (TupleExpr L)}
    {specs : List TupleCellSpec}, allFields g scope.descs = .ok (exprs, specs) →
    FieldsOf g (scope.columns.filter (·.field.visible)) exprs
  | [], _, _, h => by
    cases h
    exact .nil
  | t :: scope, _, _, h => by
    obtain ⟨exprs, hexprs, h⟩ := bind_eq_ok.mp h
    obtain ⟨⟨rest, specs⟩, hrest, h⟩ := bind_eq_ok.mp h
    cases h
    rw [Scope.columns_cons, List.filter_append]
    exact List.rel_append (fieldsOf_table hexprs) (fieldsOf_all hrest)

/-- The columns of the one table with a name. -/
theorem filter_tableName (hdistinct : scope.Distinct) {t : String × TableMeta} (ht : t ∈ scope) :
  scope.columns.filter (·.tableName = t.1) = Scope.columnsOf t
  := by
  induction scope with
  | nil => cases ht
  | cons t' scope ih =>
    have happend : Scope.Distinct ([t'] ++ scope) := hdistinct
    have htail : Scope.Distinct scope := happend.of_append.2
    have hself : ∀ t : String × TableMeta, (Scope.columnsOf t).filter (·.tableName = t.1)
        = Scope.columnsOf t := by
      intro t
      rw [List.filter_eq_self]
      intro c hc
      obtain ⟨f, -, rfl⟩ := List.mem_map.mp hc
      exact decide_eq_true rfl
    have hnames := hdistinct.names
    rw [List.map_cons, List.nodup_cons] at hnames
    rw [Scope.columns_cons, List.filter_append]
    obtain rfl | ht := List.mem_cons.mp ht
    · rw [hself, List.filter_eq_nil_iff.mpr, List.append_nil]
      intro c hc heq
      apply hnames.1
      rw [← of_decide_eq_true heq]
      exact List.mem_map.mpr ⟨_, (Scope.mem_columns.mp hc).1, rfl⟩
    · rw [ih htail ht, List.filter_eq_nil_iff.mpr, List.nil_append]
      intro c hc heq
      obtain ⟨f, -, rfl⟩ := List.mem_map.mp hc
      apply hnames.1
      rw [show t'.1 = t.1 from of_decide_eq_true heq]
      exact List.mem_map.mpr ⟨_, ht, rfl⟩

/-- A wildcard is resolved to the columns that it stands for. -/
theorem wildcardFields_ok {g : ExpressionGenerator} (hdesc : g.tableDesc = scope.descs)
    (hdistinct : scope.Distinct) {relationName : String} {exprs : List (TupleExpr L)}
    {specs : List TupleCellSpec} (h : wildcardFields g relationName = .ok (exprs, specs)) :
  FieldsOf g (scope.columns.filter fun c =>
    c.field.visible ∧ (relationName = "" ∨ c.tableName = relationName)) exprs
  := by
  rw [wildcardFields, hdesc] at h
  by_cases hrel : relationName = ""
  · rw [if_pos hrel] at h
    simpa [hrel] using fieldsOf_all h
  · rw [if_neg hrel] at h
    split at h
    · cases h
    · rename_i desc hfind
      obtain ⟨t, ht, rfl⟩ := List.mem_map.mp (List.mem_of_find?_eq_some hfind)
      have htableName : (TableFactorDesc.table t.1 t.2).tableName = relationName := by
        simpa using List.find?_some hfind
      have hname : t.1 = relationName := htableName
      split at h
      · rename_i exprs' hexprs
        cases h
        have hfields : FieldsOf g ((Scope.columnsOf t).filter (·.field.visible)) exprs :=
          fieldsOf_table hexprs
        rw [← filter_tableName hdistinct ht, List.filter_filter, hname] at hfields
        simpa [hrel, and_comm] using hfields
      · cases h

/-! ### The refactoring of an expression with a meaning -/

/-- The refactoring has taken nothing out of an expression. -/
structure Untouched (s s' : ExpressionStructRefactor Q) : Prop where
  aggregateChilds : s'.aggregateChilds = s.aggregateChilds
  subqueryCells : s'.subqueryCells = s.subqueryCells

theorem Untouched.trans {s s' s'' : ExpressionStructRefactor Q} (h : Untouched s s')
    (h' : Untouched s' s'') :
  Untouched s s''
  := ⟨h'.1.trans h.1, h'.2.trans h.2⟩

mutual

theorem refactorInternal_meaning (rand : Nat → Nat) {value : String → String → Option Value} :
    ∀ (node : ExpressionSqlNode Q) {v : Value} (s : ExpressionStructRefactor Q),
    meaning L value node = some v →
    ∃ s', ExpressionStructRefactor.refactorInternal rand node s = some (node, s') ∧ Untouched s s'
  | .field _ _ _, _, s, _ => ⟨_, rfl, rfl, rfl⟩
  | .value _ _, _, s, _ => ⟨_, rfl, rfl, rfl⟩
  | .unary kind _ child, _, s, h => by
    obtain ⟨w, hw, -⟩ := Option.bind_eq_some_iff.mp h
    obtain ⟨s', hs', hsame⟩ := refactorInternal_meaning rand child
      { s with currentSubqueryType := .singleCell } hw
    refine ⟨{ s' with currentSubqueryType := s.currentSubqueryType }, ?_, hsame.1, hsame.2⟩
    rw [ExpressionStructRefactor.refactorInternal, hs']
    rfl
  | .binary kind _ left right, _, s, h => by
    obtain ⟨w, hw, h⟩ := Option.bind_eq_some_iff.mp h
    obtain ⟨w', hw', -⟩ := Option.bind_eq_some_iff.mp h
    obtain ⟨s₁, hs₁, hsame₁⟩ := refactorInternal_meaning rand left
      { s with currentSubqueryType := .singleCell } hw
    obtain ⟨s₂, hs₂, hsame₂⟩ := refactorInternal_meaning rand right
      { s₁ with currentSubqueryType := s.currentSubqueryType } hw'
    refine ⟨{ s₂ with currentSubqueryType := s.currentSubqueryType }, ?_,
      hsame₂.1.trans hsame₁.1, hsame₂.2.trans hsame₁.2⟩
    rw [ExpressionStructRefactor.refactorInternal, hs₁]
    dsimp only [bind, Option.bind]
    rw [hs₂]
    rfl
  | .inList _ child valueList, _, s, h => by
    obtain ⟨w, hw, h⟩ := Option.bind_eq_some_iff.mp h
    obtain ⟨values, hvalues, -⟩ := Option.bind_eq_some_iff.mp h
    obtain ⟨s', hs', hsame⟩ := refactorList_meanings rand valueList
      { s with currentSubqueryType := .singleCell } hvalues
    refine ⟨{ s' with currentSubqueryType := s.currentSubqueryType }, ?_, hsame.1, hsame.2⟩
    rw [ExpressionStructRefactor.refactorInternal, hs']
    rfl
  | .function _ _ _, _, _, h => by cases h
  | .inSubquery _ _ _, _, _, h => by cases h
  | .exists _ _, _, _, h => by cases h
  | .aggregate _ _ _, _, _, h => by cases h
  | .subquery _, _, _, h => by cases h
  | .cellRef _, _, _, h => by cases h

theorem refactorList_meanings (rand : Nat → Nat) {value : String → String → Option Value} :
    ∀ (nodes : List (ExpressionSqlNode Q)) {values : List Value} (s : ExpressionStructRefactor Q),
    meanings L value nodes = some values →
    ∃ s', ExpressionStructRefactor.refactorList rand nodes s = some (nodes, s') ∧ Untouched s s'
  | [], _, s, _ => ⟨s, rfl, rfl, rfl⟩
  | node :: nodes, _, s, h => by
    obtain ⟨w, hw, h⟩ := Option.bind_eq_some_iff.mp h
    obtain ⟨values, hvalues, -⟩ := Option.bind_eq_some_iff.mp h
    obtain ⟨s₁, hs₁, hsame₁⟩ := refactorInternal_meaning rand node s hw
    obtain ⟨s₂, hs₂, hsame₂⟩ := refactorList_meanings rand nodes s₁ hvalues
    refine ⟨s₂, ?_, hsame₁.trans hsame₂⟩
    rw [ExpressionStructRefactor.refactorList, hs₁]
    dsimp only [bind, Option.bind]
    rw [hs₂]
    rfl

end

/-- Whatever the refactoring answers, it has taken nothing out of an expression with a meaning. -/
theorem refactor_means {columns : List Column} {node : ExpressionSqlNode Q}
    (hmeans : Means L columns node) {rands : Nat} {rc : RC} {nodes : List (ExpressionSqlNode Q)}
    {s : ExpressionStructRefactor Q}
    (h : ExpressionStructRefactor.refactor R.rand R.attributes [node] { rands }
      = some (rc, nodes, s)) :
  nodes = [node] ∧ s.aggregateChilds = [] ∧ s.subqueryCells = []
  := by
  obtain ⟨v, hv⟩ := hmeans (columns.map fun _ => .nulls) (by rw [List.length_map])
  obtain ⟨s', hs', hsame⟩ := refactorInternal_meaning R.rand node
    (ExpressionStructRefactor.init { rands }) hv
  rw [ExpressionStructRefactor.refactor] at h
  split at h
  · cases h
    exact ⟨rfl, rfl, rfl⟩
  · cases h
  · rw [ExpressionStructRefactor.refactorList, hs'] at h
    cases h
    exact ⟨rfl, hsame.1, hsame.2⟩

/-! ### The projection -/

/-- The expressions of columns compute the cells of these. -/
theorem getValues_fieldsOf {g : ExpressionGenerator} {P : Column → Prop} [DecidablePred P]
    (hdesc : g.tableDesc = scope.descs) (hdistinct : scope.Distinct) (hspans : Spans shape scope)
    (houtter : g.outterAliasSet = []) (hschema : g.currentTupleSchema = [])
    (htyped : RowTyped scope.columns row) {exprs : List (TupleExpr L)}
    (h : FieldsOf g (scope.columns.filter fun c => P c) exprs) :
  Expression.getValues (E := environment L) ⟨shape, row⟩ exprs
    = .ok (((scope.columns.zip row).filter fun p => P p.1).map Prod.snd)
  := by
  have hcolumns : scope.columns.filter (fun c => P c)
      = ((scope.columns.zip row).filter fun p => P p.1).map Prod.fst := by
    conv_lhs => rw [← List.map_fst_zip htyped.length_eq.le, List.filter_map]
    rfl
  rw [FieldsOf, hcolumns, List.forall₂_map_left_iff] at h
  have hmem : ∀ p ∈ (scope.columns.zip row).filter (fun p => P p.1), p ∈ scope.columns.zip row :=
    fun p hp => List.mem_of_mem_filter hp
  generalize (scope.columns.zip row).filter (fun p => P p.1) = ps at h hmem ⊢
  clear hcolumns
  induction h with
  | nil => rfl
  | @cons p expr ps exprs hexpr _ ih =>
    have hhides : HidesNothing g.currentTupleSchema scope := hidesNothing_nil hschema
    have hcomputes := getValue_generateField hdesc (List.Subset.refl _) hdistinct.names hdistinct
      hspans htyped houtter hhides hexpr
      (denote_of_mem hdistinct htyped.length_eq (hmem p List.mem_cons_self))
    rw [Expression.getValues, hcomputes.1, ih fun p hp => hmem p (List.mem_cons_of_mem _ hp)]
    rfl

theorem getValues_append {tuple : Tuple} {exprs exprs' : List (TupleExpr L)}
    {values values' : List Value} (h : Expression.getValues tuple exprs = .ok values)
    (h' : Expression.getValues tuple exprs' = .ok values') :
  Expression.getValues tuple (exprs ++ exprs') = .ok (values ++ values')
  := by
  induction exprs generalizing values with
  | nil =>
    cases h
    exact h'
  | cons expr exprs ih =>
    obtain ⟨v, rest, rfl, hexpr, hexprs⟩ := Expression.getValues_cons h
    rw [List.cons_append, Expression.getValues, hexpr, ih hexprs]
    rfl

/-- The expressions compute these cells in every typed row. -/
def ComputesCells (shape : TupleShape) (scope : Scope) (exprs : List (TupleExpr L))
    (cells : List Value → List Value) : Prop :=
  ∀ row, RowTyped scope.columns row →
    Expression.getValues (E := environment L) ⟨shape, row⟩ exprs = .ok (cells row)

/-- An expression with a meaning is not aggregated. -/
theorem resolveExpr_ok {g : ExpressionGenerator} (hdesc : g.tableDesc = scope.descs)
    (hdistinct : scope.Distinct) (hspans : Spans shape scope) (houtter : g.outterAliasSet = [])
    (hschema : g.currentTupleSchema = []) {item : ExpressionWithAliasSqlNode Q}
    (hmeans : Means L scope.columns item.expr) {s s' : ProjectExpressionResovler L}
    (h : resolveExpr R g item s = .ok s') :
  s'.aggregateDesc = s.aggregateDesc ∧ ∃ expr, s'.queryExprs = s.queryExprs ++ [expr]
    ∧ ComputesAll shape scope expr item.expr
  := by
  rw [resolveExpr] at h
  split at h
  · rename_i rc node refactor hrefactor
    obtain ⟨hnode, hchilds, -⟩ := refactor_means hmeans hrefactor
    cases hnode
    obtain ⟨expr, hexpr, h⟩ := bind_eq_ok.mp h
    obtain ⟨s₁, hs₁, h⟩ := bind_eq_ok.mp h
    cases h
    rw [pushGroupping, hchilds] at hs₁
    have hhides : HidesNothing g.currentTupleSchema scope := hidesNothing_nil hschema
    have hall := computesAll_generate hdesc (List.Subset.refl _) hdistinct.names hdistinct hspans
      houtter hhides hexpr hmeans
    split_ifs at hs₁ with hmust hempty
    · cases hs₁
      exact ⟨rfl, expr, rfl, hall⟩
    · exact absurd rfl hempty
  · cases h

theorem resolveProjectionList_ok {g : ExpressionGenerator} (hdesc : g.tableDesc = scope.descs)
    (hdistinct : scope.Distinct) (hspans : Spans shape scope) (houtter : g.outterAliasSet = [])
    (hschema : g.currentTupleSchema = []) : ∀ {items : List (ExpressionWithAliasSqlNode Q)}
    {s s' : ProjectExpressionResovler L},
    (∀ item ∈ items, (wildcardOf item.expr).isSome ∨ Means L scope.columns item.expr) →
    resolveProjectionList R g items s = .ok s' →
    s'.aggregateDesc = s.aggregateDesc ∧ ∃ exprs, s'.queryExprs = s.queryExprs ++ exprs
      ∧ ComputesCells shape scope exprs (projectRow L scope.columns items)
  | [], s, _, _, h => by
    cases h
    exact ⟨rfl, [], (List.append_nil _).symm, fun _ _ => rfl⟩
  | item :: items, s, s', hitems, h => by
    have htail := fun item hitem => hitems item (List.mem_cons_of_mem _ hitem)
    rw [resolveProjectionList] at h
    cases hwildcard : wildcardOf item.expr with
    | some relationName =>
      rw [hwildcard] at h
      obtain ⟨⟨first, specs⟩, hfirst, h⟩ := bind_eq_ok.mp h
      obtain ⟨haggregate, exprs, hexprs, hcells⟩ :=
        resolveProjectionList_ok hdesc hdistinct hspans houtter hschema htail h
      refine ⟨haggregate, first ++ exprs, hexprs.trans (List.append_assoc _ _ _), ?_⟩
      intro row htyped
      have hwild := getValues_fieldsOf hdesc hdistinct hspans houtter hschema htyped
        (wildcardFields_ok hdesc hdistinct hfirst)
      rw [getValues_append hwild (hcells row htyped), projectRow, projectRow, List.flatMap_cons,
        itemCells, hwildcard]
    | none =>
      rw [hwildcard] at h
      obtain ⟨s₁, hs₁, h⟩ := bind_eq_ok.mp h
      have hmeans : Means L scope.columns item.expr := by
        apply (hitems item List.mem_cons_self).resolve_left
        rw [hwildcard]
        exact Bool.false_ne_true
      obtain ⟨haggregate₁, expr, hexpr, hall⟩ :=
        resolveExpr_ok hdesc hdistinct hspans houtter hschema hmeans hs₁
      obtain ⟨haggregate, exprs, hexprs, hcells⟩ :=
        resolveProjectionList_ok hdesc hdistinct hspans houtter hschema htail h
      refine ⟨haggregate.trans haggregate₁, [expr] ++ exprs, ?_, ?_⟩
      · rw [hexprs, hexpr, List.append_assoc]
      · intro row htyped
        have hone : Expression.getValues (E := environment L) ⟨shape, row⟩ [expr]
            = .ok [valueIn L scope.columns row item.expr] := by
          rw [Expression.getValues, (hall row htyped).1]
          rfl
        rw [getValues_append hone (hcells row htyped), projectRow, projectRow, List.flatMap_cons,
          itemCells, hwildcard]

theorem projectCells_eq {exprs : List (TupleExpr L)} {cells : List Value → List Value}
    (h : ComputesCells shape scope exprs cells) : ∀ {rows : List (List Value)},
    (∀ row ∈ rows, RowTyped scope.columns row) →
    projectCells exprs none (rows.map fun row => ⟨shape, row⟩) = (rows.map cells, none)
  | [], _ => rfl
  | row :: rows, htyped => by
    have ih := projectCells_eq h fun row hrow => htyped row (List.mem_cons_of_mem _ hrow)
    rw [List.map_cons, projectCells, h row (htyped row List.mem_cons_self), ih]
    rfl

/-! ### The statement -/

/-- A statement that has been created, with the resolver of its projection. -/
structure Created (R : Context L Q) (selectSql : SelectSqlNode Q)
    (tableDescs : List TableFactorDesc) (resolver : ProjectExpressionResovler L)
    (stmt : SelectStmt L) : Prop where
  tables : resolveTable R selectSql.relations = .ok (stmt.tableStmt, tableDescs)
  project : resolveProjectionList R (R.generator tableDescs [] []) selectSql.attributes {}
    = .ok resolver
  tupleSchema : stmt.tupleSchema = resolver.attrTuple
  aggregateList : stmt.aggregateList = resolver.aggregateDesc
  projectExprList : stmt.projectExprList = resolver.queryExprs
  filter : (selectSql.condition = none ∧ stmt.filter = none)
    ∨ ∃ condition filter, selectSql.condition = some condition ∧ stmt.filter = some filter
      ∧ resolveWhere R tableDescs resolver.attrTuple resolver.rands condition = .ok filter

theorem create_ok {selectSql : SelectSqlNode Q} {stmt : SelectStmt L}
    (h : SelectStmt.create R selectSql = .ok stmt) :
  ∃ tableDescs resolver, Created R selectSql tableDescs resolver stmt
  := by
  rw [SelectStmt.create] at h
  by_cases hgroup : ¬ selectSql.groupBy.isEmpty
  · rw [if_pos hgroup] at h
    cases h
  rw [if_neg hgroup] at h
  obtain ⟨⟨tableStmt, tableDescs⟩, htables, h⟩ := bind_eq_ok.mp h
  dsimp only at h
  split_ifs at h with hempty
  obtain ⟨resolver, hresolver, h⟩ := bind_eq_ok.mp h
  split_ifs at h with hsubquery
  refine ⟨tableDescs, resolver, ?_⟩
  cases hcondition : selectSql.condition with
  | none =>
    rw [hcondition] at h
    cases h
    exact ⟨htables, hresolver, rfl, rfl, rfl, .inl ⟨hcondition, rfl⟩⟩
  | some condition =>
    rw [hcondition] at h
    obtain ⟨filter, hfilter, h⟩ := bind_eq_ok.mp h
    cases h
    exact ⟨htables, hresolver, rfl, rfl, rfl, .inr ⟨condition, filter, hcondition, rfl, hfilter⟩⟩

/-- The condition of a SELECT is resolved with the aliases of the projection. -/
theorem resolveWhere_ok {tupleSchema : List TupleCellSpec} {rands : Nat}
    {condition : ExpressionSqlNode Q} (hdistinct : scope.Distinct) (hspans : Spans shape scope)
    (hhides : HidesNothing tupleSchema scope) (hmeans : Means L scope.columns condition)
    (h : resolveWhere R scope.descs tupleSchema rands condition = .ok expr) :
  ComputesAll shape scope expr condition
  := by
  rw [resolveWhere] at h
  split at h
  · rename_i node refactor hrefactor
    obtain ⟨hnode, -⟩ := refactor_means hmeans hrefactor
    cases hnode
    split_ifs at h with hchilds
    exact computesAll_generate (g := R.generator _ [] tupleSchema) rfl (List.Subset.refl _)
      hdistinct.names hdistinct hspans rfl hhides h hmeans
  · cases h
  · cases h

/-- What is made of a SELECT with a meaning: its tables deliver these rows, and its expressions
compute what they mean in them. -/
structure Resolves (content : TableMeta → List (List Value)) (selectSql : SelectSqlNode Q)
    (scope : Scope) (rows : List (List Value)) (tableStmt : TableStmt L) (stmt : SelectStmt L) :
    Prop where
  table : stmt.tableStmt = some tableStmt
  aggregate : stmt.aggregateList = []
  delivers : Delivers content scope rows tableStmt
  cells : ComputesCells tableStmt.shape scope stmt.projectExprList
    (projectRow L scope.columns selectSql.attributes)
  filter : (selectSql.condition = none ∧ stmt.filter = none)
    ∨ ∃ condition filter, selectSql.condition = some condition ∧ stmt.filter = some filter
      ∧ ComputesAll tableStmt.shape scope filter condition

theorem resolves_of_means {selectSql : SelectSqlNode Q} {stmt : SelectStmt L}
    {rows : List (List Value)} (hcreate : SelectStmt.create R selectSql = .ok stmt)
    (hmeans : SelectMeans L R content selectSql scope rows) (hdistinct : scope.Distinct)
    (hhides : HidesNothing stmt.tupleSchema scope) (htyped : ContentTyped content scope) :
  ∃ tableRows tableStmt, Resolves content selectSql scope tableRows tableStmt stmt
    ∧ rows = (whereRows L scope.columns selectSql.condition tableRows).map
      (projectRow L scope.columns selectSql.attributes)
  := by
  obtain ⟨hrelations, htables, hattributes, hcondition⟩ := hmeans
  obtain ⟨tableDescs, resolver, hcreated⟩ := create_ok hcreate
  have htables' := hcreated.tables
  rw [hrelations] at htables'
  obtain ⟨⟨table, descs⟩, htable, hpair⟩ := bind_eq_ok.mp htables'
  obtain ⟨htableStmt, rfl⟩ := Prod.mk.inj (Except.ok.inj hpair)
  have hnames : (([] ++ scope).map Prod.fst).Nodup := hdistinct.names
  have hnil : createTable R (joinTables _ _) (Scope.descs []) = .ok (table, descs) := htable
  obtain ⟨rfl, hdelivers⟩ := createTable_ok htables hnil hnames hdistinct htyped
  obtain ⟨haggregate, exprs, hexprs, hcells⟩ := resolveProjectionList_ok
    (g := R.generator scope.descs [] []) rfl hdistinct hdelivers.spans rfl rfl hattributes
    hcreated.project
  refine ⟨_, table, ⟨htableStmt.symm, ?_, hdelivers, ?_, ?_⟩, rfl⟩
  · rw [hcreated.aggregateList, haggregate]
  · rw [hcreated.projectExprList, hexprs]
    exact hcells
  · obtain hnone | ⟨condition, filter, hsome, hfilter, hwhere⟩ := hcreated.filter
    · exact .inl hnone
    · rw [hcreated.tupleSchema] at hhides
      exact .inr ⟨condition, filter, hsome, hfilter,
        resolveWhere_ok hdistinct hdelivers.spans hhides (hcondition condition hsome) hwhere⟩

/-- Nested loops over the rows of the tables deliver the rows that a SELECT means, where no table
comes twice and no alias of the projection hides a column. -/
theorem execute_of_means {selectSql : SelectSqlNode Q} {stmt : SelectStmt L} {rows : List (List Value)}
    (hcreate : SelectStmt.create R selectSql = .ok stmt)
    (hmeans : SelectMeans L R content selectSql scope rows) (hdistinct : scope.Distinct)
    (hhides : HidesNothing stmt.tupleSchema scope) (htyped : ContentTyped content scope) :
  stmt.execute content = some (rows, none)
  := by
  obtain ⟨tableRows, tableStmt, hresolves, rfl⟩ :=
    resolves_of_means hcreate hmeans hdistinct hhides htyped
  have hrows := hresolves.delivers.typed
  rw [SelectStmt.execute, hresolves.table, hresolves.aggregate]
  dsimp only
  rw [hresolves.delivers.deliver]
  obtain ⟨hnone, hfilter⟩ | ⟨condition, filter, hsome, hfilter, hall⟩ := hresolves.filter
  · rw [hfilter, hnone]
    exact congrArg some (projectCells_eq hresolves.cells hrows)
  · rw [hfilter, hsome, whereRows]
    dsimp only
    rw [keep_eq hall hrows]
    exact congrArg some (projectCells_eq hresolves.cells fun row hrow =>
      hrows row (List.mem_of_mem_filter hrow))

end

/-- The table `u(s)`. -/
def tableOfStrings : TableMeta := ⟨1, "u", [⟨"s", .chars, 0, 4, true, false⟩], 0, 4⟩

/-- The tables `t(id, s)` and `u(s)`. -/
def contextOfTables : Context .withoutFloats Unit where
  findTable name :=
    if name = "t" then some tableOfPairs else if name = "u" then some tableOfStrings else none
  fieldTableMap := .inOrder
  other _ := .error (.rc .unimplement)
  attributes _ := 0
  rand _ := 0

/-- `x.s <= u.s`. -/
def conditionOfStrings : ExpressionSqlNode Unit :=
  .binary (.comparison .lessEqual) [] (.field [] [120] [115]) (.field [] [117] [115])

/-- `id IS NOT NULL`. -/
def conditionNotNull : ExpressionSqlNode Unit :=
  .unary .not [] (.unary .isNull [] (.field [] [] [105, 100]))

/-- `SELECT x.*, u.s AS k FROM t x JOIN u ON x.s <= u.s WHERE id IS NOT NULL`. -/
def selectJoined : SelectSqlNode Unit where
  attributes := [⟨.field [] [120] [42], []⟩, ⟨.field [] [117] [115], [107]⟩]
  relations := [.join (.primary [116] [120]) (.primary [117] []) (some conditionOfStrings)]
  condition := some conditionNotNull
  groupBy := []

def scopeJoined : Scope := [("x", tableOfPairs), ("u", tableOfStrings)]

/-! ### The header -/

section

variable {L : Library} {Q : Type} {R : Context L Q}

/-- The cells for which an element of the projection gives no name: those of a wildcard for one
table. -/
def unnamedCells (descs : List TableFactorDesc) (item : ExpressionWithAliasSqlNode Q) : Nat :=
  match wildcardOf item.expr with
  | some relationName =>
    if nameOf relationName = "" then 0
    else
      match descs.find? (·.tableName = nameOf relationName) with
      | some desc => desc.visibleFields.length
      | none => 0
  | none => 0

theorem length_tableFields {g : ExpressionGenerator} {tableName : String} :
    ∀ {fieldNames : List String} {exprs : List (TupleExpr L)},
    tableFields g tableName fieldNames = .ok exprs → exprs.length = fieldNames.length
  | [], _, h => by
    cases h
    rfl
  | fieldName :: fieldNames, _, h => by
    obtain ⟨expr, -, h⟩ := bind_eq_ok.mp h
    obtain ⟨exprs, hexprs, h⟩ := bind_eq_ok.mp h
    cases h
    rw [List.length_cons, List.length_cons, length_tableFields hexprs]

theorem length_allFields {g : ExpressionGenerator} : ∀ {descs : List TableFactorDesc}
    {exprs : List (TupleExpr L)} {specs : List TupleCellSpec},
    allFields g descs = .ok (exprs, specs) → exprs.length = specs.length
  | [], _, _, h => by
    cases h
    rfl
  | desc :: descs, _, _, h => by
    obtain ⟨exprs, hexprs, h⟩ := bind_eq_ok.mp h
    obtain ⟨⟨rest, specs⟩, hrest, h⟩ := bind_eq_ok.mp h
    cases h
    rw [List.length_append, List.length_append, List.length_map, length_tableFields hexprs,
      length_allFields hrest]

theorem length_wildcardFields {g : ExpressionGenerator} {relationName : String}
    {exprs : List (TupleExpr L)} {specs : List TupleCellSpec}
    (h : wildcardFields g relationName = .ok (exprs, specs)) :
  exprs.length = specs.length + if relationName = "" then 0 else
    match g.tableDesc.find? (·.tableName = relationName) with
    | some desc => desc.visibleFields.length
    | none => 0
  := by
  rw [wildcardFields] at h
  split_ifs at h ⊢ with hrel
  · exact length_allFields h
  · cases hfind : g.tableDesc.find? (·.tableName = relationName) with
    | none =>
      rw [hfind] at h
      cases h
    | some desc =>
      rw [hfind] at h
      dsimp only at h
      cases hfields : tableFields (L := L) g desc.tableName desc.visibleFields with
      | error stop =>
        rw [hfields] at h
        cases h
      | ok exprs' =>
        rw [hfields] at h
        cases h
        rw [length_tableFields hfields, List.length_nil, Nat.zero_add]

theorem length_resolveExpr {g : ExpressionGenerator} {item : ExpressionWithAliasSqlNode Q}
    {s s' : ProjectExpressionResovler L} (h : resolveExpr R g item s = .ok s') :
  s'.queryExprs.length = s.queryExprs.length + 1 ∧ s'.attrTuple.length = s.attrTuple.length + 1
  := by
  rw [resolveExpr] at h
  split at h
  · obtain ⟨expr, -, h⟩ := bind_eq_ok.mp h
    obtain ⟨s₁, hs₁, h⟩ := bind_eq_ok.mp h
    cases h
    have hsame : s₁.queryExprs = s.queryExprs ∧ s₁.attrTuple = s.attrTuple := by
      rw [pushGroupping] at hs₁
      dsimp only at hs₁
      split_ifs at hs₁
      · cases hs₁
        exact ⟨rfl, rfl⟩
      · obtain ⟨exprs, -, hs₁⟩ := bind_eq_ok.mp hs₁
        cases hs₁
        exact ⟨rfl, rfl⟩
    rw [List.length_append, List.length_append, hsame.1, hsame.2]
    exact ⟨rfl, rfl⟩
  · cases h

/-- The projection has more cells than names by those without a name. -/
theorem length_resolveProjectionList {g : ExpressionGenerator} :
    ∀ {items : List (ExpressionWithAliasSqlNode Q)} {s s' : ProjectExpressionResovler L},
    resolveProjectionList R g items s = .ok s' →
    s'.queryExprs.length + s.attrTuple.length
      = s'.attrTuple.length + s.queryExprs.length + (items.map (unnamedCells g.tableDesc)).sum
  | [], s, _, h => by
    cases h
    rw [List.map_nil, List.sum_nil, Nat.add_zero, Nat.add_comm]
  | item :: items, s, s', h => by
    rw [resolveProjectionList] at h
    rw [List.map_cons, List.sum_cons, unnamedCells]
    cases hwildcard : wildcardOf item.expr with
    | some relationName =>
      rw [hwildcard] at h
      obtain ⟨⟨exprs, specs⟩, hfields, h⟩ := bind_eq_ok.mp h
      have ih := length_resolveProjectionList h
      have hwild := length_wildcardFields hfields
      rw [List.length_append, List.length_append] at ih
      dsimp only
      omega
    | none =>
      rw [hwildcard] at h
      obtain ⟨s₁, hs₁, h⟩ := bind_eq_ok.mp h
      have ih := length_resolveProjectionList h
      obtain ⟨hexprs, hattrs⟩ := length_resolveExpr hs₁
      dsimp only
      omega

/-- A SELECT has as many names in its header as cells in its rows, exactly if the tables of its
wildcards for one table show no columns. -/
theorem header_iff {selectSql : SelectSqlNode Q} {stmt : SelectStmt L}
    {tableStmt : Option (TableStmt L)} {tableDescs : List TableFactorDesc}
    (htables : resolveTable R selectSql.relations = .ok (tableStmt, tableDescs))
    (hcreate : SelectStmt.create R selectSql = .ok stmt) :
  stmt.tupleSchema.length = stmt.projectExprList.length
    ↔ ∀ item ∈ selectSql.attributes, unnamedCells tableDescs item = 0
  := by
  obtain ⟨descs, resolver, hcreated⟩ := create_ok hcreate
  have htables' := hcreated.tables
  rw [htables, Except.ok.injEq, Prod.mk.injEq] at htables'
  have hlength := length_resolveProjectionList hcreated.project
  rw [hcreated.tupleSchema, hcreated.projectExprList, htables'.2]
  have hsum : resolver.attrTuple.length = resolver.queryExprs.length
      ↔ (selectSql.attributes.map (unnamedCells descs)).sum = 0 := by
    have hlength : resolver.queryExprs.length = resolver.attrTuple.length
        + (selectSql.attributes.map (unnamedCells descs)).sum := hlength
    omega
  rw [hsum, List.sum_eq_zero_iff]
  simp only [List.mem_map, forall_exists_index, and_imp, forall_apply_eq_imp_iff₂]

end

/-- One name for three cells. -/
theorem header_iff_joined :
  ∃ stmt, SelectStmt.create contextOfTables selectJoined = .ok stmt
    ∧ (stmt.tupleSchema.length = stmt.projectExprList.length
      ↔ ∀ item ∈ selectJoined.attributes, unnamedCells scopeJoined.descs item = 0)
  := by
  have htables : resolveTable contextOfTables selectJoined.relations
      = .ok (_, scopeJoined.descs) := rfl
  have hcreate : SelectStmt.create contextOfTables selectJoined = .ok _ := rfl
  exact ⟨_, hcreate, header_iff htables hcreate⟩

end MiniOB.Sql.Resolver
