import MiniOB.Sql.Resolver

/-!
# What resolved names find

The columns that the tables in a FROM bring into scope, and the values that names have there: a
name stands for the one column of the tables with the name before the point, or of all tables. A
resolved field finds its cell by the name of the table instead, so that the two agree where no
table comes twice.
-/

namespace MiniOB.Sql.Resolver

open Expression (bind_eq_ok)

/-! ### Scopes -/

/-- A column in scope: the name of its table in the statement, the table and the field. -/
@[ext]
structure Column where
  tableName : String
  table : TableMeta
  field : FieldMeta

/-- The column is meant by a name. -/
def Column.Named (relName attrName : String) (c : Column) : Prop :=
  c.field.name = attrName ∧ (relName = "" ∨ c.tableName = relName)

/-- A lookup in a tuple stops at the column. -/
def Column.Stops (spec : TupleCellSpec) (c : Column) : Prop :=
  c.table.name = spec.tableName ∧ c.field.name = spec.fieldName

instance (relName attrName : String) : DecidablePred (Column.Named relName attrName) :=
  fun c => inferInstanceAs (Decidable (c.field.name = attrName ∧ (relName = "" ∨ c.tableName = relName)))

instance (spec : TupleCellSpec) : DecidablePred (Column.Stops spec) :=
  fun c => inferInstanceAs
    (Decidable (c.table.name = spec.tableName ∧ c.field.name = spec.fieldName))

/-- The tables in a FROM with their names. -/
abbrev Scope := List (String × TableMeta)

namespace Scope

/-- The columns of a table. -/
def columnsOf (t : String × TableMeta) : List Column := t.2.fields.map fun f => ⟨t.1, t.2, f⟩

/-- The columns, in the order of the cells. -/
def columns (scope : Scope) : List Column := scope.flatMap columnsOf

/-- The `table_descs_`. -/
def descs (scope : Scope) : List TableFactorDesc := scope.map fun t => .table t.1 t.2

/-- No two tables have the same name in the statement, none comes twice, and no table has two
columns of the same name. -/
structure Distinct (scope : Scope) : Prop where
  names : (scope.map Prod.fst).Nodup
  named : "" ∉ scope.map Prod.fst
  tables : (scope.map fun t => t.2.name).Nodup
  fields : ∀ t ∈ scope, (t.2.fields.map FieldMeta.name).Nodup

end Scope

/-- The value that a name has in a row: the cell of the one column that it means. -/
def denote (columns : List Column) (row : List Value) (relName attrName : String) :
    Option Value :=
  match (columns.zip row).filter fun p => p.1.Named relName attrName with
  | [p] => some p.2
  | _ => none

/-- The cells of a row have the types of the columns. -/
def RowTyped (columns : List Column) (row : List Value) : Prop :=
  List.Forall₂ (fun c v => v.HasType c.field.type) columns row

/-- The shape of the tuples of a join of these tables. -/
inductive Spans : TupleShape → Scope → Prop where
  | row (name : String) (t : TableMeta) :
    Spans (.row t.name (t.fields.map FieldMeta.name)) [(name, t)]
  | joined {left right : TupleShape} {scope scope' : Scope} (hleft : Spans left scope)
    (hright : Spans right scope') : Spans (.joined left right) (scope ++ scope')

variable {scope scope' : Scope} {c : Column} {row : List Value}

theorem Scope.columns_cons (t : String × TableMeta) (scope : Scope) :
  Scope.columns (t :: scope) = columnsOf t ++ Scope.columns scope
  := rfl

theorem Scope.columns_append (scope scope' : Scope) :
  Scope.columns (scope ++ scope') = scope.columns ++ scope'.columns
  := List.flatMap_append

theorem Scope.descs_append (scope scope' : Scope) :
  Scope.descs (scope ++ scope') = scope.descs ++ scope'.descs
  := List.map_append

theorem Scope.mem_columns :
  c ∈ scope.columns ↔ (c.tableName, c.table) ∈ scope ∧ c.field ∈ c.table.fields
  := by
  rw [columns, List.mem_flatMap]
  constructor
  · rintro ⟨t, ht, hc⟩
    obtain ⟨f, hf, rfl⟩ := List.mem_map.mp hc
    exact ⟨ht, hf⟩
  · rintro ⟨ht, hf⟩
    exact ⟨_, ht, List.mem_map.mpr ⟨_, hf, rfl⟩⟩

theorem RowTyped.length_eq {columns : List Column} (h : RowTyped columns row) :
  columns.length = row.length
  := List.Forall₂.length_eq h

theorem rowTyped_append {columns columns' : List Column} {row row' : List Value}
    (h : RowTyped columns row) (h' : RowTyped columns' row') :
  RowTyped (columns ++ columns') (row ++ row')
  := List.rel_append h h'

/-! ### Looking for a cell -/

/-- The first column at which the lookup stops, with its cell. -/
def firstCell (columns : List Column) (row : List Value) (spec : TupleCellSpec) :
    Except RC Value :=
  match (columns.zip row).find? fun p => p.1.Stops spec with
  | some p => .ok p.2
  | none => .error .notfound

theorem firstCell_append {columns columns' : List Column} {row row' : List Value}
    {spec : TupleCellSpec} (h : columns.length = row.length) :
  firstCell (columns ++ columns') (row ++ row') spec
    = match firstCell columns row spec with
      | .error .notfound => firstCell columns' row' spec
      | result => result
  := by
  rw [firstCell, firstCell, List.zip_append h, List.find?_append]
  cases (columns.zip row).find? fun p => p.1.Stops spec with
  | some p => rfl
  | none => rfl

/-- A lookup among the fields of the table that is looked for. -/
theorem firstCell_fields (name : String) {t : TableMeta} {spec : TupleCellSpec}
    (htable : spec.tableName = t.name) : ∀ (fields : List FieldMeta) (row : List Value),
    fields.length = row.length →
    firstCell (fields.map fun f => ⟨name, t, f⟩) row spec
      = match (fields.map FieldMeta.name).findIdx? fun fieldName => spec.fieldName = fieldName with
        | some i => TupleShape.cellAt .invalidArgument row i
        | none => .error .notfound
  | [], _, _ => rfl
  | _ :: _, [], h => by cases h
  | f :: fields, v :: row, h => by
    have ih := firstCell_fields name htable fields row (by simpa using h)
    rw [firstCell] at ih ⊢
    rw [List.map_cons, List.map_cons, List.zip_cons_cons, List.find?_cons, List.findIdx?_cons]
    by_cases hfield : spec.fieldName = f.name
    · have hstops : Column.Stops spec ⟨name, t, f⟩ := ⟨htable.symm, hfield.symm⟩
      simp only [hstops, hfield, decide_true, if_true]
      rfl
    · have hstops : ¬ Column.Stops spec ⟨name, t, f⟩ := fun h => hfield h.2.symm
      simp only [hstops, hfield, decide_false, Bool.false_eq_true, if_false]
      rw [ih]
      cases (fields.map FieldMeta.name).findIdx? fun fieldName => spec.fieldName = fieldName with
      | none => rfl
      | some i => rfl

/-- A lookup among the cells of one table. -/
theorem firstCell_columnsOf (name : String) (t : TableMeta) (row : List Value)
    (spec : TupleCellSpec) (h : t.fields.length = row.length) :
  firstCell (Scope.columnsOf (name, t)) row spec
    = (TupleShape.row t.name (t.fields.map FieldMeta.name)).findCell row spec
  := by
  rw [TupleShape.findCell]
  by_cases htable : spec.tableName = t.name
  · rw [if_neg (not_not.mpr htable)]
    exact firstCell_fields name htable t.fields row h
  · rw [if_pos htable, firstCell, List.find?_eq_none.mpr]
    intro p hp hstops
    obtain ⟨f, -, hf⟩ := List.mem_map.mp (List.of_mem_zip hp).1
    have := (of_decide_eq_true hstops).1
    rw [← hf] at this
    exact htable this.symm

/-- A tuple of joined tables finds the cell of the first column with the names. -/
theorem Spans.findCell_eq {shape : TupleShape} (h : Spans shape scope) {row : List Value}
    (hrow : scope.columns.length = row.length) (spec : TupleCellSpec) :
  shape.findCell row spec = firstCell scope.columns row spec ∧ shape.cellNum = scope.columns.length
  := by
  induction h generalizing row with
  | row name t =>
    have hcolumns : Scope.columns [(name, t)] = Scope.columnsOf (name, t) := by
      rw [Scope.columns, List.flatMap_singleton]
    rw [hcolumns] at hrow ⊢
    have hlength : (Scope.columnsOf (name, t)).length = t.fields.length := List.length_map _
    rw [firstCell_columnsOf name t row spec (hlength.symm.trans hrow), hlength]
    exact ⟨rfl, List.length_map _⟩
  | @joined left right scope scope' hleft hright ihleft ihright =>
    rw [Scope.columns_append, List.length_append] at hrow
    have htake : scope.columns.length = (row.take scope.columns.length).length := by
      rw [List.length_take]
      omega
    have hdrop : scope'.columns.length = (row.drop scope.columns.length).length := by
      rw [List.length_drop]
      omega
    obtain ⟨hl, hnum⟩ := ihleft htake
    obtain ⟨hr, hnum'⟩ := ihright hdrop
    rw [TupleShape.findCell, TupleShape.cellNum, hnum, hnum', Scope.columns_append,
      List.length_append, hl, hr]
    refine ⟨?_, rfl⟩
    conv_rhs => rw [← List.take_append_drop scope.columns.length row]
    refine Eq.trans ?_ (firstCell_append htake).symm
    cases firstCell scope.columns (row.take scope.columns.length) spec with
    | error rc => cases rc <;> rfl
    | ok v => rfl

/-! ### What a field is resolved to -/

theorem holds_of_find? {α : Type} {P : α → Prop} [DecidablePred P] {l : List α} {a : α}
    (h : l.find? (fun a => P a) = some a) :
  P a
  := by
  simpa using List.find?_some h

theorem tablesWith_descs (scope : Scope) (attrName : String) :
  tablesWith scope.descs attrName
    = (scope.columns.filter (·.field.name = attrName)).map fun c => .table c.tableName c.table
  := by
  induction scope with
  | nil => rfl
  | cons t scope ih =>
    have hone : ((TableFactorDesc.table t.1 t.2).fields.filter (·.fieldName = attrName)).map
        (fun _ => TableFactorDesc.table t.1 t.2)
      = ((Scope.columnsOf t).filter (·.field.name = attrName)).map
          fun c => .table c.tableName c.table := by
      rw [TableFactorDesc.fields, Scope.columnsOf, List.filter_map, List.filter_map, List.map_map,
        List.map_map]
      rfl
    rw [Scope.columns_cons, List.filter_append, List.map_append, ← ih, ← hone]
    rfl

namespace ExpressionGenerator

variable {L : Library} {g : ExpressionGenerator} {relName attrName : String} {expr : TupleExpr L}

/-- The tables that are matched are those of the columns with the name. -/
theorem equalRange_perm (hdesc : g.tableDesc = scope.descs) (attrName : String) :
  (g.fieldTableMap.equalRange attrName).Perm
    ((scope.columns.filter (·.field.name = attrName)).map fun c => .table c.tableName c.table)
  := by
  have hperm : ∀ descs, g.tableDesc = descs →
      (g.fieldTableMap.equalRange attrName).Perm (tablesWith descs attrName) := by
    rintro _ rfl
    exact g.fieldTableMap.perm attrName
  rw [← tablesWith_descs]
  exact hperm _ hdesc

theorem fieldExpr_ok {t : TableMeta} (h : fieldExpr t attrName = .ok expr) :
  ∃ f ∈ t.fields, f.name = attrName ∧ expr = .field (.field t f)
  := by
  rw [fieldExpr] at h
  cases hfind : t.fields.find? (·.name = attrName) with
  | none =>
    rw [hfind] at h
    cases h
  | some f =>
    rw [hfind] at h
    cases h
    refine ⟨f, List.mem_of_find?_eq_some hfind, ?_, rfl⟩
    simpa using List.find?_some hfind

theorem fieldExpr_of_mem {t : TableMeta} (h : ∃ f ∈ t.fields, f.name = attrName) :
  ∃ f ∈ t.fields, f.name = attrName ∧ fieldExpr (L := L) t attrName = .ok (.field (.field t f))
  := by
  obtain ⟨f, hf, hname⟩ := h
  rw [fieldExpr]
  cases hfind : t.fields.find? (·.name = attrName) with
  | none =>
    have := List.find?_eq_none.mp hfind f hf
    exact absurd hname (by simpa using this)
  | some f' =>
    refine ⟨f', List.mem_of_find?_eq_some hfind, ?_, rfl⟩
    simpa using List.find?_some hfind

/-- A name is resolved to a field of the table of a column that it means. Without a table it means
only one. -/
theorem matchTables_ok (hdesc : g.tableDesc = scope.descs)
    (h : g.matchTables relName attrName = .ok expr) :
  ∃ c ∈ scope.columns, c.Named relName attrName
    ∧ (relName = "" → ∀ c' ∈ scope.columns, c'.Named relName attrName → c' = c)
    ∧ ∃ f ∈ c.table.fields, f.name = attrName ∧ expr = .field (.field c.table f)
  := by
  have hperm := equalRange_perm hdesc attrName
  rw [matchTables] at h
  split_ifs at h with hdb hempty hrel
  · subst hrel
    split at h
    · rename_i n t hmatched
      rw [hmatched, List.singleton_perm] at hperm
      obtain ⟨c, hc, heq⟩ := List.map_eq_singleton_iff.mp hperm.symm
      have hmem : ∀ c', c' ∈ scope.columns ∧ c'.field.name = attrName ↔ c' = c := by
        intro c'
        rw [show c' = c ↔ c' ∈ [c] from List.mem_singleton.symm, ← hc, List.mem_filter,
          decide_eq_true_eq]
      obtain ⟨hcolumns, hname⟩ := (hmem c).mpr rfl
      cases heq
      refine ⟨c, hcolumns, ⟨hname, .inl rfl⟩, ?_, fieldExpr_ok h⟩
      intro _ c' hc' hnamed
      exact (hmem c').mp ⟨hc', hnamed.1⟩
    · cases h
    · cases h
  · split at h
    · rename_i n t hfind
      have hmem := hperm.mem_iff.mp (List.mem_of_find?_eq_some hfind)
      have hrelName := holds_of_find? hfind
      obtain ⟨c, hc, heq⟩ := List.mem_map.mp hmem
      rw [List.mem_filter, decide_eq_true_eq] at hc
      cases heq
      exact ⟨c, hc.1, ⟨hc.2, .inr hrelName⟩, fun hnil => absurd hnil hrel, fieldExpr_ok h⟩
    · rename_i n fields hfind
      have hmem := hperm.mem_iff.mp (List.mem_of_find?_eq_some hfind)
      obtain ⟨c, -, heq⟩ := List.mem_map.mp hmem
      cases heq
    · cases h

end ExpressionGenerator

/-! ### What a field finds -/

/-- A name that has a value in a row means one column, with this cell. -/
theorem exists_of_denote {columns : List Column} {relName attrName : String} {v : Value}
    (h : denote columns row relName attrName = some v) :
  ∃ c, (columns.zip row).filter (fun p => p.1.Named relName attrName) = [(c, v)]
  := by
  rw [denote] at h
  split at h
  · rename_i p hp
    cases h
    exact ⟨p.1, hp⟩
  · cases h

theorem Scope.Distinct.eq_of_tableName (h : scope.Distinct) {t t' : String × TableMeta}
    (ht : t ∈ scope) (ht' : t' ∈ scope) (hname : t.1 = t'.1) :
  t = t'
  := List.inj_on_of_nodup_map h.names ht ht' hname

theorem Scope.Distinct.eq_of_table (h : scope.Distinct) {t t' : String × TableMeta}
    (ht : t ∈ scope) (ht' : t' ∈ scope) (hname : t.2.name = t'.2.name) :
  t = t'
  := List.inj_on_of_nodup_map h.tables ht ht' hname

/-- Where no table comes twice, a lookup with the names of the table and the field of the column
that a name means finds its cell. -/
theorem firstCell_of_denote (hdistinct : scope.Distinct) {relName attrName : String} {v : Value}
    (hfilter : (scope.columns.zip row).filter (fun p => p.1.Named relName attrName) = [(c, v)]) :
  firstCell scope.columns row { tableName := c.table.name, fieldName := attrName } = .ok v
  := by
  have hmem : ∀ p, p ∈ scope.columns.zip row ∧ p.1.Named relName attrName ↔ p = (c, v) := by
    intro p
    rw [show p = (c, v) ↔ p ∈ [(c, v)] from List.mem_singleton.symm, ← hfilter, List.mem_filter,
      decide_eq_true_eq]
  obtain ⟨hzip, hnamed⟩ := (hmem (c, v)).mpr rfl
  have hc := Scope.mem_columns.mp (List.of_mem_zip hzip).1
  rw [firstCell]
  cases hfind : (scope.columns.zip row).find? fun p =>
      p.1.Stops { tableName := c.table.name, fieldName := attrName } with
  | none =>
    have hstops := List.find?_eq_none.mp hfind _ hzip
    rw [decide_eq_true_eq] at hstops
    exact absurd ⟨rfl, hnamed.1⟩ hstops
  | some p =>
    have hp := List.mem_of_find?_eq_some hfind
    obtain ⟨htable, hfield⟩ := holds_of_find? hfind
    -- the table comes once, so that it has the name of the other column in the statement
    have heq := hdistinct.eq_of_table (Scope.mem_columns.mp (List.of_mem_zip hp).1).1 hc.1 htable
    have hpv : p = (c, v) := by
      apply (hmem p).mp
      refine ⟨hp, hfield, ?_⟩
      have hname : p.1.tableName = c.tableName := congrArg Prod.fst heq
      rw [hname]
      exact hnamed.2
    rw [hpv]

section

variable {L : Library} {shape : TupleShape} {g : ExpressionGenerator} {expr : TupleExpr L}
  {relName attrName : String} {v : Value}

/-- The expression has this value on the tuple, and finds its fields there. -/
def Computes (tuple : Tuple) (expr : TupleExpr L) (v : Value) : Prop :=
  expr.getValue tuple = .ok v ∧ expr.Throughout (Expression.Finds tuple)

/-- The value has the type of the expression. -/
theorem Computes.hasType {tuple : Tuple} (h : Computes tuple expr v) :
  v.HasType expr.valueType
  := by
  obtain ⟨v', hv', htype⟩ := Expression.getValue_hasType expr h.2
  rw [h.1] at hv'
  cases hv'
  exact htype

theorem findCell_ok_iff {tuple : Tuple} {ref : CellRef} :
  (environment L).findCell tuple ref = .ok v
    ↔ tuple.shape.findCell tuple.cells ref.spec = .ok v
  := by
  dsimp only [environment]
  cases tuple.shape.findCell tuple.cells ref.spec with
  | error rc => exact iff_of_false (by rintro ⟨⟩) (by rintro ⟨⟩)
  | ok w => rw [Except.ok.injEq, Except.ok.injEq]

/-- A field that is resolved with more tables than there are in the tuple, which have no name of
these, finds the cell that its name means. -/
theorem getValue_matchTables (hdesc : g.tableDesc = scope'.descs) (hsub : scope ⊆ scope')
    (hnames : (scope'.map Prod.fst).Nodup) (hdistinct : scope.Distinct) (hspans : Spans shape scope)
    (htyped : RowTyped scope.columns row) (hexpr : g.matchTables relName attrName = .ok expr)
    (hdenote : denote scope.columns row relName attrName = some v) :
  Computes ⟨shape, row⟩ expr v
  := by
  obtain ⟨c, hfilter⟩ := exists_of_denote hdenote
  obtain ⟨hzip, hnamed⟩ : (c, v) ∈ scope.columns.zip row ∧ c.Named relName attrName := by
    have hmem : (c, v) ∈ [(c, v)] := List.mem_singleton_self _
    rw [← hfilter, List.mem_filter, decide_eq_true_eq] at hmem
    exact hmem
  have hc := Scope.mem_columns.mp (List.of_mem_zip hzip).1
  obtain ⟨c', hc', hnamed', hunique, f, hf, hname, rfl⟩ :=
    ExpressionGenerator.matchTables_ok hdesc hexpr
  have htable : c'.table = c.table := by
    by_cases hrel : relName = ""
    · rw [hunique hrel c (Scope.mem_columns.mpr ⟨hsub hc.1, hc.2⟩) hnamed]
    · have hname : c'.tableName = c.tableName :=
        (hnamed'.2.resolve_left hrel).trans (hnamed.2.resolve_left hrel).symm
      have heq := List.inj_on_of_nodup_map hnames (Scope.mem_columns.mp hc').1 (hsub hc.1) hname
      exact congrArg Prod.snd heq
  rw [htable] at hf ⊢
  have hfield : f = c.field := by
    apply List.inj_on_of_nodup_map (hdistinct.fields _ hc.1) hf hc.2
    exact hname.trans hnamed.1.symm
  have hfind : (environment L).findCell ⟨shape, row⟩ (.field c.table f) = .ok v := by
    rw [findCell_ok_iff, CellRef.spec, (hspans.findCell_eq htyped.length_eq _).1, hname,
      firstCell_of_denote hdistinct hfilter]
  have htype : v.HasType f.type := by
    rw [hfield]
    exact List.forall₂_iff_zip.mp htyped |>.2 hzip
  exact ⟨hfind, v, hfind, htype⟩

/-- The aliases of the projection that are the name of a column are the alias of a column of this
name. -/
def HidesNothing (tupleSchema : List TupleCellSpec) (scope : Scope) : Prop :=
  ∀ cell ∈ tupleSchema, (∃ c ∈ scope.columns, c.field.name = cell.aliasName) →
    cell.fieldName = cell.aliasName

theorem hidesNothing_nil {tupleSchema : List TupleCellSpec} (h : tupleSchema = []) :
  HidesNothing tupleSchema scope
  := by
  rw [h]
  intro cell hcell
  cases hcell

theorem getValue_generateField (hdesc : g.tableDesc = scope'.descs) (hsub : scope ⊆ scope')
    (hnames : (scope'.map Prod.fst).Nodup) (hdistinct : scope.Distinct) (hspans : Spans shape scope)
    (htyped : RowTyped scope.columns row) (houtter : g.outterAliasSet = [])
    (hhides : HidesNothing g.currentTupleSchema scope)
    (hexpr : g.generateField relName attrName = .ok expr)
    (hdenote : denote scope.columns row relName attrName = some v) :
  Computes ⟨shape, row⟩ expr v
  := by
  have hmatch : g.matchTables relName attrName = .ok expr := by
    by_cases hstar : attrName = "*"
    · rw [ExpressionGenerator.generateField, if_pos hstar] at hexpr
      cases hexpr
    rw [ExpressionGenerator.generateField, if_neg hstar] at hexpr
    cases hfind : g.currentTupleSchema.find? (·.aliasName = attrName) with
    | none =>
      rw [hfind] at hexpr
      simpa [houtter] using hexpr
    | some cell =>
      rw [hfind] at hexpr
      have halias : cell.aliasName = attrName := by simpa using List.find?_some hfind
      obtain ⟨c, hfilter⟩ := exists_of_denote hdenote
      have hmem : (c, v) ∈ [(c, v)] := List.mem_singleton_self _
      rw [← hfilter, List.mem_filter, decide_eq_true_eq] at hmem
      have hfield := hhides cell (List.mem_of_find?_eq_some hfind)
        ⟨c, (List.of_mem_zip hmem.1).1, hmem.2.1.trans halias.symm⟩
      rw [← halias, ← hfield]
      exact hexpr
  exact getValue_matchTables hdesc hsub hnames hdistinct hspans htyped hmatch hdenote

end

/-! ### What expressions mean -/

section

variable (L : Library) {Q : Type}

/-- The value, which is read as a date where it is a text beside a date. -/
def besideDate (other v : Value) : Value :=
  if other.attrType = .dates ∧ v.attrType.isText then castValue L .dates v else v

/-- What a comparison of two values means. -/
def comparisonMeaning (compOp : CompOp) (v w : Value) : Value :=
  truthValue (compareValue L.doubles compOp (besideDate L w v) (besideDate L v w))

/-- What an arithmetic of two values means: integers give an integer if they are not divided. -/
def arithmeticMeaning (type : ArithmeticType) (v w : Value) : Value :=
  let target : AttrType :=
    if v.attrType = .ints ∧ w.attrType = .ints ∧ type ≠ .div then .ints else .floats
  (calcValue L type target v w).getD .nulls

variable (value : String → String → Option Value)

mutual

/-- The meaning of a parsed expression, by the values of the names. The parser makes no `negative`,
and functions and subqueries have no meaning here. -/
def meaning : ExpressionSqlNode Q → Option Value
  | .field _ relationName attributeName => value (nameOf relationName) (nameOf attributeName)
  | .value _ v => some v
  | .unary kind _ child => do
    let v ← meaning child
    match kind with
    | .cast targetType => return castValue L targetType v
    | .not => return notValue L v
    | .like pattern => return likeValue L pattern v
    | .isNull => return .booleans (v.attrType = .nulls)
  | .binary kind _ left right => do
    let v ← meaning left
    let w ← meaning right
    match kind with
    | .comparison compOp => return comparisonMeaning L compOp v w
    | .conjunction conjunctionType =>
      return valueOf (conjunctionType.join [v.truth L.doubles, w.truth L.doubles])
    | .arithmetic .negative => none
    | .arithmetic arithmeticType => return arithmeticMeaning L arithmeticType v w
  | .inList _ child valueList => do
    let v ← meaning child
    let values ← meanings valueList
    return isIn L v values
  | _ => none

def meanings : List (ExpressionSqlNode Q) → Option (List Value)
  | [] => some []
  | sqlNode :: sqlNodes => do
    let v ← meaning sqlNode
    let values ← meanings sqlNodes
    return v :: values

end

end

section

variable {L : Library}

theorem besideDate_of_nulls {other v : Value} (h : other = .nulls ∨ v = .nulls) :
  besideDate L other v = v
  := by
  rw [besideDate]
  obtain rfl | rfl := h
  · rw [if_neg (fun h => by cases h.1)]
  · rw [if_neg (fun h => by cases h.2)]

theorem compareValue_nulls {F : Doubles} {comp : CompOp} {v w : Value} (h : v = .nulls ∨ w = .nulls) :
  compareValue F comp v w = none
  := by
  rw [compareValue]
  obtain rfl | rfl := h
  · cases w <;> rfl
  · cases v <;> rfl

/-- A text beside a date by the types of the expressions is one by the values. -/
theorem comparisonMeaning_eq {v w : Value} {type type' : AttrType} (compOp : CompOp)
    (hv : v.HasType type) (hw : w.HasType type') :
  comparisonMeaning L compOp v w
    = truthValue (compareValue L.doubles compOp
        (if type' = .dates ∧ type.isText then castValue L .dates v else v)
        (if type = .dates ∧ type'.isText then castValue L .dates w else w))
  := by
  rw [comparisonMeaning]
  by_cases hnull : v = .nulls ∨ w = .nulls
  · rw [besideDate_of_nulls hnull.symm, besideDate_of_nulls hnull, compareValue_nulls hnull,
      compareValue_nulls]
    obtain rfl | rfl := hnull
    · left
      rw [castValue_nulls, ite_self]
    · right
      rw [castValue_nulls, ite_self]
  · rw [not_or] at hnull
    have hdate : v.attrType = .dates ↔ type = .dates := hv.attrType_eq_iff hnull.1 rfl
    have hdate' : w.attrType = .dates ↔ type' = .dates := hw.attrType_eq_iff hnull.2 rfl
    simp only [besideDate, hdate, hdate', hv.isText_iff hnull.1, hw.isText_iff hnull.2]

theorem calcValue_nulls {type : ArithmeticType} (htype : type ≠ .negative) {target : AttrType}
    {v w : Value} (h : v = .nulls ∨ w = .nulls) :
  (calcValue L type target v w).getD .nulls = .nulls
  := by
  cases type with
  | negative => exact absurd rfl htype
  | div =>
    rw [calcValue]
    obtain rfl | rfl := h
    · split_ifs
      · cases w.getInt L with
        | none => rfl
        | some n =>
          simp only [Option.bind_some, Value.getInt, Option.map_none]
          split_ifs <;> rfl
      · cases w.getFloat L with
        | none => rfl
        | some y =>
          simp only [Option.bind_some, Value.getFloat, Option.map_none]
          split_ifs <;> rfl
    · split_ifs <;> rfl
  | _ =>
    rw [calcValue]
    obtain rfl | rfl := h
    · split_ifs <;> rfl
    · split_ifs
      · cases v.getInt L <;> rfl
      · cases v.getFloat L <;> rfl

/-- Integers by the types of the expressions are integers by the values. -/
theorem arithmeticMeaning_eq {v w : Value} {left right : TupleExpr L} {type : ArithmeticType}
    (htype : type ≠ .negative) (hv : v.HasType left.valueType) (hw : w.HasType right.valueType) :
  arithmeticMeaning L type v w
    = (calcValue L type (Expression.arithmetic type left right).valueType v w).getD .nulls
  := by
  rw [arithmeticMeaning]
  by_cases hnull : v = .nulls ∨ w = .nulls
  · rw [calcValue_nulls htype hnull, calcValue_nulls htype hnull]
  · rw [not_or] at hnull
    have hint : v.attrType = .ints ↔ left.valueType = .ints := hv.attrType_eq_iff hnull.1 rfl
    have hint' : w.attrType = .ints ↔ right.valueType = .ints := hw.attrType_eq_iff hnull.2 rfl
    simp only [Expression.valueType, hint, hint']

/-! ### What generated expressions compute -/

variable {tuple : Tuple} {left right expr : TupleExpr L} {v w : Value}

theorem castToDate_ok (h : castToDate left = .ok expr) :
  expr = .cast left .dates
  := by
  rw [castToDate] at h
  split at h
  · split_ifs at h
    cases h
    rfl
  · cases h
    rfl

theorem Computes.cast (h : Computes tuple expr v) (type : AttrType) :
  Computes tuple (.cast expr type) (castValue L type v)
  := by
  constructor
  · rw [Expression.getValue, h.1]
    rfl
  · exact ⟨trivial, h.2⟩

/-- A side of a comparison, which is cast to a date beside another one of this type. -/
theorem Computes.castBesideDate (h : Computes tuple left v)
    (hexpr : castBesideDate right left = .ok expr) :
  Computes tuple expr
      (if right.valueType = .dates ∧ left.valueType.isText then castValue L .dates v else v)
    ∧ expr.valueType
      = if right.valueType = .dates ∧ left.valueType.isText then .dates else left.valueType
  := by
  rw [Resolver.castBesideDate] at hexpr
  split_ifs at hexpr ⊢
  · rw [castToDate_ok hexpr]
    exact ⟨h.cast .dates, rfl⟩
  · cases hexpr
    exact ⟨h, rfl⟩

theorem Computes.comparison {compOp : CompOp} (hleft : Computes tuple left v)
    (hright : Computes tuple right w) (h : generateComparison compOp left right = .ok expr) :
  Computes tuple expr (comparisonMeaning L compOp v w)
  := by
  rw [generateComparison] at h
  obtain ⟨right', hright', h⟩ := bind_eq_ok.mp h
  obtain ⟨left', hleft', h⟩ := bind_eq_ok.mp h
  cases h
  obtain ⟨hright', htype⟩ := hright.castBesideDate hright'
  obtain ⟨hleft', -⟩ := hleft.castBesideDate hleft'
  -- the left side is cast for what the right side has been before
  have hsame : (right'.valueType = .dates ∧ left.valueType.isText)
      ↔ (right.valueType = .dates ∧ left.valueType.isText) := by
    rw [htype]
    split_ifs with hdate
    · apply iff_of_false
      · rintro ⟨-, htext⟩
        rw [hdate.1] at htext
        cases htext
      · rintro ⟨-, htext⟩
        rw [hdate.1] at htext
        cases htext
    · rfl
  simp only [hsame] at hleft'
  rw [comparisonMeaning_eq compOp hleft.hasType hright.hasType]
  constructor
  · rw [Expression.getValue, hleft'.1, hright'.1]
    rfl
  · exact ⟨trivial, hleft'.2, hright'.2⟩

variable {Q : Type} {other : ExpressionSqlNode Q → Except Stop (TupleExpr L)}
  {g : ExpressionGenerator} {value : String → String → Option Value}

/-- The fields that are made of names compute the values of these. -/
def Reads (g : ExpressionGenerator) (tuple : Tuple) (value : String → String → Option Value) :
    Prop :=
  ∀ relName attrName (expr : TupleExpr L) v, g.generateField relName attrName = .ok expr →
    value relName attrName = some v → Computes tuple expr v

mutual

/-- An expression that is made of a parsed one computes what this means. -/
theorem computes_generate (hreads : Reads (L := L) g tuple value) :
    ∀ (node : ExpressionSqlNode Q) {expr : TupleExpr L} {v : Value},
    g.generate other node = .ok expr → meaning L value node = some v → Computes tuple expr v
  | .field _ _ _, expr, v, hexpr, hv => hreads _ _ expr v hexpr hv
  | .value _ w, _, _, hexpr, hv => by
    cases hexpr
    cases hv
    exact ⟨rfl, trivial⟩
  | .unary kind _ child, _, _, hexpr, hv => by
    obtain ⟨childExpr, hchild, hexpr⟩ := bind_eq_ok.mp hexpr
    obtain ⟨w, hw, hv⟩ := Option.bind_eq_some_iff.mp hv
    have ih := computes_generate hreads child hchild hw
    cases kind with
    | cast targetType =>
      cases hexpr
      cases hv
      exact ih.cast targetType
    | not =>
      cases hexpr
      cases hv
      refine ⟨?_, trivial, ih.2⟩
      rw [Expression.getValue, ih.1]
      rfl
    | like pattern =>
      cases hexpr
      cases hv
      refine ⟨?_, trivial, ih.2⟩
      rw [Expression.getValue, ih.1]
      rfl
    | isNull =>
      cases hexpr
      cases hv
      refine ⟨?_, trivial, ih.2⟩
      rw [Expression.getValue, ih.1]
      rfl
  | .binary kind _ left right, _, v, hexpr, hv => by
    obtain ⟨leftExpr, hleft, hexpr⟩ := bind_eq_ok.mp hexpr
    obtain ⟨rightExpr, hright, hexpr⟩ := bind_eq_ok.mp hexpr
    obtain ⟨w₁, hw₁, hv⟩ := Option.bind_eq_some_iff.mp hv
    obtain ⟨w₂, hw₂, hv⟩ := Option.bind_eq_some_iff.mp hv
    have ihleft := computes_generate hreads left hleft hw₁
    have ihright := computes_generate hreads right hright hw₂
    cases kind with
    | comparison compOp =>
      cases hv
      exact ihleft.comparison ihright hexpr
    | conjunction conjunctionType =>
      cases hexpr
      cases hv
      refine ⟨?_, trivial, ihleft.2, ihright.2, trivial⟩
      have hvalues : Expression.getValues tuple [leftExpr, rightExpr] = .ok [w₁, w₂] := by
        rw [Expression.getValues, Expression.getValues, ihleft.1, ihright.1]
        rfl
      rw [Expression.getValue, getConjunction_of_getValues conjunctionType false hvalues]
      rfl
    | arithmetic arithmeticType =>
      cases hexpr
      have htype : arithmeticType ≠ .negative := by
        rintro rfl
        cases hv
      have hmeaning : v = arithmeticMeaning L arithmeticType w₁ w₂ := by
        cases arithmeticType <;> first | exact absurd rfl htype | exact (Option.some.inj hv).symm
      refine ⟨?_, trivial, ihleft.2, ihright.2⟩
      rw [hmeaning, arithmeticMeaning_eq htype ihleft.hasType ihright.hasType, Expression.getValue,
        ihleft.1, ihright.1]
      rfl
  | .inList _ child valueList, _, _, hexpr, hv => by
    obtain ⟨childExpr, hchild, hexpr⟩ := bind_eq_ok.mp hexpr
    obtain ⟨exprs, hexprs, hexpr⟩ := bind_eq_ok.mp hexpr
    obtain ⟨w, hw, hv⟩ := Option.bind_eq_some_iff.mp hv
    obtain ⟨values, hvalues, hv⟩ := Option.bind_eq_some_iff.mp hv
    have ih := computes_generate hreads child hchild hw
    have ihs := computes_generateList hreads valueList hexprs hvalues
    cases hexpr
    cases hv
    refine ⟨?_, trivial, ih.2, ihs.2⟩
    rw [Expression.getValue, ih.1, ihs.1]
    rfl
  | .function _ _ _, _, _, _, hv => by cases hv
  | .inSubquery _ _ _, _, _, _, hv => by cases hv
  | .exists _ _, _, _, _, hv => by cases hv
  | .aggregate _ _ _, _, _, _, hv => by cases hv
  | .subquery _, _, _, _, hv => by cases hv
  | .cellRef _, _, _, _, hv => by cases hv

theorem computes_generateList (hreads : Reads (L := L) g tuple value) :
    ∀ (nodes : List (ExpressionSqlNode Q)) {exprs : List (TupleExpr L)} {values : List Value},
    g.generateList other nodes = .ok exprs → meanings L value nodes = some values →
    Expression.getValues tuple exprs = .ok values
      ∧ Expression.AllThroughout (Expression.Finds tuple) exprs
  | [], _, _, hexprs, hvalues => by
    cases hexprs
    cases hvalues
    exact ⟨rfl, trivial⟩
  | node :: nodes, _, _, hexprs, hvalues => by
    obtain ⟨expr, hexpr, hexprs⟩ := bind_eq_ok.mp hexprs
    obtain ⟨exprs, hrest, hexprs⟩ := bind_eq_ok.mp hexprs
    obtain ⟨v, hv, hvalues⟩ := Option.bind_eq_some_iff.mp hvalues
    obtain ⟨values, hvs, hvalues⟩ := Option.bind_eq_some_iff.mp hvalues
    have ih := computes_generate hreads node hexpr hv
    have ihs := computes_generateList hreads nodes hrest hvs
    cases hexprs
    cases hvalues
    refine ⟨?_, ih.2, ihs.2⟩
    rw [Expression.getValues, ih.1, ihs.1]
    rfl

end

end

/-! ### Tables that come twice -/

section

variable {L : Library} {g : ExpressionGenerator} {relName attrName : String}

/-- No alias has the name: the table is not named as an alias of the query outside, and a column
of the projection whose alias is the name of the field is one of this name. -/
structure ExpressionGenerator.NotAlias (g : ExpressionGenerator) (relName attrName : String) :
    Prop where
  outter : relName ∉ g.outterAliasSet
  current : ∀ cell ∈ g.currentTupleSchema, cell.aliasName = attrName → cell.fieldName = attrName

theorem ExpressionGenerator.NotAlias.generateField_eq (h : g.NotAlias relName attrName)
    (hstar : attrName ≠ "*") :
  g.generateField (L := L) relName attrName = g.matchTables relName attrName
  := by
  rw [ExpressionGenerator.generateField, if_neg hstar]
  cases hfind : g.currentTupleSchema.find? (·.aliasName = attrName) with
  | none => exact if_neg h.outter
  | some cell =>
    have hname : cell.aliasName = attrName := by simpa using List.find?_some hfind
    dsimp only
    rw [h.current cell (List.mem_of_find?_eq_some hfind) hname]

/-- A name that means one column is resolved to a field of its table. -/
theorem generateField_of_unique {before after : List Column} (hdesc : g.tableDesc = scope.descs)
    (hdb : g.db) (halias : g.NotAlias relName attrName)
    (hstar : attrName ≠ "*") (hcolumns : scope.columns = before ++ c :: after)
    (hnamed : c.Named relName attrName)
    (hunique : ∀ c' ∈ before ++ after, ¬ c'.Named relName attrName) :
  ∃ f ∈ c.table.fields, f.name = attrName
    ∧ g.generateField (L := L) relName attrName = .ok (.field (.field c.table f))
  := by
  have hc : c ∈ scope.columns := by
    rw [hcolumns]
    exact List.mem_append_right _ List.mem_cons_self
  obtain ⟨f, hf, hname, hexpr⟩ := ExpressionGenerator.fieldExpr_of_mem (L := L)
    ⟨c.field, (Scope.mem_columns.mp hc).2, hnamed.1⟩
  refine ⟨f, hf, hname, ?_⟩
  have hperm := ExpressionGenerator.equalRange_perm hdesc attrName
  have hmem : TableFactorDesc.table c.tableName c.table ∈ g.fieldTableMap.equalRange attrName := by
    rw [hperm.mem_iff]
    exact List.mem_map.mpr ⟨c, List.mem_filter.mpr ⟨hc, decide_eq_true hnamed.1⟩, rfl⟩
  have hempty : ¬ (g.fieldTableMap.equalRange attrName).isEmpty := by
    intro hempty
    rw [List.isEmpty_iff.mp hempty] at hmem
    cases hmem
  rw [halias.generateField_eq hstar, ExpressionGenerator.matchTables, if_neg (not_not.mpr hdb),
    if_neg hempty]
  by_cases hrel : relName = ""
  · -- no other column has the name of the field
    have hothers : ∀ c' ∈ before ++ after, c'.field.name ≠ attrName :=
      fun c' hc' hfield => hunique c' hc' ⟨hfield, .inl hrel⟩
    have hfilter : scope.columns.filter (·.field.name = attrName) = [c] := by
      rw [hcolumns, List.filter_append, List.filter_cons, if_pos (decide_eq_true hnamed.1),
        List.filter_eq_nil_iff.mpr, List.filter_eq_nil_iff.mpr]
      · rfl
      · intro c' hc'
        simpa using hothers c' (List.mem_append_right _ hc')
      · intro c' hc'
        simpa using hothers c' (List.mem_append_left _ hc')
    rw [hfilter] at hperm
    rw [if_pos hrel, List.perm_singleton.mp hperm]
    exact hexpr
  · rw [if_neg hrel]
    cases hfind : (g.fieldTableMap.equalRange attrName).find? (·.tableName = relName) with
    | none =>
      have hnot := List.find?_eq_none.mp hfind _ hmem
      rw [decide_eq_true_eq] at hnot
      exact absurd (hnamed.2.resolve_left hrel) hnot
    | some desc =>
      obtain ⟨c', hc', rfl⟩ :=
        List.mem_map.mp (hperm.mem_iff.mp (List.mem_of_find?_eq_some hfind))
      have hname' : (TableFactorDesc.table c'.tableName c'.table).tableName = relName := by
        simpa using List.find?_some hfind
      rw [List.mem_filter, decide_eq_true_eq, hcolumns, List.mem_append, List.mem_cons] at hc'
      have heq : c' = c := by
        obtain ⟨hleft | hself | hright, hfield⟩ := hc'
        · exact absurd ⟨hfield, .inr hname'⟩ (hunique c' (List.mem_append_left _ hleft))
        · exact hself
        · exact absurd ⟨hfield, .inr hname'⟩ (hunique c' (List.mem_append_right _ hright))
      rw [heq]
      exact hexpr

/-- A value of a type. -/
def sampleOf : AttrType → Value
  | .undefined => .undefined
  | .chars => .chars []
  | .ints => .ints 0
  | .floats => .floats 0
  | .booleans => .booleans false
  | .dates => .dates 0
  | .texts => .texts []
  | .nulls => .nulls

theorem attrType_sampleOf (type : AttrType) : (sampleOf type).attrType = type := by
  cases type <;> rfl

/-- A row that is `NULL` but for this column. -/
theorem rowTyped_sample (before after : List Column) (c : Column) :
  RowTyped (before ++ c :: after)
    (before.map (fun _ => .nulls) ++ sampleOf c.field.type :: after.map fun _ => .nulls)
  := by
  have hnulls : ∀ columns : List Column, RowTyped columns (columns.map fun _ => .nulls) := by
    intro columns
    rw [RowTyped, List.forall₂_map_right_iff, List.forall₂_same]
    exact fun _ _ => Value.hasType_nulls
  exact rowTyped_append (hnulls before)
    (.cons (.inr (.inl (attrType_sampleOf _))) (hnulls after))

/-- A lookup that stops among the first columns, where there are only `NULL`s. -/
theorem firstCell_nulls {before : List Column} {spec : TupleCellSpec} (after : List Column)
    (row : List Value) (h : ∃ c ∈ before, c.Stops spec) :
  ∃ v, firstCell (before ++ after) (before.map (fun _ => .nulls) ++ row) spec = .ok v ∧ v = .nulls
  := by
  obtain ⟨c, hc, hstops⟩ := h
  rw [firstCell_append (List.length_map _).symm, firstCell]
  cases hfind : (before.zip (before.map fun _ => Value.nulls)).find? fun p => p.1.Stops spec with
  | none =>
    have hmem : (c, Value.nulls) ∈ before.zip (before.map fun _ => Value.nulls) := by
      obtain ⟨before₁, before₂, rfl⟩ := List.append_of_mem hc
      rw [List.map_append, List.zip_append (List.length_map _).symm]
      exact List.mem_append_right _ List.mem_cons_self
    have hnot := List.find?_eq_none.mp hfind _ hmem
    rw [decide_eq_true_eq] at hnot
    exact absurd hstops hnot
  | some p =>
    refine ⟨p.2, rfl, ?_⟩
    obtain ⟨-, -, hp⟩ := List.mem_map.mp (List.of_mem_zip (List.mem_of_find?_eq_some hfind)).2
    exact hp.symm

theorem firstCell_none {before : List Column} {row : List Value} {spec : TupleCellSpec}
    (h : ∀ c ∈ before, ¬ c.Stops spec) :
  firstCell before row spec = .error .notfound
  := by
  rw [firstCell, List.find?_eq_none.mpr]
  intro p hp
  rw [decide_eq_true_eq]
  exact h p.1 (List.of_mem_zip hp).1

theorem firstCell_head {after : List Column} {v : Value} {row : List Value} {spec : TupleCellSpec}
    (h : c.Stops spec) :
  firstCell (c :: after) (v :: row) spec = .ok v
  := by
  rw [firstCell, List.zip_cons_cons, List.find?_cons_of_pos]
  exact decide_eq_true h

end

/-- The table `t(id, s)`. -/
def tableOfPairs : TableMeta :=
  ⟨0, "t", [⟨"id", .ints, 0, 4, true, true⟩, ⟨"s", .chars, 4, 4, true, false⟩], 0, 8⟩

/-- The table with itself, as `a` and `b`. -/
def scopeTwice : Scope := [("a", tableOfPairs), ("b", tableOfPairs)]

/-- The generator for the condition of a `SELECT id AS k` from the two. -/
def generatorTwice : ExpressionGenerator where
  tableDesc := scopeTwice.descs
  fieldTableMap := .inOrder _
  currentTupleSchema := [{ tableName := "t", fieldName := "id", aliasName := "k" }]

end MiniOB.Sql.Resolver
