import MiniOB.Sql.Resolution

/-!
# Types of generated expressions

What `generate_expression` makes of the names of some tables has a value of its `value_type` on
every row of these, also where a table comes twice. As a text beside a date is cast, no comparison
meets a date beside a text, for which `Value::compare` would throw where it is no date.
-/

namespace MiniOB.Sql.Resolver

open Expression (bind_eq_ok)

/-- Tables of the same name are the same, and no table has two columns of the same name. -/
structure Scope.Consistent (scope : Scope) : Prop where
  tables : ∀ t ∈ scope, ∀ t' ∈ scope, t.2.name = t'.2.name → t.2 = t'.2
  fields : ∀ t ∈ scope, (t.2.fields.map FieldMeta.name).Nodup

section

variable {L : Library} {scope : Scope} {tuple : Tuple} {left right expr expr' : TupleExpr L}

/-- Fields are fields of the tables, and no side of a comparison is a date by its type beside a
text. -/
def WellFormed (scope : Scope) : TupleExpr L → Prop
  | .field (.field t f) => ∃ name, (name, t) ∈ scope ∧ f ∈ t.fields
  | .comparison _ left right =>
    ¬ (left.valueType = .dates ∧ right.valueType.isText)
      ∧ ¬ (right.valueType = .dates ∧ left.valueType.isText)
  | _ => True

/-- The expression is no cell of a subquery or of an aggregate. -/
def NoCell : TupleExpr L → Prop
  | .field (.cell _) => False
  | _ => True

/-- A comparison meets no date beside a text on the tuple. -/
def ComparesAlike (tuple : Tuple) : TupleExpr L → Prop
  | .comparison _ left right =>
    ∀ v w, left.getValue tuple = .ok v → right.getValue tuple = .ok w →
      ¬ (v.attrType = .dates ∧ w.attrType.isText) ∧ ¬ (w.attrType = .dates ∧ v.attrType.isText)
  | _ => True

/-! ### Comparisons -/

theorem castBesideDate_ok {other : TupleExpr L} (h : castBesideDate other expr = .ok expr') :
  ¬ (other.valueType = .dates ∧ expr'.valueType.isText)
    ∧ (expr' = expr ∨ other.valueType = .dates ∧ expr' = .cast expr .dates)
  := by
  rw [castBesideDate] at h
  split_ifs at h with hdate
  · obtain rfl := castToDate_ok h
    exact ⟨fun h => Bool.false_ne_true h.2, .inr ⟨hdate.1, rfl⟩⟩
  · cases h
    exact ⟨hdate, .inl rfl⟩

theorem wellFormed_castTo {p : Prop} (h : expr.Throughout (WellFormed scope))
    (hexpr : expr' = expr ∨ p ∧ expr' = .cast expr .dates) :
  expr'.Throughout (WellFormed scope)
  := by
  obtain rfl | ⟨-, rfl⟩ := hexpr
  · exact h
  · exact ⟨trivial, h⟩

theorem wellFormed_generateComparison {compOp : CompOp}
    (hleft : left.Throughout (WellFormed scope)) (hright : right.Throughout (WellFormed scope))
    (h : generateComparison compOp left right = .ok expr) :
  expr.Throughout (WellFormed scope)
  := by
  rw [generateComparison] at h
  obtain ⟨right', hright', h⟩ := bind_eq_ok.mp h
  obtain ⟨left', hleft', h⟩ := bind_eq_ok.mp h
  cases h
  obtain ⟨hbeside, hr⟩ := castBesideDate_ok hright'
  obtain ⟨hbeside', hl⟩ := castBesideDate_ok hleft'
  refine ⟨⟨?_, hbeside'⟩, wellFormed_castTo hleft hl, wellFormed_castTo hright hr⟩
  obtain rfl | ⟨hdate, -⟩ := hl
  · exact hbeside
  · -- the left side has been cast for the date on the right
    rintro ⟨-, htext⟩
    rw [hdate] at htext
    cases htext

/-! ### Expressions -/

variable {Q : Type} {other : ExpressionSqlNode Q → Except Stop (TupleExpr L)}
  {g : ExpressionGenerator} {relName attrName : String}

theorem wellFormed_matchTables (hdesc : g.tableDesc = scope.descs)
    (h : g.matchTables relName attrName = .ok expr) :
  expr.Throughout (WellFormed scope)
  := by
  obtain ⟨c, hc, -, -, f, hf, -, rfl⟩ := ExpressionGenerator.matchTables_ok hdesc h
  exact ⟨c.tableName, (Scope.mem_columns.mp hc).1, hf⟩

theorem wellFormed_generateField (hdesc : g.tableDesc = scope.descs)
    (h : g.generateField relName attrName = .ok expr) :
  expr.Throughout (WellFormed scope)
  := by
  by_cases hstar : attrName = "*"
  · rw [ExpressionGenerator.generateField, if_pos hstar] at h
    cases h
  rw [ExpressionGenerator.generateField, if_neg hstar] at h
  cases hfind : g.currentTupleSchema.find? (·.aliasName = attrName) with
  | some cell =>
    rw [hfind] at h
    exact wellFormed_matchTables hdesc h
  | none =>
    rw [hfind] at h
    by_cases houtter : relName ∈ g.outterAliasSet
    · simp only [houtter, if_true] at h
      cases h
      exact trivial
    · simp only [houtter, if_false] at h
      exact wellFormed_matchTables hdesc h

mutual

theorem wellFormed_generate (hdesc : g.tableDesc = scope.descs)
    (hother : ∀ node expr, other node = .ok expr → expr.Throughout (WellFormed scope)) :
    ∀ (node : ExpressionSqlNode Q) {expr : TupleExpr L},
    g.generate other node = .ok expr → expr.Throughout (WellFormed scope)
  | .field _ _ _, _, h => wellFormed_generateField hdesc h
  | .value _ _, _, h => by
    cases h
    exact trivial
  | .unary kind _ child, _, h => by
    obtain ⟨childExpr, hchild, h⟩ := bind_eq_ok.mp h
    have ih := wellFormed_generate hdesc hother child hchild
    cases kind <;>
    · cases h
      exact ⟨trivial, ih⟩
  | .binary kind _ left right, _, h => by
    obtain ⟨leftExpr, hleft, h⟩ := bind_eq_ok.mp h
    obtain ⟨rightExpr, hright, h⟩ := bind_eq_ok.mp h
    have ihleft := wellFormed_generate hdesc hother left hleft
    have ihright := wellFormed_generate hdesc hother right hright
    cases kind with
    | comparison compOp => exact wellFormed_generateComparison ihleft ihright h
    | conjunction conjunctionType =>
      cases h
      exact ⟨trivial, ihleft, ihright, trivial⟩
    | arithmetic arithmeticType =>
      cases h
      exact ⟨trivial, ihleft, ihright⟩
  | .function _ _ _, _, h => hother _ _ h
  | .inSubquery _ child subquery, _, h => by
    obtain ⟨childExpr, hchild, h⟩ := bind_eq_ok.mp h
    cases subquery with
    | inl node => cases h
    | inr cell => exact hother _ _ h
  | .inList _ child valueList, _, h => by
    obtain ⟨childExpr, hchild, h⟩ := bind_eq_ok.mp h
    obtain ⟨exprs, hexprs, h⟩ := bind_eq_ok.mp h
    have ih := wellFormed_generate hdesc hother child hchild
    have ihs := wellFormed_generateList hdesc hother valueList hexprs
    cases h
    exact ⟨trivial, ih, ihs⟩
  | .exists _ _, _, h => by cases h
  | .aggregate _ _ _, _, h => by cases h
  | .subquery _, _, h => by cases h
  | .cellRef _, _, h => by
    cases h
    exact trivial

theorem wellFormed_generateList (hdesc : g.tableDesc = scope.descs)
    (hother : ∀ node expr, other node = .ok expr → expr.Throughout (WellFormed scope)) :
    ∀ (nodes : List (ExpressionSqlNode Q)) {exprs : List (TupleExpr L)},
    g.generateList other nodes = .ok exprs → Expression.AllThroughout (WellFormed scope) exprs
  | [], _, h => by
    cases h
    exact trivial
  | node :: nodes, _, h => by
    obtain ⟨expr, hexpr, h⟩ := bind_eq_ok.mp h
    obtain ⟨exprs, hexprs, h⟩ := bind_eq_ok.mp h
    have ih := wellFormed_generate hdesc hother node hexpr
    have ihs := wellFormed_generateList hdesc hother nodes hexprs
    cases h
    exact ⟨ih, ihs⟩

end

/-! ### Values -/

/-- A lookup with the names of a column finds a cell of its type, in the first of the tables that
are the same. -/
theorem firstCell_hasType {row : List Value} {c : Column} (hscope : scope.Consistent)
    (htyped : RowTyped scope.columns row) (hc : c ∈ scope.columns) :
  ∃ v, firstCell scope.columns row { tableName := c.table.name, fieldName := c.field.name } = .ok v
    ∧ v.HasType c.field.type
  := by
  obtain ⟨v, hzip⟩ : ∃ v, (c, v) ∈ scope.columns.zip row := by
    obtain ⟨i, hi, hget⟩ := List.getElem_of_mem hc
    have hi' : i < row.length := htyped.length_eq ▸ hi
    refine ⟨row[i], ?_⟩
    have hmem := List.getElem_mem (l := scope.columns.zip row) (n := i) (by
      rw [List.length_zip]
      omega)
    rw [List.getElem_zip, hget] at hmem
    exact hmem
  rw [firstCell]
  cases hfind : (scope.columns.zip row).find? fun p =>
      p.1.Stops { tableName := c.table.name, fieldName := c.field.name } with
  | none =>
    have hstops := List.find?_eq_none.mp hfind _ hzip
    rw [decide_eq_true_eq] at hstops
    exact absurd ⟨rfl, rfl⟩ hstops
  | some p =>
    have hp := List.mem_of_find?_eq_some hfind
    obtain ⟨htable, hname⟩ := holds_of_find? hfind
    have hp' := Scope.mem_columns.mp (List.of_mem_zip hp).1
    have hc' := Scope.mem_columns.mp hc
    have hsame : p.1.table = c.table := hscope.tables _ hp'.1 _ hc'.1 htable
    have hfield : p.1.field = c.field := by
      have hmem := hp'.2
      rw [hsame] at hmem
      exact List.inj_on_of_nodup_map (hscope.fields _ hc'.1) hmem hc'.2 hname
    refine ⟨p.2, rfl, ?_⟩
    rw [← hfield]
    exact (List.forall₂_iff_zip.mp htyped).2 hp

theorem finds_of_wellFormed (hscope : scope.Consistent) (hspans : Spans tuple.shape scope)
    (htyped : RowTyped scope.columns tuple.cells) (hform : expr.Throughout (WellFormed scope))
    (hcell : expr.Throughout NoCell) :
  Expression.Finds tuple expr
  := by
  cases expr with
  | field ref =>
    cases ref with
    | cell spec => exact hcell.elim
    | field t f =>
      obtain ⟨name, ht, hf⟩ := hform
      obtain ⟨v, hv, htype⟩ := firstCell_hasType (c := ⟨name, t, f⟩) hscope htyped
        (Scope.mem_columns.mpr ⟨ht, hf⟩)
      refine ⟨v, ?_, htype⟩
      rw [findCell_ok_iff, ← hv]
      exact (hspans.findCell_eq htyped.length_eq _).1
  | _ => exact trivial

/-- A date beside a text by the values would be one by the types. -/
theorem not_dateBesideText {v w : Value} {type type' : AttrType} (hv : v.HasType type)
    (hw : w.HasType type') (h : ¬ (type = .dates ∧ type'.isText)) :
  ¬ (v.attrType = .dates ∧ w.attrType.isText)
  := by
  rintro ⟨hdate, htext⟩
  have hv' : v ≠ .nulls := by
    rintro rfl
    cases hdate
  have hw' : w ≠ .nulls := by
    rintro rfl
    cases htext
  exact h ⟨(hv.attrType_eq_iff hv' rfl).mp hdate, (hw.isText_iff hw').mp htext⟩

theorem comparesAlike_of_finds (hform : expr.Throughout (WellFormed scope))
    (hfinds : expr.Throughout (Expression.Finds tuple)) :
  ComparesAlike tuple expr
  := by
  cases expr with
  | comparison comp left right =>
    intro v w hv hw
    obtain ⟨v', hv', htype⟩ := Expression.getValue_hasType left hfinds.2.1
    obtain ⟨w', hw', htype'⟩ := Expression.getValue_hasType right hfinds.2.2
    rw [hv] at hv'
    rw [hw] at hw'
    cases hv'
    cases hw'
    exact ⟨not_dateBesideText htype htype' hform.1.1, not_dateBesideText htype' htype hform.1.2⟩
  | _ => exact trivial

/-- A generated expression has a value of its type on every row, and compares no date with a
text. -/
theorem generate_sound (hdesc : g.tableDesc = scope.descs) (hscope : scope.Consistent)
    (hother : ∀ node expr, other node = .ok expr → expr.Throughout (WellFormed scope))
    {node : ExpressionSqlNode Q} (h : g.generate other node = .ok expr)
    (hcell : expr.Throughout NoCell) (hspans : Spans tuple.shape scope)
    (htyped : RowTyped scope.columns tuple.cells) :
  (∃ v, expr.getValue tuple = .ok v ∧ v.HasType expr.valueType)
    ∧ expr.Throughout (ComparesAlike tuple)
  := by
  have hform := wellFormed_generate hdesc hother node h
  have hfinds := Expression.Throughout.imp
    (fun _ => finds_of_wellFormed hscope hspans htyped) expr hform hcell
  exact ⟨Expression.getValue_hasType expr hfinds,
    Expression.Throughout.imp (fun _ => comparesAlike_of_finds) expr hform hfinds⟩

end

/-- A table with a date and a text. -/
def tableOfDates : TableMeta :=
  ⟨0, "t", [⟨"d", .dates, 0, 4, true, false⟩, ⟨"s", .chars, 4, 4, true, false⟩], 0, 8⟩

/-- The table with itself. -/
def scopeOfDates : Scope := [("a", tableOfDates), ("b", tableOfDates)]

/-- The generator for the two tables. -/
def generatorOfDates : ExpressionGenerator where
  tableDesc := scopeOfDates.descs
  fieldTableMap := .inOrder _

/-- Nothing but names and comparisons. -/
def noOther : ExpressionSqlNode Unit → Except Stop (TupleExpr .withoutFloats) :=
  fun _ => .error .assertion

/-- The date of the one and the text of the other. -/
def dateBesideText : ExpressionSqlNode Unit :=
  .binary (.comparison .lessThan) [] (.field [] [97] [100]) (.field [] [98] [115])

/-- `a.d < CAST(b.s AS DATE)`. -/
def dateBesideDate : TupleExpr .withoutFloats :=
  .comparison .lessThan (.field (.field tableOfDates ⟨"d", .dates, 0, 4, true, false⟩))
    (.cast (.field (.field tableOfDates ⟨"s", .chars, 4, 4, true, false⟩)) .dates)

/-- A row of the two tables. -/
def tupleOfDates : Tuple where
  shape := .joined (.row "t" ["d", "s"]) (.row "t" ["d", "s"])
  cells := [.dates 0, .chars [97], .nulls, .chars [98]]

theorem generate_sound_dates :
  (∃ v, dateBesideDate.getValue tupleOfDates = .ok v ∧ v.HasType .booleans)
    ∧ dateBesideDate.Throughout (ComparesAlike tupleOfDates)
  := by
  have hscope : scopeOfDates.Consistent := by
    constructor
    · intro t ht t' ht' _
      obtain rfl | rfl : t = _ ∨ t = _ := by simpa [scopeOfDates] using ht
      · obtain rfl | rfl : t' = _ ∨ t' = _ := by simpa [scopeOfDates] using ht'
        · rfl
        · rfl
      · obtain rfl | rfl : t' = _ ∨ t' = _ := by simpa [scopeOfDates] using ht'
        · rfl
        · rfl
    · intro t ht
      obtain rfl | rfl : t = _ ∨ t = _ := by simpa [scopeOfDates] using ht
      · decide
      · decide
  have hother : ∀ node expr, noOther node = .ok expr →
      expr.Throughout (WellFormed scopeOfDates) := by
    intro node expr h
    cases h
  have hgenerate : generatorOfDates.generate noOther dateBesideText = .ok dateBesideDate := rfl
  have hcell : dateBesideDate.Throughout NoCell := ⟨trivial, trivial, trivial, trivial⟩
  have hspans : Spans tupleOfDates.shape scopeOfDates :=
    .joined (.row "a" tableOfDates) (.row "b" tableOfDates)
  have htyped : RowTyped scopeOfDates.columns tupleOfDates.cells :=
    .cons (.inr (.inl rfl)) (.cons (.inr (.inl rfl)) (.cons (.inl rfl) (.cons (.inr (.inl rfl))
      .nil)))
  exact generate_sound rfl hscope hother hgenerate hcell hspans htyped

end MiniOB.Sql.Resolver
