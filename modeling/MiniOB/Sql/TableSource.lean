import MiniOB.Sql.Preservation
import MiniOB.Sql.ScanAgreement

/-!
# Statements over the tables of the storage

The scans of `TableData` as what the plans of statements are made over.
-/

namespace MiniOB.Sql

variable {F : Doubles} {data : TableData} {trxId : Int} {mode : ReadWriteMode} {after : Bytes}
  {predicates : List Predicate}

/-- The operand is a `FieldExpr`. -/
def Operand.isField : Operand → Bool
  | .field _ _ => true
  | _ => false

/-- The tuples of a statement over one table: its rows, and the cells of any other tuple. In the
fake tuple, no cell is found. -/
abbrev tableSignature (F : Doubles) (data : TableData) : Signature where
  doubles := F
  Tuple := TableRow ⊕ List Value
  fakeTuple := .inr []
  Comparison := Predicate
  compare predicate tuple :=
    match tuple with
    | .inl row => predicate.getValue F data row.2.data
    | .inr _ => .error (.rc .internal)
  isFieldEqual predicate :=
    predicate.comp = .equalTo ∧ (predicate.left.isField ∨ predicate.right.isField)

/-- The table, as a transaction reads it. -/
def TableData.access (F : Doubles) (data : TableData) (trxId : Int) (mode : ReadWriteMode)
    (after : Bytes) : TableAccess (tableSignature F data) where
  rows := (data.rows.filter (Visible trxId mode)).map Sum.inl
  indexScan predicates :=
    (createPlan data predicates).map fun (index, value) =>
      (IndexScan.rows F data predicates trxId mode index value after).map (List.map Sum.inl)
  indexScan_nil := rfl

theorem scanFilter_cons (row : TableRow) (predicate : Predicate) (predicates : List Predicate) :
  @scanFilter (tableSignature F data) (.inl row) (predicate :: predicates)
    = match predicate.getValue F data row.2.data with
      | .error stop => .error stop
      | .ok (some true) => @scanFilter (tableSignature F data) (.inl row) predicates
      | .ok _ => .ok false
  := rfl

theorem scanFilter_inl (row : TableRow) (predicates : List Predicate) :
  @scanFilter (tableSignature F data) (.inl row) predicates
    = TableScan.filter F data row.2.data predicates
  := by
  induction predicates with
  | nil => rfl
  | cons predicate predicates ih =>
    rw [scanFilter_cons, TableScan.filter, ← ih]
    cases predicate.getValue F data row.2.data with
    | error stop => rfl
    | ok truth => rcases truth with _ | _ | _ <;> rfl

theorem tableScan_cons (row : TableRow) (tuples : List (tableSignature F data).Tuple) :
  @tableScan (tableSignature F data) predicates (.inl row :: tuples)
    = match @scanFilter (tableSignature F data) (.inl row) predicates with
      | .error stop => .error stop
      | .ok true => (@tableScan (tableSignature F data) predicates tuples).map (.inl row :: ·)
      | .ok false => @tableScan (tableSignature F data) predicates tuples
  := rfl

theorem tableScan_inl (rows : List TableRow) :
  @tableScan (tableSignature F data) predicates ((rows.filter (Visible trxId mode)).map Sum.inl)
    = (TableScan.run F data predicates trxId mode rows).map (List.map Sum.inl)
  := by
  induction rows with
  | nil => rfl
  | cons row rows ih =>
    rw [TableScan.run]
    split_ifs with hvisit
    · have hnot : ¬ Visible trxId mode row := not_not.mpr hvisit
      rw [List.filter_cons_of_neg (by simpa using hnot), ih]
    · have hvisible : Visible trxId mode row := hvisit
      rw [List.filter_cons_of_pos (by simpa using hvisible), List.map_cons, tableScan_cons,
        scanFilter_inl, ih]
      cases TableScan.filter F data row.2.data predicates with
      | error stop => rfl
      | ok answer =>
        cases answer with
        | false => rfl
        | true => cases TableScan.run F data predicates trxId mode rows <;> rfl

/-- The scan of the visible rows is that of the table. -/
theorem tableScan_access :
  @tableScan (tableSignature F data) predicates (data.access F trxId mode after).rows
    = (TableScan.run F data predicates trxId mode data.rows).map (List.map Sum.inl)
  := tableScan_inl data.rows

/-- An index scan agrees with the scan of the table if the index serves. -/
theorem sameScan_of_serves {index : TableIndex} {value : Value} {rows : List TableRow}
    (hindex : IndexedBy data index)
    (htable : TableScan.run F data predicates trxId mode data.rows = .ok rows)
    (hserves : IndexServes F data predicates trxId mode index value after) :
  @SameScan (tableSignature F data)
    ((IndexScan.rows F data predicates trxId mode index value after).map (List.map Sum.inl))
    (@tableScan (tableSignature F data) predicates (data.access F trxId mode after).rows)
  := by
  obtain ⟨rows', hok, hperm⟩ := (IndexScan.rows_perm_iff hindex htable).mpr hserves
  rw [tableScan_access, htable, hok]
  exact hperm.map Sum.inl

/-! ### A condition that is never true -/

/-- `select 1 from t where 0`, of the table `t` of `nullTable`. -/
def selectNever : Stmt (tableSignature exactDoubles nullTable) :=
  .select {
    table := some (.table (nullTable.access exactDoubles 1 .readOnly fun _ => 0))
    aggregate := none
    filter := some (.value (.ints 0))
    project := fun _ => .ok (.inr [.ints 1]) }

theorem meaning_selectNever : selectNever.plan.meaning = { rows := [], stop := none } := by rfl

theorem constantlyFalse_selectNever : ConstantlyFalse selectNever.filter :=
  ⟨.ints 0, rfl, by simp [Value.getBoolean]⟩

/-- The condition is never true, and yet the rewritten plan delivers a row: without a child, its
projection takes it for a SELECT without a table. -/
theorem rewrite_not_preserves :
  ¬ ∀ (S : Signature) (stmt : Stmt S) (out : List S.Tuple),
    stmt.plan.meaning = { rows := out, stop := none } → Preserved stmt out
  := by
  intro h
  have hnot : selectNever.NotDelete := fun _ _ h => by cases h
  exact not_preserved_of_empty hnot constantlyFalse_selectNever meaning_selectNever
    (h _ selectNever [] meaning_selectNever)

/-- The table `t` with the row `7` and an index. -/
def sevenTable : TableData :=
  { nullTable with
    rows := [(⟨1, 0⟩, ⟨0, 0, fun i => if i = 4 then 7 else 0⟩)]
    indexes := [⟨⟨"a", .ints, 4, 4, true, true⟩, [([7, 0, 0, 0], ⟨1, 0⟩)]⟩] }

/-- `select 1 from t where a = 7`. -/
def selectSeven : Stmt (tableSignature exactDoubles sevenTable) :=
  .select {
    table := some (.table (sevenTable.access exactDoubles 1 .readOnly fun _ => 0))
    aggregate := none
    filter := some (.comparison ⟨.equalTo, .field "t" "a", .value (.ints 7)⟩)
    project := fun _ => .ok (.inr [.ints 1]) }

theorem pushed_selectSeven :
  selectSeven.pushed = some (sevenTable.access exactDoubles 1 .readOnly fun _ => 0,
    [⟨.equalTo, .field "t" "a", .value (.ints 7)⟩])
  := by rfl

theorem getValue_sevenTable :
  Predicate.getValue exactDoubles sevenTable (fun i => if i = 4 then 7 else 0)
    ⟨.equalTo, .field "t" "a", .value (.ints 7)⟩ = .ok (some true)
  := by with_unfolding_all rfl

theorem meaning_selectSeven :
  selectSeven.plan.meaning = { rows := [.inr [.ints 1]], stop := none }
  := by with_unfolding_all rfl

/-- One statement whose rows are lost, and one whose condition an index scan takes over. -/
theorem rewrite_preserves_iff_selects :
  ¬ Preserved selectNever [] ∧ Preserved selectSeven [.inr [.ints 1]]
  := by
  constructor
  · intro hpreserved
    exact (rewrite_preserves_iff selectNever meaning_selectNever).2 hpreserved
      constantlyFalse_selectNever
  · refine ((rewrite_preserves_iff selectSeven meaning_selectSeven).1 ?_).mpr ⟨?_, ?_⟩
    · intro table comparisons hpushed scan hscan
      rw [pushed_selectSeven] at hpushed
      cases hpushed
      have hrows : scan = .ok (sevenTable.access exactDoubles 1 .readOnly fun _ => 0).rows :=
        (Option.some.inj hscan).symm.trans (by with_unfolding_all rfl)
      have htable : @tableScan (tableSignature exactDoubles sevenTable)
          [⟨.equalTo, .field "t" "a", .value (.ints 7)⟩]
          (sevenTable.access exactDoubles 1 .readOnly fun _ => 0).rows
          = .ok (sevenTable.access exactDoubles 1 .readOnly fun _ => 0).rows := by
        with_unfolding_all rfl
      rw [hrows, htable]
      exact List.Perm.refl _
    · rintro ⟨v, ⟨⟩, -⟩
    · intro table comparisons hpushed row hrow
      rw [pushed_selectSeven] at hpushed
      cases hpushed
      obtain rfl := List.mem_singleton.mp hrow
      refine ⟨true, ?_⟩
      rw [scanFilter_cons, getValue_sevenTable]
      rfl

end MiniOB.Sql
