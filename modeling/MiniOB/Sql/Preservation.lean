import MiniOB.Sql.Rewriting

/-!
# When the rewritten plan of a statement delivers its rows

A statement is planned, rewritten and executed. Its rows are compared with those that its plan
means before it is rewritten.
-/

namespace MiniOB.Sql

variable {S : Signature} {stmt : Stmt S} {out : List S.Tuple} {ops : List (Oper S)}
  {plan plan' inner : Plan S} {physical : PhysicalPlan S} {d d' : Delivery S} {oper : Oper S}
  {table : TableAccess S} {expr : Expr S} {comparisons : List S.Comparison}

/-! ### Statements -/

/-- The operators above the filter of a statement, which is no DELETE. -/
def Stmt.upper : Stmt S → List (Oper S)
  | select stmt => .project stmt.project :: (stmt.aggregate.map Oper.group).toList
  | update _ _ => [.update]
  | delete _ _ => []

/-- The filter is a constant that is not true. -/
def ConstantlyFalse (filter : Option (Expr S)) : Prop :=
  ∃ v, filter = some (.value v) ∧ v.getBoolean S.doubles ≠ some true

/-- The filter is missing, or a constant that is true. -/
def ConstantlyTrue (filter : Option (Expr S)) : Prop :=
  ∀ expr, filter = some expr → ∃ v, expr = .value v ∧ v.getBoolean S.doubles = some true

/-- There is a physical plan for what a SELECT with this filter is rewritten to, and it does not
take the statement for one without a table. -/
def SelectStmt.Plannable (stmt : SelectStmt S) : Prop :=
  if stmt.table.isSome then ¬ ConstantlyFalse stmt.filter
  else stmt.aggregate = none ∧ ConstantlyTrue stmt.filter

/-- The same for any statement. -/
def Stmt.Plannable : Stmt S → Prop
  | select stmt => stmt.Plannable
  | update _ filter => ¬ ConstantlyFalse filter
  | delete _ _ => True

/-- The table whose scan takes over comparisons of the filter, and these comparisons. -/
def Stmt.pushed : Stmt S → Option (TableAccess S × List S.Comparison)
  | select stmt =>
    match stmt.table, stmt.filter with
    | some (.table table), some expr => some (table, (getExprsCanPushdown expr).2)
    | _, _ => none
  | update table (some expr) => some (table, (getExprsCanPushdown expr).2)
  | _ => none

/-- The scan with the comparisons is not stopped at any row of the table. -/
def Stmt.Answers (stmt : Stmt S) : Prop :=
  ∀ table comparisons, stmt.pushed = some (table, comparisons) →
    ∀ row ∈ table.rows, ∃ answer, scanFilter row comparisons = .ok answer

/-- The two scans deliver the same rows, or both are stopped. -/
def SameScan : Except Stop (List S.Tuple) → Except Stop (List S.Tuple) → Prop
  | .ok rows, .ok rows' => rows.Perm rows'
  | .error _, .error _ => True
  | _, _ => False

/-- Where an index scan is planned for the comparisons, it agrees with the scan of the table. -/
def Stmt.IndexAgrees (stmt : Stmt S) : Prop :=
  ∀ table comparisons, stmt.pushed = some (table, comparisons) →
    ∀ scan, table.indexScan comparisons = some scan →
      SameScan scan (tableScan comparisons table.rows)

/-- The rewritten plan has a physical plan, which delivers the rows `out`. -/
def Preserved (stmt : Stmt S) (out : List S.Tuple) : Prop :=
  ∃ plan physical, Settles stmt.plan plan ∧ createPhysicalPlan plan = .ok physical
    ∧ physical.run.stop = none ∧ physical.run.rows.Perm out

/-! ### Executing plans -/

theorem createPhysicalPlan_oper {child : Plan S} (hchild : child ≠ .empty) :
  createPhysicalPlan (.oper oper child) = (createPhysicalPlan child).map (.oper oper)
  := by
  rw [createPhysicalPlan]
  · rintro eval rfl rfl
    exact hchild rfl
  · rintro aggregate rfl rfl
    exact hchild rfl

/-- The operators above a plan stand above its physical plan, if it has one. -/
theorem createPhysicalPlan_above (hplan : plan ≠ .empty) :
  createPhysicalPlan (above ops plan) = (createPhysicalPlan plan).map (ops.foldr .oper)
  := by
  induction ops with
  | nil =>
    change createPhysicalPlan plan = _
    cases createPhysicalPlan plan <;> rfl
  | cons op ops ih =>
    have hne : above ops plan ≠ .empty := by
      cases ops with
      | nil => exact hplan
      | cons op' ops => simp [above]
    change createPhysicalPlan (.oper op (above ops plan)) = _
    rw [createPhysicalPlan_oper hne, ih]
    cases createPhysicalPlan plan <;> rfl

/-- The operator is no DELETE, and so stopped where its child is. -/
def Oper.Stoppable (oper : Oper S) : Prop := ∀ filter, oper ≠ .delete filter

theorem Oper.stop_of_run (hoper : oper.Stoppable) (h : (oper.run d).stop = none) :
  d.stop = none
  := by
  cases oper with
  | predicate expr => exact (keep_stop.mp h).1
  | project eval => exact (projected_stop.mp h).1
  | group aggregate =>
    rw [Oper.run] at h
    split at h
    · assumption
    · cases h
  | update =>
    rw [Oper.run] at h
    split_ifs at h with hstop
    · exact hstop
    · exact h
  | delete filter => exact absurd rfl (hoper filter)

theorem stop_of_run_above (hops : ∀ op ∈ ops, op.Stoppable)
    (h : (ops.foldr Oper.run d).stop = none) :
  d.stop = none
  := by
  induction ops with
  | nil => exact h
  | cons op ops ih =>
    apply ih fun op' hmem => hops op' (List.mem_cons_of_mem _ hmem)
    exact Oper.stop_of_run (hops op List.mem_cons_self) h

theorem run_above_refines (hops : ∀ op ∈ ops, op.Stoppable) (h : d.Refines d') :
  (ops.foldr Oper.run d).Refines (ops.foldr Oper.run d')
  := by
  induction ops with
  | nil => exact h
  | cons op ops ih =>
    have ih := ih fun op' hmem => hops op' (List.mem_cons_of_mem _ hmem)
    exact Oper.run_refines (hops op List.mem_cons_self) ih

theorem run_foldr (ops : List (Oper S)) (physical : PhysicalPlan S) :
  (ops.foldr PhysicalPlan.oper physical).run = ops.foldr Oper.run physical.run
  := by
  induction ops with
  | nil => rfl
  | cons op ops ih =>
    change op.run (ops.foldr PhysicalPlan.oper physical).run = _
    rw [ih]
    rfl

theorem meaning_above (ops : List (Oper S)) (plan : Plan S) :
  (above ops plan).meaning = ops.foldr Oper.run plan.meaning
  := by
  induction ops with
  | nil => rfl
  | cons op ops ih =>
    change op.run (above ops plan).meaning = _
    rw [ih]
    rfl

/-! ### The plan of a statement -/

/-- The plan of a SELECT or an UPDATE without operators. -/
def Stmt.source : Stmt S → Plan S
  | select stmt => stmt.source
  | update table _ => .tableGet table []
  | delete table _ => .tableGet table []

/-- The condition of a SELECT or an UPDATE. -/
def Stmt.filter : Stmt S → Option (Expr S)
  | select stmt => stmt.filter
  | update _ filter => filter
  | delete _ _ => none

/-- The statement is a SELECT or an UPDATE. -/
def Stmt.NotDelete (stmt : Stmt S) : Prop := ∀ table filter, stmt ≠ .delete table filter

theorem Stmt.plan_eq (h : stmt.NotDelete) :
  stmt.plan = above stmt.upper (filtered stmt.filter stmt.source)
  := by
  cases stmt with
  | select stmt =>
    rw [Stmt.plan]
    cases haggregate : stmt.aggregate <;> simp [Stmt.upper, haggregate, above, Stmt.filter, Stmt.source]
  | update table filter => rfl
  | delete table filter => exact absurd rfl (h table filter)

theorem Stmt.source_leaf : stmt.source.Leaf := by
  cases stmt with
  | select stmt =>
    rw [Stmt.source, SelectStmt.source]
    cases stmt.table with
    | none => simp [Plan.Leaf]
    | some table => cases table <;> simp [Plan.Leaf, FromClause.plan]
  | update table filter => simp [Plan.Leaf, Stmt.source]
  | delete table filter => simp [Plan.Leaf, Stmt.source]

theorem Stmt.upper_eq (h : stmt.NotDelete) :
  ∃ ops oper, stmt.upper = ops ++ [oper] ∧ (∀ op ∈ ops, op.Upper) ∧ oper.Upper
    ∧ ∀ op ∈ stmt.upper, op.Stoppable
  := by
  cases stmt with
  | select stmt =>
    cases haggregate : stmt.aggregate with
    | none =>
      exact ⟨[], .project stmt.project, by simp [Stmt.upper, haggregate],
        by simp, by simp [Oper.Upper], by simp [Stmt.upper, haggregate, Oper.Stoppable]⟩
    | some aggregate =>
      exact ⟨[.project stmt.project], .group aggregate, by simp [Stmt.upper, haggregate],
        by simp [Oper.Upper], by simp [Oper.Upper], by simp [Stmt.upper, haggregate, Oper.Stoppable]⟩
  | update table filter =>
    exact ⟨[], .update, rfl, by simp, by simp [Oper.Upper], by simp [Stmt.upper, Oper.Stoppable]⟩
  | delete table filter => exact absurd rfl (h table filter)

/-- What the plan of a statement is rewritten to. -/
theorem Stmt.settles (h : stmt.NotDelete) :
  Settles stmt.plan (above stmt.upper (rewrittenSource stmt.filter stmt.source))
  := by
  obtain ⟨ops, oper, hupper, hops, hoper, -⟩ := Stmt.upper_eq h
  rw [Stmt.plan_eq h, hupper]
  exact settles_filtered stmt.filter hops hoper Stmt.source_leaf

theorem preserved_iff (h : stmt.NotDelete) :
  Preserved stmt out
    ↔ ∃ physical,
      createPhysicalPlan (above stmt.upper (rewrittenSource stmt.filter stmt.source)) = .ok physical
        ∧ physical.run.stop = none ∧ physical.run.rows.Perm out
  := by
  constructor
  · rintro ⟨plan, physical, hsettles, hplan⟩
    cases hsettles.unique (Stmt.settles h)
    exact ⟨physical, hplan⟩
  · rintro ⟨physical, hplan⟩
    exact ⟨_, physical, Stmt.settles h, hplan⟩

/-- If a plan is executed with the rows that another one means, the operators above them do not
see a difference. -/
theorem preserved_of_refines (h : stmt.NotDelete)
    (hinner : createPhysicalPlan (rewrittenSource stmt.filter stmt.source) = .ok physical)
    (hrefines : physical.run.Refines (filtered stmt.filter stmt.source).meaning)
    (hmeaning : stmt.plan.meaning = { rows := out, stop := none }) :
  Preserved stmt out
  := by
  obtain ⟨ops, oper, -, -, -, hstoppable⟩ := Stmt.upper_eq h
  have hne : rewrittenSource stmt.filter stmt.source ≠ .empty := by
    intro hempty
    rw [hempty] at hinner
    cases hinner
  rw [preserved_iff h]
  have hphysical : createPhysicalPlan (above stmt.upper (rewrittenSource stmt.filter stmt.source))
      = .ok (stmt.upper.foldr .oper physical) := by
    rw [createPhysicalPlan_above hne, hinner]
    rfl
  refine ⟨_, hphysical, ?_⟩
  rw [Stmt.plan_eq h, meaning_above] at hmeaning
  have hrun := run_above_refines hstoppable hrefines
  rw [hmeaning] at hrun
  rw [run_foldr]
  exact hrun rfl

/-- A plan below the operators whose scan is stopped delivers nothing. -/
theorem stop_of_preserved (h : stmt.NotDelete)
    (hinner : createPhysicalPlan (rewrittenSource stmt.filter stmt.source) = .ok physical)
    (hpreserved : Preserved stmt out) :
  physical.run.stop = none
  := by
  obtain ⟨ops, oper, -, -, -, hstoppable⟩ := Stmt.upper_eq h
  have hne : rewrittenSource stmt.filter stmt.source ≠ .empty := by
    intro hempty
    rw [hempty] at hinner
    cases hinner
  obtain ⟨physical', hplan, hstop, -⟩ := (preserved_iff h).mp hpreserved
  rw [createPhysicalPlan_above hne, hinner] at hplan
  cases hplan
  rw [run_foldr] at hstop
  exact stop_of_run_above hstoppable hstop

/-! ### The source of a statement -/

theorem tableScan_nil (rows : List S.Tuple) : tableScan [] rows = .ok rows := by
  rw [tableScan_iff]
  refine ⟨fun row _ => ⟨true, rfl⟩, ?_⟩
  simp [scanFilter]

theorem meaning_tableGet (table : TableAccess S) :
  (Plan.tableGet table []).meaning = { rows := table.rows, stop := none }
  := by
  rw [Plan.meaning, tableScan_nil]
  rfl

theorem access_nil (table : TableAccess S) :
  table.access [] = { rows := table.rows, stop := none }
  := by
  rw [TableAccess.access, table.indexScan_nil, tableScan_nil]
  rfl

/-- A predicate that is true keeps what it gets. -/
theorem keep_true {v : Value} (h : v.getBoolean S.doubles = some true) (stop : Option Stop)
    (rows : List S.Tuple) :
  keep (.value v) stop rows = { rows, stop }
  := by
  induction rows with
  | nil => rfl
  | cons row rows ih =>
    rw [keep, Expr.getValue]
    dsimp only
    rw [if_pos h, ih]
    rfl

/-- A condition that is always true is taken away. -/
theorem rewrittenSource_of_true {filter : Option (Expr S)} (h : ConstantlyTrue filter) :
  rewrittenSource filter plan = plan
  := by
  cases filter with
  | none => rfl
  | some expr =>
    obtain ⟨v, rfl, hv⟩ := h expr rfl
    rw [rewrittenSource, if_pos hv]

theorem meaning_filtered_of_true {filter : Option (Expr S)} (h : ConstantlyTrue filter) :
  (filtered filter plan).meaning = plan.meaning
  := by
  cases filter with
  | none => rfl
  | some expr =>
    obtain ⟨v, rfl, hv⟩ := h expr rfl
    rw [filtered, Plan.meaning, Oper.run, keep_true hv]

/-- A predicate that is constantly not true keeps nothing. -/
theorem keep_false {v : Value} (h : v.getBoolean S.doubles ≠ some true) (stop : Option Stop)
    (rows : List S.Tuple) :
  keep (.value v) stop rows = { rows := [], stop }
  := by
  induction rows with
  | nil => rfl
  | cons row rows ih =>
    rw [keep, Expr.getValue]
    dsimp only
    rw [if_neg h, ih]

/-- The scan of a table by which the comparisons are taken over refines that of the table. -/
theorem access_refines
    (hindex : ∀ scan, table.indexScan comparisons = some scan →
      SameScan scan (tableScan comparisons table.rows)) :
  (table.access comparisons).Refines (scanned (tableScan comparisons table.rows))
  := by
  rw [TableAccess.access]
  cases hscan : table.indexScan comparisons with
  | none => exact .refl _
  | some scan =>
    have hsame := hindex scan hscan
    cases scan with
    | error stop =>
      cases htable : tableScan comparisons table.rows with
      | error stop' => exact fun h => by cases h
      | ok rows => simp [htable, SameScan] at hsame
    | ok rows =>
      cases htable : tableScan comparisons table.rows with
      | error stop' => exact fun h => by cases h
      | ok rows' =>
        rw [htable] at hsame
        exact fun _ => ⟨rfl, hsame⟩

/-- If it comes to its end, so does the scan of the table. -/
theorem answers_of_access
    (hindex : ∀ scan, table.indexScan comparisons = some scan →
      SameScan scan (tableScan comparisons table.rows))
    (h : (table.access comparisons).stop = none) :
  ∀ row ∈ table.rows, ∃ answer, scanFilter row comparisons = .ok answer
  := by
  cases htable : tableScan comparisons table.rows with
  | ok rows => exact (tableScan_iff.mp htable).1
  | error stop =>
    rw [TableAccess.access] at h
    cases hscan : table.indexScan comparisons with
    | none =>
      rw [hscan, htable] at h
      cases h
    | some scan =>
      have hsame := hindex scan hscan
      rw [hscan] at h
      cases scan with
      | error stop' => cases h
      | ok rows => simp [htable, SameScan] at hsame

/-- The physical plan of a filtered table. -/
theorem createPhysicalPlan_table (hvalue : ∀ v, expr ≠ .value v) :
  ∃ physical, createPhysicalPlan (rewrittenSource (some expr) (.tableGet table [])) = .ok physical
    ∧ physical.run = (Oper.predicate ((getExprsCanPushdown expr).1.getD (.value (.booleans true)))).run
        (table.access (getExprsCanPushdown expr).2)
  := by
  rw [rewrittenSource_tableGet hvalue]
  by_cases hnone : (getExprsCanPushdown expr).2.isEmpty
  · have hnil := List.isEmpty_iff.mp hnone
    rw [if_pos hnone, hnil, rest_of_pushed_nil expr hnil]
    refine ⟨_, createPhysicalPlan_oper (by simp), rfl⟩
  · rw [if_neg hnone]
    cases hrest : (getExprsCanPushdown expr).1 with
    | none =>
      refine ⟨_, rfl, ?_⟩
      rw [Option.getD_none, Oper.run, keep_true rfl]
      rfl
    | some rest => exact ⟨_, createPhysicalPlan_oper (by simp), rfl⟩

/-! ### When the rows are the same -/

/-- What is asked of a statement. -/
def Stmt.Kept (stmt : Stmt S) (out : List S.Tuple) : Prop :=
  (stmt.IndexAgrees → (Preserved stmt out ↔ stmt.Plannable ∧ stmt.Answers))
    ∧ (Preserved stmt out → stmt.Plannable)

/-- Where nothing is pushed down, it is enough to know when the rows are the same. -/
theorem kept_of_iff (hpushed : stmt.pushed = none ∨ ∃ table, stmt.pushed = some (table, []))
    (h : Preserved stmt out ↔ stmt.Plannable) :
  stmt.Kept out
  := by
  have hanswers : stmt.Answers := by
    intro table comparisons heq row _
    obtain hnone | ⟨table', hnil⟩ := hpushed
    · rw [hnone] at heq
      cases heq
    · rw [hnil] at heq
      cases heq
      exact ⟨true, rfl⟩
  refine ⟨fun _ => ⟨fun hpreserved => ⟨h.mp hpreserved, hanswers⟩, fun hboth => h.mpr hboth.1⟩, h.mp⟩

/-- A condition over a table, which is no constant. -/
theorem kept_of_pushed (hnot : stmt.NotDelete) (hplannable : stmt.Plannable)
    (hfilter : stmt.filter = some expr) (hvalue : ∀ v, expr ≠ .value v)
    (hsource : stmt.source = .tableGet table [])
    (hpushed : stmt.pushed = some (table, (getExprsCanPushdown expr).2))
    (hmeaning : stmt.plan.meaning = { rows := out, stop := none }) :
  stmt.Kept out
  := by
  obtain ⟨physical, hinner, hrun⟩ := @createPhysicalPlan_table _ table _ hvalue
  rw [← hfilter, ← hsource] at hinner
  have hvalues : ∀ row ∈ table.rows, ∃ v, expr.getValue row = .ok v := by
    obtain ⟨ops, oper, -, -, -, hstoppable⟩ := Stmt.upper_eq hnot
    rw [Stmt.plan_eq hnot, meaning_above, hfilter, hsource] at hmeaning
    have hstop := stop_of_run_above hstoppable (by rw [hmeaning])
    rw [filtered, Plan.meaning, meaning_tableGet] at hstop
    exact (keep_stop.mp hstop).2
  refine ⟨?_, fun _ => hplannable⟩
  intro hindex
  have hindex := hindex table _ hpushed
  constructor
  · intro hpreserved
    have hstop := stop_of_preserved hnot hinner hpreserved
    rw [hrun] at hstop
    have haccess := Oper.stop_of_run (by simp [Oper.Stoppable]) hstop
    refine ⟨hplannable, ?_⟩
    intro table' comparisons heq
    rw [hpushed] at heq
    cases heq
    exact answers_of_access hindex haccess
  · rintro ⟨-, hanswers⟩
    apply preserved_of_refines hnot hinner _ hmeaning
    have hrest := keep_rest hvalues (hanswers table _ hpushed)
    rw [hrun, hfilter, hsource, filtered, Plan.meaning, meaning_tableGet]
    change Delivery.Refines _ (keep expr none table.rows)
    rw [← hrest]
    exact Oper.run_refines (by simp) (access_refines hindex)

/-- No comparisons have been pushed down yet. -/
theorem Stmt.source_tableGet (h : stmt.source = .tableGet table comparisons) :
  comparisons = []
  := by
  cases stmt with
  | select stmt =>
    rw [Stmt.source, SelectStmt.source] at h
    cases htable : stmt.table with
    | none =>
      rw [htable] at h
      cases h
    | some clause =>
      rw [htable] at h
      cases clause <;> cases h
      rfl
  | update table' filter =>
    cases h
    rfl
  | delete table' filter =>
    cases h
    rfl

theorem Stmt.pushed_eq (hnot : stmt.NotDelete) :
  stmt.pushed
    = match stmt.source, stmt.filter with
      | .tableGet table _, some expr => some (table, (getExprsCanPushdown expr).2)
      | _, _ => none
  := by
  cases stmt with
  | select stmt =>
    rw [Stmt.pushed, Stmt.source, SelectStmt.source, Stmt.filter]
    cases stmt.table with
    | none => rfl
    | some clause => cases clause <;> cases stmt.filter <;> rfl
  | update table filter => cases filter <;> rfl
  | delete table filter => exact absurd rfl (hnot table filter)

/-- The source of a statement with a table or a join is executed as it is meant. -/
theorem createPhysicalPlan_source (hsource : stmt.source ≠ .empty) :
  ∃ physical, createPhysicalPlan stmt.source = .ok physical ∧ physical.run = stmt.source.meaning
  := by
  have hleaf := @Stmt.source_leaf _ stmt
  cases h : stmt.source with
  | empty => exact absurd h hsource
  | tableGet table comparisons =>
    obtain rfl := Stmt.source_tableGet h
    exact ⟨_, rfl, by rw [meaning_tableGet]; exact access_nil table⟩
  | join d => exact ⟨_, rfl, rfl⟩
  | oper op child => exact absurd h (hleaf op child)

/-- A filter that is no constant is no value. -/
theorem condition_of_not_constant {filter : Option (Expr S)} (htrue : ¬ ConstantlyTrue filter)
    (hfalse : ¬ ConstantlyFalse filter) :
  ∃ expr, filter = some expr ∧ ∀ v, expr ≠ .value v
  := by
  cases filter with
  | none => exact absurd (fun expr h => by cases h) htrue
  | some expr =>
    refine ⟨expr, rfl, ?_⟩
    rintro v rfl
    by_cases hv : v.getBoolean S.doubles = some true
    · refine htrue fun expr h => ?_
      cases h
      exact ⟨v, rfl, hv⟩
    · exact hfalse ⟨v, rfl, hv⟩

/-- Without a condition over the source, or with one that is not pushed down, nothing changes. -/
theorem preserved_of_source (hnot : stmt.NotDelete) (hsource : stmt.source ≠ .empty)
    (hfilter : ¬ ConstantlyFalse stmt.filter)
    (htable : ∀ expr, stmt.filter = some expr → (∀ v, expr ≠ .value v) →
      ∀ table comparisons, stmt.source ≠ .tableGet table comparisons)
    (hmeaning : stmt.plan.meaning = { rows := out, stop := none }) :
  Preserved stmt out
  := by
  obtain ⟨physical, hphysical, hrun⟩ := createPhysicalPlan_source hsource
  by_cases htrue : ConstantlyTrue stmt.filter
  · refine preserved_of_refines hnot (?_ : createPhysicalPlan _ = .ok physical) ?_ hmeaning
    · rw [rewrittenSource_of_true htrue, hphysical]
    · rw [meaning_filtered_of_true htrue, hrun]
      exact .refl _
  · obtain ⟨expr, hcondition, hvalue⟩ := condition_of_not_constant htrue hfilter
    refine preserved_of_refines hnot
      (?_ : createPhysicalPlan _ = .ok (.oper (.predicate expr) physical)) ?_ hmeaning
    · rw [hcondition, rewrittenSource_of_ne hvalue (htable expr hcondition hvalue),
        createPhysicalPlan_oper hsource, hphysical]
      rfl
    · rw [hcondition, filtered, Plan.meaning, PhysicalPlan.run, hrun]
      exact .refl _

/-- A SELECT that is rewritten to one without a table has a row, or none at all. -/
theorem not_preserved_of_empty (hnot : stmt.NotDelete) (hfilter : ConstantlyFalse stmt.filter)
    (hmeaning : stmt.plan.meaning = { rows := out, stop := none }) :
  ¬ Preserved stmt out
  := by
  obtain ⟨v, hcondition, hfalse⟩ := hfilter
  rw [preserved_iff hnot, hcondition, rewrittenSource, if_neg hfalse]
  rintro ⟨physical, hphysical, hstop, hperm⟩
  cases stmt with
  | update table filter => cases hphysical
  | delete table filter => exact hnot table filter rfl
  | select stmt =>
    cases haggregate : stmt.aggregate with
    | some aggregate =>
      rw [Stmt.upper, haggregate] at hphysical
      cases hphysical
    | none =>
      rw [Stmt.plan_eq hnot, hcondition, meaning_above, filtered, Plan.meaning, Oper.run,
        keep_false hfalse, Stmt.upper, haggregate] at hmeaning
      rw [Stmt.upper, haggregate] at hphysical
      cases hphysical
      have hout : out = [] := by
        injection hmeaning with hrows
        exact hrows.symm
      rw [hout, List.perm_nil, PhysicalPlan.run, Oper.run, projected] at hperm
      rw [PhysicalPlan.run, Oper.run, projected] at hstop
      cases heval : stmt.project S.fakeTuple with
      | error stop =>
        rw [heval] at hstop
        cases hstop
      | ok tuple =>
        rw [heval] at hperm
        cases hperm

theorem Stmt.source_of_no_table {stmt : SelectStmt S} (htable : stmt.table = none) :
  (Stmt.select stmt).source = .empty
  := by
  rw [Stmt.source, SelectStmt.source, htable]
  rfl

/-- Without a table, the plan of a SELECT that is rewritten to a condition or to an aggregation
has no physical plan. -/
theorem plannable_of_no_table {stmt : SelectStmt S} (htable : stmt.table = none)
    (hmeaning : (Stmt.select stmt).plan.meaning = { rows := out, stop := none })
    (hpreserved : Preserved (.select stmt) out) :
  stmt.aggregate = none ∧ ConstantlyTrue stmt.filter
  := by
  have hnot : (Stmt.select stmt).NotDelete := fun _ _ h => by cases h
  have hsource := Stmt.source_of_no_table htable
  have htrue : ConstantlyTrue stmt.filter := by
    intro expr hfilter
    obtain ⟨v, rfl⟩ | hvalue := value_or_ne expr
    · refine ⟨v, rfl, ?_⟩
      by_contra hfalse
      exact not_preserved_of_empty hnot ⟨v, hfilter, hfalse⟩ hmeaning hpreserved
    · obtain ⟨physical, hphysical, -⟩ := (preserved_iff hnot).mp hpreserved
      rw [hsource, Stmt.filter, hfilter, rewrittenSource_of_ne hvalue (by simp),
        createPhysicalPlan_above (by simp)] at hphysical
      cases hphysical
  refine ⟨?_, htrue⟩
  obtain ⟨physical, hphysical, -⟩ := (preserved_iff hnot).mp hpreserved
  rw [hsource, Stmt.filter, rewrittenSource_of_true htrue, Stmt.upper] at hphysical
  cases haggregate : stmt.aggregate with
  | none => rfl
  | some aggregate =>
    rw [haggregate] at hphysical
    cases hphysical

/-- Without a table, an aggregation and a condition, a SELECT has one row. -/
theorem preserved_of_no_table {stmt : SelectStmt S} (htable : stmt.table = none)
    (haggregate : stmt.aggregate = none) (htrue : ConstantlyTrue stmt.filter)
    (hmeaning : (Stmt.select stmt).plan.meaning = { rows := out, stop := none }) :
  Preserved (.select stmt) out
  := by
  have hnot : (Stmt.select stmt).NotDelete := fun _ _ h => by cases h
  have hsource := Stmt.source_of_no_table htable
  rw [Stmt.plan_eq hnot, hsource, meaning_above, Stmt.filter, Stmt.upper, haggregate,
    meaning_filtered_of_true htrue] at hmeaning
  rw [preserved_iff hnot, hsource, Stmt.filter, rewrittenSource_of_true htrue, Stmt.upper,
    haggregate]
  have hrun : (PhysicalPlan.constSelect stmt.project).run = { rows := out, stop := none } := hmeaning
  refine ⟨.constSelect stmt.project, rfl, ?_⟩
  rw [hrun]
  exact ⟨rfl, .refl _⟩

/-- A statement with a table or a join. -/
theorem kept_of_source (hnot : stmt.NotDelete) (hsource : stmt.source ≠ .empty)
    (hplannable : stmt.Plannable ↔ ¬ ConstantlyFalse stmt.filter)
    (hmeaning : stmt.plan.meaning = { rows := out, stop := none }) :
  stmt.Kept out
  := by
  have hpushed := Stmt.pushed_eq hnot
  have hiff : (∀ expr, stmt.filter = some expr → (∀ v, expr ≠ .value v) →
        ∀ table comparisons, stmt.source ≠ .tableGet table comparisons) →
      (Preserved stmt out ↔ stmt.Plannable) := by
    intro htable
    rw [hplannable]
    exact ⟨fun hpreserved hfalse => not_preserved_of_empty hnot hfalse hmeaning hpreserved,
      fun hfilter => preserved_of_source hnot hsource hfilter htable hmeaning⟩
  cases hfilter : stmt.filter with
  | none =>
    rw [hfilter] at hiff
    refine kept_of_iff (.inl ?_) (hiff (by simp))
    rw [hpushed, hfilter]
    split <;> simp_all
  | some expr =>
    obtain ⟨v, rfl⟩ | hvalue := value_or_ne expr
    · rw [hfilter] at hiff
      refine kept_of_iff ?_ (hiff ?_)
      · rw [hpushed, hfilter]
        cases stmt.source with
        | tableGet table comparisons => exact .inr ⟨table, rfl⟩
        | _ => exact .inl rfl
      · rintro expr heq hne
        cases heq
        exact absurd rfl (hne v)
    · cases htable : stmt.source with
      | empty => exact absurd htable hsource
      | oper op child => exact absurd htable (Stmt.source_leaf op child)
      | join d =>
        refine kept_of_iff (.inl ?_) (hiff ?_)
        · rw [hpushed, htable]
        · rw [htable]
          simp
      | tableGet table comparisons =>
        obtain rfl := Stmt.source_tableGet htable
        rw [htable, hfilter] at hpushed
        have hconst : ¬ ConstantlyFalse stmt.filter := by
          rintro ⟨v, heq, -⟩
          rw [hfilter] at heq
          cases heq
          exact hvalue v rfl
        exact kept_of_pushed hnot (hplannable.mpr hconst) hfilter hvalue htable hpushed hmeaning

/-- The plan of a DELETE is not rewritten. -/
theorem preserved_delete {filter : Option (Expr S)}
    (hmeaning : (Stmt.delete table filter).plan.meaning = { rows := out, stop := none }) :
  Preserved (.delete table filter) out
  := by
  have hsettles : Settles (Stmt.delete table filter).plan (Stmt.delete table filter).plan :=
    @settles_leaf _ [.delete filter] (.tableGet table []) (by simp [Oper.Upper]) (by simp [Plan.Leaf])
  refine ⟨_, _, hsettles, rfl, ?_⟩
  have hrun : (PhysicalPlan.oper (.delete filter) (.scan (table.access []))).run
      = { rows := out, stop := none } := by
    rw [← hmeaning, PhysicalPlan.run, PhysicalPlan.run, access_nil, Stmt.plan, Plan.meaning,
      meaning_tableGet]
  rw [hrun]
  exact ⟨rfl, .refl _⟩

/-- The rewritten plan of a SELECT, an UPDATE or a DELETE delivers the rows that its plan means
exactly if it is still planned as one of its table and its scan is not stopped, as long as index
scans agree with the scans of their tables. The first is asked for in any case. -/
theorem rewrite_preserves_iff (stmt : Stmt S)
    (hmeaning : stmt.plan.meaning = { rows := out, stop := none }) :
  (stmt.IndexAgrees → (Preserved stmt out ↔ stmt.Plannable ∧ stmt.Answers))
    ∧ (Preserved stmt out → stmt.Plannable)
  := by
  cases stmt with
  | delete table filter =>
    exact kept_of_iff (.inl rfl) (iff_of_true (preserved_delete hmeaning) trivial)
  | update table filter =>
    exact kept_of_source (fun _ _ h => by cases h) (by simp [Stmt.source]) .rfl hmeaning
  | select stmt =>
    cases htable : stmt.table with
    | none =>
      apply kept_of_iff (.inl (by rw [Stmt.pushed, htable]))
      rw [Stmt.Plannable, SelectStmt.Plannable, htable]
      exact ⟨plannable_of_no_table htable hmeaning,
        fun h => preserved_of_no_table htable h.1 h.2 hmeaning⟩
    | some clause =>
      apply kept_of_source (fun _ _ h => by cases h) _ _ hmeaning
      · rw [Stmt.source, SelectStmt.source, htable]
        cases clause <;> simp [FromClause.plan]
      · rw [Stmt.Plannable, SelectStmt.Plannable, htable]
        rfl

end MiniOB.Sql
