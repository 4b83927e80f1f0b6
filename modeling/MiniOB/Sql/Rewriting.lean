import MiniOB.Sql.Plan

/-!
# When rewriting a plan preserves what it means

A predicate that has become `true` is taken away, and comparisons with a field are moved into the
scan of the table. Both leave what the plan means. A predicate that is constantly false takes
everything below its parent away, and the parent does not know.
-/

namespace MiniOB.Sql

variable {S : Signature} {expr : Expr S} {rows : List S.Tuple} {stop : Option Stop}
  {d d' : Delivery S} {table : TableAccess S} {comparisons : List S.Comparison}
  {plan plan' result : Plan S} {oper : Oper S}

/-! ### What the operators deliver -/

theorem keep_stop :
  (keep expr stop rows).stop = none
    ↔ stop = none ∧ ∀ row ∈ rows, ∃ v, expr.getValue row = .ok v
  := by
  induction rows with
  | nil => simp [keep]
  | cons row rows ih =>
    rw [keep, List.forall_mem_cons]
    cases hvalue : expr.getValue row with
    | error stop => simp
    | ok v =>
      dsimp only
      split_ifs <;> simp [Delivery.cons, ih]

theorem keep_rows (h : (keep expr stop rows).stop = none) :
  (keep expr stop rows).rows = rows.filter fun row => expr.IsTrue row
  := by
  induction rows with
  | nil => rfl
  | cons row rows ih =>
    rw [keep] at h ⊢
    cases hvalue : expr.getValue row with
    | error stop =>
      rw [hvalue] at h
      cases h
    | ok v =>
      rw [hvalue] at h
      dsimp only at h ⊢
      split_ifs at h ⊢ with htrue
      · have hrow : expr.IsTrue row := ⟨v, hvalue, htrue⟩
        rw [List.filter_cons_of_pos (by simpa using hrow), ← ih h]
        rfl
      · have hrow : ¬ expr.IsTrue row := by
          rintro ⟨v', hvalue', htrue'⟩
          rw [hvalue] at hvalue'
          cases hvalue'
          exact htrue htrue'
        rw [List.filter_cons_of_neg (by simpa using hrow), ← ih h]

theorem projected_stop {eval : S.Tuple → Except Stop S.Tuple} :
  (projected eval stop rows).stop = none
    ↔ stop = none ∧ ∀ row ∈ rows, ∃ tuple, eval row = .ok tuple
  := by
  induction rows with
  | nil => simp [projected]
  | cons row rows ih =>
    rw [projected, List.forall_mem_cons]
    cases eval row <;> simp [Delivery.cons, ih]

theorem projected_rows {eval : S.Tuple → Except Stop S.Tuple}
    (h : (projected eval stop rows).stop = none) :
  (projected eval stop rows).rows = rows.filterMap fun row => (eval row).toOption
  := by
  induction rows with
  | nil => rfl
  | cons row rows ih =>
    rw [projected] at h ⊢
    cases hvalue : eval row with
    | error stop =>
      rw [hvalue] at h
      cases h
    | ok tuple =>
      rw [hvalue] at h
      have hsome : (eval row).toOption = some tuple := by rw [hvalue]; rfl
      rw [List.filterMap_cons, hsome, ← ih h]
      rfl

/-- Where the second delivery comes to its end, the first one does with the same rows. -/
def Delivery.Refines (d d' : Delivery S) : Prop :=
  d'.stop = none → d.stop = none ∧ d.rows.Perm d'.rows

theorem Delivery.Refines.refl (d : Delivery S) : d.Refines d := fun h => ⟨h, .refl _⟩

/-- An operator does not care for the order of the rows. -/
theorem Oper.run_refines (hdelete : ∀ filter, oper ≠ .delete filter) (h : d.Refines d') :
  (oper.run d).Refines (oper.run d')
  := by
  cases oper with
  | predicate expr =>
    intro hstop
    obtain ⟨hd', hvalues⟩ := keep_stop.mp hstop
    obtain ⟨hd, hperm⟩ := h hd'
    have hstop' : (keep expr d.stop d.rows).stop = none :=
      keep_stop.mpr ⟨hd, fun row hrow => hvalues row (hperm.mem_iff.mp hrow)⟩
    refine ⟨hstop', ?_⟩
    rw [Oper.run, Oper.run, keep_rows hstop, keep_rows hstop']
    exact hperm.filter _
  | project eval =>
    intro hstop
    obtain ⟨hd', hvalues⟩ := projected_stop.mp hstop
    obtain ⟨hd, hperm⟩ := h hd'
    have hstop' : (projected eval d.stop d.rows).stop = none :=
      projected_stop.mpr ⟨hd, fun row hrow => hvalues row (hperm.mem_iff.mp hrow)⟩
    refine ⟨hstop', ?_⟩
    rw [Oper.run, Oper.run, projected_rows hstop, projected_rows hstop']
    exact hperm.filterMap _
  | group aggregate =>
    intro hstop
    rw [Oper.run] at hstop ⊢
    cases hd' : d'.stop with
    | some stop =>
      rw [hd'] at hstop
      cases hstop
    | none =>
      obtain ⟨hd, hperm⟩ := h hd'
      have hsame : (d.rows : Multiset S.Tuple) = d'.rows := Multiset.coe_eq_coe.mpr hperm
      rw [hd'] at hstop
      rw [Oper.run, hd, hd', hsame]
      exact ⟨hstop, .refl _⟩
  | update =>
    intro hstop
    rw [Oper.run] at hstop ⊢
    split_ifs at hstop with hd'
    · obtain ⟨hd, hperm⟩ := h hd'
      rw [Oper.run, if_pos hd, if_pos hd']
      exact ⟨hd, hperm⟩
    · exact absurd hstop hd'
  | delete filter => exact absurd rfl (hdelete filter)

/-! ### Table scans -/

theorem scanFilter_eq_true {row : S.Tuple} :
  scanFilter row comparisons = .ok true
    ↔ ∀ comparison ∈ comparisons, S.compare comparison row = .ok (some true)
  := by
  induction comparisons with
  | nil => simp [scanFilter]
  | cons comparison comparisons ih =>
    rw [scanFilter, List.forall_mem_cons, ← ih]
    split <;> simp_all

/-- A table scan that comes to its end delivers the rows on which its comparisons are true. -/
theorem tableScan_iff {out : List S.Tuple} :
  tableScan comparisons rows = .ok out
    ↔ (∀ row ∈ rows, ∃ answer, scanFilter row comparisons = .ok answer)
      ∧ out = rows.filter fun row => scanFilter row comparisons = .ok true
  := by
  induction rows generalizing out with
  | nil => simp [tableScan, eq_comm]
  | cons row rows ih =>
    rw [tableScan, List.forall_mem_cons]
    cases hfilter : scanFilter row comparisons with
    | error stop => simp
    | ok answer =>
      cases answer with
      | false =>
        dsimp only
        rw [ih, List.filter_cons_of_neg (by simp [hfilter])]
        simp
      | true =>
        rw [List.filter_cons_of_pos (by simp [hfilter])]
        cases hscan : tableScan comparisons rows with
        | error stop =>
          have hnone := (@ih _).not.mp (hscan ▸ by simp : ¬ tableScan comparisons rows
            = .ok (rows.filter fun row => scanFilter row comparisons = .ok true))
          simp only [Except.map, reduceCtorEq, false_iff, not_and]
          intro hanswers _
          exact hnone ⟨hanswers.2, rfl⟩
        | ok rest =>
          obtain ⟨hanswers, rfl⟩ := ih.mp hscan
          simp only [Except.map, Except.ok.injEq]
          constructor
          · rintro rfl
            exact ⟨⟨⟨true, rfl⟩, hanswers⟩, rfl⟩
          · rintro ⟨-, rfl⟩
            rfl

/-! ### Pushing down -/

/-- What is left of the condition, over the scan with the comparisons that are pushed down,
keeps the rows of which the condition is true, if the scan comes to its end. -/
theorem keep_rest (hvalues : ∀ row ∈ rows, ∃ v, expr.getValue row = .ok v)
    (hanswers : ∀ row ∈ rows, ∃ answer, scanFilter row (getExprsCanPushdown expr).2 = .ok answer) :
  (Oper.predicate ((getExprsCanPushdown expr).1.getD (.value (.booleans true)))).run
      (scanned (tableScan (getExprsCanPushdown expr).2 rows))
    = keep expr none rows
  := by
  have hscan := tableScan_iff.mpr ⟨hanswers, rfl⟩
  have hstop : (keep expr none rows).stop = none := keep_stop.mpr ⟨rfl, hvalues⟩
  have hrest : ∀ row, scanFilter row (getExprsCanPushdown expr).2 = .ok true →
      ((getExprsCanPushdown expr).1.getD (.value (.booleans true))).getValue row
        = expr.getValue row := by
    intro row htrue
    exact getValue_rest expr (scanFilter_eq_true.mp htrue)
  have hstop' : (keep ((getExprsCanPushdown expr).1.getD (.value (.booleans true))) none
      (rows.filter fun row => scanFilter row (getExprsCanPushdown expr).2 = .ok true)).stop
        = none := by
    rw [keep_stop]
    refine ⟨rfl, ?_⟩
    intro row hrow
    obtain ⟨hrow, htrue⟩ := List.mem_filter.mp hrow
    rw [hrest row (by simpa using htrue)]
    exact hvalues row hrow
  rw [hscan, Oper.run]
  dsimp only [scanned]
  have hrows := keep_rows hstop'
  have hsame := keep_rows hstop
  rw [List.filter_filter] at hrows
  have heq : (rows.filter fun row =>
        ((getExprsCanPushdown expr).1.getD (.value (.booleans true))).IsTrue row
          && scanFilter row (getExprsCanPushdown expr).2 = .ok true)
      = rows.filter fun row => expr.IsTrue row := by
    apply List.filter_congr
    intro row _
    rw [Bool.eq_iff_iff]
    simp only [Bool.and_eq_true, decide_eq_true_eq]
    constructor
    · rintro ⟨⟨v, hv, htrue⟩, hfilter⟩
      exact ⟨v, (hrest row hfilter).symm.trans hv, htrue⟩
    · rintro ⟨v, hv, htrue⟩
      have hfilter := scanFilter_eq_true.mpr (compare_of_isTrue expr ⟨v, hv, htrue⟩)
      exact ⟨⟨v, (hrest row hfilter).trans hv, htrue⟩, hfilter⟩
  rw [heq, ← hsame] at hrows
  cases hleft : keep ((getExprsCanPushdown expr).1.getD (.value (.booleans true))) none
    (rows.filter fun row => scanFilter row (getExprsCanPushdown expr).2 = .ok true) with
  | mk rows₁ stop₁ =>
    cases hright : keep expr none rows with
    | mk rows₂ stop₂ =>
      simp_all

/-! ### Rounds of the rewriter -/

/-- The operators `ops` above a plan. -/
def above (ops : List (Oper S)) (plan : Plan S) : Plan S := ops.foldr .oper plan

/-- The operator is not a predicate. -/
def Oper.Upper (oper : Oper S) : Prop := ∀ expr, oper ≠ .predicate expr

/-- The plan is a predicate with a constant. -/
def Plan.Const (plan : Plan S) : Prop := ∃ v child, plan = .oper (.predicate (.value v)) child

theorem rewrite_oper {child : Plan S} {change : Bool}
    (h : applyRules plan = (.oper oper child, change)) :
  plan.rewrite = (.oper oper child.rewrite.1, change || child.rewrite.2)
  := by
  rw [Plan.rewrite]
  split
  · rename_i heq
    cases h.symm.trans heq
    rfl
  · rename_i hne heq
    cases h.symm.trans heq
    exact (hne _ _ rfl).elim

theorem rewrite_leaf (h : applyRules plan = (plan, false)) (hleaf : ∀ op child, plan ≠ .oper op child) :
  plan.rewrite = (plan, false)
  := by
  rw [Plan.rewrite]
  split
  · rename_i heq
    cases h.symm.trans heq
    exact absurd rfl (hleaf _ _)
  · rename_i heq
    cases h.symm.trans heq
    rfl

/-- No child is taken away that is no constant predicate. -/
theorem predicateRewrite_oper (hplan : ¬ plan.Const) :
  predicateRewrite (.oper oper plan) = (.oper oper plan, false)
  := by
  unfold predicateRewrite
  split
  · rename_i heq
    injection heq with _ heq
    exact absurd ⟨_, _, heq⟩ hplan
  · rfl

/-- Nothing is pushed down from what is no predicate. -/
theorem predicatePushdown_oper (hoper : oper.Upper) (plan : Plan S) :
  predicatePushdown (.oper oper plan) = (.oper oper plan, false)
  := by
  unfold predicatePushdown
  split
  · rename_i heq
    injection heq with heq
    exact absurd heq (hoper _)
  · rfl

/-- Above what is not a constant predicate, nothing is rewritten. -/
theorem rewrite_above {ops : List (Oper S)} (hops : ∀ op ∈ ops, op.Upper) (hplan : ¬ plan.Const) :
  (above ops plan).rewrite = (above ops plan.rewrite.1, plan.rewrite.2)
  := by
  induction ops with
  | nil => rfl
  | cons op ops ih =>
    have hop := hops op List.mem_cons_self
    have hconst : ¬ (above ops plan).Const := by
      cases ops with
      | nil => exact hplan
      | cons op' ops =>
        rintro ⟨v, child, heq⟩
        injection heq with heq
        exact hops op' (by simp) _ heq
    have hrules : applyRules (above (op :: ops) plan) = (above (op :: ops) plan, false) := by
      change applyRules (.oper op (above ops plan)) = _
      rw [applyRules, predicateRewrite_oper hconst]
      dsimp only
      rw [predicatePushdown_oper hop]
      rfl
    have ih := ih fun op' hmem => hops op' (List.mem_cons_of_mem _ hmem)
    rw [rewrite_oper hrules]
    change (Plan.oper op (above ops plan).rewrite.1, false || (above ops plan).rewrite.2) = _
    rw [ih]
    rfl

/-- A constant predicate below an operator is taken away: with everything below it if it is not
true. -/
theorem rewrite_const {v : Value} (hoper : oper.Upper) :
  (Plan.oper oper (.oper (.predicate (.value v)) plan)).rewrite
    = (.oper oper (if v.getBoolean S.doubles = some true then plan else .empty).rewrite.1, true)
  := by
  have hrules : applyRules (Plan.oper oper (.oper (.predicate (.value v)) plan))
      = (.oper oper (if v.getBoolean S.doubles = some true then plan else .empty), true) := by
    rw [applyRules, predicateRewrite]
    split_ifs
    · dsimp only
      rw [predicatePushdown_oper hoper]
      rfl
    · dsimp only
      rw [predicatePushdown_oper hoper]
      rfl
  rw [rewrite_oper hrules]
  rfl

theorem rewrite_empty : (Plan.empty : Plan S).rewrite = (.empty, false) :=
  rewrite_leaf rfl fun _ _ h => by cases h

theorem rewrite_tableGet : (Plan.tableGet table comparisons).rewrite
    = (.tableGet table comparisons, false) :=
  rewrite_leaf rfl fun _ _ h => by cases h

theorem rewrite_join : (Plan.join d).rewrite = (.join d, false) :=
  rewrite_leaf rfl fun _ _ h => by cases h

/-- The comparisons of a predicate are pushed down into the table below it. -/
theorem rewrite_predicate_tableGet :
  (Plan.oper (.predicate expr) (.tableGet table comparisons)).rewrite
    = (if (getExprsCanPushdown expr).2.isEmpty then
        (.oper (.predicate expr) (.tableGet table comparisons), false)
      else
        (.oper (.predicate ((getExprsCanPushdown expr).1.getD (.value (.booleans true))))
          (.tableGet table (getExprsCanPushdown expr).2), true))
  := by
  have hrules : applyRules (.oper (.predicate expr) (.tableGet table comparisons))
      = if (getExprsCanPushdown expr).2.isEmpty then
          (.oper (.predicate expr) (.tableGet table comparisons), false)
        else
          (.oper (.predicate ((getExprsCanPushdown expr).1.getD (.value (.booleans true))))
            (.tableGet table (getExprsCanPushdown expr).2), true) := by
    rw [applyRules, predicateRewrite]
    · dsimp only
      rw [predicatePushdown]
      dsimp only
      split_ifs with hnone
      · rw [rest_of_pushed_nil expr (List.isEmpty_iff.mp hnone)]
        rfl
      · rfl
    · intro op v child h
      cases h
  split_ifs at hrules ⊢
  · rw [rewrite_oper hrules, rewrite_tableGet]
    rfl
  · rw [rewrite_oper hrules, rewrite_tableGet]
    rfl

/-- Above no table, no comparisons are pushed down. -/
theorem rewrite_predicate (hconst : ¬ plan.Const)
    (htable : ∀ table comparisons, plan ≠ .tableGet table comparisons)
    (hplan : plan.rewrite = (plan, false)) :
  (Plan.oper (.predicate expr) plan).rewrite = (.oper (.predicate expr) plan, false)
  := by
  have hrules : applyRules (.oper (.predicate expr) plan) = (.oper (.predicate expr) plan, false) := by
    rw [applyRules, predicateRewrite_oper hconst]
    dsimp only
    unfold predicatePushdown
    split
    · rename_i heq
      injection heq with _ heq
      exact absurd heq (htable _ _)
    · rfl
  rw [rewrite_oper hrules, hplan]
  rfl

/-! ### What is left of a plan -/

/-- The rewriter comes to the second plan, and finds nothing more to do. -/
def Settles (plan plan' : Plan S) : Prop := ∃ fuel, rewriteLoop fuel plan = some plan'

theorem settles_of_change (h : plan.rewrite = (plan', true)) (hsettles : Settles plan' result) :
  Settles plan result
  := by
  obtain ⟨fuel, hfuel⟩ := hsettles
  exact ⟨fuel + 1, by rw [rewriteLoop, h]; exact hfuel⟩

theorem settles_of_same (h : plan.rewrite = (plan', false)) :
  Settles plan plan'
  := ⟨1, by rw [rewriteLoop, h]⟩

/-- The rewriter comes to one plan only. -/
theorem Settles.unique {result' : Plan S} (h : Settles plan result) (h' : Settles plan result') :
  result = result'
  := by
  obtain ⟨fuel, hfuel⟩ := h
  obtain ⟨fuel', hfuel'⟩ := h'
  induction fuel generalizing plan fuel' with
  | zero => cases hfuel
  | succ fuel ih =>
    cases fuel' with
    | zero => cases hfuel'
    | succ fuel' =>
      rw [rewriteLoop] at hfuel hfuel'
      split at hfuel
      · rename_i hplan
        rw [hplan] at hfuel'
        exact ih hfuel fuel' hfuel'
      · rename_i hplan
        rw [hplan] at hfuel'
        cases hfuel
        cases hfuel'
        rfl

/-- What becomes of a filter over a plan without operators. -/
def rewrittenSource (filter : Option (Expr S)) (source : Plan S) : Plan S :=
  match filter, source with
  | none, source => source
  | some (.value v), source => if v.getBoolean S.doubles = some true then source else .empty
  | some expr, .tableGet table comparisons =>
    if (getExprsCanPushdown expr).2.isEmpty then .oper (.predicate expr) (.tableGet table comparisons)
    else filtered (getExprsCanPushdown expr).1 (.tableGet table (getExprsCanPushdown expr).2)
  | some expr, source => .oper (.predicate expr) source

theorem rewrittenSource_of_ne (hvalue : ∀ v, expr ≠ .value v)
    (htable : ∀ table comparisons, plan ≠ .tableGet table comparisons) :
  rewrittenSource (some expr) plan = .oper (.predicate expr) plan
  := by
  rw [rewrittenSource]
  · exact hvalue
  · exact htable

theorem rewrittenSource_tableGet (hvalue : ∀ v, expr ≠ .value v) :
  rewrittenSource (some expr) (.tableGet table comparisons)
    = if (getExprsCanPushdown expr).2.isEmpty then
        .oper (.predicate expr) (.tableGet table comparisons)
      else filtered (getExprsCanPushdown expr).1 (.tableGet table (getExprsCanPushdown expr).2)
  := by
  rw [rewrittenSource]
  exact hvalue

/-- The plan is without operators. -/
def Plan.Leaf (plan : Plan S) : Prop := ∀ op child, plan ≠ .oper op child

theorem Plan.Leaf.rewrite (h : plan.Leaf) : plan.rewrite = (plan, false) := by
  cases plan with
  | empty => exact rewrite_empty
  | tableGet table comparisons => exact rewrite_tableGet
  | join d => exact rewrite_join
  | oper op child => exact absurd rfl (h op child)

theorem Plan.Leaf.not_const (h : plan.Leaf) : ¬ plan.Const := fun ⟨_, _, heq⟩ => h _ _ heq

theorem value_or_ne (expr : Expr S) : (∃ v, expr = .value v) ∨ ∀ v, expr ≠ .value v := by
  cases expr <;> simp

/-- A predicate whose condition is no value is no constant. -/
theorem not_const_predicate (hvalue : ∀ v, expr ≠ .value v) :
  ¬ (Plan.oper (.predicate expr) plan).Const
  := by
  rintro ⟨v, child, heq⟩
  injection heq with heq
  injection heq with heq
  exact hvalue v heq

theorem rest_ne_value {rest : Expr S} (hvalue : ∀ v, expr ≠ .value v)
    (h : (getExprsCanPushdown expr).1 = some rest) (v : Value) :
  rest ≠ .value v
  := by
  rintro rfl
  cases expr with
  | value v' => exact hvalue v' rfl
  | comparison comparison =>
    rw [getExprsCanPushdown] at h
    split_ifs at h
    cases h
  | conjunction type children =>
    cases type <;> cases h
  | other eval => cases h

section Settles

variable {ops : List (Oper S)} {source : Plan S}

/-- Below operators that are no predicates, what is rewritten settles where it does by itself. -/
theorem settles_above (hops : ∀ op ∈ ops, op.Upper) (hplan : ¬ plan.Const)
    (h : plan.rewrite = (plan, false)) :
  Settles (above ops plan) (above ops plan)
  := settles_of_same (by rw [rewrite_above hops hplan, h])

theorem settles_leaf (hops : ∀ op ∈ ops, op.Upper) (hsource : source.Leaf) :
  Settles (above ops source) (above ops source)
  := settles_above hops hsource.not_const hsource.rewrite

theorem settles_const {v : Value} (hops : ∀ op ∈ ops, op.Upper) (hoper : oper.Upper)
    (hsource : source.Leaf) :
  Settles (above (ops ++ [oper]) (.oper (.predicate (.value v)) source))
    (above (ops ++ [oper]) (if v.getBoolean S.doubles = some true then source else .empty))
  := by
  have hleaf : (if v.getBoolean S.doubles = some true then source else .empty).Leaf := by
    split_ifs
    · exact hsource
    · intro op child h
      cases h
  have hops' : ∀ op ∈ ops ++ [oper], op.Upper :=
    List.forall_mem_append.mpr ⟨hops, List.forall_mem_singleton.mpr hoper⟩
  have hnot : ¬ (Plan.oper oper (.oper (.predicate (.value v)) source)).Const := by
    rintro ⟨v', child, heq⟩
    injection heq with heq
    exact hoper _ heq
  have hsplit : ∀ plan : Plan S, above (ops ++ [oper]) plan = above ops (.oper oper plan) := by
    intro plan
    rw [above, List.foldr_append]
    rfl
  refine settles_of_change ?_ (settles_leaf hops' hleaf)
  rw [hsplit, hsplit, rewrite_above hops hnot, rewrite_const hoper, hleaf.rewrite]

theorem settles_predicate (hops : ∀ op ∈ ops, op.Upper) (hvalue : ∀ v, expr ≠ .value v)
    (h : (Plan.oper (.predicate expr) plan).rewrite = (.oper (.predicate expr) plan, false)) :
  Settles (above ops (.oper (.predicate expr) plan)) (above ops (.oper (.predicate expr) plan))
  := settles_above hops (not_const_predicate hvalue) h

/-- The loop of rewriting comes to its end. -/
theorem settles_filtered (filter : Option (Expr S)) (hops : ∀ op ∈ ops, op.Upper)
    (hoper : oper.Upper) (hsource : source.Leaf) :
  Settles (above (ops ++ [oper]) (filtered filter source))
    (above (ops ++ [oper]) (rewrittenSource filter source))
  := by
  have hops' : ∀ op ∈ ops ++ [oper], op.Upper :=
    List.forall_mem_append.mpr ⟨hops, List.forall_mem_singleton.mpr hoper⟩
  cases filter with
  | none => exact settles_leaf hops' hsource
  | some expr =>
    obtain ⟨v, rfl⟩ | hvalue := value_or_ne expr
    · exact settles_const hops hoper hsource
    cases source with
    | oper op child => exact absurd rfl (hsource op child)
    | empty =>
      rw [rewrittenSource_of_ne hvalue (by simp)]
      exact settles_predicate hops' hvalue
        (rewrite_predicate hsource.not_const (by simp) hsource.rewrite)
    | join d =>
      rw [rewrittenSource_of_ne hvalue (by simp)]
      exact settles_predicate hops' hvalue
        (rewrite_predicate hsource.not_const (by simp) hsource.rewrite)
    | tableGet table comparisons =>
      rw [rewrittenSource_tableGet hvalue]
      by_cases hnone : (getExprsCanPushdown expr).2.isEmpty
      · rw [if_pos hnone]
        apply settles_predicate hops' hvalue
        rw [rewrite_predicate_tableGet, if_pos hnone]
      · rw [if_neg hnone]
        have hfirst : (Plan.oper (.predicate expr) (.tableGet table comparisons)).rewrite = _ :=
          rewrite_predicate_tableGet
        rw [if_neg hnone] at hfirst
        refine settles_of_change
          (by rw [filtered, rewrite_above hops' (not_const_predicate hvalue), hfirst]) ?_
        cases hrest : (getExprsCanPushdown expr).1 with
        | none =>
          have hleaf : (Plan.tableGet table (getExprsCanPushdown expr).2).Leaf := by simp [Plan.Leaf]
          exact settles_const (v := .booleans true) hops hoper hleaf
        | some rest =>
          apply settles_predicate hops' (rest_ne_value hvalue hrest)
          rw [rewrite_predicate_tableGet, getExprsCanPushdown_rest expr rest hrest]
          rfl

end Settles

end MiniOB.Sql
