import MiniOB.Sql.Rewriting

/-!
# What pushing down takes out of a condition

The conjuncts of a condition are what is joined by its `AND`s, however they are nested.
`PredicatePushdownRewriter` moves those that compare with a field into the scan of the table and
leaves all others where they are, and after one round it finds nothing more to move.
-/

namespace MiniOB.Sql

variable {S : Signature}

mutual

/-- The conjuncts of an expression. -/
def Expr.conjuncts : Expr S → List (Expr S)
  | .value v => [.value v]
  | .comparison c => [.comparison c]
  | .conjunction .or children => [.conjunction .or children]
  | .conjunction .and children => childConjuncts children
  | .other eval => [.other eval]

/-- The conjuncts of the children of a conjunction. -/
def childConjuncts : List (Expr S) → List (Expr S)
  | [] => []
  | child :: children => child.conjuncts ++ childConjuncts children

end

/-- The comparison that a conjunct is, if it can be pushed down. -/
def Expr.pushable : Expr S → Option S.Comparison
  | .comparison c => if S.isFieldEqual c then some c else none
  | _ => none

/-- The conjuncts of what is left of a condition. -/
def restConjuncts (rest : Option (Expr S)) : List (Expr S) := (rest.map Expr.conjuncts).getD []

variable {expr : Expr S} {row : S.Tuple} {table : TableAccess S}

/-! ### Conjuncts -/

theorem childConjuncts_append (children children' : List (Expr S)) :
  childConjuncts (children ++ children') = childConjuncts children ++ childConjuncts children'
  := by
  induction children with
  | nil => rfl
  | cons child children ih =>
    rw [List.cons_append, childConjuncts, childConjuncts, ih, List.append_assoc]

theorem childConjuncts_toList (rest : Option (Expr S)) :
  childConjuncts rest.toList = restConjuncts rest
  := by
  cases rest with
  | none => rfl
  | some expr =>
    rw [Option.toList_some, childConjuncts, childConjuncts, List.append_nil]
    rfl

mutual

/-- The comparisons that are pushed down are the conjuncts that can be. -/
theorem pushed_eq : ∀ expr : Expr S,
    (getExprsCanPushdown expr).2 = expr.conjuncts.filterMap Expr.pushable
  | .value v => by simp [getExprsCanPushdown, Expr.conjuncts, Expr.pushable]
  | .comparison comparison => by
    rw [getExprsCanPushdown, Expr.conjuncts]
    split_ifs with hfield
    · simp [Expr.pushable, hfield]
    · simp [Expr.pushable, hfield]
  | .conjunction .or children => by simp [getExprsCanPushdown, Expr.conjuncts, Expr.pushable]
  | .conjunction .and children => by
    rw [getExprsCanPushdown, Expr.conjuncts]
    exact pushedChildren_eq children
  | .other eval => by simp [getExprsCanPushdown, Expr.conjuncts, Expr.pushable]

theorem pushedChildren_eq : ∀ children : List (Expr S),
    (pushdownChildren children).2 = (childConjuncts children).filterMap Expr.pushable
  | [] => rfl
  | child :: children => by
    rw [pushdownChildren, childConjuncts, List.filterMap_append]
    dsimp only
    rw [pushed_eq child, pushedChildren_eq children]

end

mutual

/-- The conjuncts that are left are those that cannot be pushed down. -/
theorem rest_eq : ∀ expr : Expr S,
    restConjuncts (getExprsCanPushdown expr).1
      = expr.conjuncts.filter fun conjunct => conjunct.pushable.isNone
  | .value v => by simp [getExprsCanPushdown, restConjuncts, Expr.conjuncts, Expr.pushable]
  | .comparison comparison => by
    rw [getExprsCanPushdown, Expr.conjuncts]
    split_ifs with hfield
    · simp [restConjuncts, Expr.pushable, hfield]
    · simp [restConjuncts, Expr.conjuncts, Expr.pushable, hfield]
  | .conjunction .or children => by
    simp [getExprsCanPushdown, restConjuncts, Expr.conjuncts, Expr.pushable]
  | .conjunction .and children => by
    rw [getExprsCanPushdown, Expr.conjuncts]
    exact restChildren_eq children
  | .other eval => by simp [getExprsCanPushdown, restConjuncts, Expr.conjuncts, Expr.pushable]

theorem restChildren_eq : ∀ children : List (Expr S),
    childConjuncts (pushdownChildren children).1
      = (childConjuncts children).filter fun conjunct => conjunct.pushable.isNone
  | [] => rfl
  | child :: children => by
    rw [pushdownChildren, childConjuncts, List.filter_append]
    dsimp only
    rw [childConjuncts_append, childConjuncts_toList, rest_eq child, restChildren_eq children]

end

/-- A list falls into what a function takes out of it and the others. -/
theorem perm_pushable (conjuncts : List (Expr S)) :
  ((conjuncts.filterMap Expr.pushable).map Expr.comparison
      ++ conjuncts.filter fun conjunct => conjunct.pushable.isNone).Perm conjuncts
  := by
  induction conjuncts with
  | nil => exact .refl _
  | cons conjunct conjuncts ih =>
    cases hpush : conjunct.pushable with
    | none =>
      rw [List.filterMap_cons_none hpush, List.filter_cons_of_pos (by rw [hpush]; rfl)]
      exact List.perm_middle.trans (ih.cons conjunct)
    | some comparison =>
      obtain rfl : conjunct = .comparison comparison := by
        cases conjunct with
        | comparison comparison' =>
          rw [Expr.pushable] at hpush
          split_ifs at hpush
          cases hpush
          rfl
        | _ => cases hpush
      rw [List.filterMap_cons_some hpush, List.filter_cons_of_neg (by rw [hpush]; simp),
        List.map_cons, List.cons_append]
      exact ih.cons _

/-! ### Rows -/

/-- The scan with the comparisons and what is left of the condition let through the rows of
which the condition is true. -/
theorem accepts_pushed :
  scanFilter row (getExprsCanPushdown expr).2 = .ok true
      ∧ ((getExprsCanPushdown expr).1.getD (.value (.booleans true))).IsTrue row
    ↔ expr.IsTrue row
  := by
  rw [scanFilter_eq_true]
  constructor
  · rintro ⟨hpushed, v, hvalue, htrue⟩
    exact ⟨v, (getValue_rest expr hpushed).symm.trans hvalue, htrue⟩
  · rintro ⟨v, hvalue, htrue⟩
    have hpushed := compare_of_isTrue expr ⟨v, hvalue, htrue⟩
    exact ⟨hpushed, v, (getValue_rest expr hpushed).trans hvalue, htrue⟩

/-! ### Rounds -/

/-- What is left of a condition, with a constant for nothing. -/
def residual (expr : Expr S) : Expr S := (getExprsCanPushdown expr).1.getD (.value (.booleans true))

theorem predicatePushdown_tableGet :
  predicatePushdown (.oper (.predicate expr) (.tableGet table []))
    = (.oper (.predicate (residual expr)) (.tableGet table (getExprsCanPushdown expr).2),
        !(getExprsCanPushdown expr).2.isEmpty)
  := by
  rw [predicatePushdown]
  dsimp only
  split_ifs with hnone
  · rw [List.isEmpty_iff.mp hnone]
    rfl
  · rw [Bool.not_eq_true] at hnone
    rw [hnone]
    rfl

/-- From what is left of a condition nothing can be pushed down. -/
theorem pushed_residual (expr : Expr S) : (getExprsCanPushdown (residual expr)).2 = [] := by
  rw [residual]
  cases hrest : (getExprsCanPushdown expr).1 with
  | none => rfl
  | some rest => rw [Option.getD_some, getExprsCanPushdown_rest expr rest hrest]

/-- The first round pushes down, and the second one finds nothing to do. -/
theorem rewriteLoop_tableGet :
  rewriteLoop 2 (.oper (.predicate expr) (.tableGet table []))
    = some (predicatePushdown (.oper (.predicate expr) (.tableGet table []))).1
  := by
  rw [predicatePushdown_tableGet, rewriteLoop, rewrite_predicate_tableGet]
  split_ifs with hnone
  · have hall : residual expr = expr := by
      rw [residual, rest_of_pushed_nil expr (List.isEmpty_iff.mp hnone), Option.getD_some]
    rw [hall, List.isEmpty_iff.mp hnone]
  · change rewriteLoop 1 (.oper (.predicate (residual expr)) _) = _
    rw [rewriteLoop, rewrite_predicate_tableGet, pushed_residual]
    rfl

/-- Below other operators the loop of rewriting comes to its end as well. -/
theorem exists_settles {ops : List (Oper S)} (hops : ∀ op ∈ ops, op.Upper) :
  ∃ result, Settles (above ops (.oper (.predicate expr) (.tableGet table []))) result
  := by
  obtain rfl | ⟨ops, op, rfl⟩ := List.eq_nil_or_concat ops
  · exact ⟨_, 2, rewriteLoop_tableGet⟩
  · have hleaf : (Plan.tableGet table [] : Plan S).Leaf := by simp [Plan.Leaf]
    rw [List.concat_eq_append] at hops ⊢
    exact ⟨_, settles_filtered (some expr) (fun op' hmem => hops op' (List.mem_append_left _ hmem))
      (hops op (List.mem_append_right _ List.mem_cons_self)) hleaf⟩

/-- Pushing down a condition over the scan of a table is sound and comes to its end: the scan and
the predicate that is left accept the rows of which the condition is true, the conjuncts of the
condition are shared out among them, and the loop of rewriting, on the plan by itself and below
other operators, stops after finitely many rounds. -/
theorem pushdown_sound (table : TableAccess S) (expr : Expr S) :
  ∃ rest predicates left,
    (predicatePushdown (.oper (.predicate expr) (.tableGet table []))).1
      = .oper (.predicate rest) (.tableGet table predicates)
    ∧ (∀ row, scanFilter row predicates = .ok true ∧ rest.IsTrue row ↔ expr.IsTrue row)
    ∧ predicates = expr.conjuncts.filterMap Expr.pushable
    ∧ left = expr.conjuncts.filter (fun conjunct => conjunct.pushable.isNone)
    ∧ (predicates.map Expr.comparison ++ left).Perm expr.conjuncts
    ∧ (rest.conjuncts = left ∨ left = [] ∧ rest = .value (.booleans true))
    ∧ rewriteLoop 2 (.oper (.predicate expr) (.tableGet table []))
      = some (.oper (.predicate rest) (.tableGet table predicates))
    ∧ ∀ ops : List (Oper S), (∀ op ∈ ops, op.Upper) →
      ∃ result, Settles (above ops (.oper (.predicate expr) (.tableGet table []))) result
  := by
  refine ⟨residual expr, (getExprsCanPushdown expr).2, restConjuncts (getExprsCanPushdown expr).1,
    by rw [predicatePushdown_tableGet], fun row => accepts_pushed, pushed_eq expr, rest_eq expr, ?_,
    ?_, ?_, fun ops hops => exists_settles hops⟩
  · rw [pushed_eq, rest_eq]
    exact perm_pushable expr.conjuncts
  · rw [residual]
    cases (getExprsCanPushdown expr).1 with
    | none => exact .inr ⟨rfl, rfl⟩
    | some rest => exact .inl rfl
  · rw [rewriteLoop_tableGet, predicatePushdown_tableGet]

end MiniOB.Sql
