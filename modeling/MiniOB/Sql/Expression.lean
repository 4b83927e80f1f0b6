import MiniOB.Sql.Scan

/-!
# Expressions of conditions

`ConjunctionExpr` of `sql/expr/expression.cpp` over the comparisons and the other expressions of
a statement, and the part of a condition that `PredicatePushdownRewriter` takes out of it. What
the tuples of a statement are, and what the comparisons say of them, is given by a `Signature`.
-/

namespace MiniOB.Sql

/-- `Value::get_boolean`. A `NULL` has none, for which the function throws. -/
def Value.getBoolean (F : Doubles) : Value → Option Bool
  | .ints n => some (n ≠ 0)
  | .floats bits => some (F.sign (F.ofFloat bits) (F.ofInt 0) ≠ 0)
  | .booleans b => some b
  | .dates n => some (n ≠ 0)
  | .chars s => some (s ≠ [])
  | .texts s => some (s ≠ [])
  | .nulls => none
  | .undefined => none

/-- The tuples of a statement, with the fake one of a SELECT without a table, and its
`ComparisonExpr`s: what each of them says of a tuple, and which of them are an `EQUAL_TO` with
a field on one side. -/
structure Signature where
  doubles : Doubles
  Tuple : Type
  fakeTuple : Tuple
  Comparison : Type
  compare : Comparison → Tuple → Except Stop (Option Bool)
  isFieldEqual : Comparison → Bool

/-- `ConjunctionType`. -/
inductive ConjunctionType where
  | and
  | or
  deriving DecidableEq, Repr

/-- `Expression`: a `ValueExpr`, a `ComparisonExpr`, a `ConjunctionExpr`, or any other one, given
by its value on a tuple. -/
inductive Expr (S : Signature) where
  | value (v : Value)
  | comparison (comparison : S.Comparison)
  | conjunction (type : ConjunctionType) (children : List (Expr S))
  | other (eval : S.Tuple → Except Stop Value)

variable {S : Signature}

/-- The value of a comparison. -/
def truthValue : Option Bool → Value
  | none => .nulls
  | some b => .booleans b

mutual

/-- `get_value`. -/
def Expr.getValue (tuple : S.Tuple) : Expr S → Except Stop Value
  | .value v => .ok v
  | .comparison comparison => (S.compare comparison tuple).map truthValue
  | .conjunction _ [] => .ok (.booleans true)
  | .conjunction type (child :: children) =>
    conjunctionValue tuple type false (child :: children)
  | .other eval => eval tuple

/-- The loop of `ConjunctionExpr::get_value` over the children. -/
def conjunctionValue (tuple : S.Tuple) (type : ConjunctionType) (containNull : Bool) :
    List (Expr S) → Except Stop Value
  | [] => .ok (if containNull then .nulls else .booleans (type = .and))
  | child :: children =>
    match child.getValue tuple with
    | .error stop => .error stop
    | .ok v =>
      match v.getBoolean S.doubles with
      | none => conjunctionValue tuple type true children
      | some b =>
        if type = .and ∧ ¬ b ∨ type = .or ∧ b then .ok (.booleans b)
        else conjunctionValue tuple type containNull children

end

/-- The expression is true of the tuple. -/
def Expr.IsTrue (expr : Expr S) (tuple : S.Tuple) : Prop :=
  ∃ v, expr.getValue tuple = .ok v ∧ v.getBoolean S.doubles = some true

instance (expr : Expr S) (tuple : S.Tuple) : Decidable (expr.IsTrue tuple) :=
  match h : expr.getValue tuple with
  | .error _ => isFalse fun ⟨_, hv, _⟩ => by simp [h] at hv
  | .ok v =>
    if htrue : v.getBoolean S.doubles = some true then isTrue ⟨v, h, htrue⟩
    else isFalse fun ⟨_, hv, htrue'⟩ => by
      rw [h] at hv
      cases hv
      exact htrue htrue'

mutual

/-- `get_exprs_can_pushdown`: what is left of the expression, and the comparisons that are
taken out of it. -/
def getExprsCanPushdown : Expr S → Option (Expr S) × List S.Comparison
  | .value v => (some (.value v), [])
  | .comparison comparison =>
    if S.isFieldEqual comparison then (none, [comparison])
    else (some (.comparison comparison), [])
  | .conjunction .or children => (some (.conjunction .or children), [])
  | .conjunction .and children =>
    let (rest, pushed) := pushdownChildren children
    (some (.conjunction .and rest), pushed)
  | .other eval => (some (.other eval), [])

/-- The loop of `get_exprs_can_pushdown` over the children of a conjunction. -/
def pushdownChildren : List (Expr S) → List (Expr S) × List S.Comparison
  | [] => ([], [])
  | child :: children =>
    let (child, pushed) := getExprsCanPushdown child
    let (rest, pushed') := pushdownChildren children
    (child.toList ++ rest, pushed ++ pushed')

end

variable {tuple : S.Tuple}

/-! ### Conjunctions -/

theorem getBoolean_truthValue {F : Doubles} {truth : Option Bool} :
  (truthValue truth).getBoolean F = truth
  := by
  cases truth <;> rfl

theorem getValue_and (children : List (Expr S)) :
  (Expr.conjunction .and children).getValue tuple = conjunctionValue tuple .and false children
  := by
  cases children with
  | nil => rw [Expr.getValue, conjunctionValue]; rfl
  | cons child children => rw [Expr.getValue]

/-- A conjunction with a `NULL` is not true. -/
theorem conjunctionValue_null {children : List (Expr S)} {v : Value}
    (h : conjunctionValue tuple .and true children = .ok v) :
  v.getBoolean S.doubles ≠ some true
  := by
  induction children with
  | nil =>
    cases h
    simp [Value.getBoolean]
  | cons child children ih =>
    rw [conjunctionValue] at h
    split at h
    · cases h
    · split at h
      · exact ih h
      · rename_i b _
        cases b with
        | false =>
          simp only [Bool.false_eq_true, not_false_eq_true, and_self, true_or, if_true,
            Except.ok.injEq] at h
          subst h
          simp [Value.getBoolean]
        | true =>
          simp only [not_true_eq_false, and_false, reduceCtorEq, false_and, or_self, if_false] at h
          exact ih h

/-- A conjunction is true if its first child is, and the others are. -/
theorem conjunctionValue_cons_true {child : Expr S} {children : List (Expr S)} {v : Value}
    (h : conjunctionValue tuple .and false (child :: children) = .ok v)
    (htrue : v.getBoolean S.doubles = some true) :
  child.IsTrue tuple ∧ conjunctionValue tuple .and false children = .ok v
  := by
  rw [conjunctionValue] at h
  split at h
  · cases h
  rename_i value hvalue
  split at h
  · exact absurd htrue (conjunctionValue_null h)
  rename_i b hb
  cases b with
  | false =>
    simp only [Bool.false_eq_true, not_false_eq_true, and_self, true_or, if_true, Except.ok.injEq]
      at h
    subst h
    cases htrue
  | true =>
    simp only [not_true_eq_false, and_false, reduceCtorEq, false_and, or_self, if_false] at h
    exact ⟨⟨value, hvalue, hb⟩, h⟩

/-- A child that is true does not count in a conjunction. -/
theorem conjunctionValue_of_isTrue {child : Expr S} (containNull : Bool)
    (children : List (Expr S)) (h : child.IsTrue tuple) :
  conjunctionValue tuple .and containNull (child :: children)
    = conjunctionValue tuple .and containNull children
  := by
  obtain ⟨v, hv, htrue⟩ := h
  rw [conjunctionValue, hv]
  dsimp only
  rw [htrue]
  simp

theorem isTrue_comparison {comparison : S.Comparison}
    (h : S.compare comparison tuple = .ok (some true)) :
  (Expr.comparison comparison).getValue tuple = .ok (.booleans true)
  := by
  rw [Expr.getValue, h]
  rfl

/-! ### Pushing down -/

mutual

/-- Where the comparisons that are pushed down are true, the rest has the value of the
expression. -/
theorem getValue_rest : ∀ expr : Expr S,
    (∀ comparison ∈ (getExprsCanPushdown expr).2, S.compare comparison tuple = .ok (some true)) →
    ((getExprsCanPushdown expr).1.getD (.value (.booleans true))).getValue tuple
      = expr.getValue tuple
  | .value v, _ => rfl
  | .comparison comparison, h => by
    rw [getExprsCanPushdown] at h ⊢
    split_ifs at h ⊢
    · rw [isTrue_comparison (h comparison List.mem_cons_self)]
      rfl
    · rfl
  | .conjunction .or children, _ => by
    rw [getExprsCanPushdown]
    rfl
  | .conjunction .and children, h => by
    rw [getExprsCanPushdown] at h ⊢
    dsimp only at h ⊢
    rw [Option.getD_some, getValue_and, getValue_and, conjunctionValue_rest false children h]
  | .other eval, _ => rfl

theorem conjunctionValue_rest (containNull : Bool) : ∀ children : List (Expr S),
    (∀ comparison ∈ (pushdownChildren children).2, S.compare comparison tuple = .ok (some true)) →
    conjunctionValue tuple .and containNull (pushdownChildren children).1
      = conjunctionValue tuple .and containNull children
  | [], _ => rfl
  | child :: children, h => by
    rw [pushdownChildren] at h ⊢
    dsimp only at h ⊢
    have hchild := getValue_rest child fun comparison hmem =>
      h comparison (List.mem_append_left _ hmem)
    have hchildren := fun b => conjunctionValue_rest b children fun comparison hmem =>
      h comparison (List.mem_append_right _ hmem)
    cases hrest : (getExprsCanPushdown child).1 with
    | none =>
      rw [hrest, Option.getD_none] at hchild
      rw [Option.toList_none, List.nil_append, hchildren,
        conjunctionValue_of_isTrue _ _ ⟨_, hchild.symm, rfl⟩]
    | some rest =>
      rw [hrest, Option.getD_some] at hchild
      rw [Option.toList_some, List.singleton_append, conjunctionValue, conjunctionValue, hchild]
      simp only [hchildren]

end

mutual

/-- The comparisons that are pushed down are true where the expression is. -/
theorem compare_of_isTrue : ∀ expr : Expr S, expr.IsTrue tuple →
    ∀ comparison ∈ (getExprsCanPushdown expr).2, S.compare comparison tuple = .ok (some true)
  | .value v, _, comparison, hmem => by simp [getExprsCanPushdown] at hmem
  | .comparison comparison, ⟨v, hv, htrue⟩, comparison', hmem => by
    rw [getExprsCanPushdown] at hmem
    split_ifs at hmem
    · obtain rfl := List.mem_singleton.mp hmem
      rw [Expr.getValue] at hv
      cases hcompare : S.compare comparison' tuple with
      | error stop => simp [hcompare, Except.map] at hv
      | ok truth =>
        simp only [hcompare, Except.map, Except.ok.injEq] at hv
        rw [← hv, getBoolean_truthValue] at htrue
        rw [htrue]
    · simp at hmem
  | .conjunction .or children, _, comparison, hmem => by simp [getExprsCanPushdown] at hmem
  | .conjunction .and children, ⟨v, hv, htrue⟩, comparison, hmem => by
    rw [getValue_and] at hv
    rw [getExprsCanPushdown] at hmem
    exact compare_of_conjunction children hv htrue comparison hmem
  | .other eval, _, comparison, hmem => by simp [getExprsCanPushdown] at hmem

theorem compare_of_conjunction : ∀ (children : List (Expr S)) {v : Value},
    conjunctionValue tuple .and false children = .ok v → v.getBoolean S.doubles = some true →
    ∀ comparison ∈ (pushdownChildren children).2, S.compare comparison tuple = .ok (some true)
  | [], _, _, _, comparison, hmem => by simp [pushdownChildren] at hmem
  | child :: children, _, hv, htrue, comparison, hmem => by
    obtain ⟨hchild, hchildren⟩ := conjunctionValue_cons_true hv htrue
    rw [pushdownChildren] at hmem
    obtain hmem | hmem := List.mem_append.mp hmem
    · exact compare_of_isTrue child hchild comparison hmem
    · exact compare_of_conjunction children hchildren htrue comparison hmem

end

mutual

/-- Nothing is left to be pushed down. -/
theorem getExprsCanPushdown_rest : ∀ expr rest : Expr S,
    (getExprsCanPushdown expr).1 = some rest → getExprsCanPushdown rest = (some rest, [])
  | .value v, rest, h => by
    cases h
    rfl
  | .comparison comparison, rest, h => by
    rw [getExprsCanPushdown] at h
    split_ifs at h with hfield
    cases h
    rw [getExprsCanPushdown, if_neg hfield]
  | .conjunction .or children, rest, h => by
    rw [getExprsCanPushdown] at h
    cases h
    rw [getExprsCanPushdown]
  | .conjunction .and children, rest, h => by
    rw [getExprsCanPushdown] at h
    cases h
    rw [getExprsCanPushdown, pushdownChildren_rest children]
  | .other eval, rest, h => by
    cases h
    rfl

theorem pushdownChildren_rest : ∀ children : List (Expr S),
    pushdownChildren (pushdownChildren children).1 = ((pushdownChildren children).1, [])
  | [] => rfl
  | child :: children => by
    rw [pushdownChildren]
    dsimp only
    cases hrest : (getExprsCanPushdown child).1 with
    | none => rw [Option.toList_none, List.nil_append, pushdownChildren_rest children]
    | some rest =>
      rw [Option.toList_some, List.singleton_append, pushdownChildren,
        getExprsCanPushdown_rest child rest hrest, pushdownChildren_rest children]
      rfl

end

mutual

/-- Where nothing is pushed down, all is left. -/
theorem rest_of_pushed_nil : ∀ expr : Expr S,
    (getExprsCanPushdown expr).2 = [] → (getExprsCanPushdown expr).1 = some expr
  | .value v, _ => rfl
  | .comparison comparison, h => by
    rw [getExprsCanPushdown] at h ⊢
    split_ifs at h ⊢
    rfl
  | .conjunction .or children, _ => by rw [getExprsCanPushdown]
  | .conjunction .and children, h => by
    rw [getExprsCanPushdown] at h ⊢
    dsimp only at h ⊢
    rw [children_of_pushed_nil children h]
  | .other eval, _ => rfl

theorem children_of_pushed_nil : ∀ children : List (Expr S),
    (pushdownChildren children).2 = [] → (pushdownChildren children).1 = children
  | [], _ => rfl
  | child :: children, h => by
    rw [pushdownChildren] at h ⊢
    dsimp only at h ⊢
    obtain ⟨hchild, hchildren⟩ := List.append_eq_nil_iff.mp h
    rw [rest_of_pushed_nil child hchild, children_of_pushed_nil children hchildren]
    rfl

end

end MiniOB.Sql
