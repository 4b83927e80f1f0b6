import MiniOB.Sql.ThreeValued

/-!
# Folding constants

An expression without fields has one value, its meaning, whatever the tuple. `get_value` computes
it, with the conjunctions in three-valued logic. `try_get_value` takes a `NULL` for false in an
`AND`: it computes the meaning of the expression in which each `AND` that is not known has been
replaced by `FALSE`.
-/

namespace MiniOB.Sql

open Kleene (Truth)

namespace Expression

variable {E : Environment}

/-! ### Meanings -/

mutual

/-- The value of an expression without fields. -/
def meaning : Expression E → Value
  | field _ => .undefined
  | value v => v
  | cast child castType => castValue E.library castType child.meaning
  | comparison comp left right =>
    truthValue (compareValue E.library.doubles comp left.meaning right.meaning)
  | conjunction _ [] => .booleans true
  | conjunction type (child :: children) =>
    valueOf (type.join ((meanings (child :: children)).map (Value.truth E.library.doubles)))
  | arithmetic type left right =>
    let targetType := (arithmetic type left right).valueType
    (calcValue E.library type targetType left.meaning right.meaning).getD .nulls
  | like partten child => likeValue E.library partten child.meaning
  | not child => notValue E.library child.meaning
  | isIn left valueList => Sql.isIn E.library left.meaning (meanings valueList)
  | isNull child => .booleans (child.meaning.attrType = .nulls)

def meanings : List (Expression E) → List Value
  | [] => []
  | expr :: exprs => expr.meaning :: meanings exprs

end

mutual

/-- Each `AND` that is not known is replaced by `FALSE`, the inner ones first. -/
def settled : Expression E → Expression E
  | field cell => field cell
  | value v => value v
  | cast child castType => cast child.settled castType
  | comparison comp left right => comparison comp left.settled right.settled
  | conjunction type children =>
    let conjunction := conjunction type (settledList children)
    if type = .and ∧ conjunction.meaning = .nulls then value (.booleans false) else conjunction
  | arithmetic type left right => arithmetic type left.settled right.settled
  | like partten child => like partten child.settled
  | not child => not child.settled
  | isIn left valueList => isIn left.settled (settledList valueList)
  | isNull child => isNull child.settled

def settledList : List (Expression E) → List (Expression E)
  | [] => []
  | expr :: exprs => expr.settled :: settledList exprs

end

mutual

/-- This holds of the expression and of all the expressions in it. -/
def Throughout (P : Expression E → Prop) : Expression E → Prop
  | field cell => P (field cell)
  | value v => P (value v)
  | cast child castType => P (cast child castType) ∧ child.Throughout P
  | comparison comp left right =>
    P (comparison comp left right) ∧ left.Throughout P ∧ right.Throughout P
  | conjunction type children => P (conjunction type children) ∧ AllThroughout P children
  | arithmetic type left right =>
    P (arithmetic type left right) ∧ left.Throughout P ∧ right.Throughout P
  | like partten child => P (like partten child) ∧ child.Throughout P
  | not child => P (not child) ∧ child.Throughout P
  | isIn left valueList =>
    P (isIn left valueList) ∧ left.Throughout P ∧ AllThroughout P valueList
  | isNull child => P (isNull child) ∧ child.Throughout P

def AllThroughout (P : Expression E → Prop) : List (Expression E) → Prop
  | [] => True
  | expr :: exprs => expr.Throughout P ∧ AllThroughout P exprs

end

/-- The expression is no field, and no value without a type. -/
def IsKnown : Expression E → Prop
  | field _ => False
  | value v => v ≠ .undefined
  | _ => True

/-- The expression is built from constants. -/
def IsConstant (expr : Expression E) : Prop := expr.Throughout IsKnown

/-- The expression is an `AND` that is not known: it has a `NULL` and nothing that is false. -/
def IsUnknownAnd (expr : Expression E) : Prop :=
  ∃ children, expr = conjunction .and children ∧ expr.meaning = .nulls

/-- A value that `try_get_value` has for the expression is the one that `get_value` has on every
tuple. -/
def FoldsRight (expr : Expression E) : Prop :=
  ∀ v, expr.tryGetValue = .ok v → ∀ tuple, expr.getValue tuple = .ok v

/-! ### The evaluators -/

variable {tuple : E.Tuple}

mutual

/-- `get_value` computes the meaning. -/
theorem getValue_eq_meaning : ∀ expr : Expression E, expr.IsConstant →
    expr.getValue tuple = .ok expr.meaning
  | field _, h => False.elim h
  | value v, _ => rfl
  | cast child castType, ⟨_, h⟩ => by
    rw [getValue, getValue_eq_meaning child h]
    rfl
  | comparison comp left right, ⟨_, hleft, hright⟩ => by
    rw [getValue, getValue_eq_meaning left hleft, getValue_eq_meaning right hright]
    rfl
  | conjunction type [], _ => rfl
  | conjunction type (child :: children), ⟨_, h⟩ => by
    rw [getValue, getConjunction_of_getValues type false (getValues_eq_meanings _ h), meaning]
    rfl
  | arithmetic type left right, ⟨_, hleft, hright⟩ => by
    rw [getValue, getValue_eq_meaning left hleft, getValue_eq_meaning right hright]
    rfl
  | like partten child, ⟨_, h⟩ => by
    rw [getValue, getValue_eq_meaning child h]
    rfl
  | not child, ⟨_, h⟩ => by
    rw [getValue, getValue_eq_meaning child h]
    rfl
  | isIn left valueList, ⟨_, hleft, hlist⟩ => by
    rw [getValue, getValue_eq_meaning left hleft, getValues_eq_meanings valueList hlist]
    rfl
  | isNull child, ⟨_, h⟩ => by
    rw [getValue, getValue_eq_meaning child h]
    rfl

theorem getValues_eq_meanings : ∀ exprs : List (Expression E),
    AllThroughout IsKnown exprs → getValues tuple exprs = .ok (meanings exprs)
  | [], _ => rfl
  | expr :: exprs, ⟨hexpr, hexprs⟩ => by
    rw [getValues, getValue_eq_meaning expr hexpr, getValues_eq_meanings exprs hexprs]
    rfl

end

theorem valueType_settled : ∀ expr : Expression E, expr.settled.valueType = expr.valueType
  | field _ => rfl
  | value _ => rfl
  | cast _ _ => rfl
  | comparison _ _ _ => rfl
  | conjunction _ _ => by
    rw [settled]
    split_ifs <;> rfl
  | arithmetic type left right => by
    rw [settled, valueType, valueType, valueType_settled left, valueType_settled right]
  | like _ _ => rfl
  | not _ => rfl
  | isIn _ _ => rfl
  | isNull _ => rfl

/-- A `NULL` does not end the loop of an `OR`. -/
theorem tryConjunction_or : ∀ (containNull : Bool) {children : List (Expression E)}
    {values : List Value}, tryValues children = .ok values →
    tryConjunction .or containNull children
      = .ok (valueOf (.disjunction ((if containNull then [.unknown] else [])
          ++ values.map (Value.truth E.library.doubles))))
  | containNull, [], _, h => by
    cases h
    cases containNull <;> rfl
  | containNull, child :: children, values, h => by
    obtain ⟨v, rest, rfl, hchild, hchildren⟩ := tryValues_cons h
    have ih := fun b => tryConjunction_or b hchildren
    rw [tryConjunction, hchild, List.map_cons, Value.truth]
    dsimp only [bind, Except.bind]
    rw [ih]
    obtain _ | _ | _ := v.getBoolean E.library.doubles <;> cases containNull <;>
      simp [Truth.ofOption, valueOf, pure, Except.pure]

/-- A `NULL` ends the loop of an `AND` like what is false. -/
theorem tryConjunction_and : ∀ {children : List (Expression E)} {values : List Value},
    tryValues children = .ok values →
    tryConjunction .and false children
      = .ok (.booleans (.conjunction (values.map (Value.truth E.library.doubles)) = Truth.true))
  | [], _, h => by
    cases h
    rfl
  | child :: children, values, h => by
    obtain ⟨v, rest, rfl, hchild, hchildren⟩ := tryValues_cons h
    have ih := tryConjunction_and hchildren
    rw [tryConjunction, hchild, List.map_cons, Value.truth]
    dsimp only [bind, Except.bind]
    obtain _ | _ | _ := v.getBoolean E.library.doubles <;>
      simp [Truth.ofOption, pure, Except.pure, ih]

/-- A settled `AND` is false where it is not known to be true. -/
theorem meaning_settled_and (child : Expression E) (children : List (Expression E)) :
  (conjunction .and (child :: children)).settled.meaning
    = .booleans (.conjunction ((meanings (settledList (child :: children))).map
        (Value.truth E.library.doubles)) = Truth.true)
  := by
  have hmeaning : (conjunction .and (settledList (child :: children))).meaning
      = valueOf (.conjunction ((meanings (settledList (child :: children))).map
          (Value.truth E.library.doubles))) := by
    rw [settledList, meaning]
    rfl
  rw [settled]
  generalize Truth.conjunction _ = t at hmeaning ⊢
  split_ifs with hunknown
  · rw [hmeaning] at hunknown
    cases t with
    | unknown => rfl
    | false => cases hunknown.2
    | true => cases hunknown.2
  · rw [hmeaning] at hunknown ⊢
    cases t with
    | unknown => exact absurd ⟨rfl, rfl⟩ hunknown
    | false => rfl
    | true => rfl

mutual

/-- `try_get_value` computes the meaning of the settled expression. -/
theorem tryGetValue_eq_meaning : ∀ expr : Expression E, expr.IsConstant →
    expr.tryGetValue = .ok expr.settled.meaning
  | field _, h => False.elim h
  | value v, _ => rfl
  | cast child castType, ⟨_, h⟩ => by
    rw [tryGetValue, tryGetValue_eq_meaning child h]
    rfl
  | comparison comp left right, ⟨_, hleft, hright⟩ => by
    rw [tryGetValue, tryGetValue_eq_meaning left hleft, tryGetValue_eq_meaning right hright]
    rfl
  | conjunction .and [], _ => rfl
  | conjunction .or [], _ => rfl
  | conjunction .or (child :: children), ⟨_, h⟩ => by
    rw [tryGetValue, tryConjunction_or false (tryValues_eq_meanings _ h), settled,
      if_neg (by simp), settledList, meaning]
    rfl
  | conjunction .and (child :: children), ⟨_, h⟩ => by
    rw [tryGetValue, tryConjunction_and (tryValues_eq_meanings _ h), meaning_settled_and]
  | arithmetic type left right, ⟨_, hleft, hright⟩ => by
    rw [tryGetValue, tryGetValue_eq_meaning left hleft, tryGetValue_eq_meaning right hright,
      settled, meaning, ← valueType_settled, settled]
    rfl
  | like partten child, ⟨_, h⟩ => by
    rw [tryGetValue, tryGetValue_eq_meaning child h]
    rfl
  | not child, ⟨_, h⟩ => by
    rw [tryGetValue, tryGetValue_eq_meaning child h]
    rfl
  | isIn left valueList, ⟨_, hleft, hlist⟩ => by
    rw [tryGetValue, tryGetValue_eq_meaning left hleft, tryValues_eq_meanings valueList hlist]
    rfl
  | isNull child, ⟨_, h⟩ => by
    rw [tryGetValue, tryGetValue_eq_meaning child h]
    rfl

theorem tryValues_eq_meanings : ∀ exprs : List (Expression E), AllThroughout IsKnown exprs →
    tryValues exprs = .ok (meanings (settledList exprs))
  | [], _ => rfl
  | expr :: exprs, ⟨hexpr, hexprs⟩ => by
    rw [tryValues, tryGetValue_eq_meaning expr hexpr, tryValues_eq_meanings exprs hexprs]
    rfl

end

theorem foldsRight_iff_meaning {expr : Expression E} (h : expr.IsConstant) :
  expr.FoldsRight ↔ expr.settled.meaning = expr.meaning
  := by
  constructor
  · intro hfolds
    have hget := hfolds _ (tryGetValue_eq_meaning expr h) E.fakeTuple
    rw [getValue_eq_meaning expr h, Except.ok.injEq] at hget
    exact hget.symm
  · intro hmeaning v hv tuple
    rw [tryGetValue_eq_meaning expr h, hmeaning] at hv
    rw [getValue_eq_meaning expr h, hv]

/-! ### Expressions without an unknown `AND` -/

section

variable {P Q R : Expression E → Prop}

theorem Throughout.self : ∀ {expr : Expression E}, expr.Throughout P → P expr
  | field _, h => h
  | value _, h => h
  | cast _ _, h => h.1
  | comparison _ _ _, h => h.1
  | conjunction _ _, h => h.1
  | arithmetic _ _ _, h => h.1
  | like _ _, h => h.1
  | not _, h => h.1
  | isIn _ _, h => h.1
  | isNull _, h => h.1

mutual

/-- What follows where two things hold throughout holds throughout. -/
theorem Throughout.imp
    (himp : ∀ expr : Expression E, expr.Throughout P → expr.Throughout Q → R expr) :
    ∀ expr : Expression E, expr.Throughout P → expr.Throughout Q → expr.Throughout R
  | field _, h, h' => himp _ h h'
  | value _, h, h' => himp _ h h'
  | cast child _, h, h' => ⟨himp _ h h', Throughout.imp himp child h.2 h'.2⟩
  | comparison _ left right, h, h' =>
    ⟨himp _ h h', Throughout.imp himp left h.2.1 h'.2.1, Throughout.imp himp right h.2.2 h'.2.2⟩
  | conjunction _ children, h, h' => ⟨himp _ h h', AllThroughout.imp himp children h.2 h'.2⟩
  | arithmetic _ left right, h, h' =>
    ⟨himp _ h h', Throughout.imp himp left h.2.1 h'.2.1, Throughout.imp himp right h.2.2 h'.2.2⟩
  | like _ child, h, h' => ⟨himp _ h h', Throughout.imp himp child h.2 h'.2⟩
  | not child, h, h' => ⟨himp _ h h', Throughout.imp himp child h.2 h'.2⟩
  | isIn left valueList, h, h' =>
    ⟨himp _ h h', Throughout.imp himp left h.2.1 h'.2.1,
      AllThroughout.imp himp valueList h.2.2 h'.2.2⟩
  | isNull child, h, h' => ⟨himp _ h h', Throughout.imp himp child h.2 h'.2⟩

theorem AllThroughout.imp
    (himp : ∀ expr : Expression E, expr.Throughout P → expr.Throughout Q → R expr) :
    ∀ exprs : List (Expression E), AllThroughout P exprs → AllThroughout Q exprs →
      AllThroughout R exprs
  | [], _, _ => trivial
  | expr :: exprs, h, h' =>
    ⟨Throughout.imp himp expr h.1 h'.1, AllThroughout.imp himp exprs h.2 h'.2⟩

end

end

mutual

theorem settled_eq_self : ∀ expr : Expression E,
    (expr.Throughout fun expr => ¬ expr.IsUnknownAnd) → expr.settled = expr
  | field _, _ => rfl
  | value _, _ => rfl
  | cast child _, h => by rw [settled, settled_eq_self child h.2]
  | comparison _ left right, h => by
    rw [settled, settled_eq_self left h.2.1, settled_eq_self right h.2.2]
  | conjunction type children, h => by
    rw [settled, settledList_eq_self children h.2, if_neg]
    rintro ⟨rfl, hunknown⟩
    exact h.1 ⟨children, rfl, hunknown⟩
  | arithmetic _ left right, h => by
    rw [settled, settled_eq_self left h.2.1, settled_eq_self right h.2.2]
  | like _ child, h => by rw [settled, settled_eq_self child h.2]
  | not child, h => by rw [settled, settled_eq_self child h.2]
  | isIn left valueList, h => by
    rw [settled, settled_eq_self left h.2.1, settledList_eq_self valueList h.2.2]
  | isNull child, h => by rw [settled, settled_eq_self child h.2]

theorem settledList_eq_self : ∀ exprs : List (Expression E),
    AllThroughout (fun expr => ¬ expr.IsUnknownAnd) exprs → settledList exprs = exprs
  | [], _ => rfl
  | expr :: exprs, h => by
    rw [settledList, settled_eq_self expr h.1, settledList_eq_self exprs h.2]

end

theorem IsUnknownAnd.not_foldsRight {expr : Expression E} (h : expr.IsUnknownAnd)
    (hconst : expr.IsConstant) :
  ¬ expr.FoldsRight
  := by
  obtain ⟨children, rfl, hunknown⟩ := h
  rw [foldsRight_iff_meaning hconst, hunknown]
  cases children with
  | nil => cases hunknown
  | cons child children =>
    rw [meaning_settled_and]
    simp

/-- Folding an expression gives the value that `get_value` has exactly if the expression means the
same when each unknown `AND` is replaced by `FALSE`. It does so for all the expressions in it
exactly if there is no unknown `AND`. -/
theorem foldsRight_iff (expr : Expression E) (hconst : expr.IsConstant) :
  (expr.FoldsRight ↔ expr.settled.meaning = expr.meaning)
    ∧ (expr.Throughout FoldsRight ↔ expr.Throughout fun expr => ¬ expr.IsUnknownAnd)
  := by
  constructor
  · exact foldsRight_iff_meaning hconst
  constructor
  · intro hfolds
    apply Throughout.imp _ expr hconst hfolds
    intro expr hconst hfolds hunknown
    exact hunknown.not_foldsRight hconst hfolds.self
  · intro hknown
    apply Throughout.imp _ expr hconst hknown
    intro expr hconst hknown
    rw [foldsRight_iff_meaning hconst, settled_eq_self expr hknown]

/-- In `(NULL AND TRUE) OR TRUE` it does not matter whether the `AND` is known. -/
theorem foldsRight_iff_or :
  let expr : Expression .ofLists := conjunction .or
    [conjunction .and [value .nulls, value (.booleans true)], value (.booleans true)]
  expr.FoldsRight
  := by
  intro expr
  have hconst : expr.IsConstant := by simp [expr, IsConstant, Throughout, AllThroughout, IsKnown]
  exact (foldsRight_iff expr hconst).1.mpr rfl

/-- `NULL AND TRUE` is folded to `FALSE`. -/
theorem not_foldsRight_and :
  let expr : Expression .ofLists := conjunction .and [value .nulls, value (.booleans true)]
  expr.IsConstant ∧ ¬ expr.FoldsRight ∧ expr.tryGetValue = .ok (.booleans false)
    ∧ ∀ tuple, expr.getValue tuple = .ok .nulls
  := by
  intro expr
  have hfolded : expr.tryGetValue = .ok (.booleans false) := rfl
  have hvalue : ∀ tuple, expr.getValue tuple = .ok .nulls := fun _ => rfl
  refine ⟨?_, ?_, hfolded, hvalue⟩
  · simp [expr, IsConstant, Throughout, AllThroughout, IsKnown]
  · intro hfolds
    have hget := (hvalue _).symm.trans (hfolds _ hfolded Environment.ofLists.fakeTuple)
    cases hget

end Expression

end MiniOB.Sql
