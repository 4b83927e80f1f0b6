import MiniOB.Sql.Casting
import MiniOB.Sql.ConstantFolding

/-!
# Types of expressions

An expression whose fields are found has a value, and this has the type that `value_type` says, up
to `NULL` and to the difference between `CHARS` and `TEXTS`: a cast to `CHARS` makes a `TEXTS`,
and the cell of a `TEXTS` column is a `CHARS`.
-/

namespace MiniOB.Sql

/-- `CHARS` or `TEXTS`. -/
def AttrType.isText (type : AttrType) : Bool := type = .chars ∨ type = .texts

namespace Value

/-- The value may stand where this type is expected. -/
def HasType (v : Value) (type : AttrType) : Prop :=
  v = .nulls ∨ v.attrType = type ∨ (v.attrType.isText ∧ type.isText)

variable {v : Value} {type : AttrType}

theorem hasType_nulls : HasType .nulls type := .inl rfl

theorem hasType_attrType : v.HasType v.attrType := .inr (.inl rfl)

/-- A value that is no `NULL` has the types that are like its own. -/
theorem HasType.isText_iff (h : v.HasType type) (hv : v ≠ .nulls) :
  v.attrType.isText ↔ type.isText
  := by
  obtain hnull | heq | ⟨hleft, hright⟩ := h
  · exact absurd hnull hv
  · rw [heq]
  · exact iff_of_true hleft hright

/-- Where the type is none of texts, a value that is no `NULL` has just this type. -/
theorem HasType.attrType_eq_iff (h : v.HasType type) (hv : v ≠ .nulls) {type' : AttrType}
    (htext : type'.isText = false) :
  v.attrType = type' ↔ type = type'
  := by
  obtain hnull | heq | ⟨hleft, hright⟩ := h
  · exact absurd hnull hv
  · rw [heq]
  · apply iff_of_false
    · rintro rfl
      rw [htext] at hleft
      cases hleft
    · rintro rfl
      rw [htext] at hright
      cases hright

theorem hasType_castValue (L : Library) :
  (castValue L type v).HasType type
  := by
  obtain rfl | hundefined := eq_or_ne type .undefined
  · rw [castValue.eq_def]
    split_ifs with h
    · exact .inr (.inl h.symm)
    · exact hasType_nulls
  obtain rfl | hchars := eq_or_ne type .chars
  · obtain heq | hne := eq_or_ne v.attrType .chars
    · rw [castValue_self heq]
      exact .inr (.inl heq)
    · rw [castValue_chars hne]
      cases v.getString L with
      | none => exact hasType_nulls
      | some s => exact .inr (.inr ⟨rfl, rfl⟩)
  · obtain h | h := @attrType_castValue L _ v hchars hundefined
    · exact .inr (.inl h)
    · exact .inl h

end Value

open Value

/-- The truth of a condition is a `BOOLEANS` or `NULL`. -/
theorem hasType_truthValue (truth : Option Bool) : (truthValue truth).HasType .booleans := by
  cases truth with
  | none => exact hasType_nulls
  | some b => exact hasType_attrType

theorem hasType_valueOf (t : Kleene.Truth) : (valueOf t).HasType .booleans := by
  cases t with
  | false => exact hasType_attrType
  | unknown => exact hasType_nulls
  | true => exact hasType_attrType

theorem hasType_notValue (L : Library) (v : Value) : (notValue L v).HasType .booleans := by
  rw [notValue]
  cases v.getBoolean L.doubles with
  | none => exact hasType_nulls
  | some b => exact hasType_attrType

theorem hasType_likeValue (L : Library) (partten : Str) (v : Value) :
  (likeValue L partten v).HasType .booleans
  := by
  rw [likeValue]
  cases v.getString L with
  | none => exact hasType_nulls
  | some s => exact hasType_attrType

theorem hasType_isIn (L : Library) (left : Value) (values : List Value) :
  (isIn L left values).HasType .booleans
  := by
  rw [isIn]
  split_ifs
  · exact hasType_nulls
  · exact hasType_attrType
  · exact hasType_nulls
  · exact hasType_attrType

theorem hasType_getD {type : AttrType} {o : Option Value} (h : ∀ v, o = some v → v.HasType type) :
  (o.getD .nulls).HasType type
  := by
  cases o with
  | none => exact hasType_nulls
  | some v => exact h v rfl

/-- Numbers are computed with the type that they are computed to. -/
theorem hasType_calcValue {L : Library} {type : ArithmeticType} {target : AttrType}
    {left right v : Value} (htarget : target = .ints ∨ target = .floats)
    (h : calcValue L type target left right = some v) :
  v.HasType target
  := by
  -- every value is made by the constructor of the type, apart from a quotient by zero
  obtain rfl | rfl := htarget
  · cases type <;> simp only [calcValue, if_true, Option.bind_eq_some_iff,
      Option.map_eq_some_iff] at h
    case div =>
      obtain ⟨n, -, h⟩ := h
      split_ifs at h with hzero
      · cases h
        exact hasType_nulls
      · obtain ⟨m, -, rfl⟩ := Option.map_eq_some_iff.mp h
        exact hasType_attrType
    case negative =>
      obtain ⟨m, -, rfl⟩ := h
      exact hasType_attrType
    all_goals
      obtain ⟨m, -, n, -, rfl⟩ := h
      exact hasType_attrType
  · cases type <;> simp only [calcValue, reduceCtorEq, if_false, Option.bind_eq_some_iff,
      Option.map_eq_some_iff] at h
    case div =>
      obtain ⟨y, -, h⟩ := h
      split_ifs at h with hzero
      · cases h
        exact hasType_nulls
      · obtain ⟨x, -, rfl⟩ := Option.map_eq_some_iff.mp h
        exact hasType_attrType
    case negative =>
      obtain ⟨x, -, rfl⟩ := h
      exact hasType_attrType
    all_goals
      obtain ⟨x, -, y, -, rfl⟩ := h
      exact hasType_attrType

namespace Expression

variable {E : Environment} {tuple : E.Tuple}

/-- Where the expression is a field, the tuple has a cell for it, of its type. -/
def Finds (tuple : E.Tuple) : Expression E → Prop
  | field cell => ∃ v, E.findCell tuple cell = .ok v ∧ v.HasType (E.fieldType cell)
  | _ => True

theorem arithmetic_valueType (type : ArithmeticType) (left right : Expression E) :
  (arithmetic type left right).valueType = .ints ∨ (arithmetic type left right).valueType = .floats
  := by
  rw [valueType]
  split_ifs
  · exact .inl rfl
  · exact .inr rfl

mutual

/-- An expression whose fields are found has a value of its type. -/
theorem getValue_hasType : ∀ expr : Expression E, expr.Throughout (Finds tuple) →
    ∃ v, expr.getValue tuple = .ok v ∧ v.HasType expr.valueType
  | field _, h => h
  | value v, _ => ⟨v, rfl, hasType_attrType⟩
  | cast child castType, ⟨_, h⟩ => by
    obtain ⟨v, hv, -⟩ := getValue_hasType child h
    refine ⟨castValue E.library castType v, ?_, hasType_castValue E.library⟩
    rw [getValue, hv]
    rfl
  | comparison comp left right, ⟨_, hleft, hright⟩ => by
    obtain ⟨v, hv, -⟩ := getValue_hasType left hleft
    obtain ⟨w, hw, -⟩ := getValue_hasType right hright
    refine ⟨truthValue (compareValue E.library.doubles comp v w), ?_, hasType_truthValue _⟩
    rw [getValue, hv, hw]
    rfl
  | conjunction _ [], _ => ⟨.booleans true, rfl, hasType_attrType⟩
  | conjunction type (child :: children), ⟨_, h⟩ => by
    obtain ⟨values, hvalues⟩ := getValues_hasType (child :: children) h
    refine ⟨valueOf (type.join (values.map (Value.truth E.library.doubles))), ?_,
      hasType_valueOf _⟩
    rw [getValue, getConjunction_of_getValues type false hvalues]
    rfl
  | arithmetic type left right, ⟨_, hleft, hright⟩ => by
    obtain ⟨v, hv, -⟩ := getValue_hasType left hleft
    obtain ⟨w, hw, -⟩ := getValue_hasType right hright
    refine ⟨(calcValue E.library type (arithmetic type left right).valueType v w).getD .nulls, ?_,
      hasType_getD fun _ h => hasType_calcValue (arithmetic_valueType type left right) h⟩
    rw [getValue, hv, hw]
    rfl
  | like partten child, ⟨_, h⟩ => by
    obtain ⟨v, hv, -⟩ := getValue_hasType child h
    refine ⟨likeValue E.library partten v, ?_, hasType_likeValue E.library partten v⟩
    rw [getValue, hv]
    rfl
  | not child, ⟨_, h⟩ => by
    obtain ⟨v, hv, -⟩ := getValue_hasType child h
    refine ⟨notValue E.library v, ?_, hasType_notValue E.library v⟩
    rw [getValue, hv]
    rfl
  | isIn left valueList, ⟨_, hleft, hvalues⟩ => by
    obtain ⟨v, hv, -⟩ := getValue_hasType left hleft
    obtain ⟨values, hvalues⟩ := getValues_hasType valueList hvalues
    refine ⟨Sql.isIn E.library v values, ?_, hasType_isIn E.library v values⟩
    rw [getValue, hv, hvalues]
    rfl
  | isNull child, ⟨_, h⟩ => by
    obtain ⟨v, hv, -⟩ := getValue_hasType child h
    refine ⟨.booleans (v.attrType = .nulls), ?_, hasType_attrType⟩
    rw [getValue, hv]
    rfl

theorem getValues_hasType : ∀ exprs : List (Expression E), AllThroughout (Finds tuple) exprs →
    ∃ values, getValues tuple exprs = .ok values
  | [], _ => ⟨[], rfl⟩
  | expr :: exprs, ⟨hexpr, hexprs⟩ => by
    obtain ⟨v, hv, -⟩ := getValue_hasType expr hexpr
    obtain ⟨values, hvalues⟩ := getValues_hasType exprs hexprs
    use v :: values
    rw [getValues, hv, hvalues]
    rfl

end

end Expression

end MiniOB.Sql
