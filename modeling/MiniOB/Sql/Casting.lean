import MiniOB.Sql.Evaluation

/-!
# Casts

What a `CastExpr` gives: a value of the type that it casts to, or `NULL`. The `CHARS` case of
`CastExpr::cast` has no `break`, so that it runs on into the one of `TEXTS`.
-/

namespace MiniOB.Sql

variable {L : Library} {castType : AttrType} {value : Value}

/-- Casting the value that the child has gives a value of the type or `NULL`, gives `NULL` for a
`NULL`, and leaves what it gives as it is when that is cast once more. -/
structure CastYields (L : Library) (castType : AttrType) (child cell : Except Stop Value) :
    Prop where
  attrType : ∀ v, cell = .ok v → v.attrType = castType ∨ v = .nulls
  nulls : ∀ v, cell = .ok v → child = .ok .nulls → v = .nulls
  again : ∀ v, cell = .ok v → castValue L castType v = v

/-- The value is a `CHARS` or `NULL`, if there is one. -/
def IsCharsOrNull (child : Except Stop Value) : Prop :=
  ∀ v, child = .ok v → v.attrType = .chars ∨ v = .nulls

/-! ### The cast of one value -/

theorem castValue_self (h : value.attrType = castType) :
  castValue L castType value = value
  := by
  rw [castValue.eq_def, if_pos h.symm]

theorem castValue_nulls :
  castValue L castType .nulls = .nulls
  := by
  cases castType <;> rfl

/-- What becomes of a value by a constructor with the type has the type, and is `NULL` where
there is nothing to make it of. -/
theorem attrType_getD {α : Type} {M : α → Value} (h : ∀ a, (M a).attrType = castType)
    (o : Option α) :
  ((o.map M).getD .nulls).attrType = castType ∨ (o.map M).getD .nulls = .nulls
  := by
  cases o with
  | none => right; rfl
  | some a => left; exact h a

theorem castValue_chars (h : value.attrType ≠ .chars) :
  castValue L .chars value = ((value.getString L).map fun s => .texts (cStr s)).getD .nulls
  := by
  rw [castValue, if_neg fun hv => h hv.symm]

/-- A cast to another type than `CHARS` gives a value of that type. -/
theorem attrType_castValue (h : castType ≠ .chars) (hundefined : castType ≠ .undefined) :
  (castValue L castType value).attrType = castType ∨ castValue L castType value = .nulls
  := by
  obtain heq | hne := eq_or_ne value.attrType castType
  · left
    rw [castValue_self heq, heq]
  rw [castValue.eq_def, if_neg hne.symm]
  cases castType with
  | undefined => exact absurd rfl hundefined
  | chars => exact absurd rfl h
  | ints => exact attrType_getD (M := .ints) (fun _ => rfl) _
  | floats => exact attrType_getD (M := .floats) (fun _ => rfl) _
  | booleans => exact attrType_getD (M := .booleans) (fun _ => rfl) _
  | dates => exact attrType_getD (M := .dates) (fun _ => rfl) _
  | texts => exact attrType_getD (M := fun s => .texts (cStr s)) (fun _ => rfl) _
  | nulls => right; rfl

/-- A cast to `CHARS` gives a `CHARS` only where it has one already. -/
theorem attrType_castValue_chars :
  ((castValue L .chars value).attrType = .chars ∨ castValue L .chars value = .nulls)
    ↔ (value.attrType = .chars ∨ value = .nulls)
  := by
  obtain heq | hne := eq_or_ne value.attrType .chars
  · rw [castValue_self heq]
  rw [castValue_chars hne, Value.getString]
  split_ifs with hnulls
  · apply iff_of_true
    · right; rfl
    · right; exact Value.eq_nulls hnulls
  · apply iff_of_false
    · rintro (h | h) <;> cases h
    · rintro (h | rfl)
      · exact hne h
      · exact hnulls rfl

/-- What a cast gives stays as it is under the same cast. -/
theorem castValue_castValue :
  castValue L castType (castValue L castType value) = castValue L castType value
  := by
  obtain rfl | hundefined := eq_or_ne castType .undefined
  · obtain heq | hne := eq_or_ne value.attrType .undefined
    · rw [castValue_self heq, castValue_self heq]
    · have hvalue : castValue L .undefined value = .nulls := by
        rw [castValue, if_neg hne.symm]
      rw [hvalue, castValue_nulls]
  obtain rfl | hchars := eq_or_ne castType .chars
  · obtain heq | hne := eq_or_ne value.attrType .chars
    · rw [castValue_self heq, castValue_self heq]
    -- the value is a text by now, and becomes one again
    · rw [castValue_chars hne]
      cases value.getString L with
      | none => exact castValue_nulls
      | some s =>
        show castValue L .chars (.texts (cStr s)) = .texts (cStr s)
        rw [castValue_chars (by simp [Value.attrType])]
        show Value.texts (cStr (cStr s)) = .texts (cStr s)
        rw [cStr_cStr]
  · obtain h | h : (castValue L castType value).attrType = castType
        ∨ castValue L castType value = .nulls := attrType_castValue hchars hundefined
    · exact castValue_self h
    · rw [h, castValue_nulls]

/-! ### The expression -/

variable {E : Environment}

theorem castYields_iff {child : Except Stop Value} (hundefined : castType ≠ .undefined) :
  CastYields L castType child (child.map (castValue L castType))
    ↔ (castType = .chars → IsCharsOrNull child)
  := by
  constructor
  · rintro ⟨hattrType, -, -⟩ rfl v rfl
    apply attrType_castValue_chars.mp
    apply hattrType
    rfl
  · intro h
    constructor
    · intro v hv
      cases child with
      | error stop => cases hv
      | ok value =>
        cases hv
        obtain rfl | hchars := eq_or_ne castType .chars
        · apply attrType_castValue_chars.mpr
          apply h rfl value rfl
        · apply attrType_castValue hchars hundefined
    · rintro v hv rfl
      cases hv
      apply castValue_nulls
    · intro v hv
      cases child with
      | error stop => cases hv
      | ok value =>
        cases hv
        apply castValue_castValue

theorem getValue_cast {tuple : E.Tuple} {child : Expression E} :
  (Expression.cast child castType).getValue tuple
    = (child.getValue tuple).map (castValue E.library castType)
  := by
  rw [Expression.getValue]
  cases child.getValue tuple <;> rfl

theorem tryGetValue_cast {child : Expression E} :
  (Expression.cast child castType).tryGetValue
    = child.tryGetValue.map (castValue E.library castType)
  := by
  rw [Expression.tryGetValue]
  cases child.tryGetValue <;> rfl

/-- Both evaluators of a cast give what it asks for exactly if it is none to `CHARS`, or one of
`CHARS` already: every other value becomes a `TEXTS` there. -/
theorem cast_yields_iff (child : Expression E) (hundefined : castType ≠ .undefined) :
  (∀ tuple, CastYields E.library castType (child.getValue tuple)
      ((Expression.cast child castType).getValue tuple)
    ↔ (castType = .chars → IsCharsOrNull (child.getValue tuple)))
    ∧ (CastYields E.library castType child.tryGetValue
        (Expression.cast child castType).tryGetValue
      ↔ (castType = .chars → IsCharsOrNull child.tryGetValue))
  := by
  constructor
  · intro tuple
    rw [getValue_cast]
    apply castYields_iff hundefined
  · rw [tryGetValue_cast]
    apply castYields_iff hundefined

/-- A constant that is cast to `INTS`. -/
theorem cast_yields_iff_ints :
  CastYields Environment.ofLists.library .ints (.ok (.chars [49, 50]))
    (Expression.cast (E := .ofLists) (.value (.chars [49, 50])) .ints).tryGetValue
  := by
  apply (cast_yields_iff (E := .ofLists) (.value (.chars [49, 50])) (by decide)).2.mpr
  intro h
  cases h

/-- The number 7 that is cast to `CHARS` becomes a `TEXTS`. -/
theorem cast_to_chars_fails :
  ¬ CastYields Environment.ofLists.library .chars (.ok (.ints 7))
    (Expression.cast (E := .ofLists) (.value (.ints 7)) .chars).tryGetValue
  := by
  intro h
  obtain h | h := h.attrType (.texts [55]) rfl
  · cases h
  · cases h

end MiniOB.Sql
