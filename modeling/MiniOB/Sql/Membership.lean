import MiniOB.Sql.ValueOrder

/-!
# Membership in a list

`InExpr` of `sql/expr/expression.cpp` over a list of values, and the chain of equalities that it
stands for. The values are put into a `std::set`, which promises something only where its order
is a strict weak one on what it holds and what is looked for.
-/

namespace MiniOB.Sql

open Kleene (Truth)

/-! ### Sets -/

/-- What is promised of a `std::set`: where the order is a strict weak one, `find` finds what none
of the two is less than. -/
def IsSetFind (find : (Value → Value → Bool) → List Value → Value → Bool) : Prop :=
  ∀ less values key,
    IsStrictWeakOrder {v | v = key ∨ v ∈ values} (fun a b => less a.1 b.1 = true) →
    (find less values key = true ↔ ∃ w ∈ values, less w key = false ∧ less key w = false)

/-- The environment with such sets. -/
abbrev Environment.withFind (E : Environment)
    (find : (Value → Value → Bool) → List Value → Value → Bool) : Environment :=
  { E with library := { E.library with find } }

open Classical in
/-- A `find` that finds what it has to, and answers this where nothing is promised. -/
noncomputable def findOr (otherwise : Bool) (less : Value → Value → Bool) (values : List Value)
    (key : Value) : Bool :=
  if IsStrictWeakOrder {v | v = key ∨ v ∈ values} (fun a b => less a.1 b.1 = true) then
    values.any fun w => !less w key && !less key w
  else otherwise

theorem isSetFind_findOr (otherwise : Bool) :
  IsSetFind (findOr otherwise)
  := by
  intro less values key hless
  rw [findOr, if_pos hless]
  simp

/-! ### The chain of equalities -/

section

variable (F : Doubles)

/-- What is known of whether a value equals this one. -/
def equality (left w : Value) : Truth := .ofOption (compareValue F .equalTo left w)

/-- The value of the OR of the equalities. -/
def chainValue (left : Value) (values : List Value) : Value :=
  valueOf (ConjunctionType.or.join (values.map (equality F left)))

end

variable {E : Environment} {left v w : Value} {values : List Value}

theorem getValues_equalities (tuple : E.Tuple) (left : Value) : ∀ values : List Value,
    Expression.getValues tuple
        (values.map fun w => Expression.comparison (E := E) .equalTo (.value left) (.value w))
      = .ok (values.map fun w => valueOf (equality E.library.doubles left w))
  | [] => rfl
  | w :: values => by
    rw [List.map_cons, Expression.getValues, getValues_equalities tuple left values]
    dsimp only [Expression.getValue, bind, Except.bind, pure, Except.pure]
    rw [truthValue_eq]
    rfl

/-- It is that of the `ConjunctionExpr` of the `ComparisonExpr`s. -/
theorem getValue_chain (tuple : E.Tuple) (hvalues : values ≠ []) :
  (Expression.conjunction (E := E) .or
      (values.map fun w => .comparison .equalTo (.value left) (.value w))).getValue tuple
    = .ok (chainValue E.library.doubles left values)
  := by
  cases values with
  | nil => exact absurd rfl hvalues
  | cons w values =>
    have hloop := getConjunction_of_getValues .or false
      (getValues_equalities (E := E) tuple left (w :: values))
    rw [List.map_cons] at hloop ⊢
    rw [Expression.getValue, hloop, chainValue]
    simp [Function.comp_def, truth_valueOf]

/-! ### Comparing the other way round -/

section

variable {F : Doubles} {left v w : Value} {values : List Value}

theorem compareStr_swap : ∀ s t : Str, compareStr t s = -compareStr s t
  | [], [] => rfl
  | [], _ :: _ => rfl
  | _ :: _, [] => rfl
  | a :: s, b :: t => by
    have ih := compareStr_swap s t
    rw [compareStr, compareStr]
    simp only [BitVec.lt_def]
    split_ifs <;> omega

theorem compare_swap (v w : Value) :
  w.compare F v = (v.compare F w).map fun cmp => -cmp
  := by
  cases v <;> cases w <;>
    first
    | rfl
    | exact congrArg some (F.sign_swap _ _)
    | exact congrArg some (compareStr_swap _ _)
    | simp only [Value.compare, Option.map_map]
      congr 1
      funext d
      exact F.sign_swap _ _

/-- None of the two is less exactly if they compare equal or not at all. -/
theorem not_less_iff :
  less F w v = false ∧ less F v w = false ↔ ∀ cmp, v.compare F w = some cmp → cmp = 0
  := by
  rw [less, less, compare_swap v w]
  cases v.compare F w with
  | none => simp
  | some cmp =>
    simp only [Option.map_some, decide_eq_false_iff_not, Option.some.injEq, forall_eq']
    omega

theorem less_self (v : Value) :
  less F v v = false
  := by
  have hzero : ∀ cmp, v.compare F v = some cmp → cmp = 0 := by
    intro cmp hcmp
    have hswap := compare_swap v v (F := F)
    rw [hcmp, Option.map_some, Option.some.injEq] at hswap
    omega
  exact (not_less_iff.mpr hzero).1

/-! ### What the chain says -/

theorem equality_eq_true :
  equality F left w = .true ↔ left.compare F w = some 0
  := by
  rw [equality, compareValue]
  cases left.compare F w with
  | none => exact iff_of_false (by decide) (by simp)
  | some cmp => by_cases h : cmp = 0 <;> simp [h, Truth.ofOption]

theorem equality_eq_false :
  equality F left w = .false ↔ ∃ cmp, left.compare F w = some cmp ∧ cmp ≠ 0
  := by
  rw [equality, compareValue]
  cases left.compare F w with
  | none => exact iff_of_false (by decide) (by simp)
  | some cmp => by_cases h : cmp = 0 <;> simp [h, Truth.ofOption]

theorem chainValue_eq_true :
  chainValue F left values = .booleans true ↔ ∃ w ∈ values, left.compare F w = some 0
  := by
  have h : ∀ t, valueOf t = .booleans true ↔ t = .true := by
    intro t
    cases t <;> simp [valueOf]
  rw [chainValue, h, ConjunctionType.join, Truth.disjunction_eq_true, List.mem_map]
  simp only [equality_eq_true]

theorem chainValue_eq_false :
  chainValue F left values = .booleans false
    ↔ ∀ w ∈ values, ∃ cmp, left.compare F w = some cmp ∧ cmp ≠ 0
  := by
  have h : ∀ t, valueOf t = .booleans false ↔ t = .false := by
    intro t
    cases t <;> simp [valueOf]
  rw [chainValue, h, ConjunctionType.join, Truth.disjunction_eq_false, List.forall_mem_map]
  simp only [equality_eq_false]

theorem chainValue_cases (F : Doubles) (left : Value) (values : List Value) :
  chainValue F left values = .booleans true ∨ chainValue F left values = .booleans false
    ∨ chainValue F left values = .nulls
  := by
  rw [chainValue]
  cases ConjunctionType.or.join (values.map (equality F left)) <;> simp [valueOf]

end

/-! ### Membership -/

/-- `IN` of constants is the chain of equalities, whatever the order of the list and whatever the
sets do where nothing is promised. -/
def EqualsChain (E : Environment) (tuple : E.Tuple) (left : Value) (values : List Value) : Prop :=
  ∀ find, IsSetFind find → ∀ values', values.Perm values' →
    Expression.getValue (E := E.withFind find) tuple (.isIn (.value left) (values'.map .value))
        = .ok (chainValue E.library.doubles left values)
      ∧ Expression.tryGetValue (E := E.withFind find) (.isIn (.value left) (values'.map .value))
        = .ok (chainValue E.library.doubles left values)

/-- The values of the list that are not `NULL` and the left value are ordered as a set asks. -/
def SetOrdered (F : Doubles) (left : Value) (values : List Value) : Prop :=
  IsStrictWeakOrder {v | v = left ∨ v ∈ values ∧ v ≠ .nulls} fun a b => less F a.1 b.1 = true

/-- A `NULL` is not looked for in an empty list, and any other value in an ordered one only, where
some value equals it or all can be compared with it. -/
def IsFound (F : Doubles) (left : Value) (values : List Value) : Prop :=
  if left = .nulls then values ≠ []
  else SetOrdered F left values
    ∧ ((∃ w ∈ values, left.compare F w = some 0)
      ∨ ∀ w ∈ values, w ≠ .nulls → left.compare F w ≠ none)

section

variable {E : Environment} {tuple : E.Tuple} {left w : Value} {values values' : List Value}
  {find : (Value → Value → Bool) → List Value → Value → Bool}

theorem getValues_constants : ∀ values : List Value,
    Expression.getValues tuple (values.map .value) = .ok values
      ∧ Expression.tryValues (E := E) (values.map .value) = .ok values
  | [] => ⟨rfl, rfl⟩
  | v :: values => by
    obtain ⟨hget, htry⟩ := getValues_constants values
    constructor
    · rw [List.map_cons, Expression.getValues, hget]
      rfl
    · rw [List.map_cons, Expression.tryValues, htry]
      rfl

theorem getValue_isIn_constants (E : Environment) (tuple : E.Tuple) (left : Value)
    (values : List Value) :
  Expression.getValue tuple (.isIn (.value left) (values.map .value))
      = .ok (isIn E.library left values)
    ∧ Expression.tryGetValue (E := E) (.isIn (.value left) (values.map .value))
      = .ok (isIn E.library left values)
  := by
  obtain ⟨hget, htry⟩ : Expression.getValues tuple (values.map .value) = .ok values
      ∧ Expression.tryValues (E := E) (values.map .value) = .ok values :=
    getValues_constants values
  constructor
  · rw [Expression.getValue, hget]
    rfl
  · rw [Expression.tryGetValue, htry]
    rfl

/-- The two evaluators do the same. -/
theorem equalsChain_iff_isIn :
  EqualsChain E tuple left values ↔ ∀ find, IsSetFind find → ∀ values', values.Perm values' →
    isIn { E.library with find } left values' = chainValue E.library.doubles left values
  := by
  apply forall_congr' fun find => forall_congr' fun _ => forall_congr' fun values' =>
    forall_congr' fun _ => ?_
  obtain ⟨hget, htry⟩ := getValue_isIn_constants (E.withFind find) tuple left values'
  rw [hget, htry, and_self, Except.ok.injEq]

theorem isIn_of_ne (hleft : left ≠ .nulls) :
  isIn { E.library with find } left values
    = if find (less E.library.doubles) (values.filter (· ≠ .nulls)) left then .booleans true
      else if .nulls ∈ values then .nulls
      else .booleans false
  := by
  have htype : left.attrType ≠ .nulls := fun h => hleft (Value.eq_nulls h)
  rw [isIn, if_neg htype]
  simp only [decide_eq_true_eq]
  rfl

/-- Where the values are ordered as a set asks, a value is found if it compares equal to the left
one or not at all. -/
theorem find_iff (hfind : IsSetFind find) (hperm : values.Perm values')
    (hordered : SetOrdered E.library.doubles left values) :
  find (less E.library.doubles) (values'.filter (· ≠ .nulls)) left = true
    ↔ ∃ w ∈ values, w ≠ .nulls ∧ ∀ cmp, left.compare E.library.doubles w = some cmp → cmp = 0
  := by
  have hset : {v | v = left ∨ v ∈ values ∧ v ≠ .nulls}
      = {v | v = left ∨ v ∈ values'.filter (· ≠ .nulls)} := by
    ext v
    simp [hperm.mem_iff]
  rw [SetOrdered, hset] at hordered
  rw [hfind _ _ _ hordered]
  simp only [not_less_iff, List.mem_filter, decide_eq_true_eq, and_assoc, hperm.mem_iff]

theorem chainValue_nulls :
  chainValue E.library.doubles .nulls values = if values = [] then .booleans false else .nulls
  := by
  have hcompare : ∀ w : Value, Value.nulls.compare E.library.doubles w = none :=
    fun w => (compare_nulls w).2
  split_ifs with h
  · rw [h]
    rfl
  · obtain htrue | hfalse | hnulls := chainValue_cases E.library.doubles .nulls
      values
    · obtain ⟨w, -, hw⟩ := chainValue_eq_true.mp htrue
      rw [hcompare] at hw
      cases hw
    · obtain ⟨w, hw⟩ := List.exists_mem_of_ne_nil values h
      obtain ⟨cmp, hcmp, -⟩ := chainValue_eq_false.mp hfalse w hw
      rw [hcompare] at hcmp
      cases hcmp
    · exact hnulls

/-- The left value equals one of the list, or can be compared with all that are not `NULL`. -/
def IsDecided (F : Doubles) (left : Value) (values : List Value) : Prop :=
  (∃ w ∈ values, left.compare F w = some 0) ∨ ∀ w ∈ values, w ≠ .nulls → left.compare F w ≠ none

/-- Then a value is found exactly if it equals the left one. -/
theorem find_iff_of_isDecided (hfind : IsSetFind find) (hperm : values.Perm values')
    (hordered : SetOrdered E.library.doubles left values)
    (hdecided : IsDecided E.library.doubles left values) :
  find (less E.library.doubles) (values'.filter (· ≠ .nulls)) left = true
    ↔ ∃ w ∈ values, left.compare E.library.doubles w = some 0
  := by
  rw [find_iff hfind hperm hordered]
  constructor
  · rintro ⟨w, hw, hne, hzero⟩
    obtain hequal | hcompare := hdecided
    · exact hequal
    · obtain ⟨cmp, hcmp⟩ := Option.ne_none_iff_exists'.mp (hcompare w hw hne)
      exact ⟨w, hw, by rw [hcmp, hzero cmp hcmp]⟩
  · rintro ⟨w, hw, hzero⟩
    refine ⟨w, hw, ?_, ?_⟩
    · rintro rfl
      rw [(compare_nulls left).1] at hzero
      cases hzero
    · intro cmp hcmp
      rw [hzero] at hcmp
      exact (Option.some.inj hcmp).symm

/-- And where none equals it, the chain is `NULL` if the list has a `NULL`, and otherwise false. -/
theorem chainValue_of_isDecided {F : Doubles} (hdecided : IsDecided F left values)
    (hnone : ¬ ∃ w ∈ values, left.compare F w = some 0) :
  chainValue F left values = if .nulls ∈ values then .nulls else .booleans false
  := by
  split_ifs with hnulls
  · obtain htrue | hfalse | h := chainValue_cases F left values
    · exact absurd (chainValue_eq_true.mp htrue) hnone
    · obtain ⟨cmp, hcmp, -⟩ := chainValue_eq_false.mp hfalse _ hnulls
      rw [(compare_nulls left).1] at hcmp
      cases hcmp
    · exact h
  · rw [chainValue_eq_false]
    intro w hw
    have hne : w ≠ .nulls := by
      rintro rfl
      exact hnulls hw
    obtain ⟨cmp, hcmp⟩ := Option.ne_none_iff_exists'.mp (hdecided.resolve_left hnone w hw hne)
    refine ⟨cmp, hcmp, ?_⟩
    rintro rfl
    exact hnone ⟨w, hw, hcmp⟩

/-- In an ordered list `IN` is the chain where all values can be compared, or one equals. -/
theorem isIn_eq_chainValue (hfind : IsSetFind find) (hperm : values.Perm values')
    (hleft : left ≠ .nulls) (hordered : SetOrdered E.library.doubles left values)
    (hdecided : IsDecided E.library.doubles left values) :
  isIn { E.library with find } left values' = chainValue E.library.doubles left values
  := by
  have hfound := find_iff_of_isDecided hfind hperm hordered hdecided
  rw [isIn_of_ne hleft]
  obtain hequal | hnone := em (∃ w ∈ values, left.compare E.library.doubles w = some 0)
  · rw [if_pos (hfound.mpr hequal), chainValue_eq_true.mpr hequal]
  · rw [if_neg (mt hfound.mp hnone), chainValue_of_isDecided hdecided hnone]
    simp only [hperm.mem_iff]

/-- In a list that is not ordered nothing is promised: the set may answer what the chain does not
say. -/
theorem setOrdered_of_equalsChain (hleft : left ≠ .nulls)
    (h : ∀ find, IsSetFind find → isIn { E.library with find } left values
      = chainValue E.library.doubles left values) :
  SetOrdered E.library.doubles left values
  := by
  by_contra hordered
  have hset : {v | v = left ∨ v ∈ values ∧ v ≠ .nulls}
      = {v | v = left ∨ v ∈ values.filter (· ≠ .nulls)} := by
    ext v
    simp
  rw [SetOrdered, hset] at hordered
  have hfind : ∀ b, findOr b (less E.library.doubles) (values.filter (· ≠ .nulls)) left = b := by
    intro b
    rw [findOr, if_neg hordered]
  have htrue := h _ (isSetFind_findOr true)
  have hfalse := h _ (isSetFind_findOr false)
  rw [isIn_of_ne hleft, hfind, if_pos rfl] at htrue
  rw [isIn_of_ne hleft, hfind, if_neg (by decide), ← htrue] at hfalse
  split_ifs at hfalse
  cases hfalse

/-- `IN` is the chain of equalities exactly if this holds. -/
theorem equalsChain_iff :
  EqualsChain E tuple left values ↔ IsFound E.library.doubles left values
  := by
  rw [equalsChain_iff_isIn, IsFound]
  split_ifs with hleft
  · subst hleft
    rw [chainValue_nulls]
    constructor
    · intro h hnil
      have hvalue := h _ (isSetFind_findOr true) values (.refl values)
      rw [if_pos hnil] at hvalue
      cases hvalue
    · intro hne find _ values' _
      rw [if_neg hne]
      rfl
  · constructor
    · intro h
      have hordered : SetOrdered E.library.doubles left values :=
        setOrdered_of_equalsChain hleft fun find hfind => h find hfind values (.refl values)
      refine ⟨hordered, ?_⟩
      by_contra hnot
      rw [not_or] at hnot
      obtain ⟨hequal, hthrows⟩ := hnot
      push Not at hthrows
      obtain ⟨w, hw, hne, hnone⟩ := hthrows
      -- the set finds the value that the left one cannot be compared with
      have hmem := (find_iff (isSetFind_findOr true) (.refl values) hordered).mpr
        ⟨w, hw, hne, fun cmp hcmp => by rw [hnone] at hcmp; cases hcmp⟩
      have hvalue := h _ (isSetFind_findOr true) values (.refl values)
      rw [isIn_of_ne hleft, if_pos hmem] at hvalue
      exact hequal (chainValue_eq_true.mp hvalue.symm)
    · rintro ⟨hordered, hcompare⟩ find hfind values' hperm
      apply isIn_eq_chainValue hfind hperm hleft hordered hcompare

/-- A value and one that it cannot be compared with are ordered: none of them is less. -/
theorem setOrdered_of_compare (F : Doubles) (hnone : left.compare F w = none) :
  SetOrdered F left [w]
  := by
  have hless := not_less_iff.mpr fun cmp (hcmp : left.compare F w = some cmp) => by
    rw [hnone] at hcmp
    cases hcmp
  have hfalse : ∀ u v : {v | v = left ∨ v ∈ [w] ∧ v ≠ .nulls}, less F u.1 v.1 = false := by
    rintro ⟨u, hu⟩ ⟨v, hv⟩
    have hu' : u = left ∨ u = w := hu.imp_right fun h => List.mem_singleton.mp h.1
    have hv' : v = left ∨ v = w := hv.imp_right fun h => List.mem_singleton.mp h.1
    obtain rfl | rfl := hu' <;> obtain rfl | rfl := hv'
    · exact less_self _
    · exact hless.2
    · exact hless.1
    · exact less_self _
  refine { irrefl := ?_, trans := ?_, incomp_trans := ?_ }
  · intro u hu
    rw [hfalse] at hu
    cases hu
  · intro u v _ huv
    rw [hfalse] at huv
    cases huv
  · intro u v t _ _
    rw [hfalse, hfalse]
    decide

end

/-- The date 2024-01-01 is found in a list of a string that is no date. -/
theorem equalsChain_fails :
  ¬ EqualsChain .ofLists Environment.ofLists.fakeTuple (.dates 20240101) [.chars [97, 98, 99]]
  := by
  rw [equalsChain_iff_isIn]
  intro h
  have hnone : (Value.dates 20240101).compare Environment.ofLists.library.doubles
      (.chars [97, 98, 99]) = none := by
    decide
  have hfound := (find_iff (isSetFind_findOr true) (.refl _) (setOrdered_of_compare _ hnone)).mpr
    ⟨.chars [97, 98, 99], .head _, by decide, fun cmp hcmp => by rw [hnone] at hcmp; cases hcmp⟩
  have hvalue := h _ (isSetFind_findOr true) _ (.refl _)
  rw [isIn_of_ne (by decide), if_pos hfound] at hvalue
  obtain ⟨w, hw, hequal⟩ := chainValue_eq_true.mp hvalue.symm
  rw [List.mem_singleton.mp hw, hnone] at hequal
  cases hequal

end MiniOB.Sql
