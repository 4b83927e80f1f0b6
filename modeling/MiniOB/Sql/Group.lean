import MiniOB.Sql.Date
import MiniOB.Sql.Operator
import MiniOB.Sql.ValueOrder

/-!
# Grouping

`GroupPhysicalOperator` of `sql/operator/group_physical_operator.cpp` with the `AggregateTuple`
of `sql/expr/tuple.h`. Nothing sets `group_exprs`, so that all rows have the same key, which has
no values: the map of the groups is a tuple at most.
-/

namespace MiniOB.Sql

open PhysicalOperator Calendar

/-- `AggregateType`. -/
inductive AggregateType where
  | invalid
  | count
  | sum
  | avg
  | max
  | min
  | group
  deriving DecidableEq, Repr

/-- What the sums are computed with: the float of a double, and the text
`"count: %d, sum: %f"` as `sprintf` writes it and `sscanf` reads it. -/
structure Averages (L : Library) where
  ofDouble : L.doubles.Double → BitVec 32
  print : BitVec 32 → BitVec 32 → Str
  scan : Str → BitVec 32 × BitVec 32

/-- Averages that are not computed. -/
def Averages.none : Averages .withoutFloats where
  ofDouble _ := 0
  print _ _ := []
  scan _ := (0, 0)

/-- `AggregateDesc`: an aggregate with the expression that it is of, given by its value on a
tuple. -/
structure Aggregate (α : Type) where
  type : AggregateType
  expr : α → Except Stop Value

/-! ### Tuples of aggregates -/

/-- `Value::set_value`. A date is set by its text. -/
def Value.setValue : Value → Except Stop Value
  | ints n => .ok (ints n)
  | floats bits => .ok (floats bits)
  | chars s => .ok (chars (cStr s))
  | booleans b => .ok (booleans b)
  | dates n => .ok (((dateOf (cStr (dateToString n))).map dates).getD nulls)
  | texts s => .ok (texts (cStr s))
  | nulls => .ok nulls
  | undefined => .error .assertion

section

variable (L : Library) (A : Averages L) {α : Type}

/-- The value of a conversion, which throws for a `NULL`. -/
def orThrow {β : Type} : Option β → Except Stop β
  | some b => .ok b
  | none => .error .nullCast

/-- The value that `MAX` and `MIN` keep: the new one if there is none yet, or if comparing it
with the old one gives this sign. -/
def keepExtreme (sign : Int) (aggregated value : Value) : Except Stop Value :=
  if aggregated.attrType = .nulls then value.setValue
  else do
    let cmp ← orThrow (value.compare L.doubles aggregated)
    if 0 < sign * cmp then value.setValue else return aggregated

/-- A step of `aggregate_tuple`, for a value that is not `NULL`. -/
def aggregateValue (type : AggregateType) (aggregated value : Value) : Except Stop Value :=
  match type with
  | .sum =>
    if aggregated.attrType = .nulls then do
      let double ← orThrow (value.getDouble L.doubles)
      return .floats (A.ofDouble double)
    else do
      let sum ← orThrow (aggregated.getFloat L)
      let float ← orThrow (value.getFloat L)
      return .floats (L.add sum float)
  | .count => do
    let count ← orThrow (aggregated.getInt L)
    return .ints (count + 1)
  | .avg => do
    let float ← orThrow (value.getFloat L)
    if aggregated.attrType = .nulls then return .chars (cStr (A.print 1 float))
    else
      let info ← orThrow (aggregated.getString L)
      let (count, sum) := A.scan (cStr info)
      return .chars (cStr (A.print (count + 1) (L.add sum float)))
  | .max => keepExtreme L 1 aggregated value
  | .min => keepExtreme L (-1) aggregated value
  | .group => if aggregated.equal L.doubles value then .ok aggregated else .error (.rc .internal)
  | .invalid => .error (.rc .internal)

/-- A step of the loop of `aggregate_tuple`. -/
def aggregateStep (tuple : α) (aggregate : Aggregate α) (aggregated : Value) :
    Except Stop Value := do
  let value ← aggregate.expr tuple
  if value.attrType = .nulls then return aggregated
  else aggregateValue L A aggregate.type aggregated value

/-- `aggregate_tuple`. -/
def aggregateTuple (tuple : α) : List (Aggregate α) → List Value → Except Stop (List Value)
  | aggregate :: aggregates, aggregated :: values => do
    let aggregated ← aggregateStep L A tuple aggregate aggregated
    let rest ← aggregateTuple tuple aggregates values
    return aggregated :: rest
  | _, values => .ok values

/-- `generateTuple`, which throws if the values do not fit the grouping expressions. -/
def generateTuple : List AggregateType → List Value → Option (List Value)
  | [], [] => some []
  | [], _ :: _ => none
  | .count :: types, groupBy => (generateTuple types groupBy).map (.ints 0 :: ·)
  | .group :: types, value :: groupBy => (generateTuple types groupBy).map (value :: ·)
  | .group :: _, [] => none
  | .invalid :: _, _ => none
  | _ :: types, groupBy => (generateTuple types groupBy).map (.nulls :: ·)

/-- `AggregateTuple`. -/
structure AggregateTuple where
  types : List AggregateType
  values : List Value
  deriving DecidableEq, Repr

/-- `cell_at`. The text that stands for an average is read here. -/
def AggregateTuple.cellAt (tuple : AggregateTuple) (index : Nat) : Except RC Value :=
  match tuple.values[index]? with
  | none => .error .notfound
  | some value =>
    if tuple.types[index]? = some .avg ∧ value.attrType ≠ .nulls then
      let (count, sum) := A.scan (cStr (value.toStr L))
      .ok (.floats (L.div sum (L.ofInt count)))
    else .ok value

/-! ### The operator -/

/-- The fields of a `GroupPhysicalOperator`. -/
structure GroupState (O : PhysicalOperator α) where
  child : O.State
  tuples : List (List Value)
  currentTupleIndex : Int

variable (O : PhysicalOperator α) (aggregates : List (Aggregate α))

/-- The loop of `open` over the rows of the child, with so much fuel: the tuple of the group, or
a code that ends `open`. -/
def aggregateRows : Nat → Option (List Value) → O.State →
    Option (Except RC (Option (List Value)) × O.State)
  | 0, _, _ => none
  | fuel + 1, grouped, s => do
    let (rc, s) ← O.next s
    if rc = .recordEof then return (.ok grouped, s)
    else if rc ≠ .success then return (.error rc, s)
    else
      let tuple ← O.currentTuple s
      let values ← grouped <|> generateTuple (aggregates.map (·.type)) []
      match aggregateTuple L A tuple aggregates values with
      | .ok values => aggregateRows fuel (some values) s
      | .error (.rc rc) => return (.error rc, s)
      | .error _ => none

/-- `open`. -/
def GroupState.open' (fuel : Nat) (s : GroupState O) : Option (RC × GroupState O) := do
  let (rc, child) ← O.open' s.child
  if rc ≠ .success then return (rc, { s with child })
  else
    let (result, child) ← aggregateRows L A O aggregates fuel none child
    match result with
    | .error rc => return (rc, { s with child })
    | .ok grouped =>
      let tuples := s.tuples ++ grouped.toList
      let tuples ← if tuples = [] then (generateTuple (aggregates.map (·.type)) []).map ([·])
        else some tuples
      let (rc, child) ← O.close child
      return (rc, { s with child, tuples })

variable {O}

/-- `next`. -/
def GroupState.next (s : GroupState O) : RC × GroupState O :=
  if s.currentTupleIndex + 1 < s.tuples.length then
    (.success, { s with currentTupleIndex := s.currentTupleIndex + 1 })
  else (.recordEof, s)

/-- `close`. -/
def GroupState.close (s : GroupState O) : RC × GroupState O :=
  (.success, { s with tuples := [], currentTupleIndex := -1 })

/-- `current_tuple`. -/
def GroupState.currentTuple (s : GroupState O) : Option AggregateTuple :=
  if 0 ≤ s.currentTupleIndex then
    s.tuples[s.currentTupleIndex.toNat]?.map fun values => ⟨aggregates.map (·.type), values⟩
  else none

/-- `GroupPhysicalOperator`, whose loop over the rows has so much fuel. -/
def GroupOperator (O : PhysicalOperator α) (fuel : Nat) : PhysicalOperator AggregateTuple where
  State := GroupState O
  init := ⟨O.init, [], -1⟩
  open' := GroupState.open' L A O aggregates fuel
  next s := some s.next
  close s := some s.close
  currentTuple := GroupState.currentTuple aggregates

end

/-! ### What the aggregates are -/

variable {α : Type}

/-- A value of `INTS`, a valid one of `DATES`, or one of `CHARS`, which ends at its first zero. -/
inductive IsColumnValue : AttrType → Value → Prop where
  | ints (n : BitVec 32) : IsColumnValue .ints (.ints n)
  | dates (date : Date) (h : date.year ≤ 214748) :
    IsColumnValue .dates (.dates (BitVec.ofNat 32 (code date)))
  | chars (s : Str) : IsColumnValue .chars (.chars (cStr s))

/-- The aggregate is a `COUNT`, a `MAX` or a `MIN`, and its expression has values of one type
and `NULL`s on the rows. -/
structure Aggregate.Supported (aggregate : Aggregate α) (rows : List α) : Prop where
  type : aggregate.type = .count ∨ aggregate.type = .max ∨ aggregate.type = .min
  expr : ∃ type, ∀ row ∈ rows,
    ∃ v, aggregate.expr row = .ok v ∧ (v = .nulls ∨ IsColumnValue type v)

/-- The value of an expression, if it has one and that is not `NULL`. -/
def nonNull : Except Stop Value → Option Value
  | .ok v => if v = .nulls then none else some v
  | .error _ => none

/-- The values of the expression that are not `NULL`. -/
def Aggregate.values (aggregate : Aggregate α) (rows : List α) : List Value :=
  rows.filterMap fun row => nonNull (aggregate.expr row)

/-- The value is one of them that all come before, or `NULL` if there are none. -/
def IsExtreme (before : Value → Value → Prop) (values : List Value) (v : Value) : Prop :=
  values = [] ∧ v = .nulls ∨ v ∈ values ∧ ∀ w ∈ values, before w v

/-- The rank of the first value is not greater. -/
def AtMost (w v : Value) : Prop := w.rank ≤ v.rank

/-- The rank of the first value is not less. -/
def AtLeast (w v : Value) : Prop := v.rank ≤ w.rank

/-- What the aggregate is on the rows: the number of the values, the greatest or the least of
them. -/
def Aggregate.IsAnswer (aggregate : Aggregate α) (rows : List α) (v : Value) : Prop :=
  match aggregate.type with
  | .count => ∃ n : BitVec 32, v = .ints n ∧ n.toInt = (aggregate.values rows).length
  | .max => IsExtreme AtMost (aggregate.values rows) v
  | .min => IsExtreme AtLeast (aggregate.values rows) v
  | _ => False

/-! ### One aggregate -/

section

variable {L : Library} {A : Averages L} {type : AttrType} {v w : Value} {aggregate : Aggregate α}
  {rows done : List α} {row : α}

theorem zero_notMem_of_names {s : Str} {date : Date} (h : Names s date) :
  0 ∉ s
  := by
  intro hmem
  obtain hdigit | hdash := isDigit_or_dash_of_names h 0 hmem
  · cases hdigit
  · cases hdash

/-- A column value is copied as it is. -/
theorem setValue_of_isColumnValue (h : IsColumnValue type v) :
  v.setValue = .ok v
  := by
  cases h with
  | ints n => rfl
  | chars s => rw [Value.setValue, cStr_cStr]
  | dates date hyear =>
    have hnames := names_dateToString_code hyear
    obtain ⟨hparse, hint⟩ := parseDate_of_names hnames hyear
    have hne : parseDate (dateToString (BitVec.ofNat 32 (code date))) ≠ 0 := by
      intro hzero
      have := code_pos date
      rw [hzero] at hint
      change (0 : Int) = _ at hint
      omega
    rw [Value.setValue, cStr_of_notMem (zero_notMem_of_names hnames), dateOf, if_neg hne, hparse]
    rfl

theorem isRanked_of_isColumnValue (hv : IsColumnValue type v) (hw : IsColumnValue type w) :
  IsRanked L.doubles v w ∧ (v.rank = w.rank → v = w)
  := by
  have htype : type ∈ columnTypes := by
    cases hv <;> simp [columnTypes]
  have hv' : v.attrType = type := by
    cases hv <;> rfl
  have hw' : w.attrType = type := by
    cases hw <;> rfl
  exact ⟨isRanked_of_attrType htype hv' hw', eq_of_rank htype hv' hw'⟩

theorem IsColumnValue.ne_nulls (h : IsColumnValue type v) :
  v ≠ .nulls ∧ v.attrType ≠ .nulls
  := by
  cases h <;> exact ⟨by simp, by simp [Value.attrType]⟩

/-- The kept value is the extreme one of the values so far, and stays so with one more. -/
theorem keepExtreme_eq {before : Value → Value → Prop} {sign : Int} {values : List Value}
    (hrefl : ∀ v, before v v) (htrans : ∀ {u v w}, before u v → before v w → before u w)
    (hsign : ∀ {v w cmp}, IsOrderOf cmp v.rank w.rank → if 0 < sign * cmp then before w v
      else before v w)
    (hvalues : ∀ w ∈ values, IsColumnValue type w) (hv : IsColumnValue type v)
    (h : IsExtreme before values w) :
  ∃ w', keepExtreme L sign w v = .ok w' ∧ IsExtreme before (values ++ [v]) w'
  := by
  obtain ⟨rfl, rfl⟩ | ⟨hw, hbefore⟩ := h
  · refine ⟨v, setValue_of_isColumnValue hv, .inr ⟨by simp, ?_⟩⟩
    simp [hrefl]
  · obtain ⟨cmp, hcompare, horder⟩ := (isRanked_of_isColumnValue (L := L) hv (hvalues w hw)).1
    have hstep := hsign horder
    rw [keepExtreme, if_neg (hvalues w hw).ne_nulls.2, hcompare]
    dsimp only [orThrow, bind, Except.bind]
    split_ifs at hstep ⊢ with hgreater
    · refine ⟨v, setValue_of_isColumnValue hv, .inr ⟨by simp, ?_⟩⟩
      intro u hu
      obtain hu | hu := List.mem_append.mp hu
      · exact htrans (hbefore u hu) hstep
      · rw [List.mem_singleton.mp hu]
        apply hrefl
    · refine ⟨w, rfl, .inr ⟨List.mem_append_left _ hw, ?_⟩⟩
      intro u hu
      obtain hu | hu := List.mem_append.mp hu
      · exact hbefore u hu
      · rw [List.mem_singleton.mp hu]
        exact hstep

theorem keepMax_eq {values : List Value} (hvalues : ∀ w ∈ values, IsColumnValue type w)
    (hv : IsColumnValue type v) (h : IsExtreme AtMost values w) :
  ∃ w', keepExtreme L 1 w v = .ok w' ∧ IsExtreme AtMost (values ++ [v]) w'
  := by
  have hrefl : ∀ v, AtMost v v := fun v => le_refl v.rank
  have htrans : ∀ {u v w}, AtMost u v → AtMost v w → AtMost u w := fun h h' => le_trans h h'
  apply keepExtreme_eq hrefl htrans _ hvalues hv h
  intro v w cmp horder
  rw [one_mul]
  split_ifs with hpos
  · rw [AtMost, ← not_lt, ← horder.neg]
    omega
  · rw [AtMost, le_iff_lt_or_eq, ← horder.neg, ← horder.zero]
    omega

theorem keepMin_eq {values : List Value} (hvalues : ∀ w ∈ values, IsColumnValue type w)
    (hv : IsColumnValue type v) (h : IsExtreme AtLeast values w) :
  ∃ w', keepExtreme L (-1) w v = .ok w' ∧ IsExtreme AtLeast (values ++ [v]) w'
  := by
  have hrefl : ∀ v, AtLeast v v := fun v => le_refl v.rank
  have htrans : ∀ {u v w}, AtLeast u v → AtLeast v w → AtLeast u w := fun h h' => le_trans h' h
  apply keepExtreme_eq hrefl htrans _ hvalues hv h
  intro v w cmp horder
  rw [neg_one_mul]
  split_ifs with hneg
  · rw [AtLeast, le_iff_lt_or_eq, ← horder.neg, ← horder.zero]
    omega
  · rw [AtLeast, ← not_lt, ← horder.neg]
    omega

theorem values_append_of_nulls (h : aggregate.expr row = .ok .nulls) :
  aggregate.values (done ++ [row]) = aggregate.values done
  := by
  rw [Aggregate.values, List.filterMap_append, ← Aggregate.values]
  simp [h, nonNull]

theorem values_append_of_ne (h : aggregate.expr row = .ok v) (hv : v ≠ .nulls) :
  aggregate.values (done ++ [row]) = aggregate.values done ++ [v]
  := by
  rw [Aggregate.values, List.filterMap_append, ← Aggregate.values]
  simp [h, nonNull, hv]

theorem isColumnValue_of_mem (h : ∀ row ∈ rows,
      ∃ v, aggregate.expr row = .ok v ∧ (v = .nulls ∨ IsColumnValue type v)) :
  ∀ v ∈ aggregate.values rows, IsColumnValue type v
  := by
  intro v hv
  obtain ⟨row, hrow, hvalue⟩ := List.mem_filterMap.mp hv
  obtain ⟨w, hw, hcolumn⟩ := h row hrow
  rw [hw, nonNull] at hvalue
  split_ifs at hvalue with hnulls
  cases hvalue
  exact hcolumn.resolve_left hnulls

theorem isAnswer_of_values {rows' : List α} (h : aggregate.values rows = aggregate.values rows') :
  aggregate.IsAnswer rows w ↔ aggregate.IsAnswer rows' w
  := by
  rw [Aggregate.IsAnswer, Aggregate.IsAnswer, h]

theorem toInt_add_one {n : BitVec 32} {k : Nat} (h : n.toInt = k) (hk : k + 1 < 2 ^ 31) :
  (n + 1).toInt = k + 1
  := by
  have hn : n.toNat = k := by
    obtain hlt | hge := Nat.lt_or_ge n.toNat (2 ^ 31)
    · have := toInt_of_lt hlt
      omega
    · have := toInt_of_le hge
      omega
  have hadd : (n + 1).toNat = k + 1 := by
    rw [BitVec.toNat_add, hn]
    exact Nat.mod_eq_of_lt (show k + 1 < 2 ^ 32 by omega)
  rw [toInt_of_lt (by omega), hadd]
  rfl

/-- A value more, for each of the aggregates. -/
theorem aggregateValue_eq
    (htype : aggregate.type = .count ∨ aggregate.type = .max ∨ aggregate.type = .min)
    (hvalues : ∀ u ∈ aggregate.values done, IsColumnValue type u) (hv : IsColumnValue type v)
    (hlt : (aggregate.values done).length + 1 < 2 ^ 31)
    (happend : aggregate.values (done ++ [row]) = aggregate.values done ++ [v])
    (hanswer : aggregate.IsAnswer done w) :
  ∃ w', aggregateValue L A aggregate.type w v = .ok w' ∧ aggregate.IsAnswer (done ++ [row]) w'
  := by
  rw [Aggregate.IsAnswer] at hanswer
  unfold Aggregate.IsAnswer
  rw [happend]
  obtain htype | htype | htype := htype
  · rw [htype] at hanswer ⊢
    obtain ⟨n, rfl, hn⟩ := hanswer
    refine ⟨.ints (n + 1), rfl, n + 1, rfl, ?_⟩
    rw [toInt_add_one hn hlt, List.length_append]
    rfl
  · rw [htype] at hanswer ⊢
    exact keepMax_eq hvalues hv hanswer
  · rw [htype] at hanswer ⊢
    exact keepMin_eq hvalues hv hanswer

/-- A row more: the aggregate of the rows so far becomes that of them and the row. -/
theorem aggregateStep_eq (h : aggregate.Supported rows) (hlt : rows.length < 2 ^ 31)
    (hrows : done ++ [row] <+: rows) (hanswer : aggregate.IsAnswer done w) :
  ∃ w', aggregateStep L A row aggregate w = .ok w' ∧ aggregate.IsAnswer (done ++ [row]) w'
  := by
  obtain ⟨type, hexpr⟩ := h.expr
  have hmem : ∀ r ∈ done ++ [row], r ∈ rows := fun r hr => hrows.subset hr
  obtain ⟨v, hv, hcolumn⟩ := hexpr row (hmem row (by simp))
  obtain rfl | hcolumn := hcolumn
  · refine ⟨w, by rw [aggregateStep, hv]; rfl, ?_⟩
    rwa [isAnswer_of_values (values_append_of_nulls hv)]
  · have hdone : ∀ u ∈ aggregate.values done, IsColumnValue type u := by
      apply isColumnValue_of_mem
      intro r hr
      apply hexpr r (hmem r (List.mem_append_left _ hr))
    have hlen : (aggregate.values done).length + 1 < 2 ^ 31 := by
      have := List.length_filterMap_le (fun row => nonNull (aggregate.expr row)) done
      have := hrows.length_le
      rw [List.length_append, List.length_singleton] at this
      rw [Aggregate.values]
      omega
    obtain ⟨w', hw', hanswer'⟩ := aggregateValue_eq (A := A) h.type hdone hcolumn hlen
      (values_append_of_ne hv hcolumn.ne_nulls.1) hanswer
    refine ⟨w', ?_, hanswer'⟩
    rw [aggregateStep, hv]
    dsimp only [bind, Except.bind]
    rw [if_neg hcolumn.ne_nulls.2, hw']

/-! ### The answers of all aggregates -/

/-- Each of the values is the answer of its aggregate. -/
def Answers (aggregates : List (Aggregate α)) (rows : List α) (values : List Value) : Prop :=
  List.Forall₂ (fun aggregate v => aggregate.IsAnswer rows v) aggregates values

variable {aggregates : List (Aggregate α)}

/-- A new tuple has the answers for no rows. -/
theorem generateTuple_eq : ∀ {aggregates : List (Aggregate α)},
    (∀ aggregate ∈ aggregates, aggregate.Supported rows) →
    ∃ values, generateTuple (aggregates.map (·.type)) [] = some values ∧ Answers aggregates [] values
  | [], _ => ⟨[], rfl, .nil⟩
  | aggregate :: aggregates, h => by
    obtain ⟨values, hgenerate, hanswers⟩ := generateTuple_eq fun a ha =>
      h a (List.mem_cons_of_mem aggregate ha)
    rw [List.map_cons]
    obtain htype | htype | htype := (h aggregate List.mem_cons_self).type
    · refine ⟨.ints 0 :: values, by rw [htype, generateTuple, hgenerate]; rfl, .cons ?_ hanswers⟩
      rw [Aggregate.IsAnswer, htype]
      exact ⟨0, rfl, rfl⟩
    · refine ⟨.nulls :: values, ?_, .cons ?_ hanswers⟩
      · rw [htype, generateTuple, hgenerate]
        · rfl
        all_goals simp
      · rw [Aggregate.IsAnswer, htype]
        left
        exact ⟨rfl, rfl⟩
    · refine ⟨.nulls :: values, ?_, .cons ?_ hanswers⟩
      · rw [htype, generateTuple, hgenerate]
        · rfl
        all_goals simp
      · rw [Aggregate.IsAnswer, htype]
        left
        exact ⟨rfl, rfl⟩

/-- A row more for the whole tuple. -/
theorem aggregateTuple_eq (hlt : rows.length < 2 ^ 31) (hrows : done ++ [row] <+: rows) :
    ∀ {aggregates : List (Aggregate α)} {values : List Value},
    (∀ aggregate ∈ aggregates, aggregate.Supported rows) → Answers aggregates done values →
    ∃ values', aggregateTuple L A row aggregates values = .ok values'
      ∧ Answers aggregates (done ++ [row]) values'
  | [], [], _, _ => ⟨[], rfl, .nil⟩
  | aggregate :: aggregates, v :: values, h, .cons hv hvalues => by
    obtain ⟨v', hv', hanswer⟩ :=
      aggregateStep_eq (A := A) (h aggregate List.mem_cons_self) hlt hrows hv
    obtain ⟨values', hvalues', hanswers⟩ := aggregateTuple_eq hlt hrows
      (fun a ha => h a (List.mem_cons_of_mem aggregate ha)) hvalues
    refine ⟨v' :: values', ?_, .cons hanswer hanswers⟩
    rw [aggregateTuple, hv']
    dsimp only [bind, Except.bind]
    rw [hvalues']
    rfl

/-- The tuple of the group, if there is one yet, has the answers for these rows. -/
def IsGrouped (aggregates : List (Aggregate α)) (done : List α) (grouped : Option (List Value)) :
    Prop :=
  grouped = none ∧ done = [] ∨ ∃ values, grouped = some values ∧ Answers aggregates done values

variable {O : PhysicalOperator α}

/-- The loop over the rows ends with the answers for all of them. -/
theorem aggregateRows_eq (C : O.Cursor rows) (hlt : rows.length < 2 ^ 31)
    (hsupported : ∀ aggregate ∈ aggregates, aggregate.Supported rows) :
    ∀ (rest : List α) {done : List α} {grouped : Option (List Value)} {fuel : Nat} {s : O.State},
    done ++ rest = rows → IsGrouped aggregates done grouped → C.At rest s → rest.length < fuel →
    ∃ grouped' s', aggregateRows L A O aggregates fuel grouped s = some (.ok grouped', s')
      ∧ IsGrouped aggregates rows grouped' ∧ C.At [] s' := by
  intro rest
  induction rest with
  | nil =>
    intro done grouped fuel s hrows hgrouped hs hfuel
    obtain ⟨fuel, rfl⟩ := Nat.exists_eq_succ_of_ne_zero (by omega : fuel ≠ 0)
    obtain ⟨s', hnext, hs'⟩ := C.next_nil hs
    refine ⟨grouped, s', ?_, ?_, hs'⟩
    · simp [aggregateRows, hnext]
    · rwa [← hrows, List.append_nil]
  | cons row rest ih =>
    intro done grouped fuel s hrows hgrouped hs hfuel
    obtain ⟨fuel, rfl⟩ := Nat.exists_eq_succ_of_ne_zero (by omega : fuel ≠ 0)
    obtain ⟨s', hnext, htuple, hs'⟩ := C.next_cons hs
    -- the tuple of the group, or a new one for the first row
    obtain ⟨values, hvalues, hanswers⟩ : ∃ values,
        (grouped <|> generateTuple (aggregates.map (·.type)) []) = some values
          ∧ Answers aggregates done values := by
      obtain ⟨rfl, rfl⟩ | ⟨values, rfl, hanswers⟩ := hgrouped
      · obtain ⟨values, hgenerate, hanswers⟩ := generateTuple_eq hsupported
        exact ⟨values, hgenerate, hanswers⟩
      · exact ⟨values, rfl, hanswers⟩
    have hrows' : done ++ [row] ++ rest = rows := by
      rw [List.append_assoc]
      exact hrows
    obtain ⟨values', hstep, hanswers'⟩ :=
      aggregateTuple_eq (L := L) (A := A) hlt ⟨rest, hrows'⟩ hsupported hanswers
    have hfuel' : rest.length < fuel := by
      rw [List.length_cons] at hfuel
      omega
    obtain ⟨grouped', s'', hrun, hgrouped', hs''⟩ :=
      ih hrows' (.inr ⟨values', rfl, hanswers'⟩) hs' hfuel'
    refine ⟨grouped', s'', ?_, hgrouped', hs''⟩
    simp [aggregateRows, hnext, htuple, hvalues, hstep, hrun]

/-! ### One answer, whatever the order -/

theorem Aggregate.Supported.perm {rows' : List α} (h : aggregate.Supported rows)
    (hperm : rows.Perm rows') :
  aggregate.Supported rows'
  := by
  obtain ⟨type, hexpr⟩ := h.expr
  exact ⟨h.type, type, fun row hrow => hexpr row (hperm.mem_iff.mpr hrow)⟩

/-- An extreme value is the only one. -/
theorem isExtreme_unique {before : Value → Value → Prop} {values values' : List Value}
    (hantisymm : ∀ {v w}, before v w → before w v → v.rank = w.rank)
    (hvalues : ∀ v ∈ values, IsColumnValue type v) (hperm : values.Perm values')
    (hv : IsExtreme before values v) (hw : IsExtreme before values' w) :
  v = w
  := by
  obtain ⟨rfl, rfl⟩ | ⟨hv, hbefore⟩ := hv
  · obtain ⟨-, rfl⟩ | ⟨hw, -⟩ := hw
    · rfl
    · rw [hperm.symm.eq_nil] at hw
      cases hw
  · obtain ⟨rfl, -⟩ | ⟨hw, hbefore'⟩ := hw
    · rw [hperm.eq_nil] at hv
      cases hv
    · have hw' := hperm.mem_iff.mpr hw
      apply (isRanked_of_isColumnValue (L := .withoutFloats) (hvalues v hv) (hvalues w hw')).2
      exact hantisymm (hbefore' v (hperm.mem_iff.mp hv)) (hbefore w hw')

theorem isAnswer_unique {rows' : List α} (h : aggregate.Supported rows) (hperm : rows.Perm rows')
    (hv : aggregate.IsAnswer rows v) (hw : aggregate.IsAnswer rows' w) :
  v = w
  := by
  obtain ⟨type, hexpr⟩ := h.expr
  have hvalues := isColumnValue_of_mem hexpr
  have hpermvalues : (aggregate.values rows).Perm (aggregate.values rows') := hperm.filterMap _
  rw [Aggregate.IsAnswer] at hv hw
  obtain htype | htype | htype := h.type
  · rw [htype] at hv hw
    obtain ⟨m, rfl, hm⟩ := hv
    obtain ⟨n, rfl, hn⟩ := hw
    rw [BitVec.eq_of_toInt_eq (hm.trans (hn.trans (by rw [hpermvalues.length_eq])).symm)]
  · rw [htype] at hv hw
    exact isExtreme_unique (fun h h' => le_antisymm h h') hvalues hpermvalues hv hw
  · rw [htype] at hv hw
    exact isExtreme_unique (fun h h' => le_antisymm h' h) hvalues hpermvalues hv hw

theorem answers_unique {rows' : List α} (hperm : rows.Perm rows') :
    ∀ {aggregates : List (Aggregate α)} {values values' : List Value},
    (∀ aggregate ∈ aggregates, aggregate.Supported rows) → Answers aggregates rows values →
    Answers aggregates rows' values' → values = values'
  | [], [], [], _, _, _ => rfl
  | aggregate :: _, _ :: _, _ :: _, h, .cons hv hvalues, .cons hw hvalues' => by
    rw [isAnswer_unique (h aggregate List.mem_cons_self) hperm hv hw,
      answers_unique hperm (fun a ha => h a (List.mem_cons_of_mem aggregate ha)) hvalues hvalues']

/-- Opening makes the one tuple with these answers. -/
theorem open_eq {fuel : Nat} {s : GroupState O} (C : O.Cursor rows) (hlt : rows.length < 2 ^ 31)
    (hsupported : ∀ aggregate ∈ aggregates, aggregate.Supported rows)
    (hfuel : rows.length < fuel) (hs : C.Closed s.child) (htuples : s.tuples = []) :
  ∃ child values, s.open' L A O aggregates fuel
      = some (.success, { s with child, tuples := [values] })
    ∧ C.Closed child ∧ Answers aggregates rows values
  := by
  obtain ⟨child, hopen, hchild⟩ := C.open_closed hs
  obtain ⟨grouped, child', hrun, hgrouped, hchild'⟩ :=
    aggregateRows_eq (L := L) (A := A) C hlt hsupported rows (List.nil_append rows)
      (.inl ⟨rfl, rfl⟩) hchild hfuel
  obtain ⟨child'', hclose, hchild''⟩ := C.close_at hchild'
  obtain ⟨rfl, rfl⟩ | ⟨values, rfl, hanswers⟩ := hgrouped
  · obtain ⟨values, hgenerate, hanswers⟩ := generateTuple_eq hsupported
    refine ⟨child'', values, ?_, hchild'', hanswers⟩
    simp [GroupState.open', hopen, hrun, hclose, htuples, hgenerate]
  · refine ⟨child'', values, ?_, hchild'', hanswers⟩
    simp [GroupState.open', hopen, hrun, hclose, htuples]

/-- There are answers: those for the rows in memory. -/
theorem exists_answers (hlt : rows.length < 2 ^ 31)
    (hsupported : ∀ aggregate ∈ aggregates, aggregate.Supported rows) :
  ∃ values, Answers aggregates rows values
  := by
  let s : GroupState (RowsOperator rows) := ⟨none, [], -1⟩
  obtain ⟨-, values, -, -, hanswers⟩ := open_eq (A := .none) (s := s) (RowsOperator.cursor rows)
    hlt hsupported (Nat.lt_succ_self rows.length) rfl rfl
  exact ⟨values, hanswers⟩

variable (L A)

/-- The operator delivers the one tuple with the answers. -/
def GroupOperator.cursor {fuel : Nat} {values : List Value} (C : O.Cursor rows)
    (hlt : rows.length < 2 ^ 31)
    (hsupported : ∀ aggregate ∈ aggregates, aggregate.Supported rows)
    (hanswers : Answers aggregates rows values) (hfuel : rows.length < fuel) :
    (GroupOperator L A aggregates O fuel).Cursor [⟨aggregates.map (·.type), values⟩] where
  Closed s := C.Closed s.child ∧ s.tuples = [] ∧ s.currentTupleIndex = -1
  At rest s := C.Closed s.child ∧ s.tuples = [values]
    ∧ (rest = [⟨aggregates.map (·.type), values⟩] ∧ s.currentTupleIndex = -1
      ∨ rest = [] ∧ s.currentTupleIndex = 0)
  closed_init := ⟨C.closed_init, rfl, rfl⟩
  open_closed {s} h := by
    obtain ⟨child, values', hopen, hchild, hanswers'⟩ :=
      open_eq (L := L) (A := A) C hlt hsupported hfuel h.1 h.2.1
    rw [answers_unique (.refl rows) hsupported hanswers' hanswers] at hopen
    exact ⟨_, hopen, hchild, rfl, .inl ⟨rfl, h.2.2⟩⟩
  next_cons {row rest s} h := by
    obtain ⟨hchild, htuples, ⟨hrest, hindex⟩ | ⟨hrest, -⟩⟩ := h
    · cases hrest
      refine ⟨{ s with currentTupleIndex := 0 }, ?_, ?_, hchild, htuples, .inr ⟨rfl, rfl⟩⟩
      · simp [GroupOperator, GroupState.next, htuples, hindex]
      · simp [GroupOperator, GroupState.currentTuple, htuples]
    · cases hrest
  next_nil {s} h := by
    obtain ⟨hchild, htuples, ⟨hrest, -⟩ | ⟨-, hindex⟩⟩ := h
    · cases hrest
    · refine ⟨s, ?_, hchild, htuples, .inr ⟨rfl, hindex⟩⟩
      simp [GroupOperator, GroupState.next, htuples, hindex]
  close_at {rest s} h := ⟨_, rfl, h.1, rfl, rfl⟩

theorem cellAt_of_answers : ∀ {aggregates : List (Aggregate α)} {values : List Value},
    (∀ aggregate ∈ aggregates, aggregate.Supported rows) → Answers aggregates rows values →
    ∀ i (h : i < aggregates.length), ∃ v,
      (AggregateTuple.mk (aggregates.map (·.type)) values).cellAt L A i = .ok v
        ∧ aggregates[i].IsAnswer rows v
  | [], [], _, _, i, hi => by cases hi
  | aggregate :: _, v :: _, h, .cons hv hvalues, i, hi => by
    cases i with
    | zero =>
      refine ⟨v, ?_, hv⟩
      have havg : aggregate.type ≠ .avg := by
        intro havg
        have := (h aggregate List.mem_cons_self).type
        rw [havg] at this
        simp at this
      simp [AggregateTuple.cellAt, havg]
    | succ i =>
      obtain ⟨w, hw, hanswer⟩ := cellAt_of_answers
        (fun a ha => h a (List.mem_cons_of_mem aggregate ha)) hvalues i (Nat.lt_of_succ_lt_succ hi)
      exact ⟨w, hw, hanswer⟩

/-- Without grouping expressions there is one row at every opening, with the numbers of the
values, the greatest and the least of them, and it is the same for all orders of the rows. -/
theorem group_sessions (hlt : rows.length < 2 ^ 31)
    (hsupported : ∀ aggregate ∈ aggregates, aggregate.Supported rows) :
  ∃ row : AggregateTuple,
    (∀ i (h : i < aggregates.length), ∃ v,
      row.cellAt L A i = .ok v ∧ aggregates[i].IsAnswer rows v)
    ∧ ∀ (rows' : List α), rows.Perm rows' → ∀ (O : PhysicalOperator α) (_ : O.Cursor rows')
      (fuel : Nat), rows'.length < fuel → ∀ ns : List Nat,
      (GroupOperator L A aggregates O fuel).sessions ns (GroupOperator L A aggregates O fuel).init
        = some (ns.map fun n => ⟨.success, answers [row] n, .success⟩)
  := by
  obtain ⟨values, hanswers⟩ := exists_answers hlt hsupported
  refine ⟨⟨aggregates.map (·.type), values⟩, cellAt_of_answers L A hsupported hanswers, ?_⟩
  intro rows' hperm O C fuel hfuel ns
  have hlt' : rows'.length < 2 ^ 31 := by rwa [← hperm.length_eq]
  have hsupported' : ∀ aggregate ∈ aggregates, aggregate.Supported rows' :=
    fun aggregate ha => (hsupported aggregate ha).perm hperm
  obtain ⟨values', hanswers'⟩ := exists_answers hlt' hsupported'
  rw [answers_unique hperm hsupported hanswers hanswers']
  apply (GroupOperator.cursor L A C hlt' hsupported' hanswers' hfuel).sessions_eq
  exact ⟨C.closed_init, rfl, rfl⟩

end

/-- The number and the greatest of the values 3 and 5, with a `NULL` between them. -/
theorem group_sessions_three_rows :
  ∃ row : AggregateTuple,
    (∀ i (h : i < 2), ∃ v, row.cellAt .withoutFloats .none i = .ok v
      ∧ ([⟨.count, .ok⟩, ⟨.max, .ok⟩] : List (Aggregate Value))[i].IsAnswer
        [.ints 3, .nulls, .ints 5] v)
    ∧ ∀ ns, (GroupOperator .withoutFloats .none [⟨.count, .ok⟩, ⟨.max, .ok⟩]
        (RowsOperator [.ints 3, .nulls, .ints 5]) 4).sessions ns ⟨none, [], -1⟩
      = some (ns.map fun n => ⟨.success, answers [row] n, .success⟩)
  := by
  have hvalues : ∀ row ∈ [Value.ints 3, .nulls, .ints 5],
      ∃ v, (.ok row : Except Stop Value) = .ok v ∧ (v = .nulls ∨ IsColumnValue .ints v) := by
    simp [IsColumnValue.ints]
  have hlength : [Value.ints 3, .nulls, .ints 5].length < 2 ^ 31 := by
    decide
  have hsupported : ∀ aggregate ∈ [(⟨.count, .ok⟩ : Aggregate Value), ⟨.max, .ok⟩],
      aggregate.Supported [.ints 3, .nulls, .ints 5] := by
    rintro aggregate ha
    obtain rfl | rfl : aggregate = ⟨.count, .ok⟩ ∨ aggregate = ⟨.max, .ok⟩ := by simpa using ha
    · exact ⟨.inl rfl, .ints, hvalues⟩
    · exact ⟨.inr (.inl rfl), .ints, hvalues⟩
  obtain ⟨row, hcells, hsessions⟩ := group_sessions .withoutFloats .none hlength hsupported
  exact ⟨row, hcells, hsessions _ (.refl _) _ (RowsOperator.cursor _) 4 (by decide)⟩

end MiniOB.Sql
