import MiniOB.Sql.Expression

/-!
# Evaluating expressions

The classes of `sql/expr/expression.cpp` with their two evaluators: `get_value`, which takes the
fields from a tuple, and `try_get_value`, which has none, and the conversions of
`sql/parser/value.cpp` that they use. What the C++ library does with floats, regular expressions
and sets is given by a `Library`.
-/

namespace MiniOB.Sql

/-- What values are computed with outside of `Value`. A float is its four bytes. -/
structure Library where
  doubles : Doubles
  /-- `std::stof`, which throws for what is no number. -/
  stof : Str → Option (BitVec 32)
  /-- The float of an `int`. -/
  ofInt : BitVec 32 → BitVec 32
  /-- The `int` of a float. -/
  toInt : BitVec 32 → BitVec 32
  add : BitVec 32 → BitVec 32 → BitVec 32
  sub : BitVec 32 → BitVec 32 → BitVec 32
  mul : BitVec 32 → BitVec 32 → BitVec 32
  div : BitVec 32 → BitVec 32 → BitVec 32
  neg : BitVec 32 → BitVec 32
  /-- The float lies between `-EPSILON` and `EPSILON`. -/
  isZero : BitVec 32 → Bool
  /-- `common::double_to_str`. -/
  doubleToStr : BitVec 32 → Str
  /-- `std::regex_match`, which does not tell small letters from capital ones. -/
  regexMatch : Str → Str → Bool
  /-- Whether the `std::set` with this order finds a value, after these have been inserted. -/
  find : (Value → Value → Bool) → List Value → Value → Bool

/-! ### Texts of values -/

/-- What `%0*d` prints: an `int` with at least so many characters. -/
def printInt (width : Nat) (n : Int) : Str :=
  let sign : Str := if n < 0 then [45] else []
  let digits : Str := (Nat.toDigits 10 n.natAbs).map fun c => BitVec.ofNat 8 c.toNat
  sign ++ List.replicate (width - sign.length - digits.length) 48 ++ digits

/-- `date_to_string`. -/
def dateToString (date : BitVec 32) : Str :=
  if date = 0 then printInt 4 0 ++ 45 :: printInt 2 0 ++ 45 :: printInt 2 0
  else
    printInt 4 (date.toInt.tdiv 10000)
      ++ 45 :: printInt 2 ((date.toInt.tmod 10000).tdiv 100)
      ++ 45 :: printInt 2 (date.toInt.tmod 100)

/-- The string that `c_str` points at: it ends at the first zero. -/
def cStr (s : Str) : Str := s.takeWhile (· ≠ 0)

theorem cStr_cStr (s : Str) :
  cStr (cStr s) = cStr s
  := by
  apply List.takeWhile_idem

theorem cStr_of_notMem {s : Str} (h : 0 ∉ s) :
  cStr s = s
  := by
  rw [cStr, List.takeWhile_eq_self_iff]
  intro b hb
  have hne : b ≠ 0 := by
    rintro rfl
    exact h hb
  simpa using hne

/-- `std::stol`, cut to an `int`. It throws for what is no number, and for one that is no
`long`. -/
def stol (s : Str) : Option (BitVec 32) :=
  let s := s.dropWhile isSpace
  let (negative, s) := match s with
    | 45 :: s => (true, s)
    | 43 :: s => (false, s)
    | s => (false, s)
  match s.takeWhile fun b => 48 ≤ b ∧ b ≤ 57 with
  | [] => none
  | digits =>
    let n : Nat := digits.foldl (fun n b => n * 10 + (b.toNat - 48)) 0
    let n : Int := if negative then -n else n
    if -2 ^ 63 ≤ n ∧ n < 2 ^ 63 then some (BitVec.ofInt 32 n) else none

namespace Value

variable (L : Library)

/-- `Value::to_string`. -/
def toStr : Value → Str
  | ints n => printInt 0 n.toInt
  | floats bits => L.doubleToStr bits
  | booleans b => if b then [49] else [48]
  | chars s => s
  | dates n => dateToString n
  | texts s => s
  | nulls => [78, 85, 76, 76]
  | undefined => [85, 78, 68, 69, 70, 73, 78, 69, 68]

/-- `Value::get_string`. A `NULL` has none, for which the function throws. -/
def getString (v : Value) : Option Str :=
  if v.attrType = .nulls then none else some (v.toStr L)

/-- `Value::get_int`. A `NULL` has none, for which the function throws. -/
def getInt : Value → Option (BitVec 32)
  | texts s => some ((stol s).getD 0)
  | chars s => some ((stol s).getD 0)
  | ints n => some n
  | floats bits => some (L.toInt bits)
  | booleans b => some (if b then 1 else 0)
  | dates n => some n
  | nulls => none
  | undefined => none

/-- `Value::get_float`. A `NULL` has none, for which the function throws. -/
def getFloat : Value → Option (BitVec 32)
  | texts s => some ((L.stof s).getD 0)
  | chars s => some ((L.stof s).getD 0)
  | ints n => some (L.ofInt n)
  | floats bits => some bits
  | booleans b => some (L.ofInt (if b then 1 else 0))
  | dates n => some (L.ofInt n)
  | nulls => none
  | undefined => none

/-- The order of `std::less<Value>`. Where comparing throws, none of the two is less. -/
def less (v w : Value) : Bool :=
  match v.compare L.doubles w with
  | some cmp => cmp < 0
  | none => false

end Value

theorem Value.eq_nulls {value : Value} (h : value.attrType = .nulls) :
  value = .nulls
  := by
  cases value <;> first | rfl | cases h

/-! ### What the classes compute -/

/-- `CastExpr::cast`. A cast to `CHARS` runs on into the one to `TEXTS`. -/
def castValue (L : Library) (castType : AttrType) (value : Value) : Value :=
  if castType = value.attrType then value
  else
    match castType with
    | .booleans => ((value.getBoolean L.doubles).map .booleans).getD .nulls
    | .dates =>
      (((value.getString L).bind fun s => dateOf (cStr s)).map .dates).getD .nulls
    | .floats => ((value.getFloat L).map .floats).getD .nulls
    | .ints => ((value.getInt L).map .ints).getD .nulls
    | .nulls => .nulls
    | .chars => ((value.getString L).map fun s => .texts (cStr s)).getD .nulls
    | .texts => ((value.getString L).map fun s => .texts (cStr s)).getD .nulls
    | .undefined => .nulls

/-- `ArithmeticType`. -/
inductive ArithmeticType where
  | add
  | sub
  | mul
  | div
  | negative
  deriving DecidableEq, Repr

/-- `ArithmeticExpr::calc_value`, which has no value where it throws. -/
def calcValue (L : Library) (type : ArithmeticType) (targetType : AttrType) (left right : Value) :
    Option Value :=
  let ofInts (f : BitVec 32 → BitVec 32 → Value) :=
    (left.getInt L).bind fun m => (right.getInt L).map fun n => f m n
  let ofFloats (f : BitVec 32 → BitVec 32 → Value) :=
    (left.getFloat L).bind fun x => (right.getFloat L).map fun y => f x y
  match type with
  | .add =>
    if targetType = .ints then ofInts fun m n => .ints (m + n)
    else ofFloats fun x y => .floats (L.add x y)
  | .sub =>
    if targetType = .ints then ofInts fun m n => .ints (m - n)
    else ofFloats fun x y => .floats (L.sub x y)
  | .mul =>
    if targetType = .ints then ofInts fun m n => .ints (m * n)
    else ofFloats fun x y => .floats (L.mul x y)
  | .div =>
    if targetType = .ints then
      (right.getInt L).bind fun n =>
        if n = 0 then some .nulls else (left.getInt L).map fun m => .ints (m.sdiv n)
    else
      (right.getFloat L).bind fun y =>
        if L.isZero y then some .nulls else (left.getFloat L).map fun x => .floats (L.div x y)
  | .negative =>
    if targetType = .ints then (left.getInt L).map fun m => .ints (-m)
    else (left.getFloat L).map fun x => .floats (L.neg x)

/-- The regular expression of a `LikeExpr`. -/
def likeRegex (partten : Str) : Str :=
  -- the characters ^ $ . * + ? ( ) [ ] { } | and the backslash
  let specialChars : Str := [94, 36, 46, 42, 43, 63, 40, 41, 91, 93, 123, 125, 124, 92]
  partten.flatMap fun c =>
    if specialChars.contains c then [92, c]
    else if c = 37 then [46, 42]
    else if c = 95 then [46]
    else [c]

/-- The value of a `LikeExpr` whose child has this one. -/
def likeValue (L : Library) (partten : Str) (child : Value) : Value :=
  match child.getString L with
  | none => .nulls
  | some s => .booleans (L.regexMatch (likeRegex partten) s)

/-- The value of a `NotExpr` whose child has this one. -/
def notValue (L : Library) (child : Value) : Value :=
  match child.getBoolean L.doubles with
  | none => .nulls
  | some b => .booleans (!b)

/-- `InExpr::is_in`, and the loop before it that sorts out the `NULL`s of the values. -/
def isIn (L : Library) (left : Value) (values : List Value) : Value :=
  let containNull := decide (Value.nulls ∈ values)
  let values := values.filter (· ≠ .nulls)
  if left.attrType = .nulls then .nulls
  else if L.find (Value.less L) values left then .booleans true
  else if containNull then .nulls
  else .booleans false

/-! ### Expressions -/

/-- What expressions speak about: the fields with their types, and the tuples, of which there
is one. -/
structure Environment where
  library : Library
  Field : Type
  fieldType : Field → AttrType
  Tuple : Type
  fakeTuple : Tuple
  findCell : Tuple → Field → Except Stop Value

/-- A library that knows the values without floats, and the patterns without jokers. -/
def Library.withoutFloats : Library where
  doubles := exactDoubles
  stof _ := none
  ofInt _ := 0
  toInt _ := 0
  add _ _ := 0
  sub _ _ := 0
  mul _ _ := 0
  div _ _ := 0
  neg _ := 0
  isZero _ := true
  doubleToStr _ := []
  regexMatch regex s := regex = s
  find less values v := values.any fun w => !less v w && !less w v

/-- Tuples that are lists of values, whose fields are their places. -/
def Environment.ofLists : Environment where
  library := .withoutFloats
  Field := Nat
  fieldType _ := .ints
  Tuple := List Value
  fakeTuple := []
  findCell tuple n :=
    match tuple[n]? with
    | some v => .ok v
    | none => .error (.rc .notfound)

/-- `Expression`, without the subqueries and the functions. A `negative` has both operands like
the other arithmetic. -/
inductive Expression (E : Environment) where
  | field (cell : E.Field)
  | value (v : Value)
  | cast (child : Expression E) (castType : AttrType)
  | comparison (comp : CompOp) (left right : Expression E)
  | conjunction (type : ConjunctionType) (children : List (Expression E))
  | arithmetic (type : ArithmeticType) (left right : Expression E)
  | like (partten : Str) (child : Expression E)
  | not (child : Expression E)
  | isIn (left : Expression E) (valueList : List (Expression E))
  | isNull (child : Expression E)

namespace Expression

variable {E : Environment}

/-- `value_type`. -/
def valueType : Expression E → AttrType
  | field cell => E.fieldType cell
  | value v => v.attrType
  | cast _ castType => castType
  | comparison _ _ _ => .booleans
  | conjunction _ _ => .booleans
  | arithmetic type left right =>
    if left.valueType = .ints ∧ right.valueType = .ints ∧ type ≠ .div then .ints else .floats
  | like _ _ => .booleans
  | not _ => .booleans
  | isIn _ _ => .booleans
  | isNull _ => .booleans

mutual

/-- `get_value`. -/
def getValue (tuple : E.Tuple) : Expression E → Except Stop Value
  | field cell => E.findCell tuple cell
  | value v => .ok v
  | cast child castType => do
    let cell ← child.getValue tuple
    return castValue E.library castType cell
  | comparison comp left right => do
    let leftValue ← left.getValue tuple
    let rightValue ← right.getValue tuple
    return truthValue (compareValue E.library.doubles comp leftValue rightValue)
  | conjunction _ [] => .ok (.booleans true)
  | conjunction type (child :: children) => getConjunction tuple type false (child :: children)
  | arithmetic type left right => do
    let leftValue ← left.getValue tuple
    let rightValue ← right.getValue tuple
    let targetType := (arithmetic type left right).valueType
    return (calcValue E.library type targetType leftValue rightValue).getD .nulls
  | like partten child => do
    let childValue ← child.getValue tuple
    return likeValue E.library partten childValue
  | not child => do
    let childValue ← child.getValue tuple
    return notValue E.library childValue
  | isIn left valueList => do
    let left ← left.getValue tuple
    let values ← getValues tuple valueList
    return Sql.isIn E.library left values
  | isNull child => do
    let value ← child.getValue tuple
    return .booleans (value.attrType = .nulls)

/-- The loop of `ConjunctionExpr::get_value`. -/
def getConjunction (tuple : E.Tuple) (type : ConjunctionType) (containNull : Bool) :
    List (Expression E) → Except Stop Value
  | [] => .ok (if containNull then .nulls else .booleans (type = .and))
  | child :: children => do
    let tmpValue ← child.getValue tuple
    match tmpValue.getBoolean E.library.doubles with
    | none => getConjunction tuple type true children
    | some boolValue =>
      if type = .and ∧ ¬ boolValue ∨ type = .or ∧ boolValue then return .booleans boolValue
      else getConjunction tuple type containNull children

/-- The values that `InExpr::get_value` collects. -/
def getValues (tuple : E.Tuple) : List (Expression E) → Except Stop (List Value)
  | [] => .ok []
  | expr :: exprs => do
    let v ← expr.getValue tuple
    let values ← getValues tuple exprs
    return v :: values

end

mutual

/-- `try_get_value`. -/
def tryGetValue : Expression E → Except Stop Value
  | field _ => .error (.rc .unimplement)
  | value v => .ok v
  | cast child castType => do
    let value ← child.tryGetValue
    return castValue E.library castType value
  | comparison comp left right => do
    let leftCell ← left.tryGetValue
    let rightCell ← right.tryGetValue
    return truthValue (compareValue E.library.doubles comp leftCell rightCell)
  | conjunction _ [] => .ok (.booleans true)
  | conjunction type (child :: children) => tryConjunction type false (child :: children)
  | arithmetic type left right => do
    let leftValue ← left.tryGetValue
    let rightValue ← right.tryGetValue
    let targetType := (arithmetic type left right).valueType
    return (calcValue E.library type targetType leftValue rightValue).getD .nulls
  | like partten child => do
    let childValue ← child.tryGetValue
    return likeValue E.library partten childValue
  | not child => do
    let childValue ← child.tryGetValue
    return notValue E.library childValue
  | isIn left valueList => do
    let left ← left.tryGetValue
    let values ← tryValues valueList
    return Sql.isIn E.library left values
  | isNull child => do
    let value ← child.tryGetValue
    return .booleans (value.attrType = .nulls)

/-- The loop of `ConjunctionExpr::try_get_value`. A `NULL` counts as false here, so that it ends
an `AND`. -/
def tryConjunction (type : ConjunctionType) (containNull : Bool) :
    List (Expression E) → Except Stop Value
  | [] => .ok (if containNull ∧ type ≠ .and then .nulls else .booleans (type = .and))
  | child :: children => do
    let tmpValue ← child.tryGetValue
    let isNull := (tmpValue.getBoolean E.library.doubles).isNone
    let boolValue := (tmpValue.getBoolean E.library.doubles).getD false
    if type = .and ∧ ¬ boolValue ∨ type = .or ∧ boolValue then return .booleans boolValue
    else tryConjunction type (containNull || isNull) children

/-- The values that `InExpr::try_get_value` collects. -/
def tryValues : List (Expression E) → Except Stop (List Value)
  | [] => .ok []
  | expr :: exprs => do
    let v ← expr.tryGetValue
    let values ← tryValues exprs
    return v :: values

end

/-! ### Lists of values -/

theorem bind_eq_ok {α β : Type} {x : Except Stop α} {f : α → Except Stop β} {b : β} :
  x >>= f = .ok b ↔ ∃ a, x = .ok a ∧ f a = .ok b
  := by
  cases x with
  | error stop => simp [bind, Except.bind]
  | ok a => simp [bind, Except.bind]

theorem getValues_cons {tuple : E.Tuple} {expr : Expression E} {exprs : List (Expression E)}
    {values : List Value} (h : getValues tuple (expr :: exprs) = .ok values) :
  ∃ v rest, values = v :: rest ∧ expr.getValue tuple = .ok v ∧ getValues tuple exprs = .ok rest
  := by
  rw [getValues] at h
  obtain ⟨v, hv, h⟩ := bind_eq_ok.mp h
  obtain ⟨rest, hrest, h⟩ := bind_eq_ok.mp h
  cases h
  exact ⟨v, rest, rfl, hv, hrest⟩

theorem tryValues_cons {expr : Expression E} {exprs : List (Expression E)} {values : List Value}
    (h : tryValues (expr :: exprs) = .ok values) :
  ∃ v rest, values = v :: rest ∧ expr.tryGetValue = .ok v ∧ tryValues exprs = .ok rest
  := by
  rw [tryValues] at h
  obtain ⟨v, hv, h⟩ := bind_eq_ok.mp h
  obtain ⟨rest, hrest, h⟩ := bind_eq_ok.mp h
  cases h
  exact ⟨v, rest, rfl, hv, hrest⟩

/-! ### The expressions of a statement -/

/-- The type of the expression is `FIELD`. -/
def isField : Expression E → Bool
  | field _ => true
  | _ => false

end Expression

/-- The tuples and the comparisons of the expressions, as the rewriting of a condition sees
them. -/
abbrev Environment.signature (E : Environment) : Signature where
  doubles := E.library.doubles
  Tuple := E.Tuple
  fakeTuple := E.fakeTuple
  Comparison := CompOp × Expression E × Expression E
  compare comparison tuple := do
    let left ← comparison.2.1.getValue tuple
    let right ← comparison.2.2.getValue tuple
    return compareValue E.library.doubles comparison.1 left right
  isFieldEqual comparison :=
    comparison.1 = .equalTo && (comparison.2.1.isField || comparison.2.2.isField)

namespace Expression

variable {E : Environment} {tuple : E.Tuple}

mutual

/-- The expression of a statement that this one is. -/
def toExpr : Expression E → Expr E.signature
  | value v => .value v
  | comparison comp left right => .comparison (comp, left, right)
  | conjunction type children => .conjunction type (toExprs children)
  | expr => .other fun tuple => expr.getValue tuple

def toExprs : List (Expression E) → List (Expr E.signature)
  | [] => []
  | expr :: exprs => expr.toExpr :: toExprs exprs

end

mutual

/-- It has the same value. -/
theorem getValue_toExpr : ∀ expr : Expression E,
    Expr.getValue (S := E.signature) tuple expr.toExpr = expr.getValue tuple
  | value _ => rfl
  | comparison comp left right => by
    rw [toExpr, Expr.getValue, getValue]
    dsimp only [Environment.signature]
    cases left.getValue tuple with
    | error stop => rfl
    | ok v =>
      cases right.getValue tuple with
      | error stop => rfl
      | ok w => rfl
  | conjunction _ [] => rfl
  | conjunction type (child :: children) => by
    rw [toExpr, toExprs, Expr.getValue, ← toExprs, getValue,
      conjunctionValue_toExprs type false (child :: children)]
  | field _ => rfl
  | cast _ _ => rfl
  | arithmetic _ _ _ => rfl
  | like _ _ => rfl
  | not _ => rfl
  | isIn _ _ => rfl
  | isNull _ => rfl

theorem conjunctionValue_toExprs (type : ConjunctionType) : ∀ (containNull : Bool)
    (children : List (Expression E)),
    conjunctionValue (S := E.signature) tuple type containNull (toExprs children)
      = getConjunction tuple type containNull children
  | _, [] => rfl
  | containNull, child :: children => by
    have ih := fun b => conjunctionValue_toExprs type b children
    rw [toExprs, conjunctionValue, getConjunction, getValue_toExpr child]
    cases child.getValue tuple with
    | error stop => rfl
    | ok v =>
      dsimp only [bind, Except.bind]
      cases v.getBoolean E.library.doubles with
      | none => exact ih true
      | some b =>
        dsimp only
        rw [ih containNull]
        rfl

end

end Expression

end MiniOB.Sql
