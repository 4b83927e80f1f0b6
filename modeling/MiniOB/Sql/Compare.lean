import MiniOB.Sql.Value

/-!
# Comparing values

`Value::compare` of `sql/parser/value.cpp` with what it rests on, and the comparisons of
`ComparisonExpr`. Doubles are given by the operations that the comparison uses: only that of
two integers is spelled out.
-/

namespace MiniOB.Sql

/-! ### Dates -/

/-- `isspace`. -/
def isSpace (b : BitVec 8) : Bool := b = 32 ∨ (9 ≤ b ∧ b ≤ 13)

/-- The number that a `%d` of `sscanf` reads, cut to a `long` and then to an `int`, with what
follows it. -/
def scanInt (s : Str) : Option (BitVec 32 × Str) :=
  let s := s.dropWhile isSpace
  let (negative, s) := match s with
    | 45 :: s => (true, s)
    | 43 :: s => (false, s)
    | s => (false, s)
  let isDigit : BitVec 8 → Bool := fun b => 48 ≤ b ∧ b ≤ 57
  match s.takeWhile isDigit with
  | [] => none
  | digits =>
    let n : Nat := digits.foldl (fun n b => n * 10 + (b.toNat - 48)) 0
    let n : Int := if negative then max (-(n : Int)) (-2 ^ 63) else min (n : Int) (2 ^ 63 - 1)
    some (BitVec.ofInt 32 n, s.dropWhile isDigit)

/-- The numbers of `sscanf(str, "%d-%d-%d", ...)`, if there are three. -/
def scanDate (s : Str) : Option (BitVec 32 × BitVec 32 × BitVec 32) :=
  match scanInt s with
  | some (year, 45 :: s) =>
    match scanInt s with
    | some (month, 45 :: s) => (scanInt s).map fun (day, _) => (year, month, day)
    | _ => none
  | _ => none

/-- `parseDate`: the number of a date, `0` for what is none. -/
def parseDate (s : Str) : BitVec 32 :=
  match scanDate s with
  | none => 0
  | some (year, month, day) =>
    let leap := (Int.tmod year.toInt 4 = 0 ∧ Int.tmod year.toInt 100 ≠ 0)
      ∨ Int.tmod year.toInt 400 = 0
    if year.toInt < 0 ∨ month.toInt < 1 ∨ 12 < month.toInt ∨ day.toInt < 1 ∨ 31 < day.toInt then 0
    else if month = 2 ∧ (if leap then 29 else 28) < day.toInt then 0
    else if (month = 4 ∨ month = 6 ∨ month = 9 ∨ month = 11) ∧ 30 < day.toInt then 0
    else year * 10000 + month * 100 + day

/-- The number that `Value::set_date` sets, if the string is a date. -/
def dateOf (s : Str) : Option (BitVec 32) :=
  if parseDate s = 0 then none else some (parseDate s)

/-! ### Values -/

/-- The doubles, as far as values are compared by them. -/
structure Doubles where
  Double : Type
  /-- The double of an `int`. -/
  ofInt : Int → Double
  /-- The double of the `float` with these bytes. -/
  ofFloat : BitVec 32 → Double
  /-- `std::stod`, or `0.0` where it throws. -/
  stod : Str → Double
  /-- The sign of the difference of two doubles, which is `0` within `EPSILON`. -/
  sign : Double → Double → Int
  /-- An `int` is a double, and so is the difference of two. -/
  sign_ofInt : ∀ m n : BitVec 32,
    sign (ofInt m.toInt) (ofInt n.toInt) = (m.toInt - n.toInt).sign
  /-- The difference of two doubles changes its sign with their order. -/
  sign_swap : ∀ x y : Double, sign y x = -sign x y
  /-- Subtracting from a larger `int` gives no less. -/
  sign_mono : ∀ {m n : BitVec 32} (x : Double), m.toInt ≤ n.toInt →
    sign (ofInt m.toInt) x ≤ sign (ofInt n.toInt) x

/-- Doubles without rounding, without infinities, and with whole numbers only in strings. -/
def exactDoubles : Doubles where
  Double := ℚ
  ofInt n := n
  ofFloat bits :=
    let exponent := (bits.extractLsb' 23 8).toNat
    let fraction := (bits.extractLsb' 0 23).toNat
    let size : ℚ := if exponent = 0 then fraction / 2 ^ 149
      else (2 ^ 23 + fraction) * 2 ^ exponent / 2 ^ 150
    if bits.msb then -size else size
  stod s :=
    match scanInt s with
    | none => 0
    | some (n, _) => n.toInt
  sign a b := if 1 / 1000000 < a - b then 1 else if a - b < -(1 / 1000000) then -1 else 0
  sign_ofInt m n := by
    obtain h | h | h := lt_trichotomy (m.toInt - n.toInt) 0
    · have hle : (m.toInt : ℚ) - n.toInt ≤ -1 := by
        have : m.toInt - n.toInt ≤ -1 := by omega
        exact_mod_cast this
      rw [if_neg (by linarith), if_pos (by linarith), Int.sign_eq_neg_one_of_neg h]
    · have heq : (m.toInt : ℚ) - n.toInt = 0 := by exact_mod_cast h
      rw [heq, h]
      norm_num
    · have hge : (1 : ℚ) ≤ (m.toInt : ℚ) - n.toInt := by
        have : 1 ≤ m.toInt - n.toInt := by omega
        exact_mod_cast this
      rw [if_pos (by linarith), Int.sign_eq_one_of_pos h]
  sign_swap x y := by
    split_ifs <;> first | rfl | linarith
  sign_mono {m n} x h := by
    have hle : (m.toInt : ℚ) ≤ n.toInt := by exact_mod_cast h
    split_ifs <;> first | decide | linarith

/-- `std::string::compare`, by its sign. -/
def compareStr : Str → Str → Int
  | [], [] => 0
  | [], _ :: _ => -1
  | _ :: _, [] => 1
  | a :: s, b :: t => if a < b then -1 else if b < a then 1 else compareStr s t

namespace Value

variable (F : Doubles)

/-- `Value::get_double`. A `NULL` has none, for which the function throws. -/
def getDouble : Value → Option F.Double
  | ints n => some (F.ofInt n.toInt)
  | floats bits => some (F.ofFloat bits)
  | booleans b => some (F.ofInt (if b then 1 else 0))
  | dates n => some (F.ofInt n.toInt)
  | chars s => some (F.stod s)
  | texts s => some (F.stod s)
  | nulls => none
  | undefined => none

/-- `Value::compare`. It throws for a `NULL`, and for a date and a string that is none. -/
def compare (v w : Value) : Option Int :=
  match v, w with
  | dates n, chars s => (dateOf s).map fun d => F.sign (F.ofInt n.toInt) (F.ofInt d.toInt)
  | chars s, dates n => (dateOf s).map fun d => F.sign (F.ofInt d.toInt) (F.ofInt n.toInt)
  | chars s, chars t => some (compareStr s t)
  | chars s, texts t => some (compareStr s t)
  | texts s, chars t => some (compareStr s t)
  | texts s, texts t => some (compareStr s t)
  | v, w =>
    match v.getDouble F, w.getDouble F with
    | some first, some second => some (F.sign first second)
    | _, _ => none

end Value

/-- The comparisons of `CompOp` that `compare_value` knows. -/
inductive CompOp where
  | equalTo
  | lessEqual
  | notEqual
  | lessThan
  | greatEqual
  | greatThan
  deriving DecidableEq, Repr

/-- `ComparisonExpr::compare_value`. The comparison has no truth value where comparing throws. -/
def compareValue (F : Doubles) (comp : CompOp) (left right : Value) : Option Bool :=
  (left.compare F right).map fun (cmp : Int) =>
    match comp with
    | .equalTo => cmp = 0
    | .lessEqual => cmp ≤ 0
    | .notEqual => cmp ≠ 0
    | .lessThan => cmp < 0
    | .greatEqual => 0 ≤ cmp
    | .greatThan => 0 < cmp

/-! ### What comparing says -/

theorem compareStr_eq_zero : ∀ {s t : Str}, compareStr s t = 0 ↔ s = t
  | [], [] => by simp [compareStr]
  | [], _ :: _ => by simp [compareStr]
  | _ :: _, [] => by simp [compareStr]
  | a :: s, b :: t => by
    rw [compareStr]
    split_ifs with hlt hgt
    · apply iff_of_false (by decide)
      rintro ⟨rfl, rfl⟩
      exact BitVec.lt_irrefl a hlt
    · apply iff_of_false (by decide)
      rintro ⟨rfl, rfl⟩
      exact BitVec.lt_irrefl a hgt
    · have hab : a = b := by
        apply BitVec.le_antisymm
        · exact BitVec.not_lt.mp hgt
        · exact BitVec.not_lt.mp hlt
      rw [compareStr_eq_zero, hab]
      simp

end MiniOB.Sql
