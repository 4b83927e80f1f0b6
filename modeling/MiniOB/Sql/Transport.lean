import MiniOB.Lib.Json
import MiniOB.Sql.Evaluation

/-!
# Lists of values as JSON

`arr_to_string` and `string_to_arr` of `sql/parser/value.cpp`, by which the values of a subquery
reach an `InExpr`. What JsonCpp prints and parses is given by a `JsonCpp`.
-/

namespace MiniOB.Sql

open Json (Document)

/-! ### JsonCpp -/

/-- `toStyledString` and `Json::Reader::parse`. -/
structure JsonCpp where
  print : Document → Str
  parse : Str → Option Document
  /-- What is printed is parsed back. -/
  parse_print : ∀ document, parse (print document) = some document
  /-- Control characters are escaped. -/
  zero_notMem_print : ∀ document, 0#8 ∉ print document

/-- A line for each element and each member. -/
def JsonCpp.styled : JsonCpp where
  print := Json.print
  parse := Json.parse
  parse_print := Json.parse_print
  zero_notMem_print := Json.zero_notMem_print

/-- `operator[]`, which throws for what is neither an object nor null. -/
def member (key : Str) : Document → Option Document
  | .object members => some ((members.lookup key).getD .null)
  | .null => some .null
  | _ => none

/-- `asInt`, which throws for what is no `int`. -/
def asInt : Document → Option (BitVec 32)
  | .int n => if -2 ^ 31 ≤ n ∧ n < 2 ^ 31 then some (BitVec.ofInt 32 n) else none
  | .bool b => some (if b then 1 else 0)
  | .null => some 0
  | _ => none

/-- `asString`, which throws for an array and an object. -/
def asString : Document → Option Str
  | .string s => some s
  | .int n => some (Json.printInt n)
  | .bool b => some (if b then [116, 114, 117, 101] else [102, 97, 108, 115, 101])
  | .null => some []
  | _ => none

/-- What a loop over a document visits. -/
def elements : Document → List Document
  | .array elements => elements
  | .object members => members.map (·.2)
  | _ => []

/-! ### Values and lists of them -/

/-- The fields of a `Value`. The number of a type that has none is what is left there. -/
structure RawValue where
  attrType : AttrType
  length : BitVec 32
  numValue : BitVec 32
  strValue : Str
  deriving DecidableEq, Repr

/-- The type and the content of a value. -/
def RawValue.value (raw : RawValue) : Value :=
  match raw.attrType with
  | .undefined => .undefined
  | .chars => .chars raw.strValue
  | .ints => .ints raw.numValue
  | .floats => .floats raw.numValue
  | .booleans => .booleans (raw.numValue.extractLsb' 0 8 ≠ 0)
  | .dates => .dates raw.numValue
  | .texts => .texts raw.strValue
  | .nulls => .nulls

/-- The number of an `AttrType`. -/
def AttrType.code : AttrType → BitVec 32
  | .undefined => 0
  | .chars => 1
  | .ints => 2
  | .floats => 3
  | .booleans => 4
  | .dates => 5
  | .texts => 6
  | .nulls => 7

/-- The `AttrType` of a number, where it is one. -/
def AttrType.ofCode (code : BitVec 32) : AttrType :=
  if code = 1 then .chars
  else if code = 2 then .ints
  else if code = 3 then .floats
  else if code = 4 then .booleans
  else if code = 5 then .dates
  else if code = 6 then .texts
  else if code = 7 then .nulls
  else .undefined

/-- `"type"`. -/
def typeKey : Str := [116, 121, 112, 101]

/-- `"stringValue"`. -/
def stringValueKey : Str := [115, 116, 114, 105, 110, 103, 86, 97, 108, 117, 101]

/-- `"intValue"`. -/
def intValueKey : Str := [105, 110, 116, 86, 97, 108, 117, 101]

/-- `"length"`. -/
def lengthKey : Str := [108, 101, 110, 103, 116, 104]

variable (J : JsonCpp)

/-- `Value::to_complex_string`. An object keeps its members in the order of their names. -/
def toComplexString (raw : RawValue) : Str :=
  J.print (.object [
    (intValueKey, .int raw.numValue.toInt),
    (lengthKey, .int raw.length.toInt),
    (stringValueKey, .string raw.strValue),
    (typeKey, .int raw.attrType.code.toInt)])

/-- `Value::from_complex_string`, which has no value where it throws. -/
def fromComplexString (str : Str) : Option RawValue := do
  let json ← J.parse (cStr str)
  let type ← (member typeKey json).bind asInt
  let numValue ← (member intValueKey json).bind asInt
  let strValue ← (member stringValueKey json).bind asString
  let length ← (member lengthKey json).bind asInt
  return ⟨.ofCode type, length, numValue, strValue⟩

/-- `string_to_arr`, which has no list where it throws. -/
def stringToArr (json : Str) : Option (List RawValue) := do
  let root ← J.parse (cStr json)
  (elements root).mapM fun value => fromComplexString J (J.print value)

/-- `arr_to_string`. Appending makes an array of the document, which is null at first. -/
def arrToString (arr : List RawValue) : Str :=
  J.print (if arr = [] then .null else .array (arr.map fun raw => .string (toComplexString J raw)))

/-- The list comes back with the same types and contents. -/
def Transported (arr : List RawValue) : Prop :=
  ∃ arr', stringToArr J (arrToString J arr) = some arr' ∧ arr'.map (·.value) = arr.map (·.value)

/-! ### What comes back -/

variable {J}

theorem parse_cStr_print (document : Document) :
  J.parse (cStr (J.print document)) = some document
  := by
  rw [cStr_of_notMem (J.zero_notMem_print document), J.parse_print]

theorem asInt_toInt (n : BitVec 32) :
  asInt (.int n.toInt) = some n
  := by
  have hle := BitVec.le_toInt n
  have hlt := BitVec.toInt_lt (x := n)
  rw [asInt, if_pos ⟨hle, hlt⟩, BitVec.ofInt_toInt]

theorem ofCode_code (type : AttrType) :
  AttrType.ofCode type.code = type
  := by
  cases type <;> rfl

/-- A value is read back from the object that is written for it. -/
theorem fromComplexString_toComplexString (raw : RawValue) :
  fromComplexString J (toComplexString J raw) = some raw
  := by
  have hnum := asInt_toInt raw.numValue
  have hlength := asInt_toInt raw.length
  have htype := asInt_toInt raw.attrType.code
  rw [fromComplexString, toComplexString, parse_cStr_print]
  simp [member, List.lookup, typeKey, intValueKey, lengthKey, stringValueKey, asString, hnum,
    hlength, htype, ofCode_code]

/-- The text of a string is the text of no value. -/
theorem fromComplexString_print_string (s : Str) :
  fromComplexString J (J.print (.string s)) = none
  := by
  rw [fromComplexString, parse_cStr_print]
  rfl

/-- The elements of the array are strings, and each of them is printed once more before it is
read: only the list without elements comes back, for the others the reading throws. -/
theorem transported_iff (arr : List RawValue) :
  Transported J arr ↔ arr = []
  := by
  constructor
  · rintro ⟨arr', h, -⟩
    cases arr with
    | nil => rfl
    | cons raw arr =>
      rw [stringToArr, arrToString, parse_cStr_print, if_neg (List.cons_ne_nil raw arr)] at h
      simp [elements, fromComplexString_print_string] at h
  · rintro rfl
    use []
    rw [stringToArr, arrToString, parse_cStr_print]
    exact ⟨rfl, rfl⟩

/-- The list of the number 5 does not come back. -/
theorem transport_of_five_fails :
  ¬ Transported .styled [⟨.ints, 4, 5, []⟩]
  := by
  rintro ⟨arr', h, -⟩
  rw [stringToArr, arrToString, parse_cStr_print, if_neg (by decide)] at h
  simp [elements, fromComplexString_print_string] at h

end MiniOB.Sql
