import MiniOB.Lib.Memory
import MiniOB.Record.Bitmap

/-!
# Values

`Value` of `sql/parser/value.cpp`: a value with its type, the bytes at which `Value::data`
points, and the value that `Value::set_data` takes from bytes. A float is its four bytes.
-/

namespace MiniOB.Sql

/-- The bytes of a string. -/
abbrev Str := List (BitVec 8)

/-- `AttrType`. -/
inductive AttrType where
  | undefined
  | chars
  | ints
  | floats
  | booleans
  | dates
  | texts
  | nulls
  deriving DecidableEq, Repr

/-- `Value`. -/
inductive Value where
  | undefined
  | chars (s : Str)
  | ints (n : BitVec 32)
  | floats (bits : BitVec 32)
  | booleans (b : Bool)
  | dates (n : BitVec 32)
  | texts (s : Str)
  | nulls
  deriving DecidableEq, Repr

/-- The four bytes of a number, the lowest first. -/
def numBytes (n : BitVec 32) : Str :=
  [n.extractLsb' 0 8, n.extractLsb' 8 8, n.extractLsb' 16 8, n.extractLsb' 24 8]

/-- The number at an address. -/
def numAt (m : Bytes) (addr : Nat) : BitVec 32 :=
  m (addr + 3) ++ m (addr + 2) ++ m (addr + 1) ++ m addr

/-- The string at an address, up to its end or to `len` bytes: `strnlen`. -/
def strAt (m : Bytes) (addr len : Nat) : Str := (Memory.read m addr len).takeWhile (· ≠ 0)

namespace Value

/-- `Value::attr_type`. -/
def attrType : Value → AttrType
  | undefined => .undefined
  | chars _ => .chars
  | ints _ => .ints
  | floats _ => .floats
  | booleans _ => .booleans
  | dates _ => .dates
  | texts _ => .texts
  | nulls => .nulls

/-- `Value::length`. -/
def length : Value → Nat
  | undefined => 0
  | chars s => s.length
  | ints _ => 4
  | floats _ => 4
  | booleans _ => 1
  | dates _ => 4
  | texts s => s.length
  | nulls => 0

/-- The bytes of a value that `Value::data` points at. -/
def content : Value → Str
  | chars s => s ++ [0]
  | texts s => s ++ [0]
  | ints n => numBytes n
  | floats bits => numBytes bits
  | dates n => numBytes n
  | booleans b => [if b then 1 else 0]
  | undefined => []
  | nulls => []

/-- `Value::data`: the memory from the content of the value on, with what follows it. -/
def data (v : Value) (after : Bytes) : Bytes := Memory.write after 0 v.content

/-- `Value::set_data` of a value whose type has been set, from the bytes at an address. The
types for which it fails an assertion have no value. -/
def setData (type : AttrType) (m : Bytes) (addr len : Nat) : Option Value :=
  match type with
  | .chars => some (chars (strAt m addr len))
  | .ints => some (ints (numAt m addr))
  | .floats => some (floats (numAt m addr))
  | .booleans => some (booleans (numAt m addr ≠ 0))
  | .dates => some (dates (numAt m addr))
  | .texts => none
  | .nulls => none
  | .undefined => none

end Value

/-! ### Numbers and strings in memory -/

variable {m m' : Bytes} {addr len : Nat}

/-- A number consists of its bytes. -/
theorem append_numBytes (n : BitVec 32) :
  n.extractLsb' 24 8 ++ n.extractLsb' 16 8 ++ n.extractLsb' 8 8 ++ n.extractLsb' 0 8 = n
  := by
  apply BitVec.eq_of_getLsbD_eq
  intro i hi
  simp only [BitVec.getLsbD_append, BitVec.getLsbD_extractLsb']
  obtain h | h : i < 8 ∨ ¬ i < 8 := em _
  · rw [if_pos h, decide_eq_true h, Bool.true_and, Nat.zero_add]
  rw [if_neg h]
  obtain h | h : i - 8 < 8 ∨ ¬ i - 8 < 8 := em _
  · rw [if_pos h, decide_eq_true h, Bool.true_and, show 8 + (i - 8) = i by omega]
  rw [if_neg h]
  obtain h | h : i - 8 - 8 < 8 ∨ ¬ i - 8 - 8 < 8 := em _
  · rw [if_pos h, decide_eq_true h, Bool.true_and, show 16 + (i - 8 - 8) = i by omega]
  rw [if_neg h, decide_eq_true (by omega), Bool.true_and, show 24 + (i - 8 - 8 - 8) = i by omega]

/-- A number is read back from its bytes. -/
theorem numAt_of_bytes {n : BitVec 32}
    (h : ∀ i (hi : i < 4), m (addr + i) = (numBytes n)[i]) :
  numAt m addr = n
  := by
  have h0 := h 0 (by decide)
  rw [Nat.add_zero] at h0
  rw [numAt, h0, h 1 (by decide), h 2 (by decide), h 3 (by decide)]
  apply append_numBytes

/-- A string without a zero byte that fills its place is read back. -/
theorem strAt_of_full {s : Str} (hs : 0 ∉ s) (h : Memory.read m addr len = s) :
  strAt m addr len = s
  := by
  rw [strAt, h, List.takeWhile_eq_self_iff]
  intro b hb
  have hne : b ≠ 0 := by
    rintro rfl
    apply hs hb
  simpa using hne

/-- A string without a zero byte is read back from the bytes up to the first zero. -/
theorem strAt_of_terminated {s rest : Str} (hs : 0 ∉ s)
    (h : Memory.read m addr len = s ++ 0 :: rest) :
  strAt m addr len = s
  := by
  rw [strAt, h, List.takeWhile_append_of_pos, List.takeWhile_cons_of_neg (by decide),
    List.append_nil]
  intro b hb
  have hne : b ≠ 0 := by
    rintro rfl
    apply hs hb
  simpa using hne

end MiniOB.Sql
