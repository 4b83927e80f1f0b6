import Mathlib

/-!
# Common types

The return codes of the server, the page and slot numbers and the record identifiers
built from them, and the arithmetic of its 32-bit signed integers.
-/

namespace MiniOB

/-- The return codes the modelled functions produce or inspect. -/
inductive RC where
  | success
  | internal
  | nomem
  | empty
  | bufferpoolNobuf
  | bufferpoolInvalidPageNum
  | lockedUnlock
  | recordOpenned
  | recordInvalidRid
  | recordInvalidKey
  | recordDuplicateKey
  | recordNomem
  | recordEof
  | recordNotExist
  | recordInvisible
  | schemaDbExist
  | schemaTableNotExist
  | schemaTableExist
  | schemaFieldAmbiguous
  | schemaFieldNotExist
  | schemaFieldMissing
  | schemaFieldTypeMismatch
  | updateValueTooLong
  | notfound
  | unimplement
  | ioerrRead
  | ioerrWrite
  | ioerrAccess
  | ioerrOpen
  | ioerrDelete
  | ioerrClose
  | ioerrSeek
  | ioerrTooLong
  | fileOpen
  | fileNotOpened
  | logFileFull
  | invalidArgument
  | lockedConcurrencyConflict
  | lockedNeedWait
  | invalidAggregate
  | subqueryMoreThanOneCol
  | incorrectDateValue
  | incorrectDateFormat
  deriving DecidableEq, Repr

/-- The mode in which a record or a page is visited. -/
inductive ReadWriteMode where
  | readOnly
  | readWrite
  deriving DecidableEq, Repr

/-- `BP_INVALID_PAGE_NUM`. -/
def invalidPageNum : Int := -1

/-- The identifier of a record: the page it lies on and its slot there. -/
structure RID where
  pageNum : Int
  slotNum : Int
  deriving DecidableEq, Repr

/-- The value an `int32_t` holds after `x` has been stored in it. -/
def int32 (x : Int) : Int := x.bmod (2 ^ 32)

/-- `numeric_limits<int32_t>::max()`. -/
def int32Max : Int := 2 ^ 31 - 1

theorem int32_of_mem {x : Int} (hl : -2 ^ 31 ≤ x) (hu : x ≤ int32Max) :
  int32 x = x
  := by
  rw [int32Max] at hu
  apply Int.bmod_eq_of_le <;> omega

theorem int32_le {x : Int} (h : 0 ≤ x) :
  int32 x ≤ x
  := by
  rw [int32, Int.bmod_def]
  split <;> omega

end MiniOB
