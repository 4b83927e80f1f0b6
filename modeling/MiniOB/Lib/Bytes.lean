import Mathlib

/-!
# Integers as bytes

The bytes of an integer in two's complement, the lowest byte first, and the integer that is
read back from bytes. Reading from a list of bytes takes a given number of them off its
front, unless there are fewer.
-/

namespace Bytes

/-- The lowest `w` bytes of an integer. -/
def encode : Nat → Int → List UInt8
  | 0, _ => []
  | w + 1, x => UInt8.ofNat (x % 256).toNat :: encode w (x / 256)

/-- The number that bytes spell. -/
def value : List UInt8 → Nat
  | [] => 0
  | b :: bs => b.toNat + 256 * value bs

/-- The signed integer that bytes spell. -/
def decode (bs : List UInt8) : Int := (value bs : Int).bmod (256 ^ bs.length)

/-- Take `n` bytes off the front. -/
def read (n : Nat) (bs : List UInt8) : Option (List UInt8 × List UInt8) :=
  if n ≤ bs.length then some (bs.take n, bs.drop n) else none

@[simp]
theorem length_encode (w : Nat) (x : Int) :
  (encode w x).length = w
  := by
  induction w generalizing x with
  | zero => rfl
  | succ w ih => rw [encode, List.length_cons, ih]

theorem value_encode (w : Nat) (x : Int) :
  (value (encode w x) : Int) = x % 256 ^ w
  := by
  induction w generalizing x with
  | zero => rw [pow_zero, Int.emod_one]; rfl
  | succ w ih =>
    have hbyte : ((UInt8.ofNat (x % 256).toNat).toNat : Int) = x % 256 := by
      rw [UInt8.toNat_ofNat']
      omega
    have hquot : x / 256 / 256 ^ w = x / (256 * 256 ^ w) := Int.ediv_ediv_of_nonneg (by decide)
    rw [encode, value, Nat.cast_add, Nat.cast_mul, ih, hbyte, pow_succ', Int.emod_def x (256 * _),
      Int.emod_def (x / 256), hquot, Int.emod_def x, mul_assoc]
    push_cast
    ring

/-- An integer is read back from its bytes when it fits into them. -/
theorem decode_encode {w : Nat} {x : Int} (hl : -(256 ^ w : Int) ≤ 2 * x) (hu : 2 * x < 256 ^ w) :
  decode (encode w x) = x
  := by
  rw [decode, value_encode, length_encode]
  have hbmod : (x % 256 ^ w).bmod (256 ^ w) = x.bmod (256 ^ w) := by
    have h := Int.emod_bmod (x := x) (n := 256 ^ w)
    rw [Nat.cast_pow] at h
    exact h
  rw [hbmod]
  apply Int.bmod_eq_of_le_mul_two
  · rw [Nat.cast_pow]
    change -(256 ^ w : Int) ≤ x * 2
    omega
  · rw [Nat.cast_pow]
    change x * 2 < (256 ^ w : Int)
    omega

/-- Bytes spell no integer below those that fit into them. -/
theorem le_decode (bs : List UInt8) :
  -(256 ^ bs.length : Int) ≤ 2 * decode bs
  := by
  have hle := Int.le_bmod (x := value bs) (Nat.pow_pos (n := bs.length) (show 0 < 256 by decide))
  rw [Nat.cast_pow] at hle
  change -(256 ^ bs.length / 2 : Int) ≤ decode bs at hle
  omega

theorem read_append {n : Nat} {front : List UInt8} (h : front.length = n) (rest : List UInt8) :
  read n (front ++ rest) = some (front, rest)
  := by
  subst h
  simp [read]

theorem read_of_lt {n : Nat} {bs : List UInt8} (h : bs.length < n) :
  read n bs = none
  := by
  rw [read, if_neg (by omega)]

/-- What is read from the front is followed by the rest. -/
theorem read_eq_some {n : Nat} {bs front rest : List UInt8} (h : read n bs = some (front, rest)) :
  bs = front ++ rest ∧ front.length = n
  := by
  rw [read] at h
  split at h
  · cases h
    refine ⟨(List.take_append_drop n bs).symm, ?_⟩
    rw [List.length_take]
    omega
  · contradiction

end Bytes
