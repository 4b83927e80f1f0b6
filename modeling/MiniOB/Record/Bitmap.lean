import MiniOB.Common

/-!
# Bitmaps

`Bitmap` of `deps/common/lang/bitmap.cpp`, over the bytes from the address `bitmap_` on.
The searches go through the bytes that hold the first `size` bits and may come upon a bit
of the last byte past these, which they then do not report.
-/

namespace MiniOB

/-- The bytes from an address on. -/
abbrev Bytes := Nat → BitVec 8

namespace Bitmap

/-- `bytes`: the number of bytes that hold `size` bits. -/
def bytes (size : Nat) : Nat := if size % 8 = 0 then size / 8 else size / 8 + 1

/-- `Bitmap::get_bit`. -/
def getBit (bitmap : Bytes) (index : Nat) : Bool := (bitmap (index / 8)).getLsbD (index % 8)

/-- `Bitmap::set_bit`. -/
def setBit (bitmap : Bytes) (index : Nat) : Bytes :=
  Function.update bitmap (index / 8) (bitmap (index / 8) ||| BitVec.twoPow 8 (index % 8))

/-- `Bitmap::clear_bit`. -/
def clearBit (bitmap : Bytes) (index : Nat) : Bytes :=
  Function.update bitmap (index / 8) (bitmap (index / 8) &&& ~~~BitVec.twoPow 8 (index % 8))

/-- `find_first_zero` and `find_first_setted`: the first bit of a byte, from `start` on,
with the given value. -/
def findFirst (value : Bool) (byte : BitVec 8) (start : Nat) : Int :=
  match (List.range' start (8 - start)).find? fun i => byte.getLsbD i == value with
  | some i => i
  | none => -1

/-- The byte none of whose bits has the value. -/
def skipByte (value : Bool) : BitVec 8 := if value then 0 else BitVec.allOnes 8

/-- The loop of the searches, over `n` bytes from the byte `iter` on. Bytes in which no
bit has the value are passed over. -/
def nextBitLoop (value : Bool) (bitmap : Bytes) (startInByte iter : Nat) : Nat → Int
  | 0 => -1
  | n + 1 =>
    let byte := bitmap iter
    let indexInByte :=
      if byte ≠ skipByte value then findFirst value byte startInByte else -1
    if 0 ≤ indexInByte then iter * 8 + indexInByte
    else nextBitLoop value bitmap 0 (iter + 1) n

/-- `Bitmap::next_unsetted_bit` and `Bitmap::next_setted_bit`. -/
def nextBit (value : Bool) (bitmap : Bytes) (size start : Nat) : Int :=
  let ret := nextBitLoop value bitmap (start % 8) (start / 8) (bytes size - start / 8)
  if (size : Int) ≤ ret then -1 else ret

/-- `Bitmap::next_unsetted_bit`. -/
def nextUnsettedBit : Bytes → Nat → Nat → Int := nextBit false

/-- `Bitmap::next_setted_bit`. -/
def nextSettedBit : Bytes → Nat → Nat → Int := nextBit true

/-! ### Reading and writing bits -/

theorem getBit_setBit (bitmap : Bytes) (index j : Nat) :
  getBit (setBit bitmap index) j = if j = index then true else getBit bitmap j
  := by
  have hj := Nat.div_add_mod j 8
  have hi := Nat.div_add_mod index 8
  have hlt : j % 8 < 8 := Nat.mod_lt _ (by omega)
  by_cases hbyte : j / 8 = index / 8
  · rw [getBit, setBit, hbyte, Function.update_self, BitVec.getLsbD_or, BitVec.getLsbD_twoPow,
      getBit, hbyte]
    by_cases heq : j = index
    · simp [heq]
      omega
    · have hne : index % 8 ≠ j % 8 := by omega
      simp [heq, hne]
  · have hne : j ≠ index := by
      rintro rfl
      apply hbyte rfl
    simp [getBit, setBit, hbyte, hne]

theorem getBit_clearBit (bitmap : Bytes) (index j : Nat) :
  getBit (clearBit bitmap index) j = if j = index then false else getBit bitmap j
  := by
  have hj := Nat.div_add_mod j 8
  have hi := Nat.div_add_mod index 8
  have hlt : j % 8 < 8 := Nat.mod_lt _ (by omega)
  by_cases hbyte : j / 8 = index / 8
  · rw [getBit, clearBit, hbyte, Function.update_self, BitVec.getLsbD_and, BitVec.getLsbD_not,
      BitVec.getLsbD_twoPow, getBit, hbyte]
    by_cases heq : j = index
    · simp [heq]
    · have hne : index % 8 ≠ j % 8 := by omega
      simp [heq, hne, hlt]
  · have hne : j ≠ index := by
      rintro rfl
      apply hbyte rfl
    simp [getBit, clearBit, hbyte, hne]

/-! ### Searching -/

/-- `ret` is the least `i` from `l` on and below `u` with `p i`, or `-1` if there is none. -/
def IsFirst (p : Nat → Prop) (l u : Nat) (ret : Int) : Prop :=
  (ret = -1 ∧ ∀ i, l ≤ i → i < u → ¬ p i)
    ∨ ∃ i : Nat, ret = i ∧ l ≤ i ∧ i < u ∧ p i ∧ ∀ j, l ≤ j → j < i → ¬ p j

theorem find?_range' (p : Nat → Bool) (n : Nat) :
    ∀ start, IsFirst (fun i => p i = true) start (start + n)
      (match (List.range' start n).find? p with
        | some i => i
        | none => -1) := by
  induction n with
  | zero =>
    intro start
    left
    use rfl
    omega
  | succ n ih =>
    intro start
    rw [List.range'_succ, List.find?_cons]
    cases hp : p start with
    | true =>
      right
      use start, rfl
      grind
    | false =>
      obtain ⟨hret, hnone⟩ | ⟨i, hret, hl, hu, hi, hmin⟩ := ih (start + 1)
      · left
        use hret
        intro i hl hu
        by_cases heq : i = start
        · simp [heq, hp]
        · apply hnone i (by omega) (by omega)
      · right
        use i, hret, by omega, by omega, hi
        intro j hj hji
        by_cases heq : j = start
        · simp [heq, hp]
        · apply hmin j (by omega) hji

theorem findFirst_isFirst (value : Bool) (byte : BitVec 8) {start : Nat} (hstart : start ≤ 8) :
  IsFirst (fun i => byte.getLsbD i = value) start 8 (findFirst value byte start)
  := by
  have h := find?_range' (fun i => byte.getLsbD i == value) (8 - start) start
  simp only [beq_iff_eq] at h
  rw [show start + (8 - start) = 8 by omega] at h
  apply h

theorem nextBitLoop_isFirst (value : Bool) (bitmap : Bytes) (n : Nat) :
    ∀ startInByte iter, startInByte < 8 →
      IsFirst (fun i => getBit bitmap i = value) (iter * 8 + startInByte) ((iter + n) * 8)
        (nextBitLoop value bitmap startInByte iter n) := by
  induction n with
  | zero =>
    intro startInByte iter hlt
    left
    use rfl
    omega
  | succ n ih =>
    intro startInByte iter hlt
    have hbit : ∀ i, i / 8 = iter → getBit bitmap i = (bitmap iter).getLsbD (i % 8) := by
      intro i hi
      rw [getBit, hi]
    -- the byte of this turn, whether it is passed over or searched
    have hbyte : IsFirst (fun i => (bitmap iter).getLsbD i = value) startInByte 8
        (if bitmap iter ≠ skipByte value
          then findFirst value (bitmap iter) startInByte else -1) := by
      split
      · apply findFirst_isFirst value _ (by omega)
      · rename_i hskip
        left
        use rfl
        intro i _ hi
        rw [not_not.mp hskip, skipByte]
        cases value with
        | true => simp
        | false => simp [-BitVec.reduceAllOnes, hi]
    simp only [nextBitLoop]
    obtain ⟨hret, hnone⟩ | ⟨k, hret, hl, hu, hk, hmin⟩ := hbyte
    · rw [hret, if_neg (by omega)]
      have hhere : ∀ i, iter * 8 + startInByte ≤ i → i < (iter + 1) * 8 →
          ¬ getBit bitmap i = value := by
        intro i hi hi'
        rw [hbit i (by omega)]
        apply hnone (i % 8) (by omega) (by omega)
      obtain ⟨hret', hnone'⟩ | ⟨i, hret', hl', hu', hi', hmin'⟩ := ih 0 (iter + 1) (by omega)
      · left
        use hret'
        intro i hi hi'
        by_cases hlt' : i < (iter + 1) * 8
        · apply hhere i hi hlt'
        · apply hnone' i (by omega) (by omega)
      · right
        use i, hret', by omega, by omega, hi'
        intro j hj hji
        by_cases hlt' : j < (iter + 1) * 8
        · apply hhere j hj hlt'
        · apply hmin' j (by omega) hji
    · rw [hret, if_pos (by omega)]
      right
      refine ⟨iter * 8 + k, by push_cast; rfl, by omega, by omega, ?_, ?_⟩
      · dsimp only
        rw [hbit _ (by omega), show (iter * 8 + k) % 8 = k by omega]
        apply hk
      · intro j hj hjk
        dsimp only
        rw [hbit j (by omega)]
        apply hmin (j % 8) (by omega) (by omega)

/-- The searches return the first bit with the value among the first `size` bits. -/
theorem nextBit_isFirst (value : Bool) (bitmap : Bytes) (size start : Nat) :
  IsFirst (fun i => getBit bitmap i = value) start size (nextBit value bitmap size start)
  := by
  have hbytes : size ≤ bytes size * 8 := by
    rw [bytes]
    split <;> omega
  have hloop := nextBitLoop_isFirst value bitmap (bytes size - start / 8) (start % 8)
    (start / 8) (by omega)
  rw [show start / 8 * 8 + start % 8 = start by omega] at hloop
  simp only [nextBit]
  obtain ⟨hret, hnone⟩ | ⟨i, hret, hl, hu, hi, hmin⟩ := hloop
  · left
    rw [hret, if_neg (by omega)]
    use rfl
    intro i hi hi'
    apply hnone i hi (by omega)
  · by_cases hlt : i < size
    · right
      use i
      rw [hret, if_neg (by omega)]
      use rfl, hl, hlt, hi
    · left
      rw [hret, if_pos (by omega)]
      use rfl
      intro j hj hj'
      apply hmin j hj (by omega)

/-- No more than one value is the first one. -/
theorem IsFirst.unique {p : Nat → Prop} {l u : Nat} {ret ret' : Int} (h : IsFirst p l u ret)
    (h' : IsFirst p l u ret') :
  ret = ret'
  := by
  obtain ⟨hret, hnone⟩ | ⟨i, hret, hl, hu, hi, hmin⟩ := h
  · obtain ⟨hret', -⟩ | ⟨i', -, hl', hu', hi', -⟩ := h'
    · rw [hret, hret']
    · exact absurd hi' (hnone i' hl' hu')
  · obtain ⟨-, hnone'⟩ | ⟨i', hret', hl', -, hi', hmin'⟩ := h'
    · exact absurd hi (hnone' i hl hu)
    · rw [hret, hret']
      congr 1
      by_contra hne
      obtain hlt | hlt := Nat.lt_or_gt_of_ne hne
      · exact hmin' i hl hlt hi
      · exact hmin i' hl' hlt hi'

/-- The bits that are searched decide what is the first one. -/
theorem IsFirst.congr {p p' : Nat → Prop} {l u : Nat} {ret : Int} (h : IsFirst p l u ret)
    (hp : ∀ i < u, p i ↔ p' i) :
  IsFirst p' l u ret
  := by
  obtain ⟨hret, hnone⟩ | ⟨i, hret, hl, hu, hi, hmin⟩ := h
  · left
    use hret
    intro i hl hu hi
    exact hnone i hl hu ((hp i hu).mpr hi)
  · right
    use i, hret, hl, hu, (hp i hu).mp hi
    intro j hj hji hj'
    exact hmin j hj hji ((hp j (hji.trans hu)).mpr hj')

/-- The unused bits of the last byte do not matter. -/
theorem nextBit_congr (value : Bool) {bitmap bitmap' : Bytes} {size : Nat}
    (h : ∀ i < size, getBit bitmap i = getBit bitmap' i) (start : Nat) :
  nextBit value bitmap size start = nextBit value bitmap' size start
  := by
  have hfirst := nextBit_isFirst value bitmap size start
  apply (hfirst.congr ?_).unique (nextBit_isFirst value bitmap' size start)
  intro i hi
  rw [h i hi]

/-- What the loop computes is in the range of an `int`. -/
theorem nextBitLoop_le_int32Max (value : Bool) (bitmap : Bytes) {size : Nat}
    (hsize : (size : Int) ≤ int32Max) (start : Nat) :
  nextBitLoop value bitmap (start % 8) (start / 8) (bytes size - start / 8) ≤ int32Max
  := by
  have hbytes : bytes size * 8 ≤ 2 ^ 31 := by
    rw [int32Max] at hsize
    rw [bytes]
    split <;> omega
  obtain ⟨hret, -⟩ | ⟨i, hret, hl, hu, -⟩ := nextBitLoop_isFirst value bitmap
    (bytes size - start / 8) (start % 8) (start / 8) (by omega)
  · rw [hret, int32Max]
    omega
  · rw [hret, int32Max]
    omega

/-- Whatever the bytes hold, `Bitmap::next_setted_bit` returns the first bit from `start` on that
is set and `Bitmap::next_unsetted_bit` the first one that is not, or `-1` if there is none. -/
theorem nextSettedBit_nextUnsettedBit_isFirst (bitmap : Bytes) (size start : Nat) :
  IsFirst (fun i => getBit bitmap i = true) start size (nextSettedBit bitmap size start)
    ∧ IsFirst (fun i => getBit bitmap i = false) start size (nextUnsettedBit bitmap size start)
  := ⟨nextBit_isFirst true bitmap size start, nextBit_isFirst false bitmap size start⟩

end Bitmap

end MiniOB
