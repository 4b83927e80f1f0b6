import Mathlib

/-!
# Memory

Memory as a function from addresses to bytes. A list of bytes is written to the addresses from
a given one on and read back from there.
-/

namespace Memory

universe u

variable {β : Type u} {m : Nat → β} {off len i : Nat} {bs : List β}

/-- Write the bytes `bs` to the addresses from `off` on. -/
def write (m : Nat → β) (off : Nat) (bs : List β) : Nat → β :=
  fun i => if i < off then m i else (bs[i - off]?).getD (m i)

/-- Read `len` bytes from the address `off` on. -/
def read (m : Nat → β) (off len : Nat) : List β := (List.range len).map fun i => m (off + i)

@[simp]
theorem length_read (m : Nat → β) (off len : Nat) : (read m off len).length = len := by
  rw [read, List.length_map, List.length_range]

theorem getElem_read (hi : i < (read m off len).length) : (read m off len)[i] = m (off + i) := by
  simp only [read, List.getElem_map, List.getElem_range]

theorem read_congr {m' : Nat → β} (h : ∀ i < len, m (off + i) = m' (off + i)) :
  read m off len = read m' off len
  := by
  apply List.map_congr_left
  intro i hi
  apply h i (List.mem_range.mp hi)

theorem write_lt (hi : i < off) : write m off bs i = m i := if_pos hi

theorem write_ge (hi : off + bs.length ≤ i) : write m off bs i = m i := by
  rw [write, if_neg (by omega), List.getElem?_eq_none (by omega), Option.getD_none]

theorem write_add (hi : i < bs.length) : write m off bs (off + i) = bs[i] := by
  rw [write, if_neg (by omega), Nat.add_sub_cancel_left, List.getElem?_eq_getElem hi,
    Option.getD_some]

/-- The bytes that are found one by one are read. -/
theorem read_eq (h : ∀ i (hi : i < bs.length), m (off + i) = bs[i]) :
  read m off bs.length = bs
  := by
  apply List.ext_getElem
  · apply length_read
  · intro i _ hi
    rw [getElem_read, h i hi]

/-- What has been written is read back. -/
theorem read_write (m : Nat → β) (off : Nat) (bs : List β) :
  read (write m off bs) off bs.length = bs
  := read_eq fun _ hi => write_add hi

/-- A read splits where its bytes do. -/
theorem read_add (m : Nat → β) (off len len' : Nat) :
  read m off (len + len') = read m off len ++ read m (off + len) len'
  := by
  rw [read, List.range_add, List.map_append, List.map_map, read, read]
  congr 1
  apply List.map_congr_left
  intro i _
  rw [Function.comp_apply, Nat.add_assoc]

/-- A byte of the memory after a write is one that was written or was there before. -/
theorem write_cases (m : Nat → β) (off : Nat) (bs : List β) (i : Nat) :
  write m off bs i = m i ∨ write m off bs i ∈ bs
  := by
  obtain hlt | hle := Nat.lt_or_ge i off
  · exact .inl (write_lt hlt)
  obtain hin | hout := Nat.lt_or_ge i (off + bs.length)
  · right
    obtain ⟨j, rfl⟩ := Nat.exists_eq_add_of_le hle
    rw [write_add (by omega)]
    apply List.getElem_mem
  · exact .inl (write_ge hout)

end Memory
