import MiniOB.Lib.Memory

/-!
# Reading around a ring

The addresses below `cap` of a memory as a ring: behind the last of them comes the first one
again.
-/

namespace Ring

universe u

variable {β : Type u} {m : Nat → β} {cap off start len n : Nat} {bs : List β}

/-- Read `n` bytes from the address `start` on, around the ring. -/
def read (m : Nat → β) (cap start n : Nat) : List β :=
  (List.range n).map fun i => m ((start + i) % cap)

@[simp]
theorem length_read (m : Nat → β) (cap start n : Nat) : (read m cap start n).length = n := by
  rw [read, List.length_map, List.length_range]

/-- A read splits where its bytes do. -/
theorem read_add (m : Nat → β) (cap start n len : Nat) :
  read m cap start (n + len) = read m cap start n ++ read m cap (start + n) len
  := by
  rw [read, List.range_add, List.map_append, List.map_map, read, read]
  congr 1
  apply List.map_congr_left
  intro i _
  rw [Function.comp_apply, Nat.add_assoc]

/-- Whole turns do not matter. -/
theorem read_mod (m : Nat → β) (cap start n : Nat) :
  read m cap (start % cap) n = read m cap start n
  := by
  apply List.map_congr_left
  intro i _
  rw [Nat.mod_add_mod]

/-- Where two starts are the same place on the ring, the same is read. -/
theorem read_congr {start' : Nat} (h : start % cap = start' % cap) :
  read m cap start n = read m cap start' n
  := by
  rw [← read_mod, h, read_mod]

/-- What does not go around the ring is read as from memory. -/
theorem read_eq_memory (h : start + n ≤ cap) :
  read m cap start n = Memory.read m start n
  := by
  apply List.map_congr_left
  intro i hi
  rw [List.mem_range] at hi
  rw [Nat.mod_eq_of_lt (by omega)]

/-- What has been read lies outside of the `len` places behind it. -/
theorem outside_of_lt {i : Nat} (hoff : off = (start + n) % cap) (hfits : off + len ≤ cap)
    (hroom : n + len ≤ cap) (hi : i < n) :
  (start + i) % cap < off ∨ off + len ≤ (start + i) % cap
  := by
  by_contra hinside
  rw [not_or, not_lt, not_le] at hinside
  obtain ⟨j, hj⟩ := Nat.exists_eq_add_of_le hinside.1
  -- both places are less than a turn apart, and the same
  have hsame : (start + i) % cap = (start + (n + j)) % cap := by
    rw [← Nat.add_assoc, Nat.add_mod (start + n), ← hoff, hj, Nat.add_mod_mod, Nat.mod_eq_of_lt]
    omega
  have hdvd : cap ∣ start + (n + j) - (start + i) :=
    (Nat.modEq_iff_dvd' (by omega)).mp hsame
  have hle := Nat.le_of_dvd (by omega) hdvd
  omega

/-- The bytes that are written behind what has been read follow it. -/
theorem read_write (hoff : off = (start + n) % cap) (hfits : off + bs.length ≤ cap)
    (hroom : n + bs.length ≤ cap) :
  read (Memory.write m off bs) cap start (n + bs.length) = read m cap start n ++ bs
  := by
  have hfront : read (Memory.write m off bs) cap start n = read m cap start n := by
    apply List.map_congr_left
    intro i hi
    rw [List.mem_range] at hi
    have hplace : (start + i) % cap < off ∨ off + bs.length ≤ (start + i) % cap :=
      outside_of_lt hoff hfits hroom hi
    obtain hlt | hge := hplace
    · exact Memory.write_lt hlt
    · exact Memory.write_ge hge
  have hback : read (Memory.write m off bs) cap (start + n) bs.length = bs := by
    rw [← read_mod, ← hoff, read_eq_memory hfits, Memory.read_write]
  rw [read_add, hfront, hback]

end Ring
