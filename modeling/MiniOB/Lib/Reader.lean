import Mathlib

/-!
# Readers

A reader takes a value off the front of a list of bytes, or fails. It reads certain bytes as a
value when it takes them, whatever follows, and fails early where some of them are missing.
Readers that are put one behind the other read the bytes of both. A reader that is called
until nothing is left reads a sequence of values, and where the bytes end too soon it reads
those before the cut one.
-/

namespace Reader

universe u

variable {ε β : Type} {α α' : Type} {Early : ε → Prop}

/-- A reader takes the bytes `front` for the value `a`, and fails early where they end too
soon. -/
structure Reads (Early : ε → Prop) (reader : List β → Except ε (α × List β)) (front : List β)
    (a : α) : Prop where
  whole : ∀ rest, reader (front ++ rest) = .ok (a, rest)
  cut : ∀ k < front.length, ∃ e, Early e ∧ reader (front.take k) = .error e

variable {reader : List β → Except ε (α × List β)} {front front' : List β} {a : α} {a' : α'}

/-- A reader that takes nothing. -/
theorem reads_pure (a : α) : Reads Early (fun bytes : List β => pure (a, bytes)) [] a :=
  ⟨fun _ => rfl, fun _ hk => absurd hk (Nat.not_lt_zero _)⟩

/-- A reader, and another one behind it. -/
theorem Reads.bind {next : α × List β → Except ε (α' × List β)} (h : Reads Early reader front a)
    (h' : Reads Early (fun bytes => next (a, bytes)) front' a') :
  Reads Early (fun bytes => reader bytes >>= next) (front ++ front') a'
  := by
  have hok : ∀ x : α × List β, (Except.ok x >>= next) = next x := fun _ => rfl
  refine ⟨?_, ?_⟩
  · intro rest
    rw [List.append_assoc, h.whole, hok]
    exact h'.whole rest
  · intro k hk
    rw [List.length_append] at hk
    obtain hlt | hge := Nat.lt_or_ge k front.length
    · obtain ⟨e, hearly, he⟩ := h.cut k hlt
      refine ⟨e, hearly, ?_⟩
      rw [List.take_append_of_le_length (Nat.le_of_lt hlt), he]
      rfl
    · obtain ⟨e, hearly, he⟩ := h'.cut (k - front.length) (by omega)
      refine ⟨e, hearly, ?_⟩
      rw [List.take_append, List.take_of_length_le hge, h.whole, hok]
      exact he

/-- A reader, and what is made of its value. -/
theorem Reads.map {make : α × List β → Except ε (α' × List β)} (h : Reads Early reader front a)
    (hmake : ∀ rest, make (a, rest) = .ok (a', rest)) :
  Reads Early (fun bytes => reader bytes >>= make) front a'
  := by
  have hnothing : Reads Early (fun bytes => make (a, bytes)) [] a' :=
    ⟨hmake, fun _ hk => absurd hk (Nat.not_lt_zero _)⟩
  have hboth := h.bind hnothing
  rw [List.append_nil] at hboth
  exact hboth

/-! ### Reading until nothing is left -/

/-- Call a reader until nothing is left or it fails: the values that it has read, and its
error. -/
def many (reader : List β → Except ε (α × List β)) : Nat → List β → Option (List α × Option ε)
  | _, [] => some ([], none)
  | 0, _ :: _ => none
  | fuel + 1, byte :: bytes =>
    match reader (byte :: bytes) with
    | .error e => some ([], some e)
    | .ok (a, rest) => (many reader fuel rest).map fun result => (a :: result.1, result.2)

theorem many_nil (fuel : Nat) : many reader fuel [] = some ([], none) := by
  cases fuel <;> rfl

theorem many_error {fuel : Nat} {bytes : List β} {e : ε} (hne : bytes ≠ [])
    (h : reader bytes = .error e) :
  many reader (fuel + 1) bytes = some ([], some e)
  := by
  obtain ⟨byte, bytes, rfl⟩ := List.exists_cons_of_ne_nil hne
  rw [many, h]

theorem Reads.many_append (h : Reads Early reader front a) (hne : front ≠ []) (fuel : Nat)
    (rest : List β) :
  many reader (fuel + 1) (front ++ rest)
    = (many reader fuel rest).map fun result => (a :: result.1, result.2)
  := by
  obtain ⟨byte, front, rfl⟩ := List.exists_cons_of_ne_nil hne
  have hread := h.whole rest
  rw [List.cons_append] at hread ⊢
  rw [many, hread]

section Sequence

variable {γ : Type} {write : γ → List β} {value : γ → α}

/-- What has been written one behind the other is read back. -/
theorem many_flatMap {xs : List γ} {fuel : Nat}
    (h : ∀ x ∈ xs, Reads Early reader (write x) (value x)) (hne : ∀ x ∈ xs, write x ≠ [])
    (hfuel : (xs.flatMap write).length ≤ fuel) :
  many reader fuel (xs.flatMap write) = some (xs.map value, none)
  := by
  induction xs generalizing fuel with
  | nil => exact many_nil fuel
  | cons x xs ih =>
    rw [List.flatMap_cons, List.length_append] at hfuel
    have hpos := List.length_pos_of_ne_nil (hne x List.mem_cons_self)
    obtain ⟨fuel, rfl⟩ : ∃ n, fuel = n + 1 := ⟨fuel - 1, by omega⟩
    have hlen : (xs.flatMap write).length ≤ fuel := by omega
    have hrest := ih (fun y hy => h y (List.mem_cons_of_mem x hy))
      (fun y hy => hne y (List.mem_cons_of_mem x hy)) hlen
    rw [List.flatMap_cons, (h x List.mem_cons_self).many_append (hne x List.mem_cons_self), hrest]
    rfl

/-- Where the bytes are cut, the values before the cut are read, and then the reader stops if
the cut is between two values and fails early if it is within one. -/
theorem many_take {xs : List γ} {fuel k : Nat}
    (h : ∀ x ∈ xs, Reads Early reader (write x) (value x)) (hne : ∀ x ∈ xs, write x ≠ [])
    (hfuel : k ≤ fuel) (hk : k < (xs.flatMap write).length) :
  ∃ front x back, xs = front ++ x :: back ∧ (front.flatMap write).length ≤ k ∧
    k < ((front ++ [x]).flatMap write).length ∧
    (k = (front.flatMap write).length →
      many reader fuel ((xs.flatMap write).take k) = some (front.map value, none)) ∧
    (k ≠ (front.flatMap write).length → ∃ e, Early e ∧
      many reader fuel ((xs.flatMap write).take k) = some (front.map value, some e))
  := by
  induction xs generalizing fuel k with
  | nil => exact absurd hk (Nat.not_lt_zero k)
  | cons x xs ih =>
    have hread := h x List.mem_cons_self
    have hpos := List.length_pos_of_ne_nil (hne x List.mem_cons_self)
    rw [List.flatMap_cons, List.length_append] at hk
    obtain hlt | hge := Nat.lt_or_ge k (write x).length
    · refine ⟨[], x, xs, rfl, Nat.zero_le k, by simpa using hlt, ?_, ?_⟩
      · rintro rfl
        exact many_nil fuel
      · intro hne0
        have hpos' : k ≠ 0 := hne0
        obtain ⟨fuel, rfl⟩ : ∃ n, fuel = n + 1 := ⟨fuel - 1, by omega⟩
        obtain ⟨e, hearly, he⟩ := hread.cut k hlt
        have htake : ((x :: xs).flatMap write).take k = (write x).take k := by
          rw [List.flatMap_cons, List.take_append_of_le_length (Nat.le_of_lt hlt)]
        have hne' : (write x).take k ≠ [] := by
          apply List.ne_nil_of_length_pos
          rw [List.length_take]
          omega
        exact ⟨e, hearly, by rw [htake, many_error hne' he]; rfl⟩
    · obtain ⟨fuel, rfl⟩ : ∃ n, fuel = n + 1 := ⟨fuel - 1, by omega⟩
      have hfuel' : k - (write x).length ≤ fuel := by omega
      obtain ⟨front, y, back, hxs, hle, hlt, hbetween, hwithin⟩ :=
        ih (fun y hy => h y (List.mem_cons_of_mem x hy))
          (fun y hy => hne y (List.mem_cons_of_mem x hy)) hfuel' (by omega)
      have htake : ((x :: xs).flatMap write).take k
          = write x ++ (xs.flatMap write).take (k - (write x).length) := by
        rw [List.flatMap_cons, List.take_append, List.take_of_length_le hge]
      have hmany := hread.many_append (hne x List.mem_cons_self) fuel
        ((xs.flatMap write).take (k - (write x).length))
      have hlen : ((x :: front).flatMap write).length
          = (write x).length + (front.flatMap write).length := by
        rw [List.flatMap_cons, List.length_append]
      refine ⟨x :: front, y, back, by rw [hxs]; rfl, by omega, ?_, ?_, ?_⟩
      · rw [List.cons_append, List.flatMap_cons, List.length_append]
        omega
      · intro heq
        rw [htake, hmany, hbetween (by omega)]
        rfl
      · intro hdiff
        obtain ⟨e, hearly, he⟩ := hwithin (by omega)
        exact ⟨e, hearly, by rw [htake, hmany, he]; rfl⟩

end Sequence

end Reader
