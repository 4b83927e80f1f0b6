import Mathlib

/-!
# Binary search

The lower bound of a value in a sorted list, found by bisection: the position at which the
value stands, or at which it would have to be inserted, and whether it is there.
-/

namespace LowerBound

variable {α : Type} [LinearOrder α]

/-- The loop of the search: `count` elements from position `first` on are left. -/
def loop (xs : List α) (val : α) : (fuel first count : Nat) → Nat × Bool
  | 0, first, _ => (first, false)
  | fuel + 1, first, count =>
    if count = 0 then (first, false)
    else
      match xs[first + count / 2]? with
      | none => (first, false)
      | some x =>
        match cmp x val with
        | .eq => (first + count / 2, true)
        | .lt => loop xs val fuel (first + count / 2 + 1) (count - (count / 2 + 1))
        | .gt => loop xs val fuel first (count / 2)

/-- The lower bound of a value, and whether the value is in the list. -/
def lowerBound (xs : List α) (val : α) : Nat × Bool := loop xs val xs.length 0 xs.length

section Spec

variable {A B : List α} {val : α}

omit [LinearOrder α] in
/-- The middle element of the part that is left exists. -/
theorem exists_middle {xs : List α} {first count : Nat} (hcount : count ≠ 0)
    (hlen : first + count ≤ xs.length) :
  ∃ x, xs[first + count / 2]? = some x
  := by
  have hmid : first + count / 2 < xs.length := by omega
  exact ⟨_, List.getElem?_eq_getElem hmid⟩

theorem loop_absent (hA : ∀ a ∈ A, a < val) (hB : ∀ b ∈ B, val < b) :
    ∀ fuel first count, count ≤ fuel → first ≤ A.length → A.length ≤ first + count →
      first + count ≤ (A ++ B).length →
      loop (A ++ B) val fuel first count = (A.length, false) := by
  intro fuel
  induction fuel with
  | zero =>
    intro first count hfuel hl hu _
    have hfirst : first = A.length := by omega
    rw [loop, hfirst]
  | succ fuel ih =>
    intro first count hfuel hl hu hlen
    rw [loop]
    split
    · have hfirst : first = A.length := by omega
      rw [hfirst]
    · rename_i hcount
      obtain ⟨x, hx⟩ := exists_middle hcount hlen
      simp only [hx]
      by_cases hleft : first + count / 2 < A.length
      · rw [List.getElem?_append_left hleft] at hx
        simp only [(hA x (List.mem_of_getElem? hx)).cmp_eq_lt]
        apply ih <;> omega
      · rw [List.getElem?_append_right (by omega)] at hx
        simp only [(hB x (List.mem_of_getElem? hx)).cmp_eq_gt]
        apply ih <;> omega

theorem loop_present (hA : ∀ a ∈ A, a < val) (hB : ∀ b ∈ B, val < b) :
    ∀ fuel first count, count ≤ fuel → first ≤ A.length → A.length < first + count →
      first + count ≤ (A ++ val :: B).length →
      loop (A ++ val :: B) val fuel first count = (A.length, true) := by
  intro fuel
  induction fuel with
  | zero =>
    intro first count hfuel hl hu _
    omega
  | succ fuel ih =>
    intro first count hfuel hl hu hlen
    have hcount : count ≠ 0 := by omega
    obtain ⟨x, hx⟩ := exists_middle hcount hlen
    simp only [loop, if_neg hcount, hx]
    obtain hleft | hmid | hright := Nat.lt_trichotomy (first + count / 2) A.length
    · rw [List.getElem?_append_left hleft] at hx
      simp only [(hA x (List.mem_of_getElem? hx)).cmp_eq_lt]
      apply ih <;> omega
    · rw [hmid] at hx ⊢
      rw [List.getElem?_append_right (Nat.le_refl _)] at hx
      simp only [Nat.sub_self, List.getElem?_cons_zero, Option.some.injEq] at hx
      simp only [← hx, cmp_self_eq_eq]
    · obtain ⟨i, hi⟩ : ∃ i, first + count / 2 - A.length = i + 1 :=
        Nat.exists_eq_add_one.mpr (by omega)
      rw [List.getElem?_append_right (by omega), hi, List.getElem?_cons_succ] at hx
      simp only [(hB x (List.mem_of_getElem? hx)).cmp_eq_gt]
      apply ih <;> omega

/-- The search for a value that is absent finds the place between the smaller and the
larger elements. -/
theorem lowerBound_absent (hA : ∀ a ∈ A, a < val) (hB : ∀ b ∈ B, val < b) :
  lowerBound (A ++ B) val = (A.length, false)
  := by
  rw [lowerBound, loop_absent hA hB] <;> simp

/-- The search for a value that is present finds it. -/
theorem lowerBound_present (hA : ∀ a ∈ A, a < val) (hB : ∀ b ∈ B, val < b) :
  lowerBound (A ++ val :: B) val = (A.length, true)
  := by
  rw [lowerBound, loop_present hA hB] <;> simp

/-- A value is found within the list. -/
theorem loop_found {xs : List α} {fuel first count : Nat}
    (h : (loop xs val fuel first count).2 = true) :
  (loop xs val fuel first count).1 < xs.length
  := by
  induction fuel generalizing first count with
  | zero => contradiction
  | succ fuel ih =>
    rw [loop] at h ⊢
    split_ifs at h ⊢ with hcount
    cases hmid : xs[first + count / 2]? with
    | none =>
      rw [hmid] at h
      contradiction
    | some x =>
      rw [hmid] at h
      dsimp only at h ⊢
      cases hcmp : cmp x val with
      | eq => apply (List.getElem?_eq_some_iff.mp hmid).1
      | lt =>
        rw [hcmp] at h
        apply ih h
      | gt =>
        rw [hcmp] at h
        apply ih h

theorem lowerBound_found {xs : List α} (h : (lowerBound xs val).2 = true) :
  (lowerBound xs val).1 < xs.length
  := loop_found h

end Spec

end LowerBound
