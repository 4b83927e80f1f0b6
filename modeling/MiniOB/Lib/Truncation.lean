import Mathlib

/-!
# Truncated bounds

Lists in lexicographic order are compared with a bound that is longer than they can be. An
upper bound may be cut off; a lower bound may be cut off if its last element is replaced by the
next one. Where there is no next one and the last element is dropped instead, the lists with
the rest of the bound as a prefix get above it.
-/

namespace Truncation

variable {α : Type} [LinearOrder α] {s t p rest : List α} {x y b next : α} {n : Nat}

theorem cons_le_cons_iff : x :: s ≤ y :: t ↔ x < y ∨ x = y ∧ s ≤ t := by
  rw [← not_lt, List.cons_lt_cons_iff, ← not_lt]
  constructor
  · intro hnot
    obtain hlt | heq | hgt := lt_trichotomy x y
    · exact .inl hlt
    · exact .inr ⟨heq, fun hlt => hnot (.inr ⟨heq.symm, hlt⟩)⟩
    · exact absurd (.inl hgt) hnot
  · rintro (hlt | ⟨rfl, hle⟩) (hgt | ⟨heq, hlt'⟩)
    · exact lt_asymm hlt hgt
    · exact hlt.ne' heq
    · exact lt_irrefl _ hgt
    · exact hle hlt'

theorem nil_le : [] ≤ s := not_lt.mp (List.not_lt_nil s)

theorem not_cons_le_nil : ¬ x :: s ≤ [] := not_le.mpr (List.nil_lt_cons x s)

/-- An upper bound may be cut off. -/
theorem lt_iff_le_take (hs : s.length ≤ n) (ht : n < t.length) : s < t ↔ s ≤ t.take n := by
  induction n generalizing s t with
  | zero =>
    obtain rfl := List.eq_nil_of_length_eq_zero (Nat.le_zero.mp hs)
    obtain ⟨y, t, rfl⟩ := List.exists_cons_of_length_pos ht
    exact iff_of_true (List.nil_lt_cons y t) nil_le
  | succ n ih =>
    obtain ⟨y, t, rfl⟩ := List.exists_cons_of_length_pos (Nat.zero_lt_of_lt ht)
    cases s with
    | nil => exact iff_of_true (List.nil_lt_cons y t) nil_le
    | cons x s =>
      rw [List.take_succ_cons, List.cons_lt_cons_iff, cons_le_cons_iff,
        ih (Nat.le_of_succ_le_succ hs) (Nat.lt_of_succ_lt_succ ht)]

/-- A lower bound may be cut off if its last element is replaced by the next one. -/
theorem lt_iff_next_le (hnext : ∀ x, b < x ↔ next ≤ x) (hs : s.length ≤ p.length + 1) :
  p ++ b :: rest < s ↔ p ++ [next] ≤ s
  := by
  induction p generalizing s with
  | nil =>
    cases s with
    | nil => exact iff_of_false (List.not_lt_nil _) not_cons_le_nil
    | cons x s =>
      obtain rfl := List.eq_nil_of_length_eq_zero (Nat.le_zero.mp (Nat.le_of_succ_le_succ hs))
      rw [List.nil_append, List.nil_append, List.cons_lt_cons_iff, cons_le_cons_iff, hnext,
        le_iff_lt_or_eq]
      simp
  | cons y p ih =>
    cases s with
    | nil => exact iff_of_false (List.not_lt_nil _) not_cons_le_nil
    | cons x s =>
      rw [List.cons_append, List.cons_append, List.cons_lt_cons_iff, cons_le_cons_iff,
        ih (Nat.le_of_succ_le_succ hs)]

/-- A list that starts with a prefix of a bound and goes on below it. -/
theorem lt_of_prefix (hb : ∀ x, x ≤ b) (hrest : rest ≠ []) (hs : s.length ≤ p.length + 1)
    (hstart : p <+: s) :
  s < p ++ b :: rest
  := by
  obtain ⟨r, rfl⟩ := hstart
  rw [List.length_append] at hs
  induction p with
  | nil =>
    cases r with
    | nil => exact List.nil_lt_cons b rest
    | cons x r =>
      obtain rfl : r = [] := List.eq_nil_of_length_eq_zero (by
        rw [List.length_cons] at hs
        omega)
      rw [List.nil_append, List.nil_append, List.cons_lt_cons_iff]
      obtain ⟨y, rest, rfl⟩ := List.exists_cons_of_ne_nil hrest
      obtain hlt | heq := lt_or_eq_of_le (hb x)
      · exact .inl hlt
      · exact .inr ⟨heq, List.nil_lt_cons y rest⟩
  | cons y p ih =>
    rw [List.length_cons] at hs
    rw [List.cons_append, List.cons_append, List.cons_lt_cons_iff]
    exact .inr ⟨rfl, ih (by omega)⟩

/-- What gets above a lower bound when its last element is dropped. -/
theorem le_iff_lt_or_prefix (hs : s.length ≤ p.length + 1) :
  p ≤ s ↔ p ++ b :: rest < s ∨ p <+: s
  := by
  induction p generalizing s with
  | nil => exact iff_of_true nil_le (.inr List.nil_prefix)
  | cons y p ih =>
    cases s with
    | nil =>
      apply iff_of_false not_cons_le_nil
      rintro (hlt | hstart)
      · exact List.not_lt_nil _ hlt
      · exact absurd (List.prefix_nil.mp hstart) (List.cons_ne_nil y p)
    | cons x s =>
      rw [cons_le_cons_iff, ih (Nat.le_of_succ_le_succ hs), List.cons_append,
        List.cons_lt_cons_iff, List.cons_prefix_cons]
      tauto

end Truncation
