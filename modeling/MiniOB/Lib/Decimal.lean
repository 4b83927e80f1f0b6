import Mathlib

/-!
# Decimal numbers

The decimal digits of a number as bytes, and the number that such digits denote.
-/

namespace Decimal

/-- The byte is a digit. -/
def isDigit (b : BitVec 8) : Bool := 48 ≤ b ∧ b ≤ 57

/-- The digits of a number. -/
def digits (n : Nat) : List (BitVec 8) :=
  (Nat.toDigits 10 n).map fun c => BitVec.ofNat 8 c.toNat

/-- The number that digits denote, after a number that the digits before them denote. -/
def valueFrom (n : Nat) (s : List (BitVec 8)) : Nat :=
  s.foldl (fun n b => n * 10 + (b.toNat - 48)) n

/-- The number that digits denote. -/
def value (s : List (BitVec 8)) : Nat := valueFrom 0 s

variable {n m : Nat} {s t : List (BitVec 8)}

theorem valueFrom_append :
  valueFrom n (s ++ t) = valueFrom (valueFrom n s) t
  := by
  apply List.foldl_append

theorem value_replicate_append {k : Nat} :
  value (List.replicate k 48 ++ s) = value s
  := by
  induction k with
  | zero => rfl
  | succ k ih =>
    rw [List.replicate_succ]
    apply ih

theorem isDigit_ofNat {c : Char} (h : c.isDigit) :
  isDigit (BitVec.ofNat 8 c.toNat) ∧ (BitVec.ofNat 8 c.toNat).toNat = c.toNat
  := by
  have hc : 48 ≤ c.toNat ∧ c.toNat ≤ 57 := by
    simpa [Char.isDigit, UInt32.le_iff_toNat_le] using h
  have hto : (BitVec.ofNat 8 c.toNat).toNat = c.toNat := by
    rw [BitVec.toNat_ofNat, Nat.mod_eq_of_lt (by omega)]
  constructor
  · simp only [isDigit, BitVec.le_def, hto, decide_eq_true_eq]
    exact hc
  · exact hto

theorem isDigit_of_mem_digits : ∀ b ∈ digits n, isDigit b := by
  intro b hb
  obtain ⟨c, hc, rfl⟩ := List.mem_map.mp hb
  apply (isDigit_ofNat (Nat.isDigit_of_mem_toDigits (by decide) (by decide) hc)).1

theorem digits_ne_nil :
  digits n ≠ []
  := by
  intro h
  apply Nat.toDigits_ne_nil (List.map_eq_nil_iff.mp h)

/-- The digits of a number denote it. -/
theorem value_digits :
  value (digits n) = n
  := by
  have hfold : ∀ (l : List Char) (k : Nat), (∀ c ∈ l, c.isDigit) →
      valueFrom k (l.map fun c => BitVec.ofNat 8 c.toNat) = Nat.ofDigitChars 10 l k := by
    intro l
    induction l with
    | nil =>
      intro k _
      rw [Nat.ofDigitChars_nil]
      rfl
    | cons c l ih =>
      intro k h
      have hc := (isDigit_ofNat (h c List.mem_cons_self)).2
      rw [Nat.ofDigitChars_cons, ← ih _ fun d hd => h d (List.mem_cons_of_mem c hd)]
      rw [List.map_cons, valueFrom, List.foldl_cons, hc, Nat.mul_comm k 10]
      rfl
  have h := hfold (Nat.toDigits 10 n) 0 fun c hc =>
    Nat.isDigit_of_mem_toDigits (by decide) (by decide) hc
  rw [Nat.ofDigitChars_ten_toDigits] at h
  exact h

theorem length_digits_le_iff {k : Nat} (h : 0 < k) :
  (digits n).length ≤ k ↔ n < 10 ^ k
  := by
  rw [digits, List.length_map]
  apply Nat.length_toDigits_le_iff (by decide) h

/-- The digits end where something else begins. -/
theorem takeWhile_append (hs : ∀ b ∈ s, isDigit b) (ht : ∀ b ∈ t.head?, ¬ isDigit b) :
  (s ++ t).takeWhile isDigit = s ∧ (s ++ t).dropWhile isDigit = t
  := by
  rw [List.takeWhile_append_of_pos hs, List.dropWhile_append_of_pos hs]
  cases t with
  | nil => exact ⟨by rw [List.takeWhile_nil, List.append_nil], rfl⟩
  | cons b t =>
    have hb := ht b rfl
    rw [List.takeWhile_cons_of_neg hb, List.dropWhile_cons_of_neg hb, List.append_nil]
    exact ⟨rfl, rfl⟩

end Decimal
