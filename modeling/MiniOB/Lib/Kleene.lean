import Mathlib

/-!
# Kleene's three-valued logic

A proposition is false, unknown or true, in this order: a conjunction is the least of its
members, a disjunction the greatest, and a negation swaps true and false. Neither depends on
the order of the members.
-/

namespace Kleene

/-- What is known of a proposition. -/
inductive Truth where
  | false
  | unknown
  | true
  deriving DecidableEq, Repr

namespace Truth

/-- The place of a truth in the order. -/
def rank : Truth → Nat
  | false => 0
  | unknown => 1
  | true => 2

theorem rank_injective : Function.Injective rank := by
  intro a b h
  cases a <;> cases b <;> first | rfl | cases h

instance : LinearOrder Truth := LinearOrder.lift' rank rank_injective

/-- What is known of a proposition that is decided, or not. -/
def ofOption : Option Bool → Truth
  | none => unknown
  | some Bool.false => false
  | some Bool.true => true

/-- The truth of a decided proposition. -/
def ofBool (b : Bool) : Truth := ofOption (some b)

/-- The negation. -/
def neg : Truth → Truth
  | false => true
  | unknown => unknown
  | true => false

/-- The least of the truths, and `true` if there are none. -/
def conjunction (truths : List Truth) : Truth := truths.foldr min true

/-- The greatest of the truths, and `false` if there are none. -/
def disjunction (truths : List Truth) : Truth := truths.foldr max false

variable {t u v : Truth} {truths truths' : List Truth}

@[simp] theorem conjunction_nil : conjunction [] = true := rfl

@[simp] theorem conjunction_cons :
  conjunction (t :: truths) = min t (conjunction truths)
  := rfl

@[simp] theorem disjunction_nil : disjunction [] = false := rfl

@[simp] theorem disjunction_cons :
  disjunction (t :: truths) = max t (disjunction truths)
  := rfl

theorem ofOption_eq_unknown {decided : Option Bool} :
  ofOption decided = unknown ↔ decided = none
  := by
  obtain _ | _ | _ := decided <;> decide

/-! ### The least and the greatest truth -/

theorem false_le : false ≤ t := by cases t <;> decide

theorem le_true : t ≤ true := by cases t <;> decide

@[simp] theorem min_false : min t false = false := min_eq_right false_le

@[simp] theorem false_min : min false t = false := min_eq_left false_le

@[simp] theorem true_min : min true t = t := min_eq_right le_true

@[simp] theorem max_true : max t true = true := max_eq_right le_true

@[simp] theorem true_max : max true t = true := max_eq_left le_true

@[simp] theorem false_max : max false t = t := max_eq_right false_le

@[simp] theorem min_eq_true : min t u = true ↔ t = true ∧ u = true := by
  cases t <;> cases u <;> decide

theorem max_eq_true : max t u = true ↔ t = true ∨ u = true := by
  cases t <;> cases u <;> decide

theorem max_eq_false : max t u = false ↔ t = false ∧ u = false := by
  cases t <;> cases u <;> decide

/-! ### The members of a disjunction -/

theorem disjunction_eq_true :
  disjunction truths = true ↔ true ∈ truths
  := by
  induction truths with
  | nil => exact iff_of_false (by decide) List.not_mem_nil
  | cons t truths ih => rw [disjunction_cons, max_eq_true, ih, List.mem_cons, eq_comm]

theorem disjunction_eq_false :
  disjunction truths = false ↔ ∀ t ∈ truths, t = false
  := by
  induction truths with
  | nil => exact iff_of_true rfl (by simp)
  | cons t truths ih => rw [disjunction_cons, max_eq_false, ih, List.forall_mem_cons]

/-! ### The order of the members -/

theorem conjunction_perm (h : truths.Perm truths') :
  conjunction truths = conjunction truths'
  := h.foldr_eq true

theorem disjunction_perm (h : truths.Perm truths') :
  disjunction truths = disjunction truths'
  := h.foldr_eq false

end Truth

end Kleene
