import Mathlib

/-!
# Sorted lists

In a list that is sorted along a predicate, the elements with the predicate come first. Taking
them from the front, or dropping them there, is then to filter them.
-/

namespace Sorted

variable {α β γ : Type} {p : α → Bool} {l : List α}

theorem takeWhile_eq_filter (h : l.Pairwise fun a b => p b → p a) :
  l.takeWhile p = l.filter p
  := by
  induction l with
  | nil => rfl
  | cons a l ih =>
    obtain ⟨hhead, htail⟩ := List.pairwise_cons.mp h
    by_cases ha : p a
    · rw [List.takeWhile_cons_of_pos ha, List.filter_cons_of_pos ha, ih htail]
    · rw [List.takeWhile_cons_of_neg ha, eq_comm, List.filter_eq_nil_iff]
      rintro b (_ | ⟨_, hmem⟩) hb
      · exact ha hb
      · exact ha (hhead b hmem hb)

theorem dropWhile_eq_filter (h : l.Pairwise fun a b => p b → p a) :
  l.dropWhile p = l.filter fun a => !p a
  := by
  induction l with
  | nil => rfl
  | cons a l ih =>
    obtain ⟨hhead, htail⟩ := List.pairwise_cons.mp h
    by_cases ha : p a
    · rw [List.dropWhile_cons_of_pos ha, List.filter_cons_of_neg (by simpa), ih htail]
    · rw [List.dropWhile_cons_of_neg ha, eq_comm, List.filter_eq_self]
      rintro b (_ | ⟨_, hmem⟩)
      · simpa using ha
      · have hb : ¬ p b := fun hb => ha (hhead b hmem hb)
        simpa using hb

/-- The pairs of two lists come to the same, whichever list the outer loop goes through. -/
theorem flatMap_flatMap_perm (l : List α) (l' : List β) (f : α → β → List γ) :
  (l'.flatMap fun b => l.flatMap fun a => f a b).Perm (l.flatMap fun a => l'.flatMap fun b => f a b)
  := by
  induction l with
  | nil => simp
  | cons a l ih =>
    have hsplit := List.flatMap_append_perm l' (fun b => f a b) fun b => l.flatMap fun a => f a b
    rw [List.flatMap_cons]
    simp only [List.flatMap_cons]
    exact hsplit.symm.trans (ih.append_left _)

/-- The elements that are kept, as a loop over all. -/
theorem map_filter_eq_flatMap (f : α → β) :
  (l.filter p).map f = l.flatMap fun a => if p a then [f a] else []
  := by
  induction l with
  | nil => rfl
  | cons a l ih =>
    rw [List.flatMap_cons, ← ih]
    by_cases ha : p a <;> simp [ha]

end Sorted
