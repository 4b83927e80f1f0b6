import Mathlib

/-!
# Loops that use up their items

A turn of such a loop succeeds on an item that is due, and the item is never due again. So the
loop succeeds exactly when no item stands in the list twice, provided that the turns before an
item leave it due.
-/

namespace Consuming

variable {σ α ε : Type} {Good : σ → Prop} {step : σ → α → Except ε σ} {Due : σ → α → Prop}
  {Before : α → α → Prop}

/-- The turns `step` use up the items that are due; an item that may stand before another one
leaves that one due. The states of the loop are `Good`. -/
structure UsesUp (Good : σ → Prop) (step : σ → α → Except ε σ) (Due : σ → α → Prop)
    (Before : α → α → Prop) : Prop where
  good : ∀ {s a s'}, Good s → step s a = .ok s' → Good s'
  returns : ∀ {s a}, Good s → Due s a → ∃ s', step s a = .ok s'
  due : ∀ {s a s'}, Good s → step s a = .ok s' → Due s a
  used : ∀ {s a s'}, Good s → step s a = .ok s' → ¬ Due s' a
  never : ∀ {s a s' b}, Good s → step s a = .ok s' → Due s' b → Due s b
  keeps : ∀ {s a s' b}, Good s → step s a = .ok s' → a ≠ b → Before a b → Due s b → Due s' b

variable (h : UsesUp Good step Due Before) {l : List α} {s s' : σ}
include h

/-- The items of a loop that succeeds were all due at its beginning. -/
theorem UsesUp.due_of_ok (hgood : Good s) (hloop : l.foldlM step s = .ok s') :
  ∀ a ∈ l, Due s a
  := by
  induction l generalizing s with
  | nil => simp
  | cons b l ih =>
    rw [List.foldlM_cons] at hloop
    cases hstep : step s b with
    | error failure =>
      rw [hstep] at hloop
      cases hloop
    | ok s₁ =>
      rw [hstep] at hloop
      intro a ha
      obtain rfl | ha := List.mem_cons.mp ha
      · exact h.due hgood hstep
      · exact h.never hgood hstep (ih (h.good hgood hstep) hloop a ha)

theorem UsesUp.foldlM_iff (hgood : Good s) (hdue : ∀ a ∈ l, Due s a) (hbefore : l.Pairwise Before) :
  (∃ s', l.foldlM step s = .ok s') ↔ l.Nodup
  := by
  induction l generalizing s with
  | nil => exact iff_of_true ⟨s, rfl⟩ List.nodup_nil
  | cons a l ih =>
    obtain ⟨s₁, hstep⟩ := h.returns hgood (hdue a List.mem_cons_self)
    have hgood₁ := h.good hgood hstep
    have hloop : (a :: l).foldlM step s = l.foldlM step s₁ := by
      rw [List.foldlM_cons, hstep]
      rfl
    rw [hloop, List.nodup_cons]
    by_cases ha : a ∈ l
    · refine iff_of_false ?_ fun hnodup => hnodup.1 ha
      rintro ⟨s', hok⟩
      exact h.used hgood hstep (h.due_of_ok hgood₁ hok a ha)
    · obtain ⟨hhead, htail⟩ := List.pairwise_cons.mp hbefore
      have hdue₁ : ∀ b ∈ l, Due s₁ b := by
        intro b hb
        have hne : a ≠ b := fun heq => ha (heq ▸ hb)
        exact h.keeps hgood hstep hne (hhead b hb) (hdue b (List.mem_cons_of_mem a hb))
      rw [ih hgood₁ hdue₁ htail]
      exact (and_iff_right ha).symm

end Consuming
