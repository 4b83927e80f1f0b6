import Mathlib

/-!
# Coupling locks on the way down

Whoever goes down a tree locks a node before it lets go of the ones above. What it does at the
end of its way may come up again, from a node to its parent as long as the node is not safe. So
it lets go of what is above a safe node only.
-/

namespace Crabbing

variable {α : Type} (parent : α → α) (safe : α → Prop)

/-- Lock a node, and let go of all others if it is safe. -/
def fetch [DecidablePred safe] (held : List α) (x : α) : List α :=
  if safe x then [x] else held ++ [x]

/-- The parent of a node that is held and not safe is held as well. -/
def Covered (held : List α) : Prop := ∀ x ∈ held, ¬ safe x → parent x ∈ held

/-- What is done at the node `x` may come up to the node. -/
inductive Climbs (x : α) : α → Prop
  | refl : Climbs x x
  | up {y : α} : Climbs x y → ¬ safe y → Climbs x (parent y)

variable {parent safe} {held : List α} {x y : α}

theorem mem_fetch [DecidablePred safe] : x ∈ fetch safe held x := by
  rw [fetch]
  split_ifs <;> simp

/-- Going down to a child of a node that is held. -/
theorem Covered.fetch [DecidablePred safe] (h : Covered parent safe held)
    (hparent : parent x ∈ held) :
  Covered parent safe (Crabbing.fetch safe held x)
  := by
  rw [Crabbing.fetch]
  split_ifs with hsafe
  · intro y hy hnotsafe
    rw [List.mem_singleton] at hy
    subst hy
    contradiction
  · intro y hy hnotsafe
    rw [List.mem_append, List.mem_singleton] at hy
    apply List.mem_append_left
    obtain hy | rfl := hy
    · apply h y hy hnotsafe
    · apply hparent

/-- What is done at a node that is held comes up to nodes that are held only. -/
theorem Covered.climbs (h : Covered parent safe held) (hx : x ∈ held)
    (hclimbs : Climbs parent safe x y) :
  y ∈ held
  := by
  induction hclimbs with
  | refl => exact hx
  | up _ hnotsafe ih => apply h _ ih hnotsafe

end Crabbing
