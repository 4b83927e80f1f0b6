import Mathlib

/-!
# Relations along a computation

`Along R x` says that the computation `x`, whether it succeeds or fails, leads from any state
to one that `R` relates to it. When `R` is reflexive and transitive, what the parts of a
computation do is put together by the rules below.
-/

namespace Stateful

universe u

variable {ε σ α β : Type u}

/-- The state a result leaves behind. -/
def final : EStateM.Result ε σ α → σ
  | .ok _ s => s
  | .error _ s => s

/-- The computation `x` leads from every state to a related one. -/
def Along (R : σ → σ → Prop) (x : EStateM ε σ α) : Prop := ∀ s, R s (final (x s))

/-- A relation that can be followed along a computation. -/
structure Composes (R : σ → σ → Prop) : Prop where
  refl : ∀ s, R s s
  trans : ∀ {s s' s''}, R s s' → R s' s'' → R s s''

/-- A computation that succeeds, cut behind its first part. -/
theorem bind_eq_ok {x : EStateM ε σ α} {f : α → EStateM ε σ β} {b : β} {s s'' : σ}
    (h : (x >>= f) s = .ok b s'') :
  ∃ a s', x s = .ok a s' ∧ f a s' = .ok b s''
  := by
  change EStateM.bind x f s = _ at h
  rw [EStateM.bind] at h
  split at h
  · rename_i a s' hrun
    exact ⟨a, s', hrun, h⟩
  · cases h

/-- A computation that fails, in its first part or behind it. -/
theorem bind_eq_error {x : EStateM ε σ α} {f : α → EStateM ε σ β} {e : ε} {s s'' : σ}
    (h : (x >>= f) s = .error e s'') :
  x s = .error e s'' ∨ ∃ a s', x s = .ok a s' ∧ f a s' = .error e s''
  := by
  change EStateM.bind x f s = _ at h
  rw [EStateM.bind] at h
  split at h
  · rename_i a s' hrun
    exact .inr ⟨a, s', hrun, h⟩
  · rename_i e s' hrun
    cases h
    exact .inl hrun

namespace Along

variable {R R' : σ → σ → Prop} {x : EStateM ε σ α} {f : α → EStateM ε σ β}

theorem pure (hR : Composes R) (a : α) : Along R (Pure.pure a : EStateM ε σ α) := fun s => hR.refl s

theorem throw (hR : Composes R) (e : ε) : Along R (throw e : EStateM ε σ α) := fun s => hR.refl s

theorem get (hR : Composes R) : Along R (get : EStateM ε σ σ) := fun s => hR.refl s

theorem bind (hR : Composes R) (hx : Along R x) (hf : ∀ a, Along R (f a)) :
  Along R (x >>= f)
  := by
  intro s
  have hfirst := hx s
  change R s (final (EStateM.bind x f s))
  rw [EStateM.bind]
  split
  · rename_i a s' heq
    rw [heq] at hfirst
    apply hR.trans hfirst (hf a s')
  · rename_i e s' heq
    rw [heq] at hfirst
    apply hfirst

/-- One run of a computation, and of what follows it where it succeeds. -/
theorem bind_of_ok (hR : Composes R) {s : σ} (hx : R s (final (x s)))
    (hf : ∀ a s', x s = .ok a s' → R s' (final (f a s'))) :
  R s (final ((x >>= f) s))
  := by
  change R s (final (EStateM.bind x f s))
  rw [EStateM.bind]
  cases hrun : x s with
  | ok a s' =>
    rw [hrun] at hx
    exact hR.trans hx (hf a s' hrun)
  | error e s' =>
    rw [hrun] at hx
    exact hx

theorem ite {c : Prop} [Decidable c] {y : EStateM ε σ α} (hx : Along R x) (hy : Along R y) :
  Along R (if c then x else y)
  := by
  split
  · apply hx
  · apply hy

/-- A computation that leaves the state as it is. -/
theorem of_final_eq (hR : Composes R) (h : ∀ s, final (x s) = s) :
  Along R x
  := by
  intro s
  rw [h s]
  apply hR.refl

theorem mono (h : ∀ {s s'}, R s s' → R' s s') (hx : Along R x) : Along R' x := fun s => h (hx s)

theorem ok {a : α} {s s' : σ} (hx : Along R x) (h : x s = .ok a s') : R s s' := by
  have hs := hx s
  rwa [h] at hs

theorem error {e : ε} {s s' : σ} (hx : Along R x) (h : x s = .error e s') : R s s' := by
  have hs := hx s
  rwa [h] at hs

end Along

end Stateful
