import Mathlib

/-!
# Runs of a labelled transition relation

A run of the relation `step` leads from one state to another and keeps its history: the
state before each step together with the label of the step, the newest first. The rules
below derive what holds along a run from what a single step preserves.
-/

namespace Transition

universe u v w

variable {S : Type u} {E : Type v}

/-- `Run step s₀ h s`: the steps of the history `h` lead from `s₀` to `s`. -/
inductive Run (step : S → E → S → Prop) (s₀ : S) : List (S × E) → S → Prop where
  | refl : Run step s₀ [] s₀
  | tail {h : List (S × E)} {s s' : S} {e : E} (run : Run step s₀ h s) (last : step s e s') :
      Run step s₀ ((s, e) :: h) s'

namespace Run

variable {step : S → E → S → Prop} {s₀ s₁ s : S} {h h' : List (S × E)}

/-- A run whose steps, relabelled by `f`, are steps of another relation. -/
theorem relabel {E' : Type w} {step' : S → E' → S → Prop} (f : E → E')
    (hstep : ∀ s e s', step s e s' → step' s (f e) s') (hrun : Run step s₀ h s) :
  Run step' s₀ (h.map fun x => (x.1, f x.2)) s
  := by
  induction hrun with
  | refl => apply Run.refl
  | tail _ hlast ih => apply ih.tail (hstep _ _ _ hlast)

theorem trans (hrun : Run step s₀ h s₁) (hrun' : Run step s₁ h' s) :
  Run step s₀ (h' ++ h) s
  := by
  induction hrun' with
  | refl => apply hrun
  | tail _ hlast ih => apply ih.tail hlast

/-- A run splits where its history does. -/
theorem split (hrun : Run step s₀ (h' ++ h) s) : ∃ s₁, Run step s₀ h s₁ ∧ Run step s₁ h' s := by
  induction h' generalizing s with
  | nil => exact ⟨s, hrun, Run.refl⟩
  | cons x h' ih =>
    obtain _ | ⟨hrun, hlast⟩ := hrun
    obtain ⟨s₁, hfirst, hrest⟩ := ih hrun
    exact ⟨s₁, hfirst, hrest.tail hlast⟩

/-- What holds at the start and is preserved by every step holds at the end. -/
theorem invariant {P : S → Prop} (hrun : Run step s₀ h s) (hstart : P s₀)
    (hstep : ∀ s e s', P s → step s e s' → P s') :
  P s
  := by
  induction hrun with
  | refl => apply hstart
  | tail _ hlast ih => apply hstep _ _ _ ih hlast

/-- The rule of invariance for a property of the history and the state. -/
theorem invariant_history {P : List (S × E) → S → Prop} (hrun : Run step s₀ h s)
    (hstart : P [] s₀) (hstep : ∀ h s e s', P h s → step s e s' → P ((s, e) :: h) s') :
  P h s
  := by
  induction hrun with
  | refl => apply hstart
  | tail _ hlast ih => apply hstep _ _ _ _ ih hlast

/-- The rule of invariance for a property `P` that the steps preserve as long as the run
stays within `C`. -/
theorem invariant_while {P C : S → Prop} (hrun : Run step s₀ h s) (hstart : P s₀)
    (hh : ∀ x ∈ h, C x.1) (hs : C s)
    (hstep : ∀ s e s', P s → C s → C s' → step s e s' → P s') :
  P s
  := by
  induction hrun with
  | refl => apply hstart
  | tail _ hlast ih =>
    have hc := hh _ List.mem_cons_self
    apply hstep _ _ _ _ hc hs hlast
    apply ih _ hc
    intro x hx
    apply hh x (List.mem_cons_of_mem _ hx)

end Run

/-! ### Executing events -/

section

variable (ok : S → E → Prop) (after : S → E → S)

/-- The events `es` are `ok` one after the other, each in the state after those before it. -/
def AllOk : S → List E → Prop
  | _, [] => True
  | s, e :: es => ok s e ∧ AllOk (after s e) es

instance AllOk.decidable [∀ s e, Decidable (ok s e)] :
    ∀ (s : S) (es : List E), Decidable (AllOk ok after s es)
  | _, [] => isTrue trivial
  | s, e :: es =>
    have := AllOk.decidable (after s e) es
    inferInstanceAs (Decidable (_ ∧ _))

end

/-- Events that are `ok` one after the other make up a run. -/
theorem run_of_allOk {ok : S → E → Prop} {after : S → E → S} {step : S → E → S → Prop}
    (hstep : ∀ s e, ok s e → step s e (after s e)) {es : List E} :
    ∀ {s : S}, AllOk ok after s es → ∃ h, Run step s h (es.foldl after s) := by
  induction es with
  | nil =>
    intro s _
    exact ⟨[], Run.refl⟩
  | cons e es ih =>
    rintro s ⟨he, hes⟩
    obtain ⟨h, hrun⟩ := ih hes
    exact ⟨_, (Run.refl.tail (hstep s e he)).trans hrun⟩

end Transition
