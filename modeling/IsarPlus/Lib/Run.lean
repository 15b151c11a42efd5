import Mathlib.Init

/-!
# Runs

Finite runs of a step relation, and the rule that takes what one step preserves to whole runs.
-/

variable {σ α : Type*}

/-- A run through the given actions. -/
inductive Run (step : σ → α → σ → Prop) : σ → List α → σ → Prop
  | nil {s : σ} : Run step s [] s
  | cons {s s' s'' : σ} {a : α} {actions : List α} : step s a s' → Run step s' actions s'' →
      Run step s (a :: actions) s''

namespace Run

variable {step step' : σ → α → σ → Prop} {s s' : σ} {actions : List α}

/-- What every step preserves holds at the end of a run that starts with it. -/
theorem invariant (run : Run step s actions s') {Inv : σ → Prop}
    (preserved : ∀ s a s', Inv s → step s a s' → Inv s') (start : Inv s) : Inv s' := by
  induction run with
  | nil => exact start
  | cons one _ ih => exact ih (preserved _ _ _ start one)

/-- A run of a step relation is one of every weaker relation. -/
theorem mono (run : Run step s actions s') (weaker : ∀ s a s', step s a s' → step' s a s') :
    Run step' s actions s' := by
  induction run with
  | nil => exact .nil
  | cons one _ ih => exact .cons (weaker _ _ _ one) ih

theorem append {s'' : σ} {actions' : List α} (run : Run step s actions s')
    (rest : Run step s' actions' s'') : Run step s (actions ++ actions') s'' := by
  induction run with
  | nil => exact rest
  | cons one _ ih => exact .cons one (ih rest)

/-- Two step relations that agree wherever an invariant holds have the same runs from there. -/
theorem iff_of_same {Inv : σ → Prop}
    (same : ∀ s a s', Inv s → (step s a s' ↔ step' s a s'))
    (preserved : ∀ s a s', Inv s → step s a s' → Inv s') (start : Inv s) :
    Run step s actions s' ↔ Run step' s actions s' := by
  constructor
  · intro run
    induction run with
    | nil => exact .nil
    | cons one _ ih => exact .cons ((same _ _ _ start).mp one) (ih (preserved _ _ _ start one))
  · intro run
    induction run with
    | nil => exact .nil
    | cons one _ ih =>
      have one' := (same _ _ _ start).mpr one
      exact .cons one' (ih (preserved _ _ _ start one'))

end Run

/-- A run that shows every state that it passes through, behind the action that leads there. -/
inductive Trace (step : σ → α → σ → Prop) : σ → List (α × σ) → σ → Prop
  | nil {s : σ} : Trace step s [] s
  | cons {s s' s'' : σ} {a : α} {passed : List (α × σ)} : step s a s' →
      Trace step s' passed s'' → Trace step s ((a, s') :: passed) s''

namespace Trace

variable {step : σ → α → σ → Prop} {s s' : σ} {passed : List (α × σ)}

/-- A trace is a run through its actions. -/
theorem run (trace : Trace step s passed s') : Run step s (passed.map Prod.fst) s' := by
  induction trace with
  | nil => exact .nil
  | cons one _ ih => exact .cons one ih

theorem snoc {s'' : σ} {a : α} (trace : Trace step s passed s') (one : step s' a s'') :
    Trace step s (passed ++ [(a, s'')]) s'' := by
  induction trace with
  | nil => exact .cons one .nil
  | cons first _ ih => exact .cons first (ih one)

end Trace
