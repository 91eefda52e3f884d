import Mathlib.Order.Basic

/-!
# While loops

A loop is given by its body as a partial step: `step s = none` says that the loop is left in `s`,
whether its condition is false there or its body breaks off.  `Loop.Exits step s t` is what the loop
means, with no bound on the turns: started in `s` it leaves, and it leaves in `t`.  `Loop.run` is
the loop one can evaluate, with the number of turns as fuel.

The two are connected by one rule.  Where an invariant holds and a measure drops on every turn, as
many turns as the measure are enough (`run_exits`), so the loop terminates; and what every turn
preserves, the loop preserves (`run_preserves`).
-/

set_option autoImplicit false

universe u

variable {σ : Type u} (step : σ → Option σ)

namespace Loop

/-- The loop started in one state leaves in another. -/
inductive Exits : σ → σ → Prop
  | leave {s : σ} : step s = none → Exits s s
  | turn {s s' t : σ} : step s = some s' → Exits s' t → Exits s t

/-- At most so many turns of the loop. -/
def run : ℕ → σ → σ
  | 0, s => s
  | fuel + 1, s =>
    match step s with
    | none => s
    | some s' => run fuel s'

variable {step}

variable {s : σ}

theorem Exits.left {t : σ} (h : Exits step s t) : step t = none := by
  induction h with
  | leave h => exact h
  | turn _ _ ih => exact ih

variable {P : σ → Prop}

theorem run_preserves (h : ∀ s s', P s → step s = some s' → P s') (hs : P s) (fuel : ℕ) :
    P (run step fuel s) := by
  induction fuel generalizing s with
  | zero => exact hs
  | succ fuel ih =>
    rw [run]
    cases hstep : step s with
    | none => exact hs
    | some s' => exact ih (h s s' hs hstep)

/-- **A loop terminates** where a measure drops on every turn: the measure is enough fuel. -/
theorem run_exits {μ : σ → ℕ} (h : ∀ s s', P s → step s = some s' → P s')
    (hμ : ∀ s s', P s → step s = some s' → μ s' < μ s) (hs : P s) {fuel : ℕ} (hfuel : μ s ≤ fuel) :
    Exits step s (run step fuel s) := by
  induction fuel generalizing s with
  | zero =>
    refine .leave ?_
    cases hstep : step s with
    | none => rfl
    | some s' => exact absurd (hμ s s' hs hstep) (by omega)
  | succ fuel ih =>
    rw [run]
    cases hstep : step s with
    | none => exact .leave hstep
    | some s' => exact .turn hstep (ih (h s s' hs hstep) (by have := hμ s s' hs hstep; omega))

end Loop
