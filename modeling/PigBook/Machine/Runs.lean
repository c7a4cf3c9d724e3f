import Mathlib.Data.List.Basic

/-
  Machines whose steps are partial functions of an event.

  Key definitions include:
    * `run`

  Key theorems include:
    * `run_append`
    * `run_invariant`
    * `run_breaks`
-/

------------------------------------------------------------
-- Runs
------------------------------------------------------------

namespace Machine

variable {ε σ : Type}

/-
  The state after some events, if each was possible where it
  came.
-/
def run (step : ε → σ → Option σ) : List ε → σ → Option σ
| [], s => some s
| e :: es, s => (step e s).bind (run step es)

variable {step : ε → σ → Option σ} {s s' s'' : σ}
variable {e : ε} {es es' : List ε}

@[simp] theorem run_nil :
    run step [] s = some s :=
  rfl

theorem run_cons :
    run step (e :: es) s = (step e s).bind (run step es) :=
  rfl

theorem run_cons_eq_some :
    run step (e :: es) s = some s'' ↔
      ∃ s', step e s = some s' ∧ run step es s' = some s'' :=
  Option.bind_eq_some_iff

/- A run goes on where it was interrupted. -/
theorem run_append :
    run step (es ++ es') s =
      (run step es s).bind (run step es') := by
  induction es generalizing s with
  | nil => rfl
  | cons e es ih =>
      rw [List.cons_append, run_cons, run_cons,
        Option.bind_assoc]
      congr 1
      funext s'
      exact ih

theorem run_append_eq_some :
    run step (es ++ es') s = some s'' ↔
      ∃ s', run step es s = some s' ∧
        run step es' s' = some s'' := by
  rw [run_append]
  exact Option.bind_eq_some_iff

/- What each step keeps, a run keeps. -/
theorem run_invariant
    {P : σ → Prop}
    (hStep : ∀ e s s', P s → step e s = some s' → P s')
    (hStart : P s)
    (hRun : run step es s = some s') :
    P s' := by
  induction es generalizing s with
  | nil =>
      cases hRun
      exact hStart
  | cons e es ih =>
      rcases run_cons_eq_some.mp hRun with
        ⟨t, hFirst, hRest⟩
      exact ih (hStep e s t hStart hFirst) hRest

/- Or some step of the run is one that does not keep it. -/
theorem run_breaks
    {P : σ → Prop}
    {Q : ε → σ → Prop}
    (hStep :
      ∀ e s s', P s → step e s = some s' → P s' ∨ Q e s)
    (hStart : P s)
    (hRun : run step es s = some s') :
    P s' ∨
      ∃ es₁ e es₂ t,
        es = es₁ ++ e :: es₂ ∧ run step es₁ s = some t ∧
          Q e t := by
  induction es generalizing s with
  | nil =>
      cases hRun
      exact Or.inl hStart
  | cons e es ih =>
      rcases run_cons_eq_some.mp hRun with
        ⟨t, hFirst, hRest⟩
      rcases hStep e s t hStart hFirst with hKeeps | hBreaks
      · rcases ih hKeeps hRest with
          hLast | ⟨es₁, e', es₂, t', rfl, hRun₁, hBad⟩
        · exact Or.inl hLast
        · right
          refine ⟨e :: es₁, e', es₂, t', rfl, ?_, hBad⟩
          exact run_cons_eq_some.mpr ⟨t, hFirst, hRun₁⟩
      · exact Or.inr ⟨[], e, es, s, rfl, rfl, hBreaks⟩

end Machine
