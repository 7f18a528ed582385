import Mathlib

/-!
# Runs of a machine

A machine takes an event in a state to a next state and a list of outputs,
or is undefined there. `Run` is a run in which every step was allowed (`ok`)
and defined; it records each event with what the step put out, so that
properties of histories - not only of states - can be stated over it.

`Run.invariant` is the one induction: what holds at the start and is kept by
each allowed step holds after every run. `exec` runs a list of events, which
is how a concrete run is exhibited (`Run.of_exec`).
-/

namespace OpenCmw

variable {σ ε ω : Type}

/-- Undefined steps are `none`. -/
abbrev StepFn (σ ε ω : Type) := σ → ε → Option (σ × List ω)

inductive Run (step : StepFn σ ε ω) (ok : σ → ε → Prop) (s₀ : σ) :
    List (ε × List ω) → σ → Prop
  | nil : Run step ok s₀ [] s₀
  | snoc {trace s e s' out} (h : Run step ok s₀ trace s) (hok : ok s e)
      (hstep : step s e = some (s', out)) : Run step ok s₀ (trace ++ [(e, out)]) s'

variable {step : StepFn σ ε ω} {ok : σ → ε → Prop} {s₀ : σ}

namespace Run

theorem invariant {I : List (ε × List ω) → σ → Prop} (h0 : I [] s₀)
    (hkeep : ∀ {trace s e s' out}, I trace s → ok s e → step s e = some (s', out) →
      I (trace ++ [(e, out)]) s')
    {trace : List (ε × List ω)} {s : σ} (h : Run step ok s₀ trace s) : I trace s := by
  induction h with
  | nil => exact h0
  | snoc _ hok hstep ih => exact hkeep ih hok hstep

theorem append {trace trace' : List (ε × List ω)} {s s' : σ}
    (h : Run step ok s₀ trace s) (h' : Run step ok s trace' s') :
    Run step ok s₀ (trace ++ trace') s' := by
  induction h' with
  | nil => rwa [List.append_nil]
  | snoc _ hok hstep ih =>
    rw [← List.append_assoc]
    exact ih.snoc hok hstep

end Run

/-! ## Running a list of events -/

/-- The trace and the last state, unless a step is undefined or not allowed. -/
def exec (step : StepFn σ ε ω) (ok : σ → ε → Prop) [∀ s e, Decidable (ok s e)] (s : σ) :
    List ε → Option (List (ε × List ω) × σ)
  | [] => some ([], s)
  | e :: es =>
    if ok s e then
      (step s e).bind fun r => (exec step ok r.1 es).map fun t => ((e, r.2) :: t.1, t.2)
    else none

variable [∀ s e, Decidable (ok s e)]

theorem Run.of_exec : ∀ {es : List ε} {s : σ} {trace : List (ε × List ω)} {s' : σ},
    exec step ok s es = some (trace, s') → Run step ok s trace s'
  | [], s, trace, s', h => by
    cases h
    exact Run.nil
  | e :: es, s, trace, s', h => by
    unfold exec at h
    split_ifs at h with hok
    obtain ⟨⟨_, _⟩, hstep, hrest⟩ := Option.bind_eq_some_iff.mp h
    obtain ⟨⟨_, _⟩, hexec, heq⟩ := Option.map_eq_some_iff.mp hrest
    cases heq
    exact (Run.nil.snoc hok hstep).append (Run.of_exec hexec)

theorem exec_snoc {e : ε} : ∀ {es : List ε} {s s' s'' : σ} {trace : List (ε × List ω)}
    {out : List ω}, exec step ok s es = some (trace, s') → ok s' e → step s' e = some (s'', out) →
    exec step ok s (es ++ [e]) = some (trace ++ [(e, out)], s'')
  | [], s, s', s'', trace, out, h, hok, hstep => by
    cases h
    simp [exec, hok, hstep]
  | e₁ :: es, s, s', s'', trace, out, h, hok, hstep => by
    unfold exec at h
    split_ifs at h with hok₁
    obtain ⟨⟨_, _⟩, hstep₁, hrest⟩ := Option.bind_eq_some_iff.mp h
    obtain ⟨⟨_, _⟩, hexec, heq⟩ := Option.map_eq_some_iff.mp hrest
    cases heq
    rw [List.cons_append, exec, if_pos hok₁, hstep₁, Option.bind_some, exec_snoc hexec hok hstep]
    rfl

end OpenCmw
