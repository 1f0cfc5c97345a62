import Mathlib.Data.List.Basic

/-!
# Runs of a machine with guarded steps

A machine is given by a partial step function that consumes one event and emits
one answer. A run is recorded as the list of its events with their answers,
oldest first. A run may be restricted to steps that meet a condition on the
state before the step and the event.
-/

namespace TransitionSystem

variable {σ ε ω : Type*} {step : σ → ε → Option (ω × σ)} {ok : σ → ε → Prop} {s₀ : σ}

/-- The runs from `s₀` in which every step is taken by `step` and meets `ok`
in the state it is taken from. -/
inductive Run (step : σ → ε → Option (ω × σ)) (ok : σ → ε → Prop) (s₀ : σ) :
    List (ε × ω) → σ → Prop
  | start : Run step ok s₀ [] s₀
  | next {trace : List (ε × ω)} {s : σ} {e : ε} {o : ω} {s' : σ} :
      Run step ok s₀ trace s → ok s e → step s e = some (o, s') →
        Run step ok s₀ (trace ++ [(e, o)]) s'

/-- The invariant rule: a property of the past and the present state that holds
at the start and is kept by every admissible step holds along every run. -/
theorem Run.invariant {I : List (ε × ω) → σ → Prop} (hstart : I [] s₀)
    (hnext : ∀ trace s e o s', I trace s → ok s e → step s e = some (o, s') →
      I (trace ++ [(e, o)]) s')
    {trace : List (ε × ω)} {s : σ} (hrun : Run step ok s₀ trace s) : I trace s := by
  induction hrun with
  | start => exact hstart
  | next _ hok hstep ih => exact hnext _ _ _ _ _ ih hok hstep

/-- A run under a stronger condition is a run under a weaker one. -/
theorem Run.mono {ok' : σ → ε → Prop} (himp : ∀ s e, ok s e → ok' s e)
    {trace : List (ε × ω)} {s : σ} (hrun : Run step ok s₀ trace s) :
    Run step ok' s₀ trace s := by
  induction hrun with
  | start => exact .start
  | next _ hok hstep ih => exact .next ih (himp _ _ hok) hstep

/-- The last step of a run. -/
theorem Run.of_concat {trace : List (ε × ω)} {e : ε} {o : ω} {s' : σ}
    (hrun : Run step ok s₀ (trace ++ [(e, o)]) s') :
    ∃ s, Run step ok s₀ trace s ∧ ok s e ∧ step s e = some (o, s') := by
  generalize htrace : trace ++ [(e, o)] = events at hrun
  cases hrun with
  | start => simp at htrace
  | next hrun hok hstep =>
    obtain ⟨rfl, heq⟩ := List.append_inj' htrace rfl
    obtain ⟨rfl, rfl⟩ := Prod.mk.inj (List.cons.inj heq).1
    exact ⟨_, hrun, hok, hstep⟩

/-- The events and answers of a run determine the state it ends in. -/
theorem Run.unique {ok' : σ → ε → Prop} {trace : List (ε × ω)} {s t : σ}
    (hrun : Run step ok s₀ trace s) (hrun' : Run step ok' s₀ trace t) : s = t := by
  induction hrun generalizing t with
  | start =>
    generalize htrace : ([] : List (ε × ω)) = events at hrun'
    cases hrun' with
    | start => rfl
    | next _ _ _ => simp at htrace
  | next _ _ hstep ih =>
    obtain ⟨s, hrun', -, hstep'⟩ := hrun'.of_concat
    obtain rfl := ih hrun'
    rw [hstep] at hstep'
    exact (Prod.mk.inj (Option.some.inj hstep')).2

/-- Prefixing a run with its first step. -/
theorem Run.cons {e : ε} {o : ω} {s₁ : σ} (hok : ok s₀ e) (hstep : step s₀ e = some (o, s₁))
    {trace : List (ε × ω)} {s : σ} (hrun : Run step ok s₁ trace s) :
    Run step ok s₀ ((e, o) :: trace) s := by
  induction hrun with
  | start => exact Run.next .start hok hstep
  | next _ hok' hstep' ih => exact .next ih hok' hstep'

/-- Execute a list of events, stopping with `none` at the first event that is
not enabled or does not meet the condition. -/
def exec (step : σ → ε → Option (ω × σ)) (ok : σ → ε → Prop) [∀ s e, Decidable (ok s e)] :
    σ → List ε → Option (List (ε × ω) × σ)
  | s, [] => some ([], s)
  | s, e :: es =>
    if ok s e then
      match step s e with
      | none => none
      | some (o, s') =>
        match exec step ok s' es with
        | none => none
        | some (trace, t) => some ((e, o) :: trace, t)
    else none

/-- An execution that ends is a run. -/
theorem Run.of_exec [∀ s e, Decidable (ok s e)] (es : List ε) {trace : List (ε × ω)} {s : σ}
    (hexec : exec step ok s₀ es = some (trace, s)) : Run step ok s₀ trace s := by
  induction es generalizing s₀ trace with
  | nil =>
    simp only [exec, Option.some.injEq, Prod.mk.injEq] at hexec
    obtain ⟨rfl, rfl⟩ := hexec
    exact .start
  | cons e es ih =>
    simp only [exec] at hexec
    by_cases hok : ok s₀ e
    · cases hstep : step s₀ e with
      | none => simp [hok, hstep] at hexec
      | some answer =>
        obtain ⟨o, s₁⟩ := answer
        cases hrest : exec step ok s₁ es with
        | none => simp [hok, hstep, hrest] at hexec
        | some rest =>
          obtain ⟨trace', t⟩ := rest
          simp only [if_pos hok, hstep, hrest, Option.some.injEq, Prod.mk.injEq] at hexec
          obtain ⟨rfl, rfl⟩ := hexec
          exact Run.cons hok hstep (ih hrest)
    · simp [hok] at hexec

/-- Executing one event more. -/
theorem exec_concat [∀ s e, Decidable (ok s e)] {es : List ε} {trace : List (ε × ω)} {s s' : σ}
    {e : ε} {o : ω} (hexec : exec step ok s₀ es = some (trace, s)) (hok : ok s e)
    (hstep : step s e = some (o, s')) :
    exec step ok s₀ (es ++ [e]) = some (trace ++ [(e, o)], s') := by
  induction es generalizing s₀ trace with
  | nil =>
    simp only [exec, Option.some.injEq, Prod.mk.injEq] at hexec
    obtain ⟨rfl, rfl⟩ := hexec
    simp [exec, hok, hstep]
  | cons e₁ es ih =>
    simp only [exec] at hexec
    by_cases hok₁ : ok s₀ e₁
    · cases hstep₁ : step s₀ e₁ with
      | none => simp [hok₁, hstep₁] at hexec
      | some answer =>
        obtain ⟨o₁, s₁⟩ := answer
        cases hrest : exec step ok s₁ es with
        | none => simp [hok₁, hstep₁, hrest] at hexec
        | some rest =>
          obtain ⟨trace', t⟩ := rest
          simp only [if_pos hok₁, hstep₁, hrest, Option.some.injEq, Prod.mk.injEq] at hexec
          obtain ⟨rfl, rfl⟩ := hexec
          simp [exec, hok₁, hstep₁, ih hrest]
    · simp [hok₁] at hexec

/-- Each event of a sequence meets a condition on the events before it. -/
def Throughout (P : List ε → ε → Prop) (es : List ε) : Prop :=
  ∀ es₁ e es₂, es = es₁ ++ e :: es₂ → P es₁ e

variable {P : List ε → ε → Prop} {es es₁ es₂ : List ε} {e : ε}

theorem throughout_nil : Throughout P [] := by
  intro es₁ e es₂ hes
  simp at hes

theorem throughout_concat : Throughout P (es ++ [e]) ↔ Throughout P es ∧ P es e := by
  constructor
  · intro hall
    refine ⟨fun es₁ e₁ es₂ hes => ?_, hall es e [] rfl⟩
    exact hall es₁ e₁ (es₂ ++ [e]) (by simp [hes])
  · rintro ⟨hall, hlast⟩ es₁ e₁ es₂ hes
    rcases List.eq_nil_or_concat es₂ with rfl | ⟨es₂, e', rfl⟩
    · obtain ⟨rfl, he⟩ := List.append_inj' hes rfl
      obtain rfl := (List.cons.inj he).1
      exact hlast
    · rw [List.concat_eq_append, ← List.cons_append, ← List.append_assoc] at hes
      obtain ⟨hes, -⟩ := List.append_inj' hes rfl
      exact hall es₁ e₁ es₂ hes

/-- A condition on each event holds of the events of a prefix. -/
theorem Throughout.left (hall : Throughout P (es₁ ++ es₂)) : Throughout P es₁ := by
  intro es₃ e es₄ hes
  exact hall es₃ e (es₄ ++ es₂) (by simp [hes])

end TransitionSystem
