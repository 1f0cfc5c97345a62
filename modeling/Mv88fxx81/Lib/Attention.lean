import Mathlib.Data.Finset.Basic

/-!
# Events that have to be reported before work goes on

A unit has a set of events that are raised and not yet reported. Raising an event
that is already there changes nothing. The events are reported one at a time in
the order of their priority, the least first, and work other than exempt work is
done only while there is none.
-/

namespace Attention

variable {ε : Type*} [LE ε] [DecidableEq ε]

/-- What is seen of a unit. -/
inductive Label (ε : Type*)
  | raise (events : Finset ε)
  | report (event : ε)
  | work (exempt : Bool)

/-- The steps of a unit. -/
inductive Step : Finset ε → Label ε → Finset ε → Prop
  | raise {pending events : Finset ε} : Step pending (.raise events) (pending ∪ events)
  | report {pending : Finset ε} {event : ε} (hmem : event ∈ pending)
      (hfirst : ∀ other ∈ pending, event ≤ other) :
      Step pending (.report event) (pending.erase event)
  | work {pending : Finset ε} {exempt : Bool} (hidle : pending = ∅ ∨ exempt = true) :
      Step pending (.work exempt) pending

/-- The step by step histories of a unit. -/
inductive Steps : Finset ε → List (Label ε) → Finset ε → Prop
  | refl {pending : Finset ε} : Steps pending [] pending
  | head {pending middle last : Finset ε} {label : Label ε} {labels : List (Label ε)} :
      Step pending label middle → Steps middle labels last → Steps pending (label :: labels) last

/-- One step is a history. -/
theorem Step.steps {pending last : Finset ε} {label : Label ε} (h : Step pending label last) :
    Steps pending [label] last :=
  .head h .refl

/-- Histories are composed. -/
theorem Steps.append {pending middle last : Finset ε} {front back : List (Label ε)}
    (hfront : Steps pending front middle) (hback : Steps middle back last) :
    Steps pending (front ++ back) last := by
  induction hfront with
  | refl => exact hback
  | head hstep _ ih => exact .head hstep (ih hback)

/-- How often an event is raised while it is not pending: the raises that do not
coalesce with an earlier one. -/
def freshRaises (event : ε) : Finset ε → List (Label ε) → ℕ
  | _, [] => 0
  | pending, .raise events :: labels =>
    (if event ∈ events ∧ event ∉ pending then 1 else 0) +
      freshRaises event (pending ∪ events) labels
  | pending, .report other :: labels => freshRaises event (pending.erase other) labels
  | pending, .work _ :: labels => freshRaises event pending labels

/-- How often an event is reported. -/
def reports (event : ε) : List (Label ε) → ℕ
  | [] => 0
  | .report other :: labels => (if other = event then 1 else 0) + reports event labels
  | _ :: labels => reports event labels

/-- Every raise that does not coalesce is reported once, but for one that is still
pending. -/
theorem Steps.reports_add {pending last : Finset ε} {labels : List (Label ε)}
    (h : Steps pending labels last) (event : ε) :
    reports event labels + (if event ∈ last then 1 else 0) =
      freshRaises event pending labels + if event ∈ pending then 1 else 0 := by
  induction h with
  | refl => simp [reports, freshRaises]
  | @head pending middle last label labels hstep _ ih =>
    cases hstep with
    | @raise events =>
      simp only [reports, freshRaises, ih, Finset.mem_union]
      by_cases hold : event ∈ pending
      · simp [hold]
      · by_cases hnew : event ∈ events
        · simp only [hold, hnew, not_false_eq_true, and_self, or_true, if_true, if_false]
          omega
        · simp [hold, hnew]
    | @report reported hmem hfirst =>
      simp only [reports, freshRaises, Finset.mem_erase] at ih ⊢
      by_cases heq : reported = event
      · subst heq
        simp only [ne_eq, not_true_eq_false, false_and, if_false, if_pos hmem, if_true] at ih ⊢
        omega
      · simp only [ne_eq, Ne.symm heq, not_false_eq_true, true_and, if_neg heq] at ih ⊢
        omega
    | work hidle =>
      simp only [reports, freshRaises]
      exact ih

end Attention
