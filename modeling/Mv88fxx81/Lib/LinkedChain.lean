import Mathlib.Data.List.Nodup
import Mathlib.Data.List.TakeWhile
import Mathlib.Logic.Function.Basic

/-!
# Singly linked chains

A chain of cells is given by its first link and a map of links, and it ends at
the first empty link. The results say which list of cells a chain is, and how
the list changes when one link is overwritten.
-/

namespace LinkedChain

variable {α : Type*} {next next' : α → Option α} {head : Option α} {l l' l₁ l₂ : List α} {a : α}

/-- Following the links from `head` visits exactly the cells of the list, in order. -/
def Chained (next : α → Option α) : Option α → List α → Prop
  | head, [] => head = none
  | head, a :: l => head = some a ∧ Chained next (next a) l

@[simp] theorem chained_nil : Chained next head [] ↔ head = none := Iff.rfl

@[simp] theorem chained_cons :
    Chained next head (a :: l) ↔ head = some a ∧ Chained next (next a) l := Iff.rfl

/-- A chain is one list only. -/
theorem Chained.unique (hl : Chained next head l) (hl' : Chained next head l') : l = l' := by
  induction l generalizing head l' with
  | nil =>
    cases l' with
    | nil => rfl
    | cons b l' =>
      rw [chained_nil.mp hl] at hl'
      cases hl'.1
  | cons a l ih =>
    cases l' with
    | nil =>
      rw [chained_nil.mp hl'] at hl
      cases hl.1
    | cons b l' =>
      obtain ⟨hhead, htail⟩ := hl
      obtain ⟨hhead', htail'⟩ := hl'
      obtain rfl : a = b := Option.some.inj (hhead.symm.trans hhead')
      rw [ih htail htail']

/-- The cells behind a cell of the chain are a chain that starts at its link. -/
theorem Chained.drop (hl : Chained next head (l₁ ++ a :: l₂)) : Chained next (next a) l₂ := by
  induction l₁ generalizing head with
  | nil => exact hl.2
  | cons b l₁ ih => exact ih hl.2

/-- A chain that ends does not come back to a cell. -/
theorem Chained.nodup (hl : Chained next head l) : l.Nodup := by
  induction l generalizing head with
  | nil => exact List.nodup_nil
  | cons a l ih =>
    obtain ⟨-, htail⟩ := hl
    refine List.nodup_cons.mpr ⟨fun hmem => ?_, ih htail⟩
    obtain ⟨l₁, l₂, rfl⟩ := List.append_of_mem hmem
    have hlength := congrArg List.length (htail.unique htail.drop)
    simp only [List.length_append, List.length_cons] at hlength
    omega

/-- A chain depends on the links of its cells only. -/
theorem Chained.congr (hl : Chained next head l) (hnext : ∀ a ∈ l, next' a = next a) :
    Chained next' head l := by
  induction l generalizing head with
  | nil => exact hl
  | cons a l ih =>
    constructor
    · exact hl.1
    · rw [hnext a List.mem_cons_self]
      exact ih hl.2 fun b hb => hnext b (List.mem_cons_of_mem a hb)

variable [DecidableEq α]

/-- Overwriting the link of a cell that is not in the chain. -/
theorem Chained.update_of_notMem {link : Option α} (hl : Chained next head l) (ha : a ∉ l) :
    Chained (Function.update next a link) head l := by
  apply hl.congr
  intro b hb
  exact Function.update_of_ne (ne_of_mem_of_not_mem hb ha) _ _

/-- Overwriting the link of a cell replaces all that stands behind it. -/
theorem Chained.relink {link : Option α} {l₃ : List α}
    (hl : Chained next head (l₁ ++ a :: l₂)) (hlink : Chained next link l₃) (ha : a ∉ l₃) :
    Chained (Function.update next a link) head (l₁ ++ a :: l₃) := by
  have hnodup := hl.nodup
  induction l₁ generalizing head with
  | nil =>
    constructor
    · exact hl.1
    · rw [Function.update_self]
      exact hlink.update_of_notMem ha
  | cons b l₁ ih =>
    have hb : b ≠ a := by
      rintro rfl
      exact (List.nodup_cons.mp hnodup).1 (List.mem_append_right l₁ List.mem_cons_self)
    constructor
    · exact hl.1
    · rw [Function.update_of_ne hb]
      exact ih hl.2 hnodup.tail

end LinkedChain
