import Mathlib.Data.List.Chain
import Mathlib.Data.List.Nodup
import Mathlib.Logic.Function.Basic

/-!
# Doubly linked orders

An order of distinct elements kept in two link maps. The results say how the
three elementary changes of such a structure act on the order they represent:
taking an inner element out, and putting an element at either end.
-/

namespace LinkedOrder

variable {α : Type*} {next prev next' prev' : α → α} {order l₁ l₂ : List α}

/-- Consecutive elements of the order point at each other. -/
def Linked (next prev : α → α) (order : List α) : Prop :=
  order.IsChain fun a b => next a = b ∧ prev b = a

/-- The links an order rests on are the forward links of all but its last
element and the backward links of all but its first. -/
theorem Linked.congr (hlinked : Linked next prev order)
    (hnext : ∀ a ∈ order.dropLast, next' a = next a)
    (hprev : ∀ b ∈ order.tail, prev' b = prev b) : Linked next' prev' order := by
  unfold Linked at *
  rw [List.isChain_iff_forall₂] at *
  rw [List.forall₂_iff_get] at *
  obtain ⟨hlength, hget⟩ := hlinked
  refine ⟨hlength, fun i hi hi' => ?_⟩
  obtain ⟨hforward, hbackward⟩ := hget i hi hi'
  exact ⟨(hnext _ (List.get_mem _ _)).trans hforward, (hprev _ (List.get_mem _ _)).trans hbackward⟩

/-- Two linked orders whose ends point at each other make one. -/
theorem linked_append_cons_cons {p n : α} :
    Linked next prev (l₁ ++ p :: n :: l₂) ↔
      Linked next prev (l₁ ++ [p]) ∧ (next p = n ∧ prev n = p) ∧ Linked next prev (n :: l₂) :=
  List.isChain_append_cons_cons

variable [DecidableEq α]

/-- Taking out an inner element: its neighbours are made to point at each other. -/
theorem Linked.unlink {p i n : α} (hnodup : (l₁ ++ p :: i :: n :: l₂).Nodup)
    (hlinked : Linked next prev (l₁ ++ p :: i :: n :: l₂)) :
    Linked (Function.update next p n) (Function.update prev n p) (l₁ ++ p :: n :: l₂) := by
  obtain ⟨hleft, -, hright⟩ := linked_append_cons_cons.mp hlinked
  have hinner : Linked next prev (n :: l₂) :=
    (linked_append_cons_cons.mp (show Linked next prev ([] ++ i :: n :: l₂) from hright)).2.2
  simp only [List.nodup_append, List.nodup_cons, List.mem_cons, not_or] at hnodup
  obtain ⟨-, ⟨⟨-, hpn, hp⟩, -, hn, -⟩, hapart⟩ := hnodup
  refine linked_append_cons_cons.mpr ⟨?_, ?_, ?_⟩
  · apply hleft.congr
    · intro a ha
      have hmem : a ∈ l₁ := by simpa using ha
      exact Function.update_of_ne (hapart a hmem p (by simp)) _ _
    · intro b hb
      have hmem : b ∈ l₁ ++ [p] := List.mem_of_mem_tail hb
      refine Function.update_of_ne ?_ _ _
      rcases List.mem_append.mp hmem with hmem | hmem
      · exact hapart b hmem n (by simp)
      · obtain rfl := List.mem_singleton.mp hmem
        exact hpn
  · simp
  · apply hinner.congr
    · intro a ha
      have hmem : a ∈ n :: l₂ := List.dropLast_subset _ ha
      refine Function.update_of_ne ?_ _ _
      rintro rfl
      rcases List.mem_cons.mp hmem with hmem | hmem
      · exact hpn hmem
      · exact hp hmem
    · intro b hb
      have hmem : b ∈ l₂ := by simpa using hb
      refine Function.update_of_ne ?_ _ _
      rintro rfl
      exact hn hmem

/-- Putting an element behind the last one. -/
theorem Linked.pushBack {m i : α} (hnodup : ((order ++ [m]) ++ [i]).Nodup)
    (hlinked : Linked next prev (order ++ [m])) :
    Linked (Function.update next m i) (Function.update prev i m) ((order ++ [m]) ++ [i]) := by
  simp only [List.nodup_append, List.mem_append, List.mem_singleton] at hnodup
  obtain ⟨⟨-, -, hm⟩, -, hi⟩ := hnodup
  rw [List.append_assoc]
  refine linked_append_cons_cons.mpr ⟨?_, by simp, List.isChain_singleton _⟩
  apply hlinked.congr
  · intro a ha
    have hmem : a ∈ order := by simpa using ha
    exact Function.update_of_ne (hm a hmem m rfl) _ _
  · intro b hb
    have hmem : b ∈ order ++ [m] := List.mem_of_mem_tail hb
    exact Function.update_of_ne (hi b (by simpa using hmem) i rfl) _ _

/-- Putting an element before the first one. -/
theorem Linked.pushFront {m i : α} (hnodup : (i :: m :: order).Nodup)
    (hlinked : Linked next prev (m :: order)) :
    Linked (Function.update next i m) (Function.update prev m i) (i :: m :: order) := by
  simp only [List.nodup_cons, List.mem_cons, not_or] at hnodup
  obtain ⟨⟨him, hi⟩, hm, -⟩ := hnodup
  refine List.isChain_cons_cons.mpr ⟨by simp, ?_⟩
  apply Linked.congr hlinked
  · intro a ha
    have hmem : a ∈ m :: order := List.dropLast_subset _ ha
    refine Function.update_of_ne ?_ _ _
    rintro rfl
    rcases List.mem_cons.mp hmem with hmem | hmem
    · exact him hmem
    · exact hi hmem
  · intro b hb
    have hmem : b ∈ order := by simpa using hb
    refine Function.update_of_ne ?_ _ _
    rintro rfl
    exact hm hmem

end LinkedOrder
