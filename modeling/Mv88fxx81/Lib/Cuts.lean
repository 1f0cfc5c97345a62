import Mathlib.Data.Nat.Basic
import Mathlib.Data.List.Basic

/-!
# Cutting an interval at marked positions

An interval of positions is walked from its start to its end, and every piece of the walk
ends at the next marked position or at the end of the interval. The pieces tile the
interval, and every marked position inside is the end of one piece and the start of the
next one.
-/

namespace Cuts

variable {mark : ℕ → Prop} {start stop middle : ℕ} {pieces rest : List (ℕ × ℕ)}

/-- The next place after `start` where the walk to `stop` is cut. -/
structure NextCut (mark : ℕ → Prop) (stop start next : ℕ) : Prop where
  /-- The walk moves forward. -/
  start_lt : start < next
  /-- The walk stays in the interval. -/
  le_stop : next ≤ stop
  /-- The walk is cut at a mark or at the end only. -/
  stop_or_mark : next = stop ∨ mark next
  /-- No mark is passed over. -/
  not_mark : ∀ x, start < x → x < next → ¬ mark x

/-- The pieces of the walk from `start` to `stop`, each with its two ends. -/
inductive Walk (mark : ℕ → Prop) (stop : ℕ) : ℕ → List (ℕ × ℕ) → Prop
  /-- The end is reached. -/
  | done : Walk mark stop stop []
  /-- One piece up to the next cut. -/
  | piece {start next : ℕ} {rest : List (ℕ × ℕ)} (hnext : NextCut mark stop start next)
      (hrest : Walk mark stop next rest) : Walk mark stop start ((start, next) :: rest)

/-- A piece contains a position. -/
def Contains (piece : ℕ × ℕ) (x : ℕ) : Prop :=
  piece.1 ≤ x ∧ x < piece.2

instance (piece : ℕ × ℕ) (x : ℕ) : Decidable (Contains piece x) :=
  inferInstanceAs (Decidable (_ ∧ _))

/-- Each piece starts at the start of the walk or at a mark, and ends at the next cut. -/
theorem Walk.piece_ends (hwalk : Walk mark stop start pieces) {piece : ℕ × ℕ}
    (hpiece : piece ∈ pieces) :
    start ≤ piece.1 ∧ (piece.1 = start ∨ mark piece.1) ∧
      NextCut mark stop piece.1 piece.2 := by
  induction hwalk with
  | done => simp at hpiece
  | @piece start next rest hnext hrest ih =>
    rcases List.mem_cons.mp hpiece with rfl | hmem
    · exact ⟨le_rfl, Or.inl rfl, hnext⟩
    · obtain ⟨hle, hstart, hcut⟩ := ih hmem
      refine ⟨le_trans (le_of_lt hnext.start_lt) hle, Or.inr ?_, hcut⟩
      rcases hstart with heq | hmark
      · have hlt : piece.1 < stop := lt_of_lt_of_le hcut.start_lt hcut.le_stop
        rcases hnext.stop_or_mark with hstop | hmark
        · omega
        · rw [heq]
          exact hmark
      · exact hmark

/-- The pieces tile the interval: every position of it lies in exactly one piece, and no
other position in any. -/
theorem Walk.countP_contains (hwalk : Walk mark stop start pieces) (x : ℕ) :
    pieces.countP (fun piece => decide (Contains piece x)) =
      if start ≤ x ∧ x < stop then 1 else 0 := by
  induction hwalk with
  | done =>
    rw [if_neg (by omega)]
    rfl
  | @piece start next rest hnext hrest ih =>
    have hlt := hnext.start_lt
    have hle := hnext.le_stop
    rw [List.countP_cons, ih]
    by_cases hfirst : start ≤ x ∧ x < next
    · have hcontains : Contains (start, next) x := hfirst
      rw [decide_eq_true hcontains, if_neg (by omega), if_pos rfl, if_pos (by omega)]
    · have hcontains : ¬ Contains (start, next) x := hfirst
      rw [decide_eq_false hcontains, if_neg Bool.false_ne_true, Nat.add_zero]
      by_cases hlater : next ≤ x ∧ x < stop
      · rw [if_pos hlater, if_pos (by omega)]
      · rw [if_neg hlater, if_neg (by omega)]

/-- A mark inside the interval ends a piece. -/
theorem Walk.exists_ends_at (hwalk : Walk mark stop start pieces) {x : ℕ}
    (hstart : start < x) (hstop : x < stop) (hmark : mark x) :
    ∃ piece ∈ pieces, piece.2 = x := by
  induction hwalk with
  | done => omega
  | @piece start next rest hnext hrest ih =>
    by_cases heq : next = x
    · exact ⟨(start, next), List.mem_cons_self, heq⟩
    · have hlt : next < x := by
        by_contra hge
        exact hnext.not_mark x hstart (by omega) hmark
      obtain ⟨piece, hmem, hends⟩ := ih hlt
      exact ⟨piece, List.mem_cons_of_mem _ hmem, hends⟩

/-- A mark inside the interval starts a piece. -/
theorem Walk.exists_starts_at (hwalk : Walk mark stop start pieces) {x : ℕ}
    (hstart : start < x) (hstop : x < stop) (hmark : mark x) :
    ∃ piece ∈ pieces, piece.1 = x := by
  induction hwalk with
  | done => omega
  | @piece start next rest hnext hrest ih =>
    by_cases heq : next = x
    · cases hrest with
      | done => omega
      | piece hnext' hrest' =>
        exact ⟨_, List.mem_cons_of_mem _ List.mem_cons_self, heq⟩
    · have hlt : next < x := by
        by_contra hge
        exact hnext.not_mark x hstart (by omega) hmark
      obtain ⟨piece, hmem, hstarts⟩ := ih hlt
      exact ⟨piece, List.mem_cons_of_mem _ hmem, hstarts⟩

end Cuts
