import Mv88fxx81.Lib.LinkedChain

/-!
# Doubly linked queues

A queue is kept in two maps of links with a first and a last element. It is a
chain of forward links from the first element, and a chain of backward links
from the last one, over the same elements. The results say how the links of the
neighbours have to change when an element is put at an end or taken out.
-/

namespace DoublyLinked

open LinkedChain

variable {α : Type*} {next next' prev prev' : α → Option α} {head head' tail tail' : Option α}
  {l l₁ l₂ : List α} {a b : α}

/-- The link of a cell leads to the cell behind it. -/
theorem chained_link (hl : Chained next head (l₁ ++ a :: l₂)) : next a = l₂.head? := by
  have hdrop := hl.drop
  cases l₂ with
  | nil => exact hdrop
  | cons b l₂ => exact hdrop.1

/-- The first link leads to the first cell. -/
theorem chained_head (hl : Chained next head l) : head = l.head? := by
  cases l with
  | nil => exact hl
  | cons a l => exact hl.1

/-- A cell is put behind the last one, which is made to point at it. -/
theorem chained_concat (hl : Chained next head l) (hnew : next' a = none)
    (hlast : ∀ b, l.getLast? = some b → next' b = some a)
    (hother : ∀ b ∈ l, l.getLast? ≠ some b → next' b = next b)
    (hhead : head' = if l = [] then some a else head) : Chained next' head' (l ++ [a]) := by
  induction l generalizing head head' with
  | nil =>
    rw [if_pos rfl] at hhead
    exact ⟨hhead, hnew⟩
  | cons c l ih =>
    rw [if_neg (List.cons_ne_nil c l)] at hhead
    have hnodup := List.nodup_cons.mp hl.nodup
    refine ⟨hhead.trans hl.1, ?_⟩
    cases l with
    | nil => exact ⟨hlast c rfl, hnew⟩
    | cons d l =>
      have hc : next' c = next c := by
        apply hother c List.mem_cons_self
        intro hsame
        rw [List.getLast?_cons_cons] at hsame
        exact hnodup.1 (List.mem_of_getLast? hsame)
      apply ih hl.2
      · intro b hb
        apply hlast b
        rw [List.getLast?_cons_cons]
        exact hb
      · intro b hb hne
        apply hother b (List.mem_cons_of_mem c hb)
        rw [List.getLast?_cons_cons]
        exact hne
      · rw [if_neg (List.cons_ne_nil d l), hc]

/-- A cell is put before the first one. -/
theorem chained_cons_of_notMem (hl : Chained next head l) (hnew : next' a = head)
    (hother : ∀ b ∈ l, next' b = next b) : Chained next' (some a) (a :: l) := by
  refine ⟨rfl, ?_⟩
  rw [hnew]
  exact hl.congr hother

/-- A cell is taken out, and the cell before it is made to point behind it. -/
theorem chained_skip (hl : Chained next head (l₁ ++ a :: l₂))
    (hlast : ∀ b, l₁.getLast? = some b → next' b = next a)
    (hother : ∀ b ∈ l₁ ++ l₂, l₁.getLast? ≠ some b → next' b = next b)
    (hhead : head' = if l₁ = [] then next a else head) : Chained next' head' (l₁ ++ l₂) := by
  induction l₁ generalizing head head' with
  | nil =>
    rw [if_pos rfl] at hhead
    rw [hhead]
    apply hl.2.congr
    intro b hb
    exact hother b hb (by simp)
  | cons c l₁ ih =>
    rw [if_neg (List.cons_ne_nil c l₁)] at hhead
    have hnodup := List.nodup_cons.mp hl.nodup
    refine ⟨hhead.trans hl.1, ?_⟩
    cases l₁ with
    | nil =>
      apply ih hl.2
      · intro b hb
        cases hb
      · intro b hb _
        apply hother b (List.mem_cons_of_mem c hb)
        intro hsame
        obtain rfl := Option.some.inj hsame
        exact hnodup.1 (List.mem_cons_of_mem a hb)
      · rw [if_pos rfl, hlast c rfl]
    | cons d l₁ =>
      have hc : next' c = next c := by
        apply hother c List.mem_cons_self
        intro hsame
        rw [List.getLast?_cons_cons] at hsame
        exact hnodup.1 (List.mem_append_left _ (List.mem_of_getLast? hsame))
      apply ih hl.2
      · intro b hb
        apply hlast b
        rw [List.getLast?_cons_cons]
        exact hb
      · intro b hb hne
        apply hother b (List.mem_cons_of_mem c hb)
        rw [List.getLast?_cons_cons]
        exact hne
      · rw [if_neg (List.cons_ne_nil d l₁), hc]

/-- The elements of the queue, from the first to the last and back. -/
structure Queued (next prev : α → Option α) (head tail : Option α) (l : List α) : Prop where
  forward : Chained next head l
  backward : Chained prev tail l.reverse

theorem Queued.head_eq (hl : Queued next prev head tail l) : head = l.head? :=
  chained_head hl.forward

theorem Queued.tail_eq (hl : Queued next prev head tail l) : tail = l.getLast? := by
  rw [chained_head hl.backward, List.head?_reverse]

theorem Queued.nodup (hl : Queued next prev head tail l) : l.Nodup := hl.forward.nodup

/-- Turning the queue around. -/
theorem Queued.reverse (hl : Queued next prev head tail l) :
    Queued prev next tail head l.reverse := by
  refine ⟨hl.backward, ?_⟩
  rw [List.reverse_reverse]
  exact hl.forward

theorem Queued.next_eq (hl : Queued next prev head tail (l₁ ++ a :: l₂)) : next a = l₂.head? :=
  chained_link hl.forward

/-- The elements before and behind an element, seen from the end. -/
theorem Queued.backward_split (hl : Queued next prev head tail (l₁ ++ a :: l₂)) :
    Chained prev tail (l₂.reverse ++ a :: l₁.reverse) := by
  have hback := hl.backward
  rw [List.reverse_append, List.reverse_cons, List.append_assoc] at hback
  exact hback

theorem Queued.prev_eq (hl : Queued next prev head tail (l₁ ++ a :: l₂)) :
    prev a = l₁.getLast? := by
  rw [chained_link hl.backward_split, List.head?_reverse]

/-- An element is put behind the last one. -/
theorem Queued.addTail (hl : Queued next prev head tail l) (hnext : next' a = none)
    (hlast : ∀ b, tail = some b → next' b = some a)
    (hnexts : ∀ b ∈ l, tail ≠ some b → next' b = next b) (hprev : prev' a = tail)
    (hprevs : ∀ b ∈ l, prev' b = prev b) (hhead : head' = if head = none then some a else head) :
    Queued next' prev' head' (some a) (l ++ [a]) := by
  rw [hl.tail_eq] at hlast hnexts
  constructor
  · apply chained_concat hl.forward hnext hlast hnexts
    rw [hhead, hl.head_eq]
    cases l with
    | nil => rfl
    | cons b l => rfl
  · rw [List.reverse_append]
    apply chained_cons_of_notMem hl.backward hprev
    intro b hb
    exact hprevs b (List.mem_reverse.mp hb)

/-- An element is taken out. -/
theorem Queued.remove (hl : Queued next prev head tail (l₁ ++ a :: l₂))
    (hnext : ∀ b, prev a = some b → next' b = next a)
    (hnexts : ∀ b ∈ l₁ ++ l₂, prev a ≠ some b → next' b = next b)
    (hprev : ∀ b, next a = some b → prev' b = prev a)
    (hprevs : ∀ b ∈ l₁ ++ l₂, next a ≠ some b → prev' b = prev b)
    (hhead : head' = if prev a = none then next a else head)
    (htail : tail' = if next a = none then prev a else tail) :
    Queued next' prev' head' tail' (l₁ ++ l₂) := by
  have hlast := hl.prev_eq
  have hfirst := hl.next_eq
  constructor
  · apply chained_skip hl.forward
    · intro b hb
      exact hnext b (hlast.trans hb)
    · intro b hb hne
      apply hnexts b hb
      rw [hlast]
      exact hne
    · simp only [hhead, hlast, List.getLast?_eq_none_iff]
  · rw [List.reverse_append]
    apply chained_skip hl.backward_split
    · intro b hb
      rw [List.getLast?_reverse] at hb
      exact hprev b (hfirst.trans hb)
    · intro b hb hne
      rw [List.getLast?_reverse] at hne
      apply hprevs b
      · rw [List.mem_append, List.mem_reverse, List.mem_reverse] at hb
        rw [List.mem_append]
        exact hb.symm
      · rw [hfirst]
        exact hne
    · simp only [htail, hfirst, List.reverse_eq_nil_iff, List.head?_eq_none_iff]

/-- The elements that are visited from a link on, at most `n` of them. -/
def walk (next : α → Option α) : ℕ → Option α → List α
  | 0, _ => []
  | _ + 1, none => []
  | n + 1, some a => a :: walk next n (next a)

/-- A walk that is long enough visits the whole chain. -/
theorem walk_eq {n : ℕ} (hl : Chained next head l) (hn : l.length ≤ n) :
    walk next n head = l := by
  induction l generalizing head n with
  | nil =>
    rw [chained_nil.mp hl]
    cases n with
    | zero => rfl
    | succ n => rfl
  | cons a l ih =>
    rw [hl.1]
    cases n with
    | zero => exact absurd hn (Nat.not_succ_le_zero _)
    | succ n =>
      unfold walk
      rw [ih hl.2 (Nat.le_of_succ_le_succ hn)]

end DoublyLinked
