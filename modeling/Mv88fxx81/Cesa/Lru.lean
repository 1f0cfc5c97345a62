import Mathlib.Data.List.Range
import Mv88fxx81.Lib.LinkedOrder
import Mv88fxx81.Lib.Literals

/-!
# The replacement order of the key cache

The LRU module keeps the slots of the key cache in a doubly linked list over a
table of indices. Using a slot moves it to the `most` end, deleting it moves it
to the `least` end, from which slots are taken for replacement. The table
represents a list of slots, and the two operations are the two list moves.
-/

namespace Mv88fxx81.Cesa

open LinkedOrder

/-- `MV_LRU_ENTRY`. -/
structure LruEntry where
  next : ℤ
  prev : ℤ

/-- `MV_LRU_CACHE`. The table is indexed by the `int` values of its links. -/
structure LruCache where
  table : ℤ → LruEntry
  least : ℤ
  most : ℤ

/-- The assignment `table[i].next = value`. -/
def LruCache.setNext (lru : LruCache) (i value : ℤ) : LruCache :=
  { lru with table := Function.update lru.table i { lru.table i with next := value } }

/-- The assignment `table[i].prev = value`. -/
def LruCache.setPrev (lru : LruCache) (i value : ℤ) : LruCache :=
  { lru with table := Function.update lru.table i { lru.table i with prev := value } }

/-- `mvLruCacheInit`: the slots in increasing order. -/
def mvLruCacheInit (numOfEntries : ℕ) : LruCache :=
  { table := fun i => ⟨i + 1, i - 1⟩
    least := 0
    most := numOfEntries - 1 }

/-- `mvCesaCacheIdxFind`: the slot to replace. -/
def mvCesaCacheIdxFind (lru : LruCache) : ℤ := lru.least

/-- `mvCesaCacheIdxUpdate`: the slot `cacheIdx` is used. -/
def mvCesaCacheIdxUpdate (lru : LruCache) (cacheIdx : ℤ) : LruCache :=
  if cacheIdx = lru.most then lru
  else
    let next := (lru.table cacheIdx).next
    let unlinked :=
      if cacheIdx = lru.least then { lru with least := next }
      else
        let prev := (lru.table cacheIdx).prev
        (lru.setPrev next prev).setNext prev next
    { (unlinked.setNext unlinked.most cacheIdx).setPrev cacheIdx unlinked.most with
      most := cacheIdx }

/-- `mvCesaCacheIdxDelete`: the slot `cacheIdx` is given up. -/
def mvCesaCacheIdxDelete (lru : LruCache) (cacheIdx : ℤ) : LruCache :=
  if cacheIdx = lru.least then lru
  else
    let prev := (lru.table cacheIdx).prev
    let unlinked :=
      if cacheIdx = lru.most then { lru with most := prev }
      else
        let next := (lru.table cacheIdx).next
        (lru.setPrev next prev).setNext prev next
    { (unlinked.setPrev unlinked.least cacheIdx).setNext cacheIdx unlinked.least with
      least := cacheIdx }

/-- The forward links of a table. -/
def LruCache.next (lru : LruCache) (i : ℤ) : ℤ := (lru.table i).next

/-- The backward links of a table. -/
def LruCache.prev (lru : LruCache) (i : ℤ) : ℤ := (lru.table i).prev

@[simp] theorem setNext_next (lru : LruCache) (i value : ℤ) :
    (lru.setNext i value).next = Function.update lru.next i value := by
  funext j
  by_cases hj : j = i
  · simp [LruCache.next, LruCache.setNext, hj]
  · simp [LruCache.next, LruCache.setNext, Function.update_of_ne hj]

@[simp] theorem setNext_prev (lru : LruCache) (i value : ℤ) :
    (lru.setNext i value).prev = lru.prev := by
  funext j
  by_cases hj : j = i
  · simp [LruCache.prev, LruCache.setNext, hj]
  · simp [LruCache.prev, LruCache.setNext, Function.update_of_ne hj]

@[simp] theorem setPrev_next (lru : LruCache) (i value : ℤ) :
    (lru.setPrev i value).next = lru.next := by
  funext j
  by_cases hj : j = i
  · simp [LruCache.next, LruCache.setPrev, hj]
  · simp [LruCache.next, LruCache.setPrev, Function.update_of_ne hj]

@[simp] theorem setPrev_prev (lru : LruCache) (i value : ℤ) :
    (lru.setPrev i value).prev = Function.update lru.prev i value := by
  funext j
  by_cases hj : j = i
  · simp [LruCache.prev, LruCache.setPrev, hj]
  · simp [LruCache.prev, LruCache.setPrev, Function.update_of_ne hj]

/-- The table represents the order `order` of its slots, from the least to the
most recently used. -/
structure LruCache.Represents (lru : LruCache) (order : List ℤ) : Prop where
  nodup : order.Nodup
  head : order.head? = some lru.least
  last : order.getLast? = some lru.most
  linked : Linked lru.next lru.prev order

/-- The initial table represents the slots in increasing order. -/
theorem mvLruCacheInit_represents (n : ℕ) :
    (mvLruCacheInit (n + 1)).Represents ((List.range (n + 1)).map fun i : ℕ => (i : ℤ)) := by
  refine ⟨?_, ?_, ?_, ?_⟩
  · exact List.nodup_range.map fun _ _ => Int.ofNat_inj.mp
  · simp [List.range_succ_eq_map, mvLruCacheInit]
  · simp [List.range_succ, mvLruCacheInit]
  · refine (List.isChain_map _).mpr ?_
    refine (List.isChain_range _ (n + 1)).mpr ?_
    intro m _
    simp [LruCache.next, LruCache.prev, mvLruCacheInit]

/-- Splitting an order at one of its slots. -/
theorem LruCache.Represents.split {lru : LruCache} {order : List ℤ} {i : ℤ}
    (hrep : lru.Represents order) (hi : i ∈ order) :
    ∃ before after, order = before ++ i :: after ∧ i ∉ before ∧ i ∉ after ∧
      order.erase i = before ++ after := by
  obtain ⟨before, after, rfl⟩ := List.append_of_mem hi
  have hnodup := hrep.nodup
  simp only [List.nodup_append, List.nodup_cons] at hnodup
  obtain ⟨-, ⟨hafter, -⟩, happart⟩ := hnodup
  have hbefore : i ∉ before := fun h => happart i h i (by simp) rfl
  exact ⟨before, after, rfl, hbefore, hafter, by simp [List.erase_append_right _ hbefore]⟩

/-- Taking out an inner slot, as both operations do. -/
theorem LruCache.Represents.unlink {lru : LruCache} {before after : List ℤ} {p i n : ℤ}
    (hrep : lru.Represents (before ++ p :: i :: n :: after)) :
    ((lru.setPrev n p).setNext p n).Represents (before ++ p :: n :: after) := by
  refine ⟨?_, ?_, ?_, ?_⟩
  · refine hrep.nodup.sublist ?_
    exact List.Sublist.append_left (by simp) before
  · rw [show ((lru.setPrev n p).setNext p n).least = lru.least from rfl, ← hrep.head]
    cases before <;> rfl
  · rw [show ((lru.setPrev n p).setNext p n).most = lru.most from rfl, ← hrep.last]
    simp
  · simpa using hrep.linked.unlink hrep.nodup

/-- Taking out the first slot. -/
theorem LruCache.Represents.tail {lru : LruCache} {after : List ℤ} {i n : ℤ}
    (hrep : lru.Represents (i :: n :: after)) :
    ({ lru with least := n } : LruCache).Represents (n :: after) :=
  { nodup := hrep.nodup.of_cons
    head := rfl
    last := by rw [← hrep.last]; simp
    linked := List.IsChain.tail hrep.linked }

/-- Taking out the last slot. -/
theorem LruCache.Represents.dropLast {lru : LruCache} {before : List ℤ} {p i : ℤ}
    (hrep : lru.Represents (before ++ [p, i])) :
    ({ lru with most := p } : LruCache).Represents (before ++ [p]) :=
  { nodup := hrep.nodup.sublist (List.Sublist.append_left (by simp) before)
    head := by rw [show ({ lru with most := p } : LruCache).least = lru.least from rfl,
                ← hrep.head]; cases before <;> rfl
    last := by simp
    linked := (linked_append_cons_cons.mp hrep.linked).1 }

/-- Putting a slot at the `most` end. -/
theorem LruCache.Represents.pushBack {lru : LruCache} {order : List ℤ} {i : ℤ}
    (hrep : lru.Represents order) (hi : i ∉ order) :
    ({ (lru.setNext lru.most i).setPrev i lru.most with most := i } : LruCache).Represents
      (order ++ [i]) := by
  obtain ⟨init, rfl⟩ := List.getLast?_eq_some_iff.mp hrep.last
  have hnodup : ((init ++ [lru.most]) ++ [i]).Nodup :=
    List.nodup_append_comm.mp (List.nodup_cons.mpr ⟨hi, hrep.nodup⟩)
  refine ⟨hnodup, ?_, by simp, ?_⟩
  · change _ = some lru.least
    rw [← hrep.head]
    cases init <;> rfl
  · have hlinked := hrep.linked.pushBack hnodup
    rw [← setNext_next, ← setNext_prev lru lru.most i, ← setPrev_prev,
      ← setPrev_next _ i lru.most] at hlinked
    exact hlinked

/-- Putting a slot at the `least` end. -/
theorem LruCache.Represents.pushFront {lru : LruCache} {order : List ℤ} {i : ℤ}
    (hrep : lru.Represents order) (hi : i ∉ order) :
    ({ (lru.setPrev lru.least i).setNext i lru.least with least := i } : LruCache).Represents
      (i :: order) := by
  obtain ⟨rest, rfl⟩ : ∃ rest, order = lru.least :: rest := by
    have hhead := hrep.head
    cases order with
    | nil => simp at hhead
    | cons m rest => exact ⟨rest, by simpa using hhead⟩
  have hnodup : (i :: lru.least :: rest).Nodup := List.nodup_cons.mpr ⟨hi, hrep.nodup⟩
  refine ⟨hnodup, rfl, ?_, ?_⟩
  · change _ = some lru.most
    rw [← hrep.last]
    simp
  · have hlinked := hrep.linked.pushFront hnodup
    rw [← setPrev_prev, ← setPrev_next lru lru.least i, ← setNext_next,
      ← setNext_prev _ i lru.least] at hlinked
    exact hlinked

/-- Using a slot moves it to the end of the order. -/
theorem mvCesaCacheIdxUpdate_represents {lru : LruCache} {order : List ℤ} {i : ℤ}
    (hrep : lru.Represents order) (hi : i ∈ order) :
    (mvCesaCacheIdxUpdate lru i).Represents (order.erase i ++ [i]) := by
  obtain ⟨before, after, rfl, hbefore, hafter, herase⟩ := hrep.split hi
  have hlast := hrep.last
  have hhead := hrep.head
  rw [herase]
  unfold mvCesaCacheIdxUpdate
  cases after with
  | nil =>
    have hmost : i = lru.most := by simpa using hlast
    rw [if_pos hmost, List.append_nil]
    exact hrep
  | cons n after =>
    have hmost : i ≠ lru.most := by
      rintro rfl
      rw [List.getLast?_append_cons, List.getLast?_cons_cons] at hlast
      exact hafter (List.mem_of_getLast? hlast)
    have hnext : (lru.table i).next = n := (linked_append_cons_cons.mp hrep.linked).2.1.1
    rw [if_neg hmost]
    simp only [hnext]
    rcases List.eq_nil_or_concat before with rfl | ⟨before, p, rfl⟩
    · have hleast : i = lru.least := by simpa using hhead
      rw [if_pos hleast]
      exact (LruCache.Represents.tail hrep).pushBack hafter
    · have hleast : i ≠ lru.least := by
        rintro rfl
        apply hbefore
        rw [List.head?_append] at hhead
        cases before <;> simp_all
      simp only [List.concat_eq_append, List.append_assoc, List.singleton_append] at *
      have hprev : (lru.table i).prev = p := (linked_append_cons_cons.mp hrep.linked).2.1.2
      rw [if_neg hleast, hprev]
      have hpushed := hrep.unlink.pushBack (i := i) (by
        simp only [List.mem_append, List.mem_cons, not_or] at hbefore hafter ⊢
        exact ⟨hbefore.1, hbefore.2.1, hafter.1, hafter.2⟩)
      simpa using hpushed

/-- Deleting a slot moves it to the front of the order. -/
theorem mvCesaCacheIdxDelete_represents {lru : LruCache} {order : List ℤ} {i : ℤ}
    (hrep : lru.Represents order) (hi : i ∈ order) :
    (mvCesaCacheIdxDelete lru i).Represents (i :: order.erase i) := by
  obtain ⟨before, after, rfl, hbefore, hafter, herase⟩ := hrep.split hi
  have hlast := hrep.last
  have hhead := hrep.head
  rw [herase]
  unfold mvCesaCacheIdxDelete
  rcases List.eq_nil_or_concat before with rfl | ⟨before, p, rfl⟩
  · have hleast : i = lru.least := by simpa using hhead
    rw [if_pos hleast]
    exact hrep
  · have hleast : i ≠ lru.least := by
      rintro rfl
      apply hbefore
      rw [List.head?_append] at hhead
      cases before <;> simp_all
    simp only [List.concat_eq_append, List.append_assoc, List.singleton_append] at *
    have hprev : (lru.table i).prev = p := (linked_append_cons_cons.mp hrep.linked).2.1.2
    rw [if_neg hleast]
    simp only [hprev]
    cases after with
    | nil =>
      have hmost : i = lru.most := by simpa using hlast
      rw [if_pos hmost]
      exact (LruCache.Represents.dropLast hrep).pushFront hbefore
    | cons n after =>
      have hmost : i ≠ lru.most := by
        rintro rfl
        rw [List.getLast?_append_cons, List.getLast?_cons_cons, List.getLast?_cons_cons] at hlast
        exact hafter (List.mem_of_getLast? hlast)
      have hnext : (lru.table i).next = n :=
        (List.isChain_cons_cons.mp (linked_append_cons_cons.mp hrep.linked).2.2).1.1
      rw [if_neg hmost, hnext]
      exact hrep.unlink.pushFront (by
        simp only [List.mem_append, List.mem_cons, not_or] at hbefore hafter ⊢
        exact ⟨hbefore.1, hbefore.2.1, hafter.1, hafter.2⟩)

/-- The operations on a table of `n` slots. -/
inductive LruEvent (n : ℕ)
  | update (slot : Fin n)
  | delete (slot : Fin n)

namespace LruEvent

variable {n : ℕ}

/-- What an operation does to the table. -/
def apply (lru : LruCache) : LruEvent n → LruCache
  | update slot => mvCesaCacheIdxUpdate lru slot
  | delete slot => mvCesaCacheIdxDelete lru slot

/-- What an operation does to a plain list of the slots, from the least to the most recently used
one: the updated slot becomes the last one, the deleted one becomes the first one. -/
def move (order : List ℤ) : LruEvent n → List ℤ
  | update slot => order.erase slot ++ [(slot : ℤ)]
  | delete slot => slot :: order.erase slot

end LruEvent

/-- The table after a sequence of operations. -/
def lruAfter (n : ℕ) (events : List (LruEvent n)) : LruCache :=
  events.foldl LruEvent.apply (mvLruCacheInit n)

/-- The plain list after a sequence of operations. -/
def lruOrder (n : ℕ) (events : List (LruEvent n)) : List ℤ :=
  events.foldl LruEvent.move ((List.range n).map fun i : ℕ => (i : ℤ))

/-- The slots that are visited from the `least` end on, along the links `next`. -/
def LruCache.walk (lru : LruCache) : ℕ → ℤ → List ℤ
  | 0, _ => []
  | k + 1, i => i :: lru.walk k (lru.next i)

/-- A walk along the links visits the slots of a linked order. -/
theorem LruCache.walk_linked {lru : LruCache} {i : ℤ} {order : List ℤ}
    (hlinked : Linked lru.next lru.prev (i :: order)) :
    lru.walk (order.length + 1) i = i :: order := by
  induction order generalizing i with
  | nil => rfl
  | cons j order ih =>
    obtain ⟨⟨hnext, -⟩, hrest⟩ := List.isChain_cons_cons.mp hlinked
    rw [List.length_cons, LruCache.walk, hnext, ih hrest]

/-- An operation moves a slot of the plain list. -/
theorem LruEvent.move_perm {n : ℕ} (event : LruEvent n) {order : List ℤ}
    (hmem : ∀ slot : Fin n, (slot : ℤ) ∈ order) : (event.move order).Perm order := by
  cases event with
  | update slot =>
    refine (List.perm_append_singleton _ _).trans ?_
    exact (List.perm_cons_erase (hmem slot)).symm
  | delete slot => exact (List.perm_cons_erase (hmem slot)).symm

/-- The table represents the plain list after every sequence of operations. -/
theorem lruAfter_represents {n : ℕ} (hn : 0 < n) (events : List (LruEvent n)) :
    (lruAfter n events).Represents (lruOrder n events) ∧
      (lruOrder n events).Perm ((List.range n).map fun i : ℕ => (i : ℤ)) := by
  induction events using List.reverseRecOn with
  | nil =>
    obtain ⟨m, rfl⟩ := Nat.exists_eq_succ_of_ne_zero hn.ne'
    exact ⟨mvLruCacheInit_represents m, List.Perm.refl _⟩
  | append_singleton events event ih =>
    obtain ⟨hrep, hperm⟩ := ih
    have hmem (slot : Fin n) : (slot : ℤ) ∈ lruOrder n events := by
      rw [hperm.mem_iff, List.mem_map]
      exact ⟨slot, List.mem_range.mpr slot.isLt, rfl⟩
    have htable : lruAfter n (events ++ [event]) = event.apply (lruAfter n events) := by
      simp [lruAfter]
    have horder : lruOrder n (events ++ [event]) = event.move (lruOrder n events) := by
      simp [lruOrder]
    rw [htable, horder]
    refine ⟨?_, (event.move_perm hmem).trans hperm⟩
    cases event with
    | update slot => exact mvCesaCacheIdxUpdate_represents hrep (hmem slot)
    | delete slot => exact mvCesaCacheIdxDelete_represents hrep (hmem slot)

/-- The replacement order. After every sequence of operations, following `next` from the `least`
slot visits the slots in the order of the plain list, which has each of them once, and ends at the
`most` slot; a slot that is followed by another one is its `prev`; and the slot to be replaced is
the first one of the plain list. -/
theorem lruRun_order {n : ℕ} (hn : 2 ≤ n) (events : List (LruEvent n)) :
    let lru := lruAfter n events
    let order := lruOrder n events
    lru.walk n lru.least = order ∧ order.Nodup ∧ (∀ i : ℤ, i ∈ order ↔ 0 ≤ i ∧ i < n) ∧
      order.getLast? = some lru.most ∧
      (∀ before i j after, order = before ++ i :: j :: after → lru.next i = j ∧ lru.prev j = i) ∧
      order.head? = some (mvCesaCacheIdxFind lru) := by
  obtain ⟨hrep, hperm⟩ := lruAfter_represents (by omega : 0 < n) events
  dsimp only
  refine ⟨?_, hrep.nodup, fun i => ?_, hrep.last, ?_, hrep.head⟩
  · have hlength : (lruOrder n events).length = n := by
      rw [hperm.length_eq, List.length_map, List.length_range]
    have hhead := hrep.head
    have hlinked := hrep.linked
    cases horder : lruOrder n events with
    | nil =>
      rw [horder] at hhead
      cases hhead
    | cons i order =>
      rw [horder] at hhead hlinked hlength
      obtain rfl : i = (lruAfter n events).least := Option.some.inj hhead
      rw [List.length_cons] at hlength
      rw [← LruCache.walk_linked hlinked, hlength]
  · rw [hperm.mem_iff, List.mem_map]
    constructor
    · rintro ⟨k, hk, rfl⟩
      have hk := List.mem_range.mp hk
      omega
    · rintro ⟨hle, hlt⟩
      exact ⟨i.toNat, List.mem_range.mpr (by omega), by omega⟩
  · intro before i j after horder
    have hlinked := hrep.linked
    rw [horder] at hlinked
    exact (linked_append_cons_cons.mp hlinked).2.1

/-- Four slots, of which an inner one, the first one and the last one are moved. -/
theorem lruRun_order_four :
    lruOrder 4 [.update 1, .delete 3, .update 3, .delete 1] = [1, 0, 2, 3] ∧
      (lruAfter 4 [.update 1, .delete 3, .update 3, .delete 1]).walk 4 1 = [1, 0, 2, 3] := by
  have horder := lruRun_order (by decide : 2 ≤ 4) [.update 1, .delete 3, .update 3, .delete 1]
  exact ⟨by decide, horder.1⟩

end Mv88fxx81.Cesa
