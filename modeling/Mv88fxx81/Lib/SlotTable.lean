import Mathlib.Data.Set.Card

/-!
# Tables of slots

A table of `n` slots, some of which hold a key with its value, stands for a finite map when no two
of its slots hold one key. Writing to a slot that is free, or that holds the key already, writes to
the map, and freeing a slot erases its key. The map has as many keys as slots are in use.
-/

namespace Mv88fxx81.SlotTable

variable {κ ν : Type*} {slots : ℕ → Option (κ × ν)} {n i : ℕ} {m : κ → Option ν} {k : κ}
  {v : ν}

/-- The first `n` slots stand for a map. -/
structure Represents (slots : ℕ → Option (κ × ν)) (n : ℕ) (m : κ → Option ν) : Prop where
  lookup : ∀ k v, m k = some v ↔ ∃ i < n, slots i = some (k, v)
  distinct : ∀ i < n, ∀ j < n, ∀ k v w, slots i = some (k, v) → slots j = some (k, w) → i = j

/-- The keys of a map. -/
def keys (m : κ → Option ν) : Set κ := {k | m k ≠ none}

/-- Free slots stand for the empty map. -/
theorem represents_free (hfree : ∀ i < n, slots i = none) :
    Represents slots n (fun _ => none) := by
  refine ⟨fun k v => ?_, fun i hi j _ k v w hv _ => ?_⟩
  · constructor
    · nofun
    · rintro ⟨i, hi, hslot⟩
      rw [hfree i hi] at hslot
      cases hslot
  · rw [hfree i hi] at hv
    cases hv

/-- The map at the key of a slot. -/
theorem Represents.of_slot (hrep : Represents slots n m) (hi : i < n)
    (hslot : slots i = some (k, v)) : m k = some v :=
  (hrep.lookup k v).mpr ⟨i, hi, hslot⟩

/-- The map does not have a key that no slot holds. -/
theorem Represents.eq_none (hrep : Represents slots n m)
    (habsent : ∀ i < n, ∀ v, slots i ≠ some (k, v)) : m k = none := by
  cases hm : m k with
  | none => rfl
  | some v =>
    obtain ⟨i, hi, hslot⟩ := (hrep.lookup k v).mp hm
    exact absurd hslot (habsent i hi v)

variable [DecidableEq κ]

/-- A key is written to a slot that is free, when no slot holds the key, or that holds it. -/
theorem Represents.insert (hrep : Represents slots n m) (hi : i < n)
    (hslot : (slots i = none ∧ m k = none) ∨ ∃ w, slots i = some (k, w)) :
    Represents (Function.update slots i (some (k, v))) n (Function.update m k (some v)) := by
  -- no other slot holds the key
  have hother : ∀ j < n, j ≠ i → ∀ w, slots j ≠ some (k, w) := by
    intro j hj hne w hw
    rcases hslot with ⟨-, hnone⟩ | ⟨w', hw'⟩
    · rw [hrep.of_slot hj hw] at hnone
      cases hnone
    · exact hne (hrep.distinct j hj i hi k w w' hw hw')
  -- the slot holds no other key
  have hsame : ∀ k', k' ≠ k → ∀ w, slots i ≠ some (k', w) := by
    intro k' hne w hw
    rcases hslot with ⟨hnone, -⟩ | ⟨w', hw'⟩
    · rw [hnone] at hw
      cases hw
    · rw [hw'] at hw
      exact hne (Prod.mk.inj (Option.some.inj hw)).1.symm
  refine ⟨fun k' w => ?_, fun j hj j' hj' k' w w' hw hw' => ?_⟩
  · by_cases hkey : k' = k
    · rw [hkey, Function.update_self]
      constructor
      · intro hv
        refine ⟨i, hi, ?_⟩
        rw [Function.update_self, Option.some.inj hv]
      · rintro ⟨j, hj, hw⟩
        by_cases hji : j = i
        · rw [hji, Function.update_self] at hw
          rw [(Prod.mk.inj (Option.some.inj hw)).2]
        · rw [Function.update_of_ne hji] at hw
          exact absurd hw (hother j hj hji w)
    · rw [Function.update_of_ne hkey, hrep.lookup]
      constructor
      · rintro ⟨j, hj, hw⟩
        refine ⟨j, hj, ?_⟩
        rwa [Function.update_of_ne]
        rintro rfl
        exact hsame k' hkey w hw
      · rintro ⟨j, hj, hw⟩
        by_cases hji : j = i
        · rw [hji, Function.update_self] at hw
          exact absurd (Prod.mk.inj (Option.some.inj hw)).1.symm hkey
        · rw [Function.update_of_ne hji] at hw
          exact ⟨j, hj, hw⟩
  · by_cases hji : j = i
    · by_cases hji' : j' = i
      · rw [hji, hji']
      · rw [hji, Function.update_self] at hw
        rw [Function.update_of_ne hji', ← (Prod.mk.inj (Option.some.inj hw)).1] at hw'
        exact absurd hw' (hother j' hj' hji' w')
    · rw [Function.update_of_ne hji] at hw
      by_cases hji' : j' = i
      · rw [hji', Function.update_self] at hw'
        rw [← (Prod.mk.inj (Option.some.inj hw')).1] at hw
        exact absurd hw (hother j hj hji w)
      · rw [Function.update_of_ne hji'] at hw'
        exact hrep.distinct j hj j' hj' k' w w' hw hw'

/-- A slot is freed. -/
theorem Represents.erase (hrep : Represents slots n m) (hi : i < n)
    (hslot : slots i = some (k, v)) :
    Represents (Function.update slots i none) n (Function.update m k none) := by
  refine ⟨fun k' w => ?_, fun j hj j' hj' k' w w' hw hw' => ?_⟩
  · by_cases hkey : k' = k
    · rw [hkey, Function.update_self]
      constructor
      · nofun
      · rintro ⟨j, hj, hw⟩
        by_cases hji : j = i
        · rw [hji, Function.update_self] at hw
          cases hw
        · rw [Function.update_of_ne hji] at hw
          exact absurd (hrep.distinct j hj i hi k w v hw hslot) hji
    · rw [Function.update_of_ne hkey, hrep.lookup]
      constructor
      · rintro ⟨j, hj, hw⟩
        refine ⟨j, hj, ?_⟩
        rwa [Function.update_of_ne]
        rintro rfl
        rw [hslot] at hw
        exact hkey (Prod.mk.inj (Option.some.inj hw)).1.symm
      · rintro ⟨j, hj, hw⟩
        by_cases hji : j = i
        · rw [hji, Function.update_self] at hw
          cases hw
        · rw [Function.update_of_ne hji] at hw
          exact ⟨j, hj, hw⟩
  · have hji : j ≠ i := by
      rintro rfl
      rw [Function.update_self] at hw
      cases hw
    have hji' : j' ≠ i := by
      rintro rfl
      rw [Function.update_self] at hw'
      cases hw'
    rw [Function.update_of_ne hji] at hw
    rw [Function.update_of_ne hji'] at hw'
    exact hrep.distinct j hj j' hj' k' w w' hw hw'

omit [DecidableEq κ] in
/-- The map has as many keys as slots are in use. -/
theorem Represents.ncard_keys (hrep : Represents slots n m) :
    (keys m).ncard = ((Finset.range n).filter fun i => (slots i).isSome).card := by
  have hused : ∀ i ∈ (↑((Finset.range n).filter fun i => (slots i).isSome) : Set ℕ),
      i < n ∧ (slots i).isSome := by
    intro i hi
    rw [Finset.mem_coe, Finset.mem_filter, Finset.mem_range] at hi
    exact hi
  have hget : ∀ i (hsome : (slots i).isSome),
      slots i = some (((slots i).get hsome).1, ((slots i).get hsome).2) := by
    intro i hsome
    rw [Prod.mk.eta, Option.some_get]
  rw [← Set.ncard_coe_finset]
  symm
  apply Set.ncard_congr fun i hi => ((slots i).get (hused i hi).2).1
  · intro i hi
    have hkey := hrep.of_slot (hused i hi).1 (hget i (hused i hi).2)
    intro hnone
    rw [hnone] at hkey
    cases hkey
  · intro i j hi hj hkeys
    have hslot := hget i (hused i hi).2
    rw [hkeys] at hslot
    exact hrep.distinct i (hused i hi).1 j (hused j hj).1 _ _ _ hslot (hget j (hused j hj).2)
  · intro k hk
    obtain ⟨v, hv⟩ := Option.ne_none_iff_exists'.mp hk
    obtain ⟨i, hi, hslot⟩ := (hrep.lookup k v).mp hv
    refine ⟨i, ?_, ?_⟩
    · rw [Finset.mem_coe, Finset.mem_filter, Finset.mem_range, hslot]
      exact ⟨hi, rfl⟩
    · simp only [hslot, Option.get_some]

omit [DecidableEq κ] in
/-- The map has at most as many keys as there are slots. -/
theorem Represents.ncard_le (hrep : Represents slots n m) : (keys m).ncard ≤ n := by
  rw [hrep.ncard_keys]
  exact (Finset.card_filter_le _ _).trans_eq (Finset.card_range n)

omit [DecidableEq κ] in
/-- There is a key that the map does not have, where there are more keys than slots. -/
theorem Represents.exists_absent (hrep : Represents slots n m) (hcard : n < Nat.card κ) :
    ∃ k, m k = none := by
  by_contra hall
  have huniv : keys m = Set.univ := by
    apply Set.eq_univ_of_forall
    intro k hk
    exact hall ⟨k, hk⟩
  have hle := hrep.ncard_le
  rw [huniv, Set.ncard_univ] at hle
  omega

omit [DecidableEq κ] in
/-- All slots are in use exactly when the map has as many keys as there are slots. -/
theorem Represents.full_iff (hrep : Represents slots n m) :
    (keys m).ncard = n ↔ ∀ i < n, slots i ≠ none := by
  have hall := Finset.card_filter_eq_iff (s := Finset.range n) (p := fun i => (slots i).isSome)
  rw [Finset.card_range] at hall
  rw [hrep.ncard_keys, hall]
  simp only [Finset.mem_range, Option.isSome_iff_ne_none]

end Mv88fxx81.SlotTable
