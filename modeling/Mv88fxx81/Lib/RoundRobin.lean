import Mathlib.Algebra.BigOperators.Group.Finset.Basic
import Mathlib.Algebra.Order.BigOperators.Group.Finset
import Mathlib.Algebra.BigOperators.Intervals
import Mathlib.Data.Fintype.Basic
import Mathlib.Logic.Function.Iterate

/-!
# Weighted round robin

Queues are served in turn, each as often as its quota says before the turn goes on, downward from
queue to queue and from the lowest one back to the highest. A queue that is not ready loses its
turn. With positive quotas no queue is served more often in a row than its quota says while others
wait, and none waits for longer than the quotas of all the others.
-/

namespace Mv88fxx81.RoundRobin

variable {N : ℕ} {c p q : Fin N} {i j k : ℕ}

/-- The queue below, and the highest one below the lowest. -/
def back (c : Fin N) : Fin N :=
  ⟨if c.val = 0 then N - 1 else c.val - 1, by
    have hlt := c.isLt
    split <;> omega⟩

theorem back_val (c : Fin N) : (back c).val = if c.val = 0 then N - 1 else c.val - 1 := rfl

/-- The queue some steps below, up to one round. -/
theorem back_iterate_val (c : Fin N) (hk : k ≤ N) :
    (back^[k] c).val = if k ≤ c.val then c.val - k else c.val + N - k := by
  have hlt := c.isLt
  induction k with
  | zero =>
    rw [Function.iterate_zero_apply, if_pos (Nat.zero_le _), Nat.sub_zero]
  | succ k ih =>
    rw [Function.iterate_succ_apply', back_val, ih (by omega)]
    split_ifs <;> omega

/-- The number of steps down to a queue, a whole round for the same one. -/
def steps (c q : Fin N) : ℕ := if q.val < c.val then c.val - q.val else c.val + N - q.val

theorem steps_pos (c q : Fin N) : 0 < steps c q := by
  have hc := c.isLt
  have hq := q.isLt
  unfold steps
  split_ifs <;> omega

theorem steps_le (c q : Fin N) : steps c q ≤ N := by
  have hc := c.isLt
  unfold steps
  split_ifs <;> omega

/-- The steps lead to the queue. -/
theorem back_steps (c q : Fin N) : back^[steps c q] c = q := by
  have hc := c.isLt
  have hq := q.isLt
  apply Fin.ext
  rw [back_iterate_val c (steps_le c q)]
  unfold steps
  split_ifs <;> omega

/-- The steps to a queue are those that lead there, in one round. -/
theorem steps_eq (hpos : 0 < k) (hle : k ≤ N) (hback : back^[k] c = q) : steps c q = k := by
  have hc := c.isLt
  have hval := congrArg Fin.val hback
  rw [back_iterate_val c hle] at hval
  unfold steps
  split_ifs at hval ⊢ <;> omega

/-- A queue that stands before another one on the way leaves the rest of the way. -/
theorem steps_sub (hpos : 0 < k) (hlt : k < steps c q) (hback : back^[k] c = p) :
    steps p q = steps c q - k := by
  have hle := steps_le c q
  apply steps_eq (by omega) (by omega)
  rw [← hback, ← Function.iterate_add_apply, Nat.sub_add_cancel (by omega), back_steps]

/-- No queue comes twice within a round. -/
theorem back_iterate_inj (hi : i < N) (hj : j < N) (hback : back^[i] c = back^[j] c) : i = j := by
  have hc := c.isLt
  have hval := congrArg Fin.val hback
  rw [back_iterate_val c (by omega), back_iterate_val c (by omega)] at hval
  split_ifs at hval <;> omega

variable {ok : Fin N → Bool} {fuel : ℕ}

/-- The first queue below that will do, within some steps. -/
def search (ok : Fin N → Bool) : ℕ → Fin N → Option (Fin N)
  | 0, _ => none
  | fuel + 1, c => if ok (back c) then some (back c) else search ok fuel (back c)

/-- What the search finds. -/
theorem search_eq_some (hsearch : search ok fuel c = some p) :
    ∃ k, 0 < k ∧ k ≤ fuel ∧ back^[k] c = p ∧ ok p = true ∧
      ∀ j, 0 < j → j < k → ok (back^[j] c) = false := by
  induction fuel generalizing c with
  | zero => cases hsearch
  | succ fuel ih =>
    unfold search at hsearch
    by_cases hok : ok (back c) = true
    · rw [if_pos hok] at hsearch
      obtain rfl := Option.some.inj hsearch
      refine ⟨1, Nat.one_pos, by omega, rfl, hok, fun j hj hj' => ?_⟩
      omega
    · rw [if_neg hok] at hsearch
      obtain ⟨k, hpos, hle, hback, hp, hbefore⟩ := ih hsearch
      refine ⟨k + 1, Nat.succ_pos k, by omega, hback, hp, fun j hj hj' => ?_⟩
      cases j with
      | zero => omega
      | succ j =>
        cases j with
        | zero => exact Bool.eq_false_iff.mpr hok
        | succ j => exact hbefore (j + 1) (Nat.succ_pos j) (by omega)

/-- The search ends at a queue that it comes to and that will do. -/
theorem search_isSome (hpos : 0 < k) (hle : k ≤ fuel) (hok : ok (back^[k] c) = true) :
    (search ok fuel c).isSome := by
  induction fuel generalizing c k with
  | zero => omega
  | succ fuel ih =>
    unfold search
    by_cases hfirst : ok (back c) = true
    · rw [if_pos hfirst]
      rfl
    · rw [if_neg hfirst]
      cases k with
      | zero => omega
      | succ k =>
        rw [Function.iterate_succ_apply] at hok
        cases k with
        | zero => exact absurd hok hfirst
        | succ k => exact ih (Nat.succ_pos k) (by omega) hok

/-- The search ends within a round where something will do. -/
theorem search_isSome_of_ok (c : Fin N) (hok : ok p = true) : (search ok N c).isSome :=
  search_isSome (steps_pos c p) (steps_le c p) (by rw [back_steps, hok])

/-- A search that has ended stays as it is with more steps. -/
theorem search_mono {fuel' : ℕ} (hle : fuel ≤ fuel') (hsearch : search ok fuel c = some p) :
    search ok fuel' c = some p := by
  induction fuel generalizing c fuel' with
  | zero => cases hsearch
  | succ fuel ih =>
    obtain ⟨fuel', rfl⟩ : ∃ n, fuel' = n + 1 := ⟨fuel' - 1, by omega⟩
    unfold search at hsearch ⊢
    by_cases hok : ok (back c) = true
    · rw [if_pos hok] at hsearch ⊢
      exact hsearch
    · rw [if_neg hok] at hsearch ⊢
      exact ih (by omega) hsearch

/-- Whose turn it is, and how often it may still be served. -/
structure Turn (N : ℕ) where
  cur : Fin N
  left : ℤ

/-- One queue is served out of those that are ready. -/
inductive Serves (quota : Fin N → ℤ) (s : Turn N) (ready : Fin N → Bool) :
    Fin N → Turn N → Prop
  | stay (hready : ready s.cur = true) (hleft : 0 < s.left) :
      Serves quota s ready s.cur ⟨s.cur, s.left - 1⟩
  | move {fuel : ℕ} {p : Fin N} (hturn : ¬ (ready s.cur = true ∧ 0 < s.left))
      (hsearch : search (fun q => ready q && decide (quota q ≠ 0)) fuel s.cur = some p) :
      Serves quota s ready p ⟨p, quota p - 1⟩

/-- Some queues are served one after the other; the trace has those that are ready and the one that
is served. -/
inductive Serve (quota : Fin N → ℤ) : Turn N → List ((Fin N → Bool) × Fin N) → Turn N → Prop
  | nil {s : Turn N} : Serve quota s [] s
  | cons {s s' s'' : Turn N} {ready : Fin N → Bool} {q : Fin N}
      {trace : List ((Fin N → Bool) × Fin N)} (hserves : Serves quota s ready q s')
      (hrest : Serve quota s' trace s'') : Serve quota s ((ready, q) :: trace) s''

variable {quota : Fin N → ℤ} {s s' : Turn N} {ready : Fin N → Bool}
  {trace rest : List ((Fin N → Bool) × Fin N)}

/-- The start and the end of a trace. -/
theorem Serve.append (hserve : Serve quota s (trace ++ rest) s') :
    ∃ t, Serve quota s trace t ∧ Serve quota t rest s' := by
  induction trace generalizing s with
  | nil => exact ⟨s, .nil, hserve⟩
  | cons entry trace ih =>
    rw [List.cons_append] at hserve
    cases hserve with
    | cons hserves hrest =>
      obtain ⟨t, hstart, hend⟩ := ih hrest
      exact ⟨t, .cons hserves hstart, hend⟩

/-- A queue that is served is ready. -/
theorem Serves.isReady (hserves : Serves quota s ready q s') : ready q = true := by
  cases hserves with
  | stay hready _ => exact hready
  | move _ hsearch =>
    obtain ⟨-, -, -, -, hok, -⟩ := search_eq_some hsearch
    exact (Bool.and_eq_true_iff.mp hok).1

/-- The queue whose turn it is has no more left than its quota. -/
def Fits (quota : Fin N → ℤ) (s : Turn N) : Prop := s.left ≤ quota s.cur

/-- What is left of a turn stays within the quota. -/
theorem Serves.fits (hserves : Serves quota s ready q s') (hfits : Fits quota s) :
    Fits quota s' := by
  unfold Fits at *
  cases hserves with
  | stay _ _ =>
    dsimp only
    omega
  | move _ _ =>
    dsimp only
    omega

theorem Serve.fits (hserve : Serve quota s trace s') (hfits : Fits quota s) : Fits quota s' := by
  induction hserve with
  | nil => exact hfits
  | cons hserves _ ih => exact ih (hserves.fits hfits)

/-- How often a queue may be served in a row while others are ready. -/
def inRow (quota : Fin N → ℤ) (s : Turn N) (q : Fin N) : ℤ :=
  if s.cur = q then max s.left 0 else quota q

/-- A queue that is served while another one is ready may be served once less. -/
theorem Serves.inRow (hpos : ∀ p, 0 < quota p) (hserves : Serves quota s ready q s')
    (hother : ∃ p, p ≠ q ∧ ready p = true) : RoundRobin.inRow quota s' q + 1 ≤
      RoundRobin.inRow quota s q := by
  unfold RoundRobin.inRow
  cases hserves with
  | stay _ hleft =>
    rw [if_pos rfl, if_pos rfl]
    dsimp only
    omega
  | move _ hsearch =>
    obtain ⟨k, hkpos, -, hback, -, hbefore⟩ := search_eq_some hsearch
    obtain ⟨p, hne, hp⟩ := hother
    have hq := hpos q
    -- the search would have come to the other queue before it came back
    have hcur : s.cur ≠ q := by
      intro hcur
      have hlt : steps s.cur p < k := by
        have hle := steps_le s.cur p
        have hself : steps s.cur q = N := by
          rw [hcur]
          unfold steps
          rw [if_neg (Nat.lt_irrefl _)]
          omega
        have hne' : steps s.cur p ≠ N := by
          intro heq
          have hsame := back_steps s.cur p
          rw [heq.trans hself.symm, back_steps] at hsame
          exact hne hsame.symm
        by_contra hnot
        have hkN : k = N := by
          have heq := steps_eq hkpos (by omega) hback
          omega
        omega
      have hok := hbefore _ (steps_pos s.cur p) hlt
      rw [back_steps] at hok
      have hquota : decide (quota p ≠ 0) = true := decide_eq_true (ne_of_gt (hpos p))
      rw [hp, hquota] at hok
      cases hok
    rw [if_pos rfl, if_neg hcur]
    dsimp only
    omega

/-- A queue that is served in a row while others are ready is served no more often than it may. -/
theorem Serve.inRow (hpos : ∀ p, 0 < quota p) (hserve : Serve quota s trace s')
    (hrow : ∀ entry ∈ trace, entry.2 = q ∧ ∃ p, p ≠ q ∧ entry.1 p = true) :
    (trace.length : ℤ) ≤ RoundRobin.inRow quota s q := by
  induction hserve with
  | nil =>
    have hq := hpos q
    unfold RoundRobin.inRow
    rw [List.length_nil]
    split_ifs <;> omega
  | cons hserves _ ih =>
    obtain ⟨hsame, hother⟩ := hrow _ List.mem_cons_self
    dsimp only at hsame hother
    rw [hsame] at hserves
    have hstep := hserves.inRow hpos hother
    have hrest := ih fun entry hentry => hrow entry (List.mem_cons_of_mem _ hentry)
    rw [List.length_cons]
    push_cast
    omega

/-- Within the quota, a queue may be served in a row as often as its quota says. -/
theorem inRow_le (hpos : ∀ p, 0 < quota p) (hfits : Fits quota s) (q : Fin N) :
    inRow quota s q ≤ quota q := by
  have hq := hpos q
  unfold inRow
  unfold Fits at hfits
  by_cases hcur : s.cur = q
  · rw [if_pos hcur]
    rw [hcur] at hfits
    omega
  · rw [if_neg hcur]

/-- How often others may be served before a queue that is ready. -/
def before (quota : Fin N → ℤ) (s : Turn N) (q : Fin N) : ℤ :=
  (if s.cur = q then 0 else max s.left 0) +
    ∑ i ∈ Finset.Ico 1 (steps s.cur q), quota (back^[i] s.cur)

/-- Serving another queue than one that is ready makes the others that may come before it fewer. -/
theorem Serves.before (hpos : ∀ p, 0 < quota p) (hserves : Serves quota s ready p s')
    (hready : ready q = true) (hne : p ≠ q) :
    RoundRobin.before quota s' q + 1 ≤ RoundRobin.before quota s q := by
  unfold RoundRobin.before
  cases hserves with
  | stay _ hleft =>
    rw [if_neg hne, if_neg hne]
    dsimp only
    omega
  | move _ hsearch =>
    obtain ⟨k, hkpos, -, hback, -, hbefore⟩ := search_eq_some hsearch
    have hp := hpos p
    -- the search has not come as far as the queue that is ready
    have hlt : k < steps s.cur q := by
      by_contra hnot
      rcases Nat.eq_or_lt_of_le (Nat.le_of_not_lt hnot) with heq | hlt
      · rw [← heq, back_steps] at hback
        exact hne hback.symm
      · have hok := hbefore _ (steps_pos s.cur q) hlt
        rw [back_steps] at hok
        have hquota : decide (quota q ≠ 0) = true := decide_eq_true (ne_of_gt (hpos q))
        rw [hready, hquota] at hok
        cases hok
    have hrest : ∑ i ∈ Finset.Ico 1 (steps p q), quota (back^[i] p) =
        ∑ i ∈ Finset.Ico (k + 1) (steps s.cur q), quota (back^[i] s.cur) := by
      have hshift := Finset.sum_Ico_add' (fun i => quota (back^[i] s.cur)) 1 (steps p q) k
      rw [steps_sub hkpos hlt hback, Nat.sub_add_cancel (Nat.le_of_lt hlt),
        Nat.add_comm 1 k] at hshift
      rw [← hshift, steps_sub hkpos hlt hback]
      apply Finset.sum_congr rfl
      intro i _
      rw [Function.iterate_add_apply, hback]
    have hsplit := Finset.sum_Ico_consecutive (fun i => quota (back^[i] s.cur))
      (by omega : 1 ≤ k) (Nat.le_of_lt hlt)
    have hfirst := Finset.sum_eq_sum_Ico_succ_bot hlt fun i => quota (back^[i] s.cur)
    rw [hback] at hfirst
    have hnonneg : 0 ≤ ∑ i ∈ Finset.Ico 1 k, quota (back^[i] s.cur) :=
      Finset.sum_nonneg fun i _ => le_of_lt (hpos _)
    have hturn : (0 : ℤ) ≤ if s.cur = q then 0 else max s.left 0 := by
      split_ifs <;> omega
    rw [if_neg hne, hrest]
    dsimp only
    have hmax : max (quota p - 1) 0 = quota p - 1 := max_eq_left (by omega)
    rw [hmax]
    omega

/-- A queue that stays ready and is not served waits no longer than others may come before it. -/
theorem Serve.before (hpos : ∀ p, 0 < quota p) (hserve : Serve quota s trace s')
    (hwaits : ∀ entry ∈ trace, entry.1 q = true ∧ entry.2 ≠ q) :
    (trace.length : ℤ) ≤ RoundRobin.before quota s q := by
  induction hserve with
  | nil =>
    rw [List.length_nil]
    unfold RoundRobin.before
    apply add_nonneg
    · split_ifs
      · exact le_refl _
      · exact le_max_right _ _
    · exact Finset.sum_nonneg fun i _ => le_of_lt (hpos _)
  | cons hserves _ ih =>
    obtain ⟨hready, hne⟩ := hwaits _ List.mem_cons_self
    have hstep := hserves.before hpos hready hne
    have hrest := ih fun entry hentry => hwaits entry (List.mem_cons_of_mem _ hentry)
    rw [List.length_cons]
    push_cast
    omega

/-- Within the quota, no more come before a queue than the quotas of all the others say. -/
theorem before_le (hpos : ∀ p, 0 < quota p) (hfits : Fits quota s) (q : Fin N) :
    before quota s q ≤ ∑ p ∈ Finset.univ.erase q, quota p := by
  have hsteps := steps_le s.cur q
  -- the queues on the way are different ones
  have hsum : ∀ first, (∀ i ∈ Finset.Ico first (steps s.cur q), back^[i] s.cur ≠ q) →
      ∑ i ∈ Finset.Ico first (steps s.cur q), quota (back^[i] s.cur) ≤
        ∑ p ∈ Finset.univ.erase q, quota p := by
    intro first havoid
    have hinj : Set.InjOn (fun i => back^[i] s.cur)
        (Finset.Ico first (steps s.cur q) : Finset ℕ) := by
      intro i hi j hj hij
      rw [Finset.mem_coe, Finset.mem_Ico] at hi hj
      exact back_iterate_inj (by omega) (by omega) hij
    rw [← Finset.sum_image hinj]
    apply Finset.sum_le_sum_of_subset_of_nonneg
    · intro p hp
      obtain ⟨i, hi, rfl⟩ := Finset.mem_image.mp hp
      exact Finset.mem_erase.mpr ⟨havoid i hi, Finset.mem_univ _⟩
    · intro p _ _
      exact le_of_lt (hpos p)
  have havoid : ∀ i, 0 < i → i < steps s.cur q → back^[i] s.cur ≠ q := by
    intro i hi hlt hback
    have heq := steps_eq hi (by omega) hback
    omega
  unfold before
  unfold Fits at hfits
  by_cases hcur : s.cur = q
  · rw [if_pos hcur, zero_add]
    apply hsum
    intro i hi
    rw [Finset.mem_Ico] at hi
    exact havoid i hi.1 hi.2
  · have hall := hsum 0 (by
      intro i hi
      rw [Finset.mem_Ico] at hi
      by_cases hzero : i = 0
      · rw [hzero, Function.iterate_zero_apply]
        exact hcur
      · exact havoid i (by omega) hi.2)
    rw [Finset.sum_eq_sum_Ico_succ_bot (steps_pos s.cur q), Function.iterate_zero_apply] at hall
    have hown := hpos s.cur
    rw [if_neg hcur]
    refine le_trans ?_ hall
    have hmax : max s.left 0 ≤ quota s.cur := max_le hfits (le_of_lt hown)
    exact add_le_add hmax (le_refl _)

end Mv88fxx81.RoundRobin
