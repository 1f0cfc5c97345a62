import Mathlib.Data.List.Range
import Mathlib.Data.Nat.Notation

/-!
# Streams of blocks in a memory

A loop reads a block after the other from one place of a memory, turns it into another block with
a state that is carried along, and writes that to a second place. As long as the writes stay behind
the reads, the outputs are those of the blocks the memory held at the start, and a second stream
whose steps undo those of the first brings the blocks back.
-/

namespace BlockStream

/-- Blocks of `size` bytes each. -/
structure Format (α β : Type*) where
  size : ℕ
  bytes : β → ℕ → α
  ofBytes : (ℕ → α) → β
  ofBytes_bytes : ∀ b, ofBytes (bytes b) = b
  bytes_ofBytes : ∀ f, ∀ t < size, bytes (ofBytes f) t = f t
  ofBytes_congr : ∀ f g, (∀ t < size, f t = g t) → ofBytes f = ofBytes g

variable {α β σ : Type*} {F : Format α β} {f g : σ → β → σ × β} {s : σ} {b : ℕ → β}
  {mem mem' : ℕ → α} {src dst n : ℕ}

/-- The block at an address. -/
def Format.read (F : Format α β) (mem : ℕ → α) (p : ℕ) : β := F.ofBytes fun t => mem (p + t)

/-- A block written to an address. -/
def Format.write (F : Format α β) (mem : ℕ → α) (p : ℕ) (a : β) : ℕ → α := fun x =>
  if p ≤ x ∧ x < p + F.size then F.bytes a (x - p) else mem x

/-- One turn of the loop. -/
def step (F : Format α β) (f : σ → β → σ × β) (src dst : ℕ) (x : σ × (ℕ → α)) (i : ℕ) :
    σ × (ℕ → α) :=
  let y := f x.1 (F.read x.2 (src + F.size * i))
  (y.1, F.write x.2 (dst + F.size * i) y.2)

/-- The loop. -/
def loop (F : Format α β) (f : σ → β → σ × β) (src dst n : ℕ) (x : σ × (ℕ → α)) : σ × (ℕ → α) :=
  (List.range' 0 n).foldl (step F f src dst) x

/-- The state before a block. -/
def state (f : σ → β → σ × β) (s : σ) (b : ℕ → β) : ℕ → σ
  | 0 => s
  | i + 1 => (f (state f s b i) (b i)).1

/-- The output for a block. -/
def output (f : σ → β → σ × β) (s : σ) (b : ℕ → β) (i : ℕ) : β := (f (state f s b i) (b i)).2

/-- The writes stay behind the reads. -/
def Behind (F : Format α β) (src dst n : ℕ) : Prop := dst ≤ src ∨ src + F.size * n ≤ dst

/-! ### Blocks -/

/-- What has been written is read. -/
theorem Format.read_write (F : Format α β) (mem : ℕ → α) (p : ℕ) (a : β) :
    F.read (F.write mem p a) p = a := by
  rw [← F.ofBytes_bytes a]
  refine F.ofBytes_congr _ _ fun t ht => ?_
  rw [F.ofBytes_bytes, Format.write, if_pos ⟨by omega, by omega⟩, Nat.add_sub_cancel_left]

/-- A read depends on its own elements only. -/
theorem Format.read_congr {p q : ℕ} (h : ∀ t < F.size, mem (p + t) = mem' (q + t)) :
    F.read mem p = F.read mem' q := F.ofBytes_congr _ _ h

/-- Equal reads have equal elements. -/
theorem Format.read_inj {p q : ℕ} (h : F.read mem p = F.read mem' q) {t : ℕ} (ht : t < F.size) :
    mem (p + t) = mem' (q + t) := by
  have hp := F.bytes_ofBytes (fun t => mem (p + t)) t ht
  have hq := F.bytes_ofBytes (fun t => mem' (q + t)) t ht
  rw [← hp, ← hq]
  exact congrArg (F.bytes · t) h

/-- A write keeps the memory outside. -/
theorem Format.write_of_outside {p x : ℕ} {a : β} (h : x < p ∨ p + F.size ≤ x) :
    F.write mem p a x = mem x := if_neg (by omega)

/-! ### The loop -/

/-- One more turn of the loop. -/
theorem loop_succ (x : σ × (ℕ → α)) :
    loop F f src dst (n + 1) x = step F f src dst (loop F f src dst n x) n := by
  rw [loop, List.range'_1_concat, List.foldl_append, Nat.zero_add]
  rfl

/-- The loop in two parts. -/
theorem loop_split (m n : ℕ) (x : σ × (ℕ → α)) :
    loop F f src dst (m + n) x =
      loop F f (src + F.size * m) (dst + F.size * m) n (loop F f src dst m x) := by
  induction n with
  | zero => rfl
  | succ n ih =>
    rw [← Nat.add_assoc, loop_succ, ih, loop_succ, step, step, Nat.mul_add, ← Nat.add_assoc,
      ← Nat.add_assoc]

/-- What the loop does to a memory. -/
structure Streams (F : Format α β) (f : σ → β → σ × β) (s : σ) (mem : ℕ → α) (src dst n : ℕ)
    (x : σ × (ℕ → α)) : Prop where
  state_eq : x.1 = state f s (fun i => F.read mem (src + F.size * i)) n
  read_eq : ∀ i < n, F.read x.2 (dst + F.size * i) =
    output f s (fun i => F.read mem (src + F.size * i)) i
  frame : ∀ p, p < dst ∨ dst + F.size * n ≤ p → x.2 p = mem p

/-- The loop streams the blocks of its source. -/
theorem loop_streams (hbehind : Behind F src dst n) :
    Streams F f s mem src dst n (loop F f src dst n (s, mem)) := by
  induction n with
  | zero => exact ⟨rfl, fun i hi => absurd hi (Nat.not_lt_zero i), fun _ _ => rfl⟩
  | succ n ih =>
    unfold Behind at hbehind ih
    rw [Nat.mul_succ] at hbehind
    have hrun := ih (by omega)
    rw [loop_succ, step]
    generalize loop F f src dst n (s, mem) = x at hrun ⊢
    have hread : F.read x.2 (src + F.size * n) = F.read mem (src + F.size * n) :=
      Format.read_congr fun t ht => hrun.frame _ (by omega)
    rw [hread, hrun.state_eq]
    refine ⟨rfl, fun i hi => ?_, fun p hp => ?_⟩
    · by_cases hlast : i = n
      · subst hlast
        exact F.read_write _ _ _
      · have hmul : F.size * (i + 1) ≤ F.size * n := Nat.mul_le_mul_left _ (by omega)
        rw [Nat.mul_succ] at hmul
        rw [← hrun.read_eq i (by omega)]
        exact Format.read_congr fun t ht => Format.write_of_outside (by omega)
    · rw [Nat.mul_succ] at hp
      rw [← hrun.frame p (by omega)]
      exact Format.write_of_outside (by omega)

/-! ### Two streams that undo each other -/

/-- The steps of `g` undo those of `f` and carry the same state. -/
def Undoes (g f : σ → β → σ × β) : Prop := ∀ s b, g s (f s b).2 = ((f s b).1, b)

/-- The undone outputs are the blocks. -/
theorem Undoes.output (hundo : Undoes g f) {c : ℕ → β}
    (hc : ∀ i < n, c i = output f s b i) :
    state g s c n = state f s b n ∧ ∀ i < n, BlockStream.output g s c i = b i := by
  induction n with
  | zero => exact ⟨rfl, fun i hi => absurd hi (Nat.not_lt_zero i)⟩
  | succ n ih =>
    obtain ⟨hstate, hout⟩ := ih fun i hi => hc i (Nat.lt_succ_of_lt hi)
    have hstep : g (state g s c n) (c n) = ((f (state f s b n) (b n)).1, b n) := by
      rw [hstate, hc n (Nat.lt_succ_self n)]
      exact hundo _ _
    have hfst : (g (state g s c n) (c n)).1 = (f (state f s b n) (b n)).1 := by rw [hstep]
    refine ⟨hfst, fun i hi => ?_⟩
    by_cases hlast : i = n
    · subst hlast
      rw [BlockStream.output, hstep]
    · exact hout i (by omega)

/-- Undone in place or elsewhere, the bytes of the stream are those of the start. -/
theorem Undoes.loop (hundo : Undoes g f) {out : ℕ} (hsrc : Behind F src dst n)
    (hout : Behind F dst out n) {p : ℕ} (hp : p < F.size * n) :
    (BlockStream.loop F g dst out n (s, (BlockStream.loop F f src dst n (s, mem)).2)).2 (out + p) =
      mem (src + p) := by
  have hfirst : Streams F f s mem src dst n _ := loop_streams hsrc
  generalize BlockStream.loop F f src dst n (s, mem) = x at hfirst
  have hsecond : Streams F g s x.2 dst out n _ := loop_streams hout
  have hpos : 0 < F.size := by
    by_contra hzero
    rw [Nat.eq_zero_of_not_pos hzero, Nat.zero_mul] at hp
    exact absurd hp (Nat.not_lt_zero p)
  have hi : p / F.size < n := Nat.div_lt_of_lt_mul hp
  have hread := hsecond.read_eq (p / F.size) hi
  rw [(hundo.output hfirst.read_eq).2 _ hi] at hread
  have hbyte := Format.read_inj hread (Nat.mod_lt p hpos)
  rw [Nat.add_assoc, Nat.add_assoc, Nat.div_add_mod] at hbyte
  exact hbyte

end BlockStream
