import Mathlib.Data.Nat.Notation
import Mv88fxx81.Cesa.Mbuf
import Mv88fxx81.Cesa.Types
import Mv88fxx81.Lib.Fragments

/-!
# Copies between multi-buffers

`mvCesaMbufCopy` walks over the fragments of two multi-buffers. Its pointers move only
to the start of a fragment, never inside one, so that it copies what it should just if
the fragments of both sides end at the same positions. An address in a fragment is
written as the position of its byte in the data.
-/

namespace Mv88fxx81.Cesa

open Fragments

/-- `memcpy`. -/
def memcpy (dst : ℕ → UInt8) (pDst : ℕ) (src : ℕ → UInt8) (pSrc size : ℕ) : ℕ → UInt8 :=
  fun x => if pDst ≤ x ∧ x < pDst + size then src (pSrc + (x - pDst)) else dst x

/-- A pointer of `mvCesaMbufCopy` with the size of what is left of its fragment, the
start of the next fragment, and the sizes of the fragments from there. -/
structure CopyCursor where
  ptr : ℕ
  size : ℕ
  next : ℕ
  rest : List ℕ

/-- The pointer for an offset in a multi-buffer. The entry behind the last fragment
gives none. -/
def copyCursor (sizes : List ℕ) (offset : ℕ) : Option CopyCursor :=
  match mbufOffsetLoop sizes 0 offset with
  | none => none
  | some (frag, fragOffset) =>
    match sizes.drop frag with
    | [] => none
    | bufSize :: rest =>
      let start := (sizes.take frag).sum
      some ⟨start + fragOffset, bufSize - fragOffset, start + bufSize, rest⟩

/-- The size of what is left is reduced by `copySize`; when nothing is left, the
pointer moves to the next fragment, if there is one. -/
def CopyCursor.advance (c : CopyCursor) (copySize : ℕ) : Option CopyCursor :=
  if c.size - copySize = 0 then
    match c.rest with
    | [] => none
    | bufSize :: rest => some ⟨c.next, bufSize, c.next + bufSize, rest⟩
  else some { c with size := c.size - copySize }

/-- A pointer that moves stays in its fragment, or it is at the start of the next one. -/
theorem CopyCursor.advance_eq {c c' : CopyCursor} {copySize : ℕ}
    (hadvance : c.advance copySize = some c') :
    (c.size ≤ copySize ∧ ∃ bufSize rest, c.rest = bufSize :: rest ∧
        c' = ⟨c.next, bufSize, c.next + bufSize, rest⟩) ∨
      (copySize < c.size ∧ c' = { c with size := c.size - copySize }) := by
  unfold CopyCursor.advance at hadvance
  split_ifs at hadvance with hzero
  · cases hrest : c.rest with
    | nil => simp [hrest] at hadvance
    | cons bufSize rest =>
      simp only [hrest, Option.some.injEq] at hadvance
      exact Or.inl ⟨by omega, bufSize, rest, rfl, hadvance.symm⟩
  · exact Or.inr ⟨by omega, (Option.some.inj hadvance).symm⟩

/-- A pointer that moves has fewer fragments before it. -/
theorem CopyCursor.advance_rest {c c' : CopyCursor} {copySize : ℕ}
    (hadvance : c.advance copySize = some c') :
    c'.rest.length ≤ c.rest.length ∧
      (c.size ≤ copySize → c'.rest.length < c.rest.length) := by
  obtain ⟨-, bufSize, rest, hrest, rfl⟩ | ⟨hlt, rfl⟩ := CopyCursor.advance_eq hadvance
  · simp [hrest]
  · exact ⟨Nat.le_refl _, by omega⟩

/-- The loop of `mvCesaMbufCopy`. -/
def copyLoop (src : ℕ → UInt8) (size : ℕ) (s d : CopyCursor) (dst : ℕ → UInt8) :
    Status × (ℕ → UInt8) :=
  if size = 0 then (.badSize, dst)
  else
    let copySize := min s.size d.size
    if size ≤ copySize then (.ok, memcpy dst d.ptr src s.ptr size)
    else
      let dst := memcpy dst d.ptr src s.ptr copySize
      match _hs : s.advance copySize, _hd : d.advance copySize with
      | some s', some d' => copyLoop src (size - copySize) s' d' dst
      | _, _ => (.badSize, dst)
termination_by s.rest.length + d.rest.length
decreasing_by
  obtain ⟨hs₁, hs₂⟩ := CopyCursor.advance_rest _hs
  obtain ⟨hd₁, hd₂⟩ := CopyCursor.advance_rest _hd
  omega

/-- `mvCesaMbufCopy`. It is `none` when the entry behind the last fragment is used. -/
def mvCesaMbufCopy (dst : ℕ → UInt8) (dstSizes : List ℕ) (dstMbufOffset : ℕ) (src : ℕ → UInt8)
    (srcSizes : List ℕ) (srcMbufOffset size : ℕ) : Option (Status × (ℕ → UInt8)) :=
  if size = 0 then some (.ok, dst)
  else if mbufOffsetLoop srcSizes 0 srcMbufOffset = none then some (.outOfRange, dst)
  else if mbufOffsetLoop dstSizes 0 dstMbufOffset = none then some (.outOfRange, dst)
  else
    match copyCursor srcSizes srcMbufOffset, copyCursor dstSizes dstMbufOffset with
    | some s, some d => some (copyLoop src size s d dst)
    | _, _ => none

section Memcpy

variable {dst src : ℕ → UInt8} {v n k x : ℕ}

/-- Copying in two parts. -/
theorem memcpy_memcpy :
    memcpy (memcpy dst v src v n) (v + n) src (v + n) k = memcpy dst v src v (n + k) := by
  funext x
  unfold memcpy
  by_cases hsecond : v + n ≤ x ∧ x < v + n + k
  · rw [if_pos hsecond, if_pos (by omega)]
    congr 1
    omega
  · rw [if_neg hsecond]
    by_cases hfirst : v ≤ x ∧ x < v + n
    · rw [if_pos hfirst, if_pos (by omega)]
    · rw [if_neg hfirst, if_neg (by omega)]

theorem memcpy_zero {w : ℕ} : memcpy dst v src w 0 = dst := by
  funext x
  unfold memcpy
  rw [if_neg (by omega)]

end Memcpy

/-- The data from the cursor on begins at position `v`. -/
structure CopyCursor.AtPos (c : CopyCursor) (v : ℕ) : Prop where
  next : c.next = v + c.size
  ptr : c.ptr ≤ v

/-- The sizes of the fragments from the cursor on. -/
def CopyCursor.sizes (c : CopyCursor) : List ℕ := c.size :: c.rest

section Cursor

variable {c c' : CopyCursor} {v n : ℕ}

/-- What moving a cursor by `n` bytes of its fragment does: it stays in the fragment
with its pointer, or it is at the start of the next one. -/
theorem CopyCursor.advance_cases (hadvance : c.advance n = some c') (hn : n ≤ c.size)
    (hpos : c.AtPos v) :
    c'.AtPos (v + n) ∧
      ((c.size = n ∧ c.rest = c'.sizes ∧ c'.ptr = v + n ∧ c'.next = v + n + c'.size) ∨
        (n < c.size ∧ c' = { c with size := c.size - n })) := by
  obtain ⟨hnext, hptr⟩ := hpos
  obtain ⟨hle, bufSize, rest, hrest, rfl⟩ | ⟨hlt, rfl⟩ := CopyCursor.advance_eq hadvance
  · exact ⟨⟨by simp only; omega, by simp only; omega⟩,
      Or.inl ⟨by omega, hrest, by simp only; omega, by simp only; omega⟩⟩
  · exact ⟨⟨by simp only; omega, by simp only; omega⟩, Or.inr ⟨hlt, rfl⟩⟩

/-- A cursor that was moved has the rest of the data from it on. -/
theorem CopyCursor.advance_sum (hadvance : c.advance n = some c') (hn : n ≤ c.size) :
    c'.sizes.sum = c.sizes.sum - n := by
  obtain ⟨hle, bufSize, rest, hrest, rfl⟩ | ⟨hlt, rfl⟩ := CopyCursor.advance_eq hadvance
  · simp only [CopyCursor.sizes, hrest, List.sum_cons]
    omega
  · simp only [CopyCursor.sizes, List.sum_cons]
    omega

/-- A cursor that cannot be moved has no data behind it. -/
theorem CopyCursor.advance_none (hadvance : c.advance n = none) : c.sizes.sum ≤ n := by
  unfold CopyCursor.advance at hadvance
  split_ifs at hadvance with hzero
  · cases hrest : c.rest with
    | nil =>
      simp only [CopyCursor.sizes, hrest, List.sum_singleton]
      omega
    | cons bufSize rest => simp [hrest] at hadvance

/-- A cursor can be moved as long as data is left behind it. -/
theorem CopyCursor.advance_some (hn : n ≤ c.size) (hleft : n < c.sizes.sum) :
    ∃ c', c.advance n = some c' ∧ c'.sizes.sum = c.sizes.sum - n := by
  cases hadvance : c.advance n with
  | none => exact absurd (c.advance_none hadvance) (by omega)
  | some c' => exact ⟨c', rfl, c.advance_sum hadvance hn⟩

/-- Behind a cursor that was moved the fragments end where they did. -/
theorem CopyCursor.advance_endsAt {q : ℕ} (hadvance : c.advance n = some c') (hn : n ≤ c.size)
    (hpos : c.AtPos v) (hq : 0 < q) : EndsAt c'.sizes q ↔ EndsAt c.sizes (n + q) := by
  obtain ⟨-, ⟨hsize, hrest, -⟩ | ⟨hlt, rfl⟩⟩ := c.advance_cases hadvance hn hpos
  · unfold CopyCursor.sizes at *
    rw [hrest, hsize, endsAt_add hq]
  · unfold CopyCursor.sizes
    exact (endsAt_drop hn hq).symm

end Cursor

section Copy

variable {src : ℕ → UInt8}

/-- One round of the loop that is not the last one. -/
theorem copyLoop_next {size : ℕ} {s d s' d' : CopyCursor} {dst : ℕ → UInt8}
    (hsize : min s.size d.size < size) (hs : s.advance (min s.size d.size) = some s')
    (hd : d.advance (min s.size d.size) = some d') :
    copyLoop src size s d dst = copyLoop src (size - min s.size d.size) s' d'
      (memcpy dst d.ptr src s.ptr (min s.size d.size)) := by
  rw [copyLoop]
  rw [if_neg (by omega)]
  dsimp only
  rw [if_neg (by omega)]
  split
  next s₁ d₁ hs₁ hd₁ =>
    rw [hs] at hs₁
    rw [hd] at hd₁
    obtain rfl := Option.some.inj hs₁
    obtain rfl := Option.some.inj hd₁
    rfl
  next hnone => exact absurd hd (hnone s' d' hs)

/-- The last round of the loop. -/
theorem copyLoop_last {size : ℕ} {s d : CopyCursor} {dst : ℕ → UInt8} (hpos : 0 < size)
    (hsize : size ≤ min s.size d.size) :
    copyLoop src size s d dst = (.ok, memcpy dst d.ptr src s.ptr size) := by
  rw [copyLoop]
  rw [if_neg (by omega)]
  dsimp only
  rw [if_pos hsize]

/-- The fragments from both cursors on end at the same positions among the next `size`
bytes. -/
def Coincide (s d : List ℕ) (size : ℕ) : Prop :=
  ∀ q, 0 < q → q < size → (EndsAt s q ↔ EndsAt d q)

/-- Both cursors are at position `v` with their pointers, and `size` bytes follow. -/
structure InStep (s d : CopyCursor) (v size : ℕ) : Prop where
  src : s.AtPos v
  srcPtr : s.ptr = v
  dst : d.AtPos v
  dstPtr : d.ptr = v
  srcRange : size ≤ s.sizes.sum
  dstRange : size ≤ d.sizes.sum

/-- A round of the loop that is not the last one moves both cursors. They stay in step
if the fragments end together or one of them is empty. -/
theorem InStep.next {s d : CopyCursor} {v size : ℕ} (hstep : InStep s d v size)
    (hsize : min s.size d.size < size) :
    ∃ s' d', s.advance (min s.size d.size) = some s' ∧ d.advance (min s.size d.size) = some d' ∧
      (Coincide s'.sizes d'.sizes (size - min s.size d.size) ↔
        ∀ q, min s.size d.size < q → q < size → (EndsAt s.sizes q ↔ EndsAt d.sizes q)) ∧
      s'.rest.length + d'.rest.length < s.rest.length + d.rest.length ∧
      (s.size = d.size ∨ min s.size d.size = 0 →
        InStep s' d' (v + min s.size d.size) (size - min s.size d.size)) := by
  set c := min s.size d.size with hc
  obtain ⟨s', hs', hssum⟩ := CopyCursor.advance_some (c := s) (n := c) (by omega)
    (by have := hstep.srcRange; omega)
  obtain ⟨d', hd', hdsum⟩ := CopyCursor.advance_some (c := d) (n := c) (by omega)
    (by have := hstep.dstRange; omega)
  have hsends := fun q (hq : 0 < q) => s.advance_endsAt hs' (by omega) hstep.src hq
  have hdends := fun q (hq : 0 < q) => d.advance_endsAt hd' (by omega) hstep.dst hq
  refine ⟨s', d', hs', hd', ?_, ?_, ?_⟩
  · constructor
    · intro hends q hq hq'
      have hrel := hends (q - c) (by omega) (by omega)
      rw [hsends _ (by omega), hdends _ (by omega), show c + (q - c) = q by omega] at hrel
      exact hrel
    · intro hends q hq hq'
      rw [hsends q hq, hdends q hq]
      exact hends (c + q) (by omega) (by omega)
  · obtain ⟨hs₁, hs₂⟩ := CopyCursor.advance_rest hs'
    obtain ⟨hd₁, hd₂⟩ := CopyCursor.advance_rest hd'
    omega
  · intro hsame
    obtain ⟨hspos, hscase⟩ := s.advance_cases hs' (by omega) hstep.src
    obtain ⟨hdpos, hdcase⟩ := d.advance_cases hd' (by omega) hstep.dst
    refine ⟨hspos, ?_, hdpos, ?_, ?_, ?_⟩
    · rcases hscase with ⟨-, -, hptr, -⟩ | ⟨hlt, rfl⟩
      · exact hptr
      · have hptr := hstep.srcPtr
        simp only
        omega
    · rcases hdcase with ⟨-, -, hptr, -⟩ | ⟨hlt, rfl⟩
      · exact hptr
      · have hptr := hstep.dstPtr
        simp only
        omega
    · have := hstep.srcRange
      omega
    · have := hstep.dstRange
      omega

/-- A copy between fragments that end at the same positions copies all bytes. -/
theorem copyLoop_aligned {n size v : ℕ} {s d : CopyCursor} {dst : ℕ → UInt8}
    (hn : s.rest.length + d.rest.length < n) (hstep : InStep s d v size) (hpos : 0 < size)
    (hends : Coincide s.sizes d.sizes size) :
    copyLoop src size s d dst = (.ok, memcpy dst v src v size) := by
  induction n generalizing size v s d dst with
  | zero => omega
  | succ n ih =>
    by_cases hlast : size ≤ min s.size d.size
    · rw [copyLoop_last hpos hlast, hstep.srcPtr, hstep.dstPtr]
    obtain ⟨s', d', hs', hd', hends', hfewer, hin⟩ := hstep.next (by omega)
    have hsame : s.size = d.size ∨ min s.size d.size = 0 := by
      by_contra hne
      have hinside := hends (min s.size d.size) (by omega) (by omega)
      by_cases hlt : s.size < d.size
      · exact not_endsAt_of_lt (by omega) (hinside.mp (Or.inl (by omega)))
      · exact not_endsAt_of_lt (by omega) (hinside.mpr (Or.inl (by omega)))
    rw [copyLoop_next (by omega) hs' hd', hstep.srcPtr, hstep.dstPtr,
      ih (by omega) (hin hsame) (by omega)
        (hends'.mpr fun q hq hq' => hends q (by omega) hq'), memcpy_memcpy]
    congr 2
    omega

/-- Bytes that are zero except for the one at position `w`. -/
def marker (w : ℕ) : ℕ → UInt8 := fun x => if x = w then 1 else 0

/-- A copy to the position `w` from another position gives zero there. -/
theorem memcpy_marker {dst : ℕ → UInt8} {pDst pSrc size w : ℕ} (hsrc : pSrc ≠ w)
    (hdst : w ≤ pDst) (hzero : dst w = 0 ∨ (pDst = w ∧ 0 < size)) :
    memcpy dst pDst (marker w) pSrc size w = 0 := by
  unfold memcpy
  split_ifs with hin
  · unfold marker
    rw [if_neg (by omega)]
  · rcases hzero with hzero | ⟨rfl, hpos⟩
    · exact hzero
    · omega

/-- Once the pointers are at different positions, the first byte behind the pointer to
the destination does not get the byte of its position. -/
theorem copyLoop_diverged {n size v w : ℕ} {s d : CopyCursor} {dst : ℕ → UInt8}
    (hn : s.rest.length + d.rest.length < n) (hs : s.AtPos v) (hd : d.AtPos v)
    (hsptr : s.ptr ≠ w) (hsnext : w < s.next) (hdptr : w ≤ d.ptr) (hpos : 0 < size)
    (hsrange : size ≤ s.sizes.sum) (hdrange : size ≤ d.sizes.sum)
    (hzero : dst w = 0 ∨ (d.ptr = w ∧ (d.size = 0 → d.next = w))) :
    (copyLoop (marker w) size s d dst).2 w = 0 := by
  induction n generalizing size v s d dst with
  | zero => omega
  | succ n ih =>
    by_cases hlast : size ≤ min s.size d.size
    · rw [copyLoop_last hpos hlast]
      exact memcpy_marker hsptr hdptr (hzero.imp id fun h => ⟨h.1, hpos⟩)
    obtain ⟨s', hs', hssum⟩ := CopyCursor.advance_some (c := s) (n := min s.size d.size) (by omega)
      (by omega)
    obtain ⟨d', hd', hdsum⟩ := CopyCursor.advance_some (c := d) (n := min s.size d.size) (by omega)
      (by omega)
    obtain ⟨hspos, hscase⟩ := s.advance_cases hs' (by omega) hs
    obtain ⟨hdpos, hdcase⟩ := d.advance_cases hd' (by omega) hd
    obtain ⟨hs₁, hs₂⟩ := CopyCursor.advance_rest hs'
    obtain ⟨hd₁, hd₂⟩ := CopyCursor.advance_rest hd'
    have hsn := hs.next
    have hdn := hd.next
    have hdp := hd.ptr
    rw [copyLoop_next (by omega) hs' hd']
    apply ih (by omega) hspos hdpos
    · rcases hscase with ⟨hsize, -, hptr, -⟩ | ⟨-, rfl⟩
      · omega
      · exact hsptr
    · rcases hscase with ⟨hsize, -, -, hnext⟩ | ⟨-, rfl⟩
      · omega
      · exact hsnext
    · rcases hdcase with ⟨hsize, -, hptr, -⟩ | ⟨-, rfl⟩
      · omega
      · exact hdptr
    · omega
    · omega
    · omega
    · by_cases hwritten : dst w = 0 ∨ (d.ptr = w ∧ 0 < min s.size d.size)
      · exact Or.inl (memcpy_marker hsptr hdptr hwritten)
      · -- No byte is copied in this round, and the pointer stays where it is.
        obtain ⟨hptr, hnext⟩ := hzero.resolve_left fun h => hwritten (Or.inl h)
        have hnothing : min s.size d.size = 0 := by
          by_contra hne
          exact hwritten (Or.inr ⟨hptr, by omega⟩)
        right
        rcases hdcase with ⟨hsize, -, hptr', hnext'⟩ | ⟨hlt, rfl⟩
        · have := hnext (by omega)
          omega
        · refine ⟨hptr, fun hsize => ?_⟩
          simp only at hsize
          omega

/-- If the fragments do not end at the same positions, there is a byte that is not
copied to its place. -/
theorem copyLoop_misaligned {n size v : ℕ} {s d : CopyCursor}
    (hn : s.rest.length + d.rest.length < n) (hstep : InStep s d v size)
    (hends : ¬ Coincide s.sizes d.sizes size) :
    ∃ w, v ≤ w ∧ w < v + size ∧ ∀ dst, (copyLoop (marker w) size s d dst).2 w = 0 := by
  induction n generalizing size v s d with
  | zero => omega
  | succ n ih =>
    by_cases hlast : size ≤ min s.size d.size
    · refine absurd (fun q _ hq => ?_) hends
      have hs : ¬ EndsAt s.sizes q := not_endsAt_of_lt (by omega)
      have hd : ¬ EndsAt d.sizes q := not_endsAt_of_lt (by omega)
      exact iff_of_false hs hd
    have hc : min s.size d.size < size := by omega
    obtain ⟨s', d', hs', hd', hends', hfewer, hin⟩ := hstep.next hc
    by_cases hsame : s.size = d.size ∨ min s.size d.size = 0
    · have hrest : ¬ Coincide s'.sizes d'.sizes (size - min s.size d.size) := by
        intro hends₁
        refine hends fun q hq hq' => ?_
        rcases Nat.lt_trichotomy q (min s.size d.size) with hlt | heq | hgt
        · have hs : ¬ EndsAt s.sizes q := not_endsAt_of_lt (by omega)
          have hd : ¬ EndsAt d.sizes q := not_endsAt_of_lt (by omega)
          exact iff_of_false hs hd
        · have hs : EndsAt s.sizes q := Or.inl (by omega)
          have hd : EndsAt d.sizes q := Or.inl (by omega)
          exact iff_of_true hs hd
        · exact hends'.mp hends₁ q hgt hq'
      obtain ⟨w, hle, hlt, hcopy⟩ := ih (by omega) (hin hsame) hrest
      refine ⟨w, by omega, by omega, fun dst => ?_⟩
      rw [copyLoop_next hc hs' hd']
      exact hcopy _
    obtain ⟨hspos, hscase⟩ := s.advance_cases hs' (by omega) hstep.src
    obtain ⟨hdpos, hdcase⟩ := d.advance_cases hd' (by omega) hstep.dst
    obtain ⟨hsrc, hsptr, hdst, hdptr, hsrange, hdrange⟩ := hstep
    have hsn := hsrc.next
    obtain ⟨s₁, hs₁, hssum⟩ := CopyCursor.advance_some (c := s) (n := min s.size d.size) (by omega)
      (by omega)
    obtain ⟨d₁, hd₁, hdsum⟩ := CopyCursor.advance_some (c := d) (n := min s.size d.size) (by omega)
      (by omega)
    obtain rfl : s' = s₁ := Option.some.inj (hs'.symm.trans hs₁)
    obtain rfl : d' = d₁ := Option.some.inj (hd'.symm.trans hd₁)
    by_cases hlt : s.size < d.size
    · -- The next source fragment is copied over the one just copied.
      refine ⟨v, Nat.le_refl _, by omega, fun dst => ?_⟩
      rw [copyLoop_next hc hs' hd']
      rcases hscase with ⟨-, -, hptr, hnext⟩ | ⟨hmore, -⟩
      · rcases hdcase with ⟨hless, -⟩ | ⟨-, rfl⟩
        · omega
        · refine copyLoop_diverged (n := n) (by omega) hspos hdpos (by omega) (by omega)
            (by simp only; omega) (by omega) (by omega) (by omega) (Or.inr ⟨hdptr, ?_⟩)
          simp only
          omega
      · omega
    · -- The next destination fragment gets the bytes just copied once more.
      refine ⟨v + min s.size d.size, by omega, by omega, fun dst => ?_⟩
      rw [copyLoop_next hc hs' hd']
      rcases hdcase with ⟨-, -, hptr, hnext⟩ | ⟨hmore, -⟩
      · rcases hscase with ⟨hless, -⟩ | ⟨-, rfl⟩
        · omega
        · exact copyLoop_diverged (n := n) (by omega) hspos hdpos (by simp only; omega)
            (by simp only; omega) (by omega) (by omega) (by omega) (by omega)
            (Or.inr ⟨hptr, by omega⟩)
      · omega

/-- A copy does not touch bytes outside of its range. -/
theorem copyLoop_frame {n size v x : ℕ} {s d : CopyCursor} {dst : ℕ → UInt8}
    (hn : s.rest.length + d.rest.length < n) (hs : s.AtPos v) (hd : d.AtPos v)
    (hx : x < d.ptr ∨ v + size ≤ x) : (copyLoop src size s d dst).2 x = dst x := by
  induction n generalizing size v s d dst with
  | zero => omega
  | succ n ih =>
    have hptr := hd.ptr
    have hkept : ∀ k ≤ size, memcpy dst d.ptr src s.ptr k x = dst x := by
      intro k hk
      unfold memcpy
      rw [if_neg (by omega)]
    by_cases hempty : size = 0
    · rw [copyLoop, if_pos hempty]
    by_cases hlast : size ≤ min s.size d.size
    · rw [copyLoop_last (by omega) hlast]
      exact hkept size (Nat.le_refl _)
    rw [copyLoop, if_neg hempty]
    dsimp only
    rw [if_neg hlast]
    split
    next s' d' hs' hd' =>
      obtain ⟨hspos, -⟩ := s.advance_cases hs' (by omega) hs
      obtain ⟨hdpos, hdcase⟩ := d.advance_cases hd' (by omega) hd
      obtain ⟨hs₁, hs₂⟩ := CopyCursor.advance_rest hs'
      obtain ⟨hd₁, hd₂⟩ := CopyCursor.advance_rest hd'
      rw [ih (by omega) hspos hdpos, hkept _ (by omega)]
      rcases hdcase with ⟨-, -, hptr', -⟩ | ⟨-, rfl⟩
      · omega
      · exact hx.imp id fun h => by omega
    next => exact hkept _ (by omega)

end Copy

/-- The place of a position: the fragments from there on, and the offset in the first
one. -/
structure Located (sizes : List ℕ) (offset k fragOffset : ℕ) : Prop where
  start : (sizes.take k).sum + fragOffset = offset
  sum : (sizes.take k).sum + (sizes.drop k).sum = sizes.sum
  inside : fragOffset = 0 ∨ fragOffset < (sizes.drop k).headD 0
  emptyAt : ∀ q, EmptyAt sizes (offset + q) ↔ EmptyAt (sizes.drop k) (fragOffset + q)
  endsAt : ∀ q, 0 < q → (EndsAt sizes (offset + q) ↔ EndsAt (sizes.drop k) (fragOffset + q))

/-- `mvCesaMbufOffset` locates the positions of the data. An empty fragment that begins
at the position is the first one from there. -/
theorem mbufOffsetLoop_located {sizes : List ℕ} (frag : ℕ) {offset : ℕ}
    (hrange : offset ≤ sizes.sum) :
    ∃ k fragOffset, mbufOffsetLoop sizes frag offset = some (frag + k, fragOffset) ∧
      Located sizes offset k fragOffset := by
  induction sizes generalizing frag offset with
  | nil =>
    obtain rfl : offset = 0 := by simpa using hrange
    exact ⟨0, 0, by simp [mbufOffsetLoop], by simp, by simp, by simp, by simp, by simp⟩
  | cons size rest ih =>
    cases offset with
    | zero =>
      exact ⟨0, 0, by simp [mbufOffsetLoop], by simp, by simp, by simp, fun q => by simp,
        fun q _ => by simp⟩
    | succ offset =>
      simp only [mbufOffsetLoop]
      by_cases hinside : offset + 1 < size
      · rw [if_pos hinside]
        exact ⟨0, offset + 1, rfl, by simp, by simp, Or.inr (by simpa using hinside),
          fun q => by simp, fun q _ => by simp⟩
      · rw [if_neg hinside]
        rw [List.sum_cons] at hrange
        obtain ⟨k, fragOffset, hloop, hlocated⟩ :=
          ih (frag + 1) (show offset + 1 - size ≤ rest.sum by omega)
        have hstart := hlocated.start
        have hsum := hlocated.sum
        refine ⟨k + 1, fragOffset, by rw [hloop]; congr 2; omega, ?_, ?_, hlocated.inside, ?_, ?_⟩
        · simp only [List.take_succ_cons, List.sum_cons]
          omega
        · simp only [List.take_succ_cons, List.drop_succ_cons, List.sum_cons]
          omega
        · intro q
          rw [List.drop_succ_cons, ← hlocated.emptyAt]
          simp only [EmptyAt]
          rw [show offset + 1 + q - size = offset + 1 - size + q by omega]
          constructor
          · rintro (h | ⟨-, h⟩)
            · omega
            · exact h
          · exact fun h => Or.inr ⟨by omega, h⟩
        · intro q hq
          rw [List.drop_succ_cons, ← hlocated.endsAt q hq]
          simp only [EndsAt]
          rw [show offset + 1 + q - size = offset + 1 - size + q by omega]
          constructor
          · rintro (h | ⟨-, h⟩)
            · omega
            · exact h
          · exact fun h => Or.inr ⟨by omega, h⟩

/-- The pointer for an offset with data behind it. -/
theorem copyCursor_spec {sizes : List ℕ} {offset : ℕ} (hrange : offset < sizes.sum) :
    ∃ c, copyCursor sizes offset = some c ∧ c.AtPos offset ∧ c.ptr = offset ∧
      c.sizes.sum = sizes.sum - offset ∧
      ∀ q, 0 < q → (EndsAt c.sizes q ↔ EndsAt sizes (offset + q)) := by
  obtain ⟨k, fragOffset, hloop, hlocated⟩ :=
    mbufOffsetLoop_located 0 (Nat.le_of_lt hrange)
  have hstart := hlocated.start
  have hsum := hlocated.sum
  have hinside := hlocated.inside
  rw [Nat.zero_add] at hloop
  unfold copyCursor
  rw [hloop]
  dsimp only
  cases hdrop : sizes.drop k with
  | nil =>
    rw [hdrop] at hsum hinside
    simp only [List.sum_nil, List.headD_nil] at hsum hinside
    omega
  | cons bufSize rest =>
    rw [hdrop] at hsum hinside
    simp only [List.sum_cons, List.headD_cons] at hsum hinside
    refine ⟨_, rfl, ⟨?_, ?_⟩, ?_, ?_, ?_⟩
    · simp only
      omega
    · simp only
      omega
    · exact hstart
    · simp only [CopyCursor.sizes, List.sum_cons]
      omega
    · intro q hq
      rw [hlocated.endsAt q hq, hdrop]
      exact (endsAt_drop (by omega) hq).symm

section MbufCopy

variable {srcSizes dstSizes : List ℕ} {offset size : ℕ}

/-- The fragments of both multi-buffers end at the same positions strictly between
`offset` and `offset + size`. -/
def SameEnds (srcSizes dstSizes : List ℕ) (offset size : ℕ) : Prop :=
  ∀ p, offset < p → p < offset + size → (EndsAt srcSizes p ↔ EndsAt dstSizes p)

instance (srcSizes dstSizes : List ℕ) (offset size : ℕ) :
    Decidable (SameEnds srcSizes dstSizes offset size) :=
  decidable_of_iff (∀ p < offset + size, offset < p → (EndsAt srcSizes p ↔ EndsAt dstSizes p))
    ⟨fun h p hp hp' => h p hp' hp, fun h p hp hp' => h p hp' hp⟩

/-- The loop of a copy inside of both multi-buffers begins in step. -/
theorem mvCesaMbufCopy_loop (hpos : 0 < size) (hsrc : offset + size ≤ srcSizes.sum)
    (hdst : offset + size ≤ dstSizes.sum) :
    ∃ s d, InStep s d offset size ∧
      (Coincide s.sizes d.sizes size ↔ SameEnds srcSizes dstSizes offset size) ∧
      ∀ src dst, mvCesaMbufCopy dst dstSizes offset src srcSizes offset size =
        some (copyLoop src size s d dst) := by
  obtain ⟨s, hs, hspos, hsptr, hssum, hsends⟩ :=
    copyCursor_spec (show offset < srcSizes.sum by omega)
  obtain ⟨d, hd, hdpos, hdptr, hdsum, hdends⟩ :=
    copyCursor_spec (show offset < dstSizes.sum by omega)
  refine ⟨s, d, ⟨hspos, hsptr, hdpos, hdptr, by omega, by omega⟩, ?_, ?_⟩
  · constructor
    · intro hends p hp hp'
      have hrel := hends (p - offset) (by omega) (by omega)
      rw [hsends _ (by omega), hdends _ (by omega), show offset + (p - offset) = p by omega] at hrel
      exact hrel
    · intro hends q hq hq'
      rw [hsends q hq, hdends q hq]
      exact hends (offset + q) (by omega) (by omega)
  · intro src dst
    have hsloop : mbufOffsetLoop srcSizes 0 offset ≠ none := by
      intro hnone
      simp [copyCursor, hnone] at hs
    have hdloop : mbufOffsetLoop dstSizes 0 offset ≠ none := by
      intro hnone
      simp [copyCursor, hnone] at hd
    unfold mvCesaMbufCopy
    rw [if_neg (by omega), if_neg hsloop, if_neg hdloop, hs, hd]

/-- A copy inside of both multi-buffers whose fragments end at the same positions. -/
theorem mvCesaMbufCopy_aligned (src dst : ℕ → UInt8) (hsrc : offset + size ≤ srcSizes.sum)
    (hdst : offset + size ≤ dstSizes.sum) (hends : SameEnds srcSizes dstSizes offset size) :
    mvCesaMbufCopy dst dstSizes offset src srcSizes offset size =
      some (.ok, memcpy dst offset src offset size) := by
  by_cases hzero : size = 0
  · subst hzero
    rw [memcpy_zero]
    exact if_pos rfl
  obtain ⟨s, d, hstep, hsame, hcopy⟩ := mvCesaMbufCopy_loop (by omega) hsrc hdst
  rw [hcopy, copyLoop_aligned (Nat.lt_succ_self _) hstep (by omega) (hsame.mpr hends)]

/-- A copy inside of both multi-buffers whose fragments do not end at the same
positions misplaces a byte. -/
theorem mvCesaMbufCopy_misaligned (hsrc : offset + size ≤ srcSizes.sum)
    (hdst : offset + size ≤ dstSizes.sum) (hends : ¬ SameEnds srcSizes dstSizes offset size) :
    ∃ w, offset ≤ w ∧ w < offset + size ∧ ∀ dst, ∃ status copied,
      mvCesaMbufCopy dst dstSizes offset (marker w) srcSizes offset size =
        some (status, copied) ∧ copied w = 0 := by
  have hpos : 0 < size := by
    by_contra hzero
    exact hends fun p hp hp' => by omega
  obtain ⟨s, d, hstep, hsame, hcopy⟩ := mvCesaMbufCopy_loop hpos hsrc hdst
  obtain ⟨w, hle, hlt, hzero⟩ :=
    copyLoop_misaligned (Nat.lt_succ_self _) hstep (mt hsame.mp hends)
  refine ⟨w, hle, hlt, fun dst => ⟨_, _, hcopy (marker w) dst, hzero dst⟩⟩

/-- A copy inside of both multi-buffers does not touch the bytes outside of its range. -/
theorem mvCesaMbufCopy_frame (src dst : ℕ → UInt8) (hsrc : offset + size ≤ srcSizes.sum)
    (hdst : offset + size ≤ dstSizes.sum) :
    ∃ status copied, mvCesaMbufCopy dst dstSizes offset src srcSizes offset size =
        some (status, copied) ∧
      ∀ x, x < offset ∨ offset + size ≤ x → copied x = dst x := by
  by_cases hzero : size = 0
  · subst hzero
    exact ⟨.ok, dst, if_pos rfl, fun _ _ => rfl⟩
  obtain ⟨s, d, hstep, -, hcopy⟩ := mvCesaMbufCopy_loop (by omega) hsrc hdst
  refine ⟨_, _, hcopy src dst, fun x hx => ?_⟩
  have hptr := hstep.dstPtr
  exact copyLoop_frame (Nat.lt_succ_self _) hstep.src hstep.dst (by omega)

/-- A copy of more bytes than there are copies those that there are. -/
theorem copyLoop_beyond {src : ℕ → UInt8} {n size total : ℕ} {s d : CopyCursor} {dst : ℕ → UInt8}
    (hn : s.rest.length + d.rest.length < n) (hs : s.sizes.sum = total) (hd : d.sizes.sum = total)
    (hsize : total < size) :
    (copyLoop src size s d dst).2 = (copyLoop src total s d dst).2 := by
  induction n generalizing size total s d dst with
  | zero => omega
  | succ n ih =>
    have hsle : s.size ≤ total := by
      rw [← hs, CopyCursor.sizes, List.sum_cons]
      omega
    -- When all that there is fits in one round, it is the same copy.
    have hlast : min s.size d.size = total →
        (copyLoop src total s d dst).2 = memcpy dst d.ptr src s.ptr (min s.size d.size) := by
      intro hall
      by_cases hzero : total = 0
      · rw [hall, hzero, memcpy_zero, copyLoop, if_pos rfl]
      · rw [copyLoop_last (by omega) (by omega), hall]
    cases hs' : s.advance (min s.size d.size) with
    | none =>
      have hall := s.advance_none hs'
      rw [hlast (by omega), copyLoop, if_neg (by omega)]
      dsimp only
      rw [if_neg (by omega)]
      split
      next hs₁ _ => cases hs'.symm.trans hs₁
      next => rfl
    | some s' =>
      cases hd' : d.advance (min s.size d.size) with
      | none =>
        have hall := d.advance_none hd'
        rw [hlast (by omega), copyLoop, if_neg (by omega)]
        dsimp only
        rw [if_neg (by omega)]
        split
        next hd₁ => cases hd'.symm.trans hd₁
        next => rfl
      | some d' =>
        obtain ⟨hs₁, hs₂⟩ := CopyCursor.advance_rest hs'
        obtain ⟨hd₁, hd₂⟩ := CopyCursor.advance_rest hd'
        rw [copyLoop_next (by omega) hs' hd', @ih _ (total - min s.size d.size) _ _ _ (by omega)
          ((s.advance_sum hs' (by omega)).trans (by rw [hs]))
          ((d.advance_sum hd' (by omega)).trans (by rw [hd])) (by omega)]
        by_cases hall : min s.size d.size = total
        · rw [hlast hall, hall, Nat.sub_self, copyLoop, if_pos rfl]
        · rw [copyLoop_next (by omega) hs' hd']

/-- A copy from the start of more bytes than there are copies all bytes. -/
theorem mvCesaMbufCopy_beyond (src dst : ℕ → UInt8) (hsame : dstSizes.sum = srcSizes.sum)
    (hfrags : srcSizes.sum < size → srcSizes ≠ [] ∧ dstSizes ≠ []) :
    (mvCesaMbufCopy dst dstSizes 0 src srcSizes 0 size).map (·.2) =
      (mvCesaMbufCopy dst dstSizes 0 src srcSizes 0 (min size srcSizes.sum)).map (·.2) := by
  rcases Nat.lt_or_ge srcSizes.sum size with hsize | hsize
  swap
  · rw [Nat.min_eq_left hsize]
  obtain ⟨hsrc, hdst⟩ := hfrags hsize
  obtain ⟨s, srest, rfl⟩ := List.exists_cons_of_ne_nil hsrc
  obtain ⟨d, drest, rfl⟩ := List.exists_cons_of_ne_nil hdst
  have hloop : ∀ n, 0 < n → mvCesaMbufCopy dst (d :: drest) 0 src (s :: srest) 0 n =
      some (copyLoop src n ⟨0, s, s, srest⟩ ⟨0, d, d, drest⟩ dst) := by
    intro n hn
    unfold mvCesaMbufCopy
    rw [if_neg (by omega), if_neg (by simp [mbufOffsetLoop]), if_neg (by simp [mbufOffsetLoop])]
    simp [copyCursor, mbufOffsetLoop]
  have hbeyond := @copyLoop_beyond src _ _ _ ⟨0, s, s, srest⟩ ⟨0, d, d, drest⟩ dst
    (Nat.lt_succ_self _) rfl hsame hsize
  rw [Nat.min_eq_right (Nat.le_of_lt hsize), hloop size (by omega), Option.map_some, hbeyond]
  by_cases hzero : (s :: srest).sum = 0
  · simp only [CopyCursor.sizes, hzero]
    rw [copyLoop, if_pos rfl, mvCesaMbufCopy, if_pos rfl]
    rfl
  · rw [hloop _ (by omega)]
    rfl

/-- A copy from the start of a multi-buffer without fragments uses the entry behind them. -/
theorem mvCesaMbufCopy_none (src dst : ℕ → UInt8) (hpos : 0 < size)
    (hfrags : ¬ (srcSizes ≠ [] ∧ dstSizes ≠ [])) :
    mvCesaMbufCopy dst dstSizes 0 src srcSizes 0 size = none := by
  unfold mvCesaMbufCopy
  rw [if_neg (by omega), if_neg (by simp [mbufOffsetLoop]), if_neg (by simp [mbufOffsetLoop])]
  by_cases hsrc : srcSizes = []
  · subst hsrc
    rfl
  · obtain rfl : dstSizes = [] := by
      by_contra hdst
      exact hfrags ⟨hsrc, hdst⟩
    cases copyCursor srcSizes 0 <;> rfl

end MbufCopy

end Mv88fxx81.Cesa
