import Mv88fxx81.Cesa.MbufTransfer

/-!
# Copies between different offsets

`mvCesaMbufCopy` for any two offsets. The loop does not depend on where the data of its
two sides lies, so that both can be moved to the same position, where the loop is known.
-/

namespace Mv88fxx81.Cesa

open Fragments

/-- The cursor for data that lies `k` bytes further on. -/
def CopyCursor.shift (k : ℕ) (c : CopyCursor) : CopyCursor :=
  ⟨c.ptr + k, c.size, c.next + k, c.rest⟩

section Shift

variable {c : CopyCursor} {k v : ℕ}

@[simp] theorem CopyCursor.shift_size : (c.shift k).size = c.size := rfl

@[simp] theorem CopyCursor.shift_ptr : (c.shift k).ptr = c.ptr + k := rfl

@[simp] theorem CopyCursor.shift_rest : (c.shift k).rest = c.rest := rfl

@[simp] theorem CopyCursor.shift_sizes : (c.shift k).sizes = c.sizes := rfl

theorem CopyCursor.AtPos.shift (hpos : c.AtPos v) (k : ℕ) : (c.shift k).AtPos (v + k) := by
  obtain ⟨hnext, hptr⟩ := hpos
  constructor
  · simp only [CopyCursor.shift]
    omega
  · simp only [CopyCursor.shift]
    omega

/-- Cursors are moved alike, wherever the data lies. -/
theorem CopyCursor.advance_shift (n : ℕ) :
    (c.shift k).advance n = (c.advance n).map (CopyCursor.shift k) := by
  unfold CopyCursor.advance
  by_cases hzero : c.size - n = 0
  · rw [if_pos hzero, if_pos (by simpa using hzero), shift_rest]
    cases c.rest with
    | nil => rfl
    | cons bufSize rest =>
      simp only [CopyCursor.shift, Option.map_some, Option.some.injEq, CopyCursor.mk.injEq,
        true_and, and_true]
      omega
  · rw [if_neg hzero, if_neg (by simpa using hzero)]
    rfl

variable {src src' dst dst' : ℕ → UInt8} {a b : ℕ}

/-- A copy at a place further on writes what it writes here. -/
theorem memcpy_shift (hsrc : ∀ x, src' (x + a) = src x) (hdst : ∀ x, dst' (x + b) = dst x)
    (pDst pSrc size x : ℕ) :
    memcpy dst' (pDst + b) src' (pSrc + a) size (x + b) = memcpy dst pDst src pSrc size x := by
  unfold memcpy
  by_cases hin : pDst ≤ x ∧ x < pDst + size
  · rw [if_pos hin, if_pos (by omega), ← hsrc]
    congr 1
    omega
  · rw [if_neg hin, if_neg (by omega), hdst]

/-- The loop does the same wherever the data of both sides lies. -/
theorem copyLoop_shift {n size : ℕ} {s d : CopyCursor}
    (hn : s.rest.length + d.rest.length < n) (hpos : 0 < size) (hsrange : size ≤ s.sizes.sum)
    (hdrange : size ≤ d.sizes.sum) (hsrc : ∀ x, src' (x + a) = src x)
    (hdst : ∀ x, dst' (x + b) = dst x) :
    (copyLoop src' size (s.shift a) (d.shift b) dst').1 = (copyLoop src size s d dst).1 ∧
      ∀ x, (copyLoop src' size (s.shift a) (d.shift b) dst').2 (x + b) =
        (copyLoop src size s d dst).2 x := by
  induction n generalizing size s d dst dst' with
  | zero => omega
  | succ n ih =>
    have hpart := memcpy_shift hsrc hdst d.ptr s.ptr
    by_cases hlast : size ≤ min s.size d.size
    · rw [copyLoop_last hpos hlast, copyLoop_last hpos (by exact hlast)]
      exact ⟨rfl, hpart size⟩
    obtain ⟨s', hs, hssum⟩ :=
      CopyCursor.advance_some (c := s) (n := min s.size d.size) (by omega) (by omega)
    obtain ⟨d', hd, hdsum⟩ :=
      CopyCursor.advance_some (c := d) (n := min s.size d.size) (by omega) (by omega)
    obtain ⟨hs₁, hs₂⟩ := CopyCursor.advance_rest hs
    obtain ⟨hd₁, hd₂⟩ := CopyCursor.advance_rest hd
    have hs' : (s.shift a).advance (min s.size d.size) = some (s'.shift a) := by
      rw [CopyCursor.advance_shift, hs, Option.map_some]
    have hd' : (d.shift b).advance (min s.size d.size) = some (d'.shift b) := by
      rw [CopyCursor.advance_shift, hd, Option.map_some]
    rw [copyLoop_next (by omega) hs hd,
      copyLoop_next (s := s.shift a) (d := d.shift b) (by exact Nat.lt_of_not_le hlast) hs' hd']
    simp only [CopyCursor.shift_size, CopyCursor.shift_ptr]
    exact ih (by omega) (by omega) (by omega) (by omega) (hpart _)

end Shift

section Move

variable {srcSizes dstSizes : List ℕ} {srcOffset dstOffset size : ℕ}

/-- From both offsets on, the fragments of the two multi-buffers end at the same places
among the next `size` bytes. -/
def EndTogether (srcSizes : List ℕ) (srcOffset : ℕ) (dstSizes : List ℕ) (dstOffset size : ℕ) :
    Prop :=
  ∀ q, 0 < q → q < size → (EndsAt srcSizes (srcOffset + q) ↔ EndsAt dstSizes (dstOffset + q))

instance : Decidable (EndTogether srcSizes srcOffset dstSizes dstOffset size) :=
  decidable_of_iff (∀ q < size, 0 < q →
      (EndsAt srcSizes (srcOffset + q) ↔ EndsAt dstSizes (dstOffset + q)))
    ⟨fun h q hq hq' => h q hq' hq, fun h q hq hq' => h q hq' hq⟩

/-- What `mvCesaMbufCopy` is for: whatever the data is, the bytes are at their new place
and all others are kept. -/
def MovesBytes (srcSizes : List ℕ) (srcOffset : ℕ) (dstSizes : List ℕ) (dstOffset size : ℕ) :
    Prop :=
  ∀ src dst : ℕ → UInt8, ∃ moved,
    mvCesaMbufCopy dst dstSizes dstOffset src srcSizes srcOffset size = some (.ok, moved) ∧
      (∀ i < size, moved (dstOffset + i) = src (srcOffset + i)) ∧
      ∀ x, x < dstOffset ∨ dstOffset + size ≤ x → moved x = dst x

/-- A copy inside of both multi-buffers is a loop in step over data that lies at the same
position on both sides. -/
theorem mvCesaMbufCopy_inStep (hpos : 0 < size) (hsrc : srcOffset + size ≤ srcSizes.sum)
    (hdst : dstOffset + size ≤ dstSizes.sum) :
    ∃ s d, InStep s d (srcOffset + dstOffset) size ∧
      (Coincide s.sizes d.sizes size ↔
        EndTogether srcSizes srcOffset dstSizes dstOffset size) ∧
      ∀ {src src' dst dst' : ℕ → UInt8}, (∀ x, src' (x + dstOffset) = src x) →
        (∀ x, dst' (x + srcOffset) = dst x) →
        ∃ moved, mvCesaMbufCopy dst dstSizes dstOffset src srcSizes srcOffset size =
            some ((copyLoop src' size s d dst').1, moved) ∧
          ∀ x, (copyLoop src' size s d dst').2 (x + srcOffset) = moved x := by
  have hsinside := (copyCursor_inside (show srcOffset < srcSizes.sum by omega)).1
  have hdinside := (copyCursor_inside (show dstOffset < dstSizes.sum by omega)).1
  obtain ⟨s, hs, hspos, hsptr, hssum, hsends⟩ :=
    copyCursor_spec (show srcOffset < srcSizes.sum by omega)
  obtain ⟨d, hd, hdpos, hdptr, hdsum, hdends⟩ :=
    copyCursor_spec (show dstOffset < dstSizes.sum by omega)
  refine ⟨s.shift dstOffset, d.shift srcOffset, ⟨hspos.shift _, ?_, ?_, ?_, ?_, ?_⟩, ?_, ?_⟩
  · rw [CopyCursor.shift_ptr, hsptr]
  · rw [Nat.add_comm srcOffset]
    exact hdpos.shift _
  · rw [CopyCursor.shift_ptr, hdptr, Nat.add_comm]
  · rw [CopyCursor.shift_sizes]
    omega
  · rw [CopyCursor.shift_sizes]
    omega
  · simp only [CopyCursor.shift_sizes]
    constructor
    · intro hends q hq hq'
      rw [← hsends q hq, ← hdends q hq]
      exact hends q hq hq'
    · intro hends q hq hq'
      rw [hsends q hq, hdends q hq]
      exact hends q hq hq'
  · intro src src' dst dst' hsrc' hdst'
    have hsrange : size ≤ s.sizes.sum := by omega
    have hdrange : size ≤ d.sizes.sum := by omega
    obtain ⟨hstatus, hbytes⟩ :=
      copyLoop_shift (Nat.lt_succ_self _) hpos hsrange hdrange hsrc' hdst'
    refine ⟨(copyLoop src size s d dst).2, ?_, hbytes⟩
    unfold mvCesaMbufCopy
    rw [if_neg (by omega), if_neg hsinside, if_neg hdinside, hs, hd, hstatus]

/-- A copy inside of both multi-buffers whose fragments end together moves the bytes. -/
theorem mvCesaMbufCopy_moves (hsrc : srcOffset + size ≤ srcSizes.sum)
    (hdst : dstOffset + size ≤ dstSizes.sum)
    (hends : EndTogether srcSizes srcOffset dstSizes dstOffset size) :
    MovesBytes srcSizes srcOffset dstSizes dstOffset size := by
  intro src dst
  by_cases hzero : size = 0
  · subst hzero
    exact ⟨dst, if_pos rfl, fun i hi => by omega, fun x _ => rfl⟩
  obtain ⟨s, d, hstep, hsame, hcopy⟩ := mvCesaMbufCopy_inStep (by omega) hsrc hdst
  obtain ⟨moved, hmoved, hbytes⟩ := @hcopy src (fun x => src (x - dstOffset)) dst
    (fun x => dst (x - srcOffset)) (fun x => by simp) (fun x => by simp)
  rw [copyLoop_aligned (Nat.lt_succ_self _) hstep (by omega) (hsame.mpr hends)] at hmoved hbytes
  refine ⟨moved, hmoved, fun i hi => ?_, fun x hx => ?_⟩
  · rw [← hbytes]
    dsimp only [memcpy]
    rw [if_pos (by omega)]
    congr 1
    omega
  · rw [← hbytes]
    dsimp only [memcpy]
    rw [if_neg (by omega), Nat.add_sub_cancel]

/-- A copy inside of both multi-buffers whose fragments do not end together misplaces a
byte of some data. -/
theorem mvCesaMbufCopy_misplaces (hsrc : srcOffset + size ≤ srcSizes.sum)
    (hdst : dstOffset + size ≤ dstSizes.sum)
    (hends : ¬ EndTogether srcSizes srcOffset dstSizes dstOffset size) :
    ¬ MovesBytes srcSizes srcOffset dstSizes dstOffset size := by
  intro hmoves
  have hpos : 0 < size := by
    by_contra hzero
    exact hends fun q hq hq' => by omega
  obtain ⟨s, d, hstep, hsame, hcopy⟩ := mvCesaMbufCopy_inStep hpos hsrc hdst
  obtain ⟨w, hle, hlt, hzero⟩ :=
    copyLoop_misaligned (Nat.lt_succ_self _) hstep (mt hsame.mp hends)
  -- The data marked at one byte, seen from the place where it lies.
  have hsrc' : ∀ x, marker w (x + dstOffset) = marker (w - dstOffset) x := by
    intro x
    unfold marker
    congr 1
    rw [eq_iff_iff]
    omega
  obtain ⟨moved, hmoved, hbytes⟩ := @hcopy _ _ (fun _ => 0) (fun _ => 0) hsrc' fun _ => rfl
  obtain ⟨moved', hmoved', hplace, -⟩ := hmoves (marker (w - dstOffset)) fun _ => 0
  rw [hmoved] at hmoved'
  simp only [Option.some.injEq, Prod.mk.injEq] at hmoved'
  obtain ⟨-, rfl⟩ := hmoved'
  have hone := hplace (w - (srcOffset + dstOffset)) (by omega)
  rw [← hbytes, show dstOffset + (w - (srcOffset + dstOffset)) + srcOffset = w by omega,
    hzero, marker, if_pos (by omega)] at hone
  exact absurd hone (by decide)

/-- A source in two fragments that is copied to one fragment: the second fragment is
written over the first. -/
theorem mvCesaMbufCopy_overwrites :
    ((mvCesaMbufCopy (fun _ => 0) [4] 0 (fun x => UInt8.ofNat (x + 1)) [1, 3] 0 4).map fun result =>
      (result.1, (List.range 4).map result.2)) = some (.ok, [2, 3, 4, 0]) := by
  decide +kernel

/-- A copy inside of both multi-buffers moves the bytes exactly when their fragments end
together. -/
theorem mvCesaMbufCopy_moves_iff (hsrc : srcOffset + size ≤ srcSizes.sum)
    (hdst : dstOffset + size ≤ dstSizes.sum) :
    MovesBytes srcSizes srcOffset dstSizes dstOffset size ↔
      EndTogether srcSizes srcOffset dstSizes dstOffset size := by
  constructor
  · intro hmoves
    by_contra hends
    exact mvCesaMbufCopy_misplaces hsrc hdst hends hmoves
  · exact mvCesaMbufCopy_moves hsrc hdst

/-- Two fragmentations that end together from different offsets on. -/
theorem mvCesaMbufCopy_moves_iff_shifted :
    5 + 6 ≤ [3, 4, 4].sum ∧ 1 + 6 ≤ [3, 5].sum ∧ MovesBytes [3, 4, 4] 5 [3, 5] 1 6 :=
  ⟨by decide, by decide, (mvCesaMbufCopy_moves_iff (by decide) (by decide)).mpr (by decide)⟩

end Move

end Mv88fxx81.Cesa
