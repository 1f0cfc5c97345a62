import Mathlib.Data.List.GetD
import Mv88fxx81.Cesa.MbufCopy

/-!
# Copies out of and into multi-buffers

`mvCesaCopyFromMbuf` collects bytes of a multi-buffer in one buffer, and
`mvCesaCopyToMbuf` spreads the bytes of one buffer over a multi-buffer. Both locate the
first byte with `mvCesaMbufOffset` and then walk over the fragments.
-/

namespace Mv88fxx81.Cesa

open Fragments

/-- `size` bytes from a position on. -/
def bytesAt (src : ℕ → UInt8) (p size : ℕ) : List UInt8 :=
  (List.range size).map fun i => src (p + i)

/-- Write bytes to a buffer. -/
def storeBytes (buf : ℕ → UInt8) (p : ℕ) (bytes : List UInt8) : ℕ → UInt8 :=
  fun x => if p ≤ x ∧ x < p + bytes.length then bytes.getD (x - p) 0 else buf x

/-- The loop of `mvCesaCopyFromMbuf`, with `bufSize` bytes left of the fragment at
`ptr`. -/
def copyFromLoop (src : ℕ → UInt8) : ℕ → ℕ → ℕ → List ℕ → Status × List UInt8
  | size, ptr, bufSize, [] =>
    if size ≤ bufSize then (.ok, bytesAt src ptr size) else (.empty, bytesAt src ptr bufSize)
  | size, ptr, bufSize, next :: rest =>
    if size ≤ bufSize then (.ok, bytesAt src ptr size)
    else
      let (status, bytes) := copyFromLoop src (size - bufSize) (ptr + bufSize) next rest
      (status, bytesAt src ptr bufSize ++ bytes)

/-- `mvCesaCopyFromMbuf`. It is `none` when the entry behind the last fragment is used. -/
def mvCesaCopyFromMbuf (src : ℕ → UInt8) (sizes : List ℕ) (offset size : ℕ) :
    Option (Status × List UInt8) :=
  if size = 0 then some (.ok, [])
  else if mbufOffsetLoop sizes 0 offset = none then some (.outOfRange, [])
  else
    match copyCursor sizes offset with
    | none => none
    | some c => some (copyFromLoop src size c.ptr c.size c.rest)

/-- The loop of `mvCesaCopyToMbuf`, with place for `bufSize` bytes in the fragment at
`ptr`. -/
def copyToLoop : List UInt8 → ℕ → ℕ → List ℕ → (ℕ → UInt8) → Status × (ℕ → UInt8)
  | src, ptr, bufSize, [], dst =>
    if src.length ≤ bufSize then (.ok, storeBytes dst ptr src)
    else (.full, storeBytes dst ptr (src.take bufSize))
  | src, ptr, bufSize, next :: rest, dst =>
    if src.length ≤ bufSize then (.ok, storeBytes dst ptr src)
    else
      copyToLoop (src.drop bufSize) (ptr + bufSize) next rest
        (storeBytes dst ptr (src.take bufSize))

/-- `mvCesaCopyToMbuf`, where `src` are the `size` bytes at `pSrcBuf`. It is `none` when
the entry behind the last fragment is used. -/
def mvCesaCopyToMbuf (src : List UInt8) (dst : ℕ → UInt8) (sizes : List ℕ) (offset : ℕ) :
    Option (Status × (ℕ → UInt8)) :=
  if src.length = 0 then some (.ok, dst)
  else if mbufOffsetLoop sizes 0 offset = none then some (.outOfRange, dst)
  else
    match copyCursor sizes offset with
    | none => none
    | some c => some (copyToLoop src c.ptr c.size c.rest dst)

section Bytes

theorem bytesAt_append (src : ℕ → UInt8) (p n k : ℕ) :
    bytesAt src p n ++ bytesAt src (p + n) k = bytesAt src p (n + k) := by
  unfold bytesAt
  rw [List.range_add, List.map_append, List.map_map]
  congr 1
  refine List.map_congr_left fun i _ => ?_
  rw [Function.comp_apply, Nat.add_assoc]

theorem bytesAt_getD {src : ℕ → UInt8} {p n i : ℕ} (hi : i < n) :
    (bytesAt src p n).getD i 0 = src (p + i) := by
  simp [bytesAt, hi]

/-- Bytes that are written in two pieces. -/
theorem storeBytes_append (dst : ℕ → UInt8) (p : ℕ) (first second : List UInt8) :
    storeBytes (storeBytes dst p first) (p + first.length) second =
      storeBytes dst p (first ++ second) := by
  funext x
  simp only [storeBytes, List.length_append]
  by_cases hsecond : p + first.length ≤ x ∧ x < p + first.length + second.length
  · rw [if_pos hsecond, if_pos (by omega), List.getD_append_right _ _ _ _ (by omega)]
    congr 1
    omega
  · rw [if_neg hsecond]
    by_cases hfirst : p ≤ x ∧ x < p + first.length
    · rw [if_pos hfirst, if_pos (by omega), List.getD_append _ _ _ _ (by omega)]
    · rw [if_neg hfirst, if_neg (by omega)]

/-- The bytes that were written can be read. -/
theorem bytesAt_storeBytes (dst : ℕ → UInt8) (p : ℕ) (bytes : List UInt8) :
    bytesAt (storeBytes dst p bytes) p bytes.length = bytes := by
  refine List.ext_getElem (by simp [bytesAt]) fun i hi hi' => ?_
  simp only [bytesAt, List.getElem_map, List.getElem_range, storeBytes]
  rw [if_pos (by omega), Nat.add_sub_cancel_left, List.getD_eq_getElem _ _ hi']

end Bytes

section Position

variable {sizes : List ℕ} {offset : ℕ}

/-- Positions behind the end of the data are not found. -/
theorem mbufOffsetLoop_none (frag : ℕ) (hrange : sizes.sum < offset) :
    mbufOffsetLoop sizes frag offset = none := by
  induction sizes generalizing frag offset with
  | nil =>
    cases offset with
    | zero => simp at hrange
    | succ offset => rfl
  | cons size rest ih =>
    rw [List.sum_cons] at hrange
    cases offset with
    | zero => omega
    | succ offset =>
      rw [mbufOffsetLoop, if_neg (by omega)]
      exact ih (frag + 1) (by omega)

/-- A position with data behind it is found, with its pointer and what is left there. -/
theorem copyCursor_inside (hrange : offset < sizes.sum) :
    mbufOffsetLoop sizes 0 offset ≠ none ∧ ∃ c, copyCursor sizes offset = some c ∧
      c.ptr = offset ∧ (c.size :: c.rest).sum = sizes.sum - offset := by
  obtain ⟨c, hc, -, hptr, hsum, -⟩ := copyCursor_spec hrange
  refine ⟨fun hnone => ?_, c, hc, hptr, hsum⟩
  simp [copyCursor, hnone] at hc

end Position

section CopyFrom

variable {src : ℕ → UInt8} {sizes : List ℕ} {offset size : ℕ}

/-- The loop copies the bytes from its pointer on, through all fragments and as far as
there are any. -/
theorem copyFromLoop_spec {ptr bufSize : ℕ} {rest : List ℕ} :
    copyFromLoop src size ptr bufSize rest =
      (if size ≤ (bufSize :: rest).sum then .ok else .empty,
        bytesAt src ptr (min size (bufSize :: rest).sum)) := by
  induction rest generalizing size ptr bufSize with
  | nil =>
    rw [copyFromLoop, List.sum_singleton]
    by_cases hsize : size ≤ bufSize
    · rw [if_pos hsize, if_pos hsize, Nat.min_eq_left hsize]
    · rw [if_neg hsize, if_neg hsize, Nat.min_eq_right (by omega)]
  | cons next rest ih =>
    rw [copyFromLoop, List.sum_cons]
    by_cases hsize : size ≤ bufSize
    · rw [if_pos hsize, if_pos (by omega), Nat.min_eq_left (by omega)]
    · have hmore : size - bufSize ≤ (next :: rest).sum ↔ size ≤ bufSize + (next :: rest).sum := by
        omega
      rw [if_neg hsize, ih]
      simp only [hmore]
      rw [bytesAt_append]
      congr 2
      omega

/-- A copy from a position with data behind it. -/
theorem mvCesaCopyFromMbuf_inside (hpos : 0 < size) (hrange : offset < sizes.sum) :
    mvCesaCopyFromMbuf src sizes offset size =
      some (if offset + size ≤ sizes.sum then .ok else .empty,
        bytesAt src offset (min size (sizes.sum - offset))) := by
  obtain ⟨hloop, c, hc, hptr, hsum⟩ := copyCursor_inside hrange
  have hmore : size ≤ sizes.sum - offset ↔ offset + size ≤ sizes.sum := by
    omega
  unfold mvCesaCopyFromMbuf
  rw [if_neg (by omega), if_neg hloop, hc]
  dsimp only
  rw [copyFromLoop_spec, hptr, hsum]
  simp only [hmore]

/-- `mvCesaCopyFromMbuf` copies bytes inside of the multi-buffer. -/
theorem mvCesaCopyFromMbuf_spec (hpos : 0 < size) (hrange : offset + size ≤ sizes.sum) :
    mvCesaCopyFromMbuf src sizes offset size = some (.ok, bytesAt src offset size) := by
  rw [mvCesaCopyFromMbuf_inside hpos (by omega), if_pos hrange, Nat.min_eq_left (by omega)]

/-- A copy from the end of the data uses the entry behind the last fragment, unless an empty
fragment is there. -/
theorem mvCesaCopyFromMbuf_end (hpos : 0 < size) (hempty : ¬ EmptyAt sizes sizes.sum) :
    mvCesaCopyFromMbuf src sizes sizes.sum size = none := by
  obtain ⟨k, fragOffset, hloop, hlocated⟩ := mbufOffsetLoop_located 0 (Nat.le_refl sizes.sum)
  have hstart := hlocated.start
  have hsum := hlocated.sum
  have hsame := hlocated.emptyAt 0
  rw [Nat.zero_add] at hloop
  unfold mvCesaCopyFromMbuf copyCursor
  rw [if_neg (by omega), if_neg (by rw [hloop]; simp), hloop]
  dsimp only
  cases hdrop : sizes.drop k with
  | nil => rfl
  | cons bufSize rest =>
    -- Nothing is left, so that this fragment is empty and begins at the end of the data.
    rw [hdrop, List.sum_cons] at hsum
    have hinside := hlocated.inside
    rw [hdrop, List.headD_cons] at hinside
    obtain rfl : fragOffset = 0 := by omega
    obtain rfl : bufSize = 0 := by omega
    exact absurd (hsame.mpr (by rw [hdrop]; exact Or.inl ⟨rfl, rfl⟩)) hempty

/-- Otherwise a copy takes as many bytes as there are. -/
theorem mvCesaCopyFromMbuf_part (hpos : 0 < size)
    (hread : offset = sizes.sum → EmptyAt sizes sizes.sum) :
    ∃ status, mvCesaCopyFromMbuf src sizes offset size =
      some (status, bytesAt src offset (min size (sizes.sum - offset))) := by
  rcases Nat.lt_trichotomy offset sizes.sum with hlt | rfl | hgt
  · exact ⟨_, mvCesaCopyFromMbuf_inside hpos hlt⟩
  · obtain ⟨k, fragOffset, hloop, hlocated⟩ := mbufOffsetLoop_located 0 (Nat.le_refl sizes.sum)
    have hstart := hlocated.start
    have hsum := hlocated.sum
    have hempty := (hlocated.emptyAt 0).mp (hread rfl)
    rw [Nat.zero_add] at hloop
    unfold mvCesaCopyFromMbuf copyCursor
    rw [if_neg (by omega), if_neg (by rw [hloop]; simp), hloop]
    dsimp only
    cases hdrop : sizes.drop k with
    | nil =>
      rw [hdrop] at hempty
      exact absurd hempty id
    | cons bufSize rest =>
      have hinside := hlocated.inside
      rw [hdrop, List.sum_cons] at hsum
      rw [hdrop, List.headD_cons] at hinside
      have hnothing : ((bufSize - fragOffset) :: rest).sum = 0 := by
        rw [List.sum_cons]
        omega
      refine ⟨.empty, ?_⟩
      dsimp only
      rw [copyFromLoop_spec, hnothing, if_neg (by omega), Nat.sub_self, Nat.min_zero]
      rfl
  · refine ⟨.outOfRange, ?_⟩
    rw [mvCesaCopyFromMbuf, if_neg (by omega), if_pos (mbufOffsetLoop_none 0 hgt),
      Nat.sub_eq_zero_of_le (Nat.le_of_lt hgt), Nat.min_zero]
    rfl

end CopyFrom

section CopyTo

variable {src : List UInt8} {dst : ℕ → UInt8} {sizes : List ℕ} {offset : ℕ}

/-- The loop writes the bytes from its pointer on, through all fragments and as far as
there is place. -/
theorem copyToLoop_spec {ptr bufSize : ℕ} {rest : List ℕ} :
    copyToLoop src ptr bufSize rest dst =
      (if src.length ≤ (bufSize :: rest).sum then .ok else .full,
        storeBytes dst ptr (src.take (bufSize :: rest).sum)) := by
  induction rest generalizing src ptr bufSize dst with
  | nil =>
    rw [copyToLoop, List.sum_singleton]
    by_cases hsize : src.length ≤ bufSize
    · rw [if_pos hsize, if_pos hsize, List.take_of_length_le hsize]
    · rw [if_neg hsize, if_neg hsize]
  | cons next rest ih =>
    rw [copyToLoop, List.sum_cons]
    by_cases hsize : src.length ≤ bufSize
    · rw [if_pos hsize, if_pos (by omega), List.take_of_length_le (by omega)]
    · have hmore : (src.drop bufSize).length ≤ (next :: rest).sum ↔
          src.length ≤ bufSize + (next :: rest).sum := by
        rw [List.length_drop]
        omega
      have hfull : (src.take bufSize).length = bufSize := by
        rw [List.length_take]
        omega
      have hboth := storeBytes_append dst ptr (src.take bufSize)
        ((src.drop bufSize).take (next :: rest).sum)
      rw [hfull, ← List.take_add] at hboth
      rw [if_neg hsize, ih]
      simp only [hmore, hboth]

/-- A copy to a position with data behind it. -/
theorem mvCesaCopyToMbuf_inside (hpos : 0 < src.length) (hrange : offset < sizes.sum) :
    mvCesaCopyToMbuf src dst sizes offset =
      some (if offset + src.length ≤ sizes.sum then .ok else .full,
        storeBytes dst offset (src.take (sizes.sum - offset))) := by
  obtain ⟨hloop, c, hc, hptr, hsum⟩ := copyCursor_inside hrange
  have hmore : src.length ≤ sizes.sum - offset ↔ offset + src.length ≤ sizes.sum := by
    omega
  unfold mvCesaCopyToMbuf
  rw [if_neg (by omega), if_neg hloop, hc]
  dsimp only
  rw [copyToLoop_spec, hptr, hsum]
  simp only [hmore]

end CopyTo

/-- A copy of bytes behind the end of the data stops there, and is not an error of the
range. -/
theorem mvCesaCopyFromMbuf_short :
    mvCesaCopyFromMbuf (fun x => UInt8.ofNat x) [1, 0, 2] 2 2 = some (.empty, [2]) := by
  decide

/-- Both copies do what they are asked for exactly when the bytes lie in the data. Of a
request that begins in the data and does not end there the first part is done, and one that
begins behind the data is refused. -/
theorem mbufTransfer_bytes (src dst : ℕ → UInt8) (sizes : List ℕ) (offset : ℕ) :
    (mvCesaCopyFromMbuf src sizes offset 0 = some (.ok, []) ∧
      mvCesaCopyToMbuf [] dst sizes offset = some (.ok, dst)) ∧
    (offset < sizes.sum → ∀ size, 0 < size →
      mvCesaCopyFromMbuf src sizes offset size =
        some (if offset + size ≤ sizes.sum then .ok else .empty,
          bytesAt src offset (min size (sizes.sum - offset)))) ∧
    (offset < sizes.sum → ∀ bytes : List UInt8, 0 < bytes.length →
      mvCesaCopyToMbuf bytes dst sizes offset =
          some (if offset + bytes.length ≤ sizes.sum then .ok else .full,
            storeBytes dst offset (bytes.take (sizes.sum - offset))) ∧
        (offset + bytes.length ≤ sizes.sum →
          ∃ dst', mvCesaCopyToMbuf bytes dst sizes offset = some (.ok, dst') ∧
            (∀ x, x < offset ∨ offset + bytes.length ≤ x → dst' x = dst x) ∧
            mvCesaCopyFromMbuf dst' sizes offset bytes.length = some (.ok, bytes))) ∧
    (sizes.sum < offset →
      (∀ size, 0 < size → mvCesaCopyFromMbuf src sizes offset size = some (.outOfRange, [])) ∧
      ∀ bytes : List UInt8, 0 < bytes.length →
        mvCesaCopyToMbuf bytes dst sizes offset = some (.outOfRange, dst)) := by
  refine ⟨⟨rfl, rfl⟩, fun hrange size hpos => mvCesaCopyFromMbuf_inside hpos hrange,
    fun hrange bytes hpos => ⟨mvCesaCopyToMbuf_inside hpos hrange, fun hfit => ?_⟩,
    fun hrange => ⟨fun size hpos => ?_, fun bytes hpos => ?_⟩⟩
  · refine ⟨storeBytes dst offset bytes, ?_, fun x hx => ?_, ?_⟩
    · rw [mvCesaCopyToMbuf_inside hpos hrange, if_pos hfit, List.take_of_length_le (by omega)]
    · rw [storeBytes, if_neg (by omega)]
    · rw [mvCesaCopyFromMbuf_spec hpos hfit, bytesAt_storeBytes]
  · rw [mvCesaCopyFromMbuf, if_neg (by omega), if_pos (mbufOffsetLoop_none 0 hrange)]
  · rw [mvCesaCopyToMbuf, if_neg (by omega), if_pos (mbufOffsetLoop_none 0 hrange)]

end Mv88fxx81.Cesa
