import Mathlib.Algebra.BigOperators.Group.List.Basic
import Mathlib.Data.Int.Notation
import Mv88fxx81.Cesa.OcfMbuf
import Mv88fxx81.Lib.MemoryCopy

/-!
# Copying into a socket buffer

`skb_copy_bits_back` puts the IV of a request into its socket buffer, at an offset that may lie in
the linear part or in a fragment. It is meant to be the inverse of `skb_copy_bits` of the kernel.
It keeps the offset relative to the part at hand, but takes it into account neither for the
number of bytes that fit into the linear part nor for the address in a fragment.
-/

namespace Mv88fxx81.Cesa

open MemoryCopy

/-- The address of the first byte of a fragment. -/
def SkbFrag.address (frag : SkbFrag) : ℕ := frag.page + frag.pageOffset.toNat

/-- The addresses of the bytes of a fragment. -/
def SkbFrag.bytes (frag : SkbFrag) : List ℕ := List.range' frag.address frag.size.toNat

/-- The addresses of the bytes of a socket buffer, in their logical order. -/
def SkBuff.bytes (skb : SkBuff) : List ℕ :=
  List.range' skb.data (skbHeadlen skb) ++ skb.frags.flatMap SkbFrag.bytes

/-- The variables of `skb_copy_bits_back`, and what it has written. -/
structure CopyBack where
  offset : ℤ
  cp : List UInt8
  len : ℤ
  writes : List (ℕ × UInt8)

/-- The `memcpy` for a part of `size` bytes, with the change of `len` and `cp` behind it. -/
def CopyBack.copy (s : CopyBack) (dst size : ℕ) : CopyBack :=
  { s with
    cp := s.cp.drop size
    len := s.len - size
    writes := s.writes ++ writesAt dst (s.cp.take (min (size : ℤ) s.len).toNat) }

/-- The body of the loop of `skb_copy_bits_back`. -/
def copyBackFrag (frag : SkbFrag) (s : CopyBack) : CopyBack :=
  let s := if s.offset < frag.size.toNat then s.copy frag.address frag.size.toNat else s
  { s with offset := s.offset - frag.size.toNat }

/-- The loop of `skb_copy_bits_back`. -/
def copyBackLoop : List SkbFrag → CopyBack → CopyBack
  | [], s => s
  | frag :: frags, s => if 0 < s.len then copyBackLoop frags (copyBackFrag frag s) else s

/-- The writes of `skb_copy_bits_back`, where `len` is the length of `cp`. -/
def skbCopyBitsBack (skb : SkBuff) (offset : ℕ) (cp : List UInt8) : List (ℕ × UInt8) :=
  let s : CopyBack := ⟨offset, cp, cp.length, []⟩
  let s := if s.offset < skbHeadlen skb then s.copy (skb.data + offset) (skbHeadlen skb) else s
  (copyBackLoop skb.frags { s with offset := s.offset - skbHeadlen skb }).writes

/-- The variables of `skb_copy_bits`, and the bytes that it has copied. -/
structure CopyBits where
  offset : ℤ
  len : ℤ
  copied : List UInt8

/-- Copy from `src` at most `room` bytes. -/
def CopyBits.copy (s : CopyBits) (mem : ℕ → UInt8) (src : ℕ) (room : ℤ) : CopyBits :=
  let copy := if room > s.len then s.len else room
  { offset := s.offset + copy
    len := s.len - copy
    copied := s.copied ++ (List.range' src copy.toNat).map mem }

/-- The loop of `skb_copy_bits` over the fragments and the test behind it. -/
def copyBitsLoop (mem : ℕ → UInt8) : List SkbFrag → ℤ → CopyBits → Option (List UInt8)
  | [], _, s => if s.len = 0 then some s.copied else none
  | frag :: frags, start, s =>
    let stop := start + frag.size.toNat
    if 0 < stop - s.offset then
      let s := s.copy mem (frag.address + (s.offset - start).toNat) (stop - s.offset)
      if s.len = 0 then some s.copied else copyBitsLoop mem frags stop s
    else copyBitsLoop mem frags stop s

/-- `skb_copy_bits`, for a socket buffer without a `frag_list`. -/
def skbCopyBits (mem : ℕ → UInt8) (skb : SkBuff) (offset len : ℤ) : Option (List UInt8) :=
  let start : ℤ := skbHeadlen skb
  let s : CopyBits := ⟨offset, len, []⟩
  if offset > skb.len - len then none
  else if 0 < start - offset then
    let s := s.copy mem (skb.data + offset.toNat) (start - offset)
    if s.len = 0 then some s.copied else copyBitsLoop mem skb.frags start s
  else copyBitsLoop mem skb.frags start s

/-- The bytes of a socket buffer lie at different addresses, and what lies behind the linear part is
not data of the buffer (it is room at its tail, or the information shared with its clones). -/
structure SkBuff.Placed (skb : SkBuff) : Prop where
  nodup : skb.bytes.Nodup
  behind : skb.data + skbHeadlen skb ∉ skb.bytes

/-- The writes put `cp` at the logical bytes from `offset` on: they change exactly these bytes, and
`skb_copy_bits` yields `cp` afterwards, whatever was in memory. -/
structure WritesBack (skb : SkBuff) (offset : ℕ) (cp : List UInt8) (writes : List (ℕ × UInt8)) :
    Prop where
  exactly : ∀ addr, addr ∈ writes.map Prod.fst ↔ addr ∈ (skb.bytes.drop offset).take cp.length
  readBack : ∀ mem, skbCopyBits (store mem writes) skb offset cp.length = some cp

/-- The range lies in the linear part, or it begins with a part. -/
def StartsPart (skb : SkBuff) (offset len : ℕ) : Prop :=
  len = 0 ∨ offset + len ≤ skbHeadlen skb ∨ offset = 0 ∨
    ∃ m ≤ skb.frags.length,
      offset = skbHeadlen skb + ((skb.frags.take m).map fun frag => frag.size.toNat).sum

/-! ### Reading -/

section Read

variable {mem : ℕ → UInt8} {frags : List SkbFrag} {skb : SkBuff} {offset len : ℕ}

@[simp] theorem SkbFrag.bytes_length (frag : SkbFrag) : frag.bytes.length = frag.size.toNat :=
  List.length_range'

/-- A copy from a part of `size` bytes reads those of the next `n` bytes that lie in it. -/
theorem CopyBits.copy_eq {s : CopyBits} {start : ℤ} {base size k n : ℕ}
    (hoffset : s.offset = start + k) (hlen : s.len = n) (hinside : k < size) :
    s.copy mem (base + (s.offset - start).toNat) (start + size - s.offset) =
      ⟨start + (k + min n (size - k) : ℕ), (n - (size - k) : ℕ),
        s.copied ++ (((List.range' base size).drop k).take n).map mem⟩ := by
  have hcopy : (if start + size - s.offset > s.len then s.len else start + size - s.offset) =
      (min n (size - k) : ℕ) := by
    split <;> omega
  have hread : ((List.range' base size).drop k).take n =
      List.range' (base + k) (min n (size - k)) := by
    rw [List.drop_range', Nat.mul_one]
    by_cases hlast : size - k ≤ n
    · rw [List.take_range'_of_length_le hlast, Nat.min_eq_right hlast]
    · rw [List.take_range'_of_length_ge (by omega), Nat.min_eq_left (by omega)]
  unfold CopyBits.copy
  simp only [hcopy, hread, Int.toNat_natCast]
  rw [show (s.offset - start).toNat = k by omega,
    show s.offset + (min n (size - k) : ℕ) = start + (k + min n (size - k) : ℕ) by omega,
    show s.len - (min n (size - k) : ℕ) = (n - (size - k) : ℕ) by omega]

/-- The next bytes of a part and what follows it. -/
theorem take_drop_append {part rest : List ℕ} {k n : ℕ} (hinside : k ≤ part.length) :
    ((part ++ rest).drop k).take n =
      (part.drop k).take n ++ rest.take (n - (part.length - k)) := by
  rw [List.drop_append_of_le_length hinside, List.take_append, List.length_drop]

/-- The loop reads the bytes of its fragments from the offset on. -/
theorem copyBitsLoop_eq {s : CopyBits} {start : ℤ} {k n : ℕ} (hoffset : s.offset = start + k)
    (hlen : s.len = n) (hfit : k + n ≤ (frags.flatMap SkbFrag.bytes).length) :
    copyBitsLoop mem frags start s =
      some (s.copied ++ (((frags.flatMap SkbFrag.bytes).drop k).take n).map mem) := by
  induction frags generalizing s start k n with
  | nil =>
    have hzero : n = 0 := by
      rw [List.flatMap_nil, List.length_nil] at hfit
      omega
    rw [copyBitsLoop, if_pos (by omega), hzero]
    simp
  | cons frag frags ih =>
    have hsize := frag.bytes_length
    rw [List.flatMap_cons, List.length_append, hsize] at hfit
    rw [copyBitsLoop, List.flatMap_cons]
    dsimp only
    by_cases hinside : k < frag.size.toNat
    · rw [if_pos (by omega), CopyBits.copy_eq hoffset hlen hinside,
        take_drop_append (by omega), hsize]
      dsimp only
      by_cases hlast : n - (frag.size.toNat - k) = 0
      · rw [if_pos (by omega), hlast, List.take_zero, List.append_nil]
        rfl
      · have hzero : start + (k + min n (frag.size.toNat - k) : ℕ) =
            start + frag.size.toNat + (0 : ℕ) := by omega
        rw [if_neg (by omega), ih hzero rfl (by omega), List.drop_zero, List.append_assoc,
          ← List.map_append]
        rfl
    · rw [if_neg (by omega), List.drop_append, List.drop_eq_nil_of_le (by omega), hsize,
        List.nil_append]
      exact ih (by omega) hlen (by omega)

/-- The number of bytes of a socket buffer. -/
theorem SkBuff.bytes_length (skb : SkBuff) : skb.bytes.length = skb.len := by
  have hdata : (skb.frags.flatMap SkbFrag.bytes).length = skb.dataLen := by
    rw [List.length_flatMap, skb.dataLen_eq]
    simp
  have hle := skb.dataLen_le
  unfold SkBuff.bytes skbHeadlen
  rw [List.length_append, List.length_range', hdata]
  omega

/-- `skb_copy_bits` reads a range of the logical bytes. -/
theorem skbCopyBits_eq (hfit : offset + len ≤ skb.len) :
    skbCopyBits mem skb offset len = some (((skb.bytes.drop offset).take len).map mem) := by
  have hlength := skb.bytes_length
  have hparts : skb.bytes =
      List.range' skb.data (skbHeadlen skb) ++ skb.frags.flatMap SkbFrag.bytes := rfl
  rw [hparts, List.length_append, List.length_range'] at hlength
  unfold skbCopyBits
  dsimp only
  rw [if_neg (by omega)]
  by_cases hhead : offset < skbHeadlen skb
  · have hcopy := @CopyBits.copy_eq mem ⟨offset, len, []⟩ 0 skb.data _ _ len
      (Int.zero_add _).symm rfl hhead
    simp only [Int.sub_zero, Int.zero_add, List.nil_append] at hcopy
    rw [if_pos (by omega), hcopy, hparts, take_drop_append (by simp; omega), List.length_range']
    dsimp only
    by_cases hlast : len - (skbHeadlen skb - offset) = 0
    · rw [if_pos (by omega), hlast, List.take_zero, List.append_nil]
    · have hzero : ((offset + min len (skbHeadlen skb - offset) : ℕ) : ℤ) =
          skbHeadlen skb + (0 : ℕ) := by omega
      rw [if_neg (by omega), copyBitsLoop_eq hzero rfl (by omega), List.drop_zero,
        ← List.map_append]
  · have hlater : (offset : ℤ) = skbHeadlen skb + (offset - skbHeadlen skb : ℕ) := by omega
    have hnone : (List.range' skb.data (skbHeadlen skb)).drop offset = [] :=
      List.drop_eq_nil_of_le (by rw [List.length_range']; omega)
    rw [if_neg (by omega), copyBitsLoop_eq hlater rfl (by omega), hparts, List.drop_append, hnone,
      List.length_range', List.nil_append, List.nil_append]

end Read

/-! ### Writing -/

section Write

variable {frags : List SkbFrag} {skb : SkBuff} {s : CopyBack} {cp : List UInt8}
  {offset dst size : ℕ}

/-- The copy for a part writes to the addresses of the part, as long as bytes are left. -/
theorem CopyBack.copy_writes (hcp : s.cp.length = s.len.toNat) :
    (s.copy dst size).writes = s.writes ++ (List.range' dst size).zip s.cp := by
  have htake : s.cp.take (min (size : ℤ) s.len).toNat = s.cp.take size := by
    by_cases hfit : size ≤ s.len.toNat
    · rw [show (min (size : ℤ) s.len).toNat = size by omega]
    · rw [List.take_of_length_le (by omega), List.take_of_length_le (by omega)]
  rw [CopyBack.copy, htake, writesAt_take]

/-- The loop body for a fragment that the offset does not lie behind. -/
theorem copyBackFrag_copy {frag : SkbFrag} (hinside : s.offset < frag.size.toNat)
    (hcp : s.cp.length = s.len.toNat) :
    copyBackFrag frag s =
      { offset := s.offset - frag.size.toNat
        cp := s.cp.drop frag.size.toNat
        len := s.len - frag.size.toNat
        writes := s.writes ++ frag.bytes.zip s.cp } := by
  have hwrites : (s.copy frag.address frag.size.toNat).writes = s.writes ++ frag.bytes.zip s.cp :=
    CopyBack.copy_writes hcp
  rw [copyBackFrag, if_pos hinside, hwrites]
  rfl

/-- The loop body for a fragment that lies before the offset. -/
theorem copyBackFrag_skip {frag : SkbFrag} (hbehind : ¬ s.offset < frag.size.toNat) :
    copyBackFrag frag s = { s with offset := s.offset - frag.size.toNat } := by
  rw [copyBackFrag, if_neg hbehind]

/-- The loop ends when no byte is left. -/
theorem copyBackLoop_of_le (hlen : s.len ≤ 0) : copyBackLoop frags s = s := by
  cases frags with
  | nil => rfl
  | cons frag frags => rw [copyBackLoop, if_neg (by omega)]

/-- The loop keeps what was written before. -/
theorem copyBackLoop_writes : s.writes <+: (copyBackLoop frags s).writes := by
  induction frags generalizing s with
  | nil => exact List.prefix_refl _
  | cons frag frags ih =>
    rw [copyBackLoop]
    split
    next hlen =>
      refine List.IsPrefix.trans ?_ ih
      unfold copyBackFrag
      split
      next hinside => exact List.prefix_append _ _
      next hbehind => exact List.prefix_refl _
    next hlen => exact List.prefix_refl _

/-- From the start of a fragment on, the loop writes to all bytes in their order. -/
theorem copyBackLoop_aligned (hoffset : s.offset ≤ 0) (hcp : s.cp.length = s.len.toNat) :
    (copyBackLoop frags s).writes = s.writes ++ (frags.flatMap SkbFrag.bytes).zip s.cp := by
  induction frags generalizing s with
  | nil => simp [copyBackLoop]
  | cons frag frags ih =>
    rw [copyBackLoop, List.flatMap_cons, zip_append_left, SkbFrag.bytes_length]
    by_cases hlen : 0 < s.len
    · rw [if_pos hlen]
      by_cases hinside : s.offset < frag.size.toNat
      · have hdrop : (s.cp.drop frag.size.toNat).length = (s.len - frag.size.toNat).toNat := by
          rw [List.length_drop]
          omega
        rw [copyBackFrag_copy hinside hcp, ih (show s.offset - frag.size.toNat ≤ 0 by omega) hdrop,
          List.append_assoc]
      · have hempty : frag.size.toNat = 0 := by omega
        have hnone : frag.bytes = [] := by
          rw [← List.length_eq_zero_iff, SkbFrag.bytes_length, hempty]
        have hrest := ih (s := { s with offset := s.offset - frag.size.toNat })
          (by dsimp only; omega) hcp
        rw [copyBackFrag_skip hinside, hrest, hnone, hempty]
        rfl
    · have hnone : s.cp = [] := List.length_eq_zero_iff.1 (by omega)
      rw [if_neg hlen, hnone]
      simp

/-- The loop goes over whole fragments that lie before the offset. -/
theorem copyBackLoop_boundary {m : ℕ}
    (hoffset : s.offset = ((frags.take m).map fun frag => frag.size.toNat).sum)
    (hcp : s.cp.length = s.len.toNat) :
    (copyBackLoop frags s).writes =
      s.writes ++ ((frags.flatMap SkbFrag.bytes).drop s.offset.toNat).zip s.cp := by
  induction m generalizing frags s with
  | zero =>
    have hzero : s.offset = 0 := by simpa using hoffset
    rw [copyBackLoop_aligned (by omega) hcp, hzero]
    rfl
  | succ m ih =>
    cases frags with
    | nil => simp [copyBackLoop]
    | cons frag frags =>
      rw [List.take_succ_cons, List.map_cons, List.sum_cons] at hoffset
      rw [copyBackLoop, List.flatMap_cons]
      by_cases hlen : 0 < s.len
      · have hrest : s.offset - frag.size.toNat =
            ((frags.take m).map fun frag => frag.size.toNat).sum := by omega
        have hdrop : (frag.bytes ++ frags.flatMap SkbFrag.bytes).drop s.offset.toNat =
            (frags.flatMap SkbFrag.bytes).drop (s.offset - frag.size.toNat).toNat := by
          rw [List.drop_append, List.drop_eq_nil_of_le (by rw [SkbFrag.bytes_length]; omega),
            SkbFrag.bytes_length, List.nil_append]
          congr 1
          omega
        rw [if_pos hlen, copyBackFrag_skip (by omega), hdrop]
        exact ih (s := { s with offset := s.offset - frag.size.toNat }) hrest hcp
      · have hnone : s.cp = [] := List.length_eq_zero_iff.1 (by omega)
        rw [if_neg hlen, hnone]
        simp

/-- From an offset inside a fragment, the loop writes to a byte before the offset. -/
theorem copyBackLoop_inside {k : ℕ} (hoffset : s.offset = k) (hlen : 0 < s.len)
    (hcp : s.cp.length = s.len.toNat) (hfit : k < (frags.flatMap SkbFrag.bytes).length)
    (hinside : ∀ m ≤ frags.length, k ≠ ((frags.take m).map fun frag => frag.size.toNat).sum) :
    ∃ addr ∈ (copyBackLoop frags s).writes.map Prod.fst,
      addr ∈ (frags.flatMap SkbFrag.bytes).take k := by
  induction frags generalizing s k with
  | nil => simp at hfit
  | cons frag frags ih =>
    have hzero : k ≠ 0 := by simpa using hinside 0 (Nat.zero_le _)
    rw [List.flatMap_cons, List.length_append, SkbFrag.bytes_length] at hfit
    rw [copyBackLoop, if_pos hlen, List.flatMap_cons]
    by_cases hfirst : k < frag.size.toNat
    · obtain ⟨size, hsize⟩ : ∃ size, frag.size.toNat = size + 1 := ⟨frag.size.toNat - 1, by omega⟩
      obtain ⟨byte, bytes, hbytes⟩ : ∃ byte bytes, s.cp = byte :: bytes :=
        List.exists_cons_of_length_pos (by omega)
      obtain ⟨k', rfl⟩ : ∃ k', k = k' + 1 := ⟨k - 1, by omega⟩
      refine ⟨frag.address, ?_, ?_⟩
      · refine (copyBackLoop_writes.sublist.map Prod.fst).subset ?_
        rw [copyBackFrag_copy (by omega) hcp, SkbFrag.bytes, hsize, hbytes, List.range'_succ,
          List.zip_cons_cons]
        simp
      · rw [SkbFrag.bytes, hsize, List.range'_succ, List.cons_append, List.take_succ_cons]
        exact List.mem_cons_self
    · have hinside' : ∀ m ≤ frags.length,
          k - frag.size.toNat ≠ ((frags.take m).map fun frag => frag.size.toNat).sum := by
        intro m hm heq
        refine hinside (m + 1) (Nat.succ_le_succ hm) ?_
        rw [List.take_succ_cons, List.map_cons, List.sum_cons]
        omega
      rw [copyBackFrag_skip (by omega)]
      obtain ⟨addr, hwritten, hbefore⟩ := ih (s := { s with offset := s.offset - frag.size.toNat })
        (k := k - frag.size.toNat) (by dsimp only; omega) hlen hcp (by omega) hinside'
      refine ⟨addr, hwritten, ?_⟩
      rw [List.take_append, SkbFrag.bytes_length]
      exact List.mem_append_right _ hbefore

/-- The variables of `skb_copy_bits_back` when it enters the loop, if the offset lies in the linear
part. -/
theorem skbCopyBitsBack_head (hhead : offset < skbHeadlen skb) :
    skbCopyBitsBack skb offset cp =
      (copyBackLoop skb.frags
        { offset := offset - skbHeadlen skb
          cp := cp.drop (skbHeadlen skb)
          len := cp.length - skbHeadlen skb
          writes := (List.range' (skb.data + offset) (skbHeadlen skb)).zip cp }).writes := by
  have hwrites := @CopyBack.copy_writes ⟨offset, cp, cp.length, []⟩ (skb.data + offset)
    (skbHeadlen skb) (Int.toNat_natCast _).symm
  rw [List.nil_append] at hwrites
  unfold skbCopyBitsBack
  dsimp only
  rw [if_pos (by omega), hwrites]
  rfl

/-- The variables of `skb_copy_bits_back` when it enters the loop, if the offset lies behind the
linear part. -/
theorem skbCopyBitsBack_behind (hbehind : skbHeadlen skb ≤ offset) :
    skbCopyBitsBack skb offset cp =
      (copyBackLoop skb.frags ⟨(offset - skbHeadlen skb : ℕ), cp, cp.length, []⟩).writes := by
  unfold skbCopyBitsBack
  dsimp only
  rw [if_neg (by omega), show (offset : ℤ) - skbHeadlen skb =
    (offset - skbHeadlen skb : ℕ) by omega]

/-- A range that begins with a part is written byte by byte. -/
theorem skbCopyBitsBack_eq (hstart : StartsPart skb offset cp.length) :
    skbCopyBitsBack skb offset cp = (skb.bytes.drop offset).zip cp := by
  by_cases hhead : offset < skbHeadlen skb
  · rw [skbCopyBitsBack_head hhead]
    by_cases hzero : offset = 0
    · have hdrop : (cp.drop (skbHeadlen skb)).length =
        ((cp.length : ℤ) - skbHeadlen skb).toNat := by
        rw [List.length_drop]
        omega
      rw [copyBackLoop_aligned (by dsimp only; omega) hdrop, hzero, SkBuff.bytes, List.drop_zero,
        zip_append_left, List.length_range']
      rfl
    · have hfit : offset + cp.length ≤ skbHeadlen skb := by
        rcases hstart with hnone | hfit | h | ⟨m, -, hoffset⟩
        · omega
        · exact hfit
        · exact absurd h hzero
        · omega
      have hinside : (skb.bytes.drop offset).zip cp =
          (List.range' (skb.data + offset) (skbHeadlen skb - offset)).zip cp := by
        rw [SkBuff.bytes, List.drop_append_of_le_length (by rw [List.length_range']; omega),
          zip_append_left, List.drop_range', Nat.mul_one, List.length_range',
          List.drop_eq_nil_of_le (by omega), List.zip_nil_right, List.append_nil]
      rw [copyBackLoop_of_le (by dsimp only; omega), hinside]
      dsimp only
      rw [← writesAt_take, ← writesAt_take, List.take_of_length_le (by omega),
        List.take_of_length_le (by omega)]
  · have hflat : skb.bytes.drop offset =
        (skb.frags.flatMap SkbFrag.bytes).drop (offset - skbHeadlen skb) := by
      rw [SkBuff.bytes, List.drop_append,
        List.drop_eq_nil_of_le (by rw [List.length_range']; omega),
        List.length_range', List.nil_append]
    rw [skbCopyBitsBack_behind (by omega), hflat]
    by_cases hnone : cp.length = 0
    · have hnil : cp = [] := List.length_eq_zero_iff.1 hnone
      rw [copyBackLoop_of_le (by dsimp only; omega), hnil, List.zip_nil_right]
    · obtain ⟨m, hm⟩ : ∃ m, offset - skbHeadlen skb =
          ((skb.frags.take m).map fun frag => frag.size.toNat).sum := by
        rcases hstart with h | hfit | hzero | ⟨m, -, hoffset⟩
        · exact absurd h hnone
        · omega
        · exact ⟨0, by simp [hzero]⟩
        · exact ⟨m, by omega⟩
      rw [copyBackLoop_boundary (congrArg Nat.cast hm) (Int.toNat_natCast _).symm]
      rfl

/-- Writing byte by byte puts the bytes where `skb_copy_bits` finds them. -/
theorem writesBack_zip (hplaced : skb.Placed) (hfit : offset + cp.length ≤ skb.len) :
    WritesBack skb offset cp ((skb.bytes.drop offset).zip cp) := by
  have htake : (skb.bytes.drop offset).zip cp =
    ((skb.bytes.drop offset).take cp.length).zip cp := by
    have hlength := skb.bytes_length
    have hbehind : cp.drop ((skb.bytes.drop offset).take cp.length).length = [] := by
      rw [List.length_take, List.length_drop]
      exact List.drop_eq_nil_of_le (by omega)
    conv_lhs => rw [← List.take_append_drop cp.length (skb.bytes.drop offset), zip_append_left]
    rw [hbehind, List.zip_nil_right, List.append_nil]
  have hlength : ((skb.bytes.drop offset).take cp.length).length = cp.length := by
    rw [List.length_take, List.length_drop, skb.bytes_length]
    omega
  rw [htake]
  refine ⟨fun addr => ?_, fun mem => ?_⟩
  · rw [List.map_fst_zip (Nat.le_of_eq hlength)]
  · rw [skbCopyBits_eq hfit, map_store_zip _ hlength]
    exact hplaced.nodup.sublist ((List.take_sublist _ _).trans (List.drop_sublist _ _))

/-- A range that begins inside a part and leaves the linear part is written in the wrong place. -/
theorem not_writesBack (hplaced : skb.Placed) (hfit : offset + cp.length ≤ skb.len)
    (hstart : ¬ StartsPart skb offset cp.length) :
    ¬ WritesBack skb offset cp (skbCopyBitsBack skb offset cp) := by
  intro hright
  obtain ⟨hnone, hleave, hzero, hboundary⟩ : cp.length ≠ 0 ∧ ¬ offset + cp.length ≤ skbHeadlen skb ∧
      offset ≠ 0 ∧ ∀ m ≤ skb.frags.length, offset ≠
        skbHeadlen skb + ((skb.frags.take m).map fun frag => frag.size.toNat).sum := by
    obtain ⟨hnone, hrest⟩ := not_or.1 hstart
    obtain ⟨hleave, hrest⟩ := not_or.1 hrest
    obtain ⟨hzero, hboundary⟩ := not_or.1 hrest
    exact ⟨hnone, hleave, hzero, fun m hm heq => hboundary ⟨m, hm, heq⟩⟩
  by_cases hhead : offset < skbHeadlen skb
  · -- the first copy reaches the byte behind the linear part
    have hwritten : skb.data + skbHeadlen skb ∈ (skbCopyBitsBack skb offset cp).map Prod.fst := by
      rw [skbCopyBitsBack_head hhead]
      refine (copyBackLoop_writes.sublist.map Prod.fst).subset ?_
      dsimp only
      rw [← writesAt_take, writesAt, List.map_fst_zip (by rw [List.length_range']),
        List.length_take, List.mem_range'_1]
      omega
    have hmem := (hright.exactly _).1 hwritten
    exact hplaced.behind (List.mem_of_mem_drop (List.mem_of_mem_take hmem))
  · have hlength := skb.bytes_length
    rw [SkBuff.bytes, List.length_append, List.length_range'] at hlength
    obtain ⟨addr, hwritten, hbefore⟩ := @copyBackLoop_inside skb.frags
      ⟨(offset - skbHeadlen skb : ℕ), cp, cp.length, []⟩ _ rfl (by dsimp only; omega)
      (Int.toNat_natCast _).symm (by omega) (fun m hm heq => hboundary m hm (by omega))
    rw [← skbCopyBitsBack_behind (by omega)] at hwritten
    have hmem := List.mem_of_mem_take ((hright.exactly _).1 hwritten)
    have htake : addr ∈ skb.bytes.take offset := by
      rw [SkBuff.bytes, List.take_append, List.length_range']
      exact List.mem_append_right _ hbefore
    exact List.disjoint_take_drop hplaced.nodup (Nat.le_refl offset) htake hmem

/-- `skb_copy_bits_back` writes to the range, and `skb_copy_bits` reads back what it wrote, if and
only if the range lies in the linear part or begins with a part of the socket buffer. -/
theorem skbCopyBitsBack_writesBack_iff (hplaced : skb.Placed)
    (hfit : offset + cp.length ≤ skb.len) :
    WritesBack skb offset cp (skbCopyBitsBack skb offset cp) ↔
      StartsPart skb offset cp.length := by
  constructor
  · intro hright
    by_contra hstart
    exact not_writesBack hplaced hfit hstart hright
  · intro hstart
    rw [skbCopyBitsBack_eq hstart]
    exact writesBack_zip hplaced hfit

end Write

/-- A linear part of 40 bytes and a fragment of 100 bytes. -/
def headAndFrag : SkBuff :=
  { data := 1000
    len := 140
    dataLen := 100
    frags := [⟨8192, 16, 100⟩]
    nrFrags_le := by decide
    dataLen_eq := by decide
    dataLen_le := by decide }

theorem headAndFrag_placed : headAndFrag.Placed :=
  { nodup := by decide +kernel
    behind := by decide }

/-- An IV of eight bytes at the start of the fragment. -/
theorem skbCopyBitsBack_writesBack_fragment :
    WritesBack headAndFrag 40 [1, 2, 3, 4, 5, 6, 7, 8]
      (skbCopyBitsBack headAndFrag 40 [1, 2, 3, 4, 5, 6, 7, 8]) :=
  (skbCopyBitsBack_writesBack_iff headAndFrag_placed (by decide)).2
    (Or.inr (Or.inr (Or.inr ⟨0, by decide, by decide⟩)))

/-- An IV of eight bytes that begins four bytes before the end of the linear part. -/
theorem skbCopyBitsBack_overruns :
    ¬ WritesBack headAndFrag 36 [1, 2, 3, 4, 5, 6, 7, 8]
      (skbCopyBitsBack headAndFrag 36 [1, 2, 3, 4, 5, 6, 7, 8]) := by
  intro hright
  have hwritten := (hright.exactly 1040).1 (by decide)
  revert hwritten
  decide

end Mv88fxx81.Cesa
