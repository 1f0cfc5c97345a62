import Mathlib.Tactic.IntervalCases
import Mv88fxx81.Flash.NorFlash
import Mv88fxx81.Lib.Bytes

/-!
# Writing a block to the flash

Each function that writes leaves every byte as it was or programmed with its data,
and what it reports as written is programmed. The write buffer is the exception:
where the device is wider than the bus, a buffer takes only a part of its data.
-/

namespace Mv88fxx81.Flash

open Bytes NorMemory

variable {dev : FlashDevice} {info : FlashInfo} {mem mem' : ℕ → BitVec 8} {offset i k : ℕ}
  {data : BitVec 32} {block : List (BitVec 8)}

/-- The bytes of a word, the most significant one first. -/
def beBytes32 (x : BitVec 32) : List (BitVec 8) :=
  [x.extractLsb' 24 8, x.extractLsb' 16 8, x.extractLsb' 8 8, x.extractLsb' 0 8]

/-- A word is determined by its bytes. -/
theorem beBytes32_inj {x y : BitVec 32} (hbytes : beBytes32 x = beBytes32 y) : x = y := by
  simp only [beBytes32, List.cons.injEq, and_true] at hbytes
  obtain ⟨h₃, h₂, h₁, h₀⟩ := hbytes
  apply BitVec.eq_of_toNat_eq
  have h₃ := congrArg BitVec.toNat h₃
  have h₂ := congrArg BitVec.toNat h₂
  have h₁ := congrArg BitVec.toNat h₁
  have h₀ := congrArg BitVec.toNat h₀
  simp only [BitVec.extractLsb'_toNat, Nat.shiftRight_eq_div_pow] at h₀ h₁ h₂ h₃
  have hx := x.isLt
  have hy := y.isLt
  omega

theorem leBytes32_byteSwap32 (x : BitVec 32) : leBytes32 (byteSwap32 x) = beBytes32 x := by
  simp only [leBytes32, beBytes32, byteSwap32, List.cons.injEq, and_true]
  refine ⟨?_, ?_, ?_, ?_⟩ <;> ext i hi <;> interval_cases i <;> simp

theorem beBytes32_byteSwap32 (x : BitVec 32) : beBytes32 (byteSwap32 x) = leBytes32 x := by
  simp only [leBytes32, beBytes32, byteSwap32, List.cons.injEq, and_true]
  refine ⟨?_, ?_, ?_, ?_⟩ <;> ext i hi <;> interval_cases i <;> simp

theorem leBytes16_byteSwap16 (x : BitVec 16) :
    leBytes16 (byteSwap16 x) = [x.extractLsb' 8 8, x.extractLsb' 0 8] := by
  simp only [leBytes16, byteSwap16, List.cons.injEq, and_true]
  refine ⟨?_, ?_⟩ <;> ext i hi <;> interval_cases i <;> simp

theorem beBytes32_assemble32 (b₀ b₁ b₂ b₃ : BitVec 8) :
    beBytes32 (assemble32 b₀ b₁ b₂ b₃) = [b₀, b₁, b₂, b₃] := by
  simp only [beBytes32, assemble32, List.cons.injEq, and_true]
  refine ⟨?_, ?_, ?_, ?_⟩ <;> ext i hi <;> interval_cases i <;> simp

theorem leBytes16_assemble16 (b₀ b₁ : BitVec 8) :
    leBytes16 (byteSwap16 (assemble16 b₀ b₁)) = [b₀, b₁] := by
  simp only [leBytes16_byteSwap16, assemble16, List.cons.injEq, and_true]
  refine ⟨?_, ?_⟩ <;> ext i hi <;> interval_cases i <;> simp

/-- The bytes of a word that is read on a little-endian CPU. -/
theorem leBytes32_append (b₀ b₁ b₂ b₃ : BitVec 8) :
    leBytes32 (b₃ ++ b₂ ++ b₁ ++ b₀) = [b₀, b₁, b₂, b₃] := by
  simp only [leBytes32, List.cons.injEq, and_true, ← BitVec.toNat_inj, BitVec.extractLsb'_toNat,
    Nat.shiftRight_eq_div_pow, toNat_append_eq]
  have h₀ := b₀.isLt
  have h₁ := b₁.isLt
  have h₂ := b₂.isLt
  have h₃ := b₃.isLt
  refine ⟨?_, ?_, ?_, ?_⟩ <;> omega

/-- A word is read as the bytes from its offset on. -/
theorem beBytes32_mvFlash32Rd (mem : ℕ → BitVec 8) (offset : ℕ) :
    beBytes32 (mvFlash32Rd mem offset) = stored mem offset 4 := by
  unfold mvFlash32Rd
  rw [beBytes32_byteSwap32, leBytes32_append]
  rfl

/-- A byte of a bus of eight bits. -/
theorem busBytes_one (hbus : info.busWidth = 1) (x : BitVec 32) :
    busBytes info x = [x.setWidth 8] := by
  unfold busBytes
  rw [if_pos hbus]

theorem busBytes_two (hbus : info.busWidth = 2) (x : BitVec 16) :
    busBytes info ((byteSwap16 x).setWidth 32) = [x.extractLsb' 8 8, x.extractLsb' 0 8] := by
  have hwidth : ((byteSwap16 x).setWidth 32).setWidth 16 = byteSwap16 x := by
    ext i hi
    simp
  unfold busBytes
  rw [if_neg (by omega), if_pos hbus, hwidth, leBytes16_byteSwap16]

theorem busBytes_four (hbus : info.busWidth = 4) (x : BitVec 32) :
    busBytes info (byteSwap32 x) = beBytes32 x := by
  unfold busBytes
  rw [if_neg (by omega), if_neg (by omega), if_pos hbus, leBytes32_byteSwap32]

/-- A program command leaves a part of a word as it was or programs it. -/
theorem Partly.mvFlashProg {mem₁ : ℕ → BitVec 8} {x : BitVec 32} {xs : List (BitVec 8)}
    (hmem : Partly mem mem₁ offset xs)
    (hpart : ∀ j b, (busBytes info x)[j]? = some b → xs[i + j]? = some b) :
    Partly mem (Flash.mvFlashProg dev info mem₁ (offset + i) x).2 offset xs := by
  unfold Flash.mvFlashProg
  split_ifs
  · exact hmem.step hpart
  · exact hmem

/-- A half of a word, as it is written on a bus of 16 bits. -/
theorem half_bytes (hbus : info.busWidth = 2) (n : ℕ) :
    busBytes info ((byteSwap16 ((data >>> n).setWidth 16)).setWidth 32) =
      [data.extractLsb' (n + 8) 8, data.extractLsb' n 8] := by
  rw [busBytes_two hbus]
  simp only [List.cons.injEq, and_true]
  refine ⟨?_, ?_⟩
  · ext i hi
    simp [Nat.add_assoc]
    omega
  · ext i hi
    simp
    omega

/-- A byte of a word, as it is written on a bus of 8 bits. -/
theorem single_byte (hbus : info.busWidth = 1) (n : ℕ) :
    busBytes info ((data >>> n) &&& 0xff) = [data.extractLsb' n 8] := by
  rw [busBytes_one hbus]
  simp only [List.cons.injEq, and_true]
  ext i hi
  interval_cases i <;> simp

/-- The byte of a word at an offset. -/
theorem beBytes32_getElem? (hi : i < 4) :
    (beBytes32 data)[i]? = some (data.extractLsb' (8 * (3 - i)) 8) := by
  interval_cases i <;> rfl

/-- What `mvFlash32Wr` leaves of a word: every byte is as it was or programmed, and all of them are
when it returns `MV_OK`. -/
structure Written (mem : ℕ → BitVec 8) (offset : ℕ) (bytes : List (BitVec 8))
    (result : Status × (ℕ → BitVec 8)) : Prop where
  partly : Partly mem result.2 offset bytes
  ok : result.1 = .ok → result.2 = program mem offset bytes

theorem Written.refused {status : Status} {bytes : List (BitVec 8)} (hstatus : status ≠ .ok) :
    Written mem offset bytes (status, mem) :=
  ⟨Partly.refl, fun h => absurd h hstatus⟩

/-- A program command for all the bytes of a word at once. -/
theorem Written.prog (x : BitVec 32) :
    Written mem offset (busBytes info x) (mvFlashProg dev info mem offset x) := by
  unfold mvFlashProg
  split_ifs
  · exact ⟨Partly.full, fun _ => rfl⟩
  · exact Written.refused (by decide)

theorem progHalfWords_written (hbus : info.busWidth = 2) :
    Written mem offset (beBytes32 data) (progHalfWords dev info offset data [0, 1] mem) := by
  have hhalves : beBytes32 data = [data.extractLsb' (16 + 8) 8, data.extractLsb' 16 8] ++
      [data.extractLsb' (0 + 8) 8, data.extractLsb' 0 8] := rfl
  have hfirst : Partly mem (program mem offset [data.extractLsb' (16 + 8) 8, data.extractLsb' 16 8])
      offset (beBytes32 data) := by
    rw [← Nat.add_zero offset]
    refine Partly.refl.step (i := 0) ?_
    intro j b hj
    have hlt := (List.getElem?_eq_some_iff.mp hj).1
    rw [Nat.zero_add, hhalves, List.getElem?_append_left hlt]
    exact hj
  simp only [progHalfWords, mvFlashProg, Nat.zero_mul, Nat.add_zero, Nat.one_mul, half_bytes hbus,
    Nat.sub_zero, Nat.mul_one, Nat.sub_self, Nat.mul_zero]
  by_cases hzero : dev.completes offset = true
  · by_cases hone : dev.completes (offset + 2) = true
    · simp only [hzero, hone, if_true, ne_eq, not_true_eq_false, if_false]
      have hboth : program (program mem offset [data.extractLsb' (16 + 8) 8, data.extractLsb' 16 8])
          (offset + 2) [data.extractLsb' (0 + 8) 8, data.extractLsb' 0 8] =
          program mem offset (beBytes32 data) := by
        rw [hhalves]
        exact program_append
      rw [hboth]
      exact ⟨Partly.full, fun _ => rfl⟩
    · simp only [hzero, hone, if_true, if_false, ne_eq, not_true_eq_false, reduceCtorEq,
        not_false_eq_true, Bool.false_eq_true]
      exact ⟨hfirst, fun h => by cases h⟩
  · simp only [hzero, if_true, if_false, ne_eq, reduceCtorEq, not_false_eq_true, Bool.false_eq_true]
    exact Written.refused (by decide)

/-- The loop over the bytes of a word leaves every byte as it was or programmed. -/
theorem progBytes_partly (hbus : info.busWidth = 1) {is : List ℕ} {status : Status}
    {mem₁ : ℕ → BitVec 8} (his : ∀ i ∈ is, i < 4) (hmem : Partly mem mem₁ offset (beBytes32 data)) :
    Partly mem (progBytes dev info offset data is status mem₁).2 offset (beBytes32 data) := by
  induction is generalizing status mem₁ with
  | nil => exact hmem
  | cons i is ih =>
    unfold progBytes
    apply ih fun j hj => his j (List.mem_cons_of_mem i hj)
    apply Partly.mvFlashProg hmem
    intro j b hj
    rw [single_byte hbus] at hj
    have hzero : j = 0 := by
      have hlt := (List.getElem?_eq_some_iff.mp hj).1
      rw [List.length_singleton] at hlt
      omega
    subst hzero
    rw [Nat.add_zero, beBytes32_getElem? (his i List.mem_cons_self)]
    exact hj

/-- The loop over the bytes of a word returns `MV_OK` when all of them are programmed. -/
theorem progBytes_ok (hbus : info.busWidth = 1) {is : List ℕ} {status : Status}
    (hok : (progBytes dev info offset data is status mem).1 = .ok) :
    status = .ok ∧ (progBytes dev info offset data is status mem).2 =
      is.foldl (fun mem i => program mem (offset + i) [data.extractLsb' (8 * (3 - i)) 8]) mem := by
  induction is generalizing status mem with
  | nil => exact ⟨hok, rfl⟩
  | cons i is ih =>
    unfold progBytes at hok ⊢
    simp only [mvFlashProg, single_byte hbus] at hok ⊢
    by_cases hdone : dev.completes (offset + i) = true
    · simp only [hdone, if_true, ne_eq, not_true_eq_false, if_false] at hok ⊢
      obtain ⟨hstatus, hmem⟩ := ih hok
      exact ⟨hstatus, hmem⟩
    · simp only [hdone, if_false, ne_eq, reduceCtorEq, not_false_eq_true, if_true,
        Bool.false_eq_true] at hok ⊢
      obtain ⟨hstatus, -⟩ := ih hok
      cases hstatus

theorem progBytes_written (hbus : info.busWidth = 1) :
    Written mem offset (beBytes32 data) (progBytes dev info offset data [0, 1, 2, 3] .ok mem) := by
  refine ⟨progBytes_partly hbus (by decide) Partly.refl, ?_⟩
  intro hok
  rw [(progBytes_ok hbus hok).2]
  have hbytes : beBytes32 data = [data.extractLsb' 24 8] ++ [data.extractLsb' 16 8] ++
      [data.extractLsb' 8 8] ++ [data.extractLsb' 0 8] := rfl
  rw [hbytes, ← program_append, ← program_append, ← program_append]
  rfl

/-- `mvFlash32Wr` writes a word. -/
theorem mvFlash32Wr_written (hbus : info.busWidth = 1 ∨ info.busWidth = 2 ∨ info.busWidth = 4) :
    Written mem offset (beBytes32 data) (mvFlash32Wr dev info mem offset data) := by
  unfold mvFlash32Wr
  dsimp only
  split_ifs with haligned hsec hlocked herased hfour htwo hone
  · exact Written.refused (by decide)
  · exact Written.refused (by decide)
  · exact Written.refused (by decide)
  · exact Written.refused (by decide)
  · have hprog : Written mem offset (busBytes info (byteSwap32 data))
        (mvFlashProg dev info mem offset (byteSwap32 data)) := Written.prog _
    rwa [busBytes_four hfour] at hprog
  · exact progHalfWords_written htwo
  · exact progBytes_written hone
  · omega

/-- The word that `mvFlash8Wr` writes. -/
def mergeByte (word : BitVec 32) (position : ℕ) (cdata : BitVec 8) : BitVec 32 :=
  word &&& (word &&& ~~~((0xff : BitVec 32) <<< ((3 - position) * 8))) |||
    (cdata.setWidth 32 <<< ((3 - position) * 8))

/-- One byte of the word is replaced. -/
theorem beBytes32_mergeByte {position : ℕ} (hposition : position < 4) (word : BitVec 32)
    (cdata : BitVec 8) :
    beBytes32 (mergeByte word position cdata) = (beBytes32 word).set position cdata := by
  unfold mergeByte
  interval_cases position
  · simp only [beBytes32, List.set_cons_zero, List.cons.injEq, and_true]
    refine ⟨?_, ?_, ?_, ?_⟩ <;> ext i hi <;> interval_cases i <;> simp
  · simp only [beBytes32, List.set_cons_succ, List.set_cons_zero, List.cons.injEq, and_true]
    refine ⟨?_, ?_, ?_, ?_⟩ <;> ext i hi <;> interval_cases i <;> simp
  · simp only [beBytes32, List.set_cons_succ, List.set_cons_zero, List.cons.injEq, and_true]
    refine ⟨?_, ?_, ?_, ?_⟩ <;> ext i hi <;> interval_cases i <;> simp
  · simp only [beBytes32, List.set_cons_succ, List.set_cons_zero, List.cons.injEq, and_true]
    refine ⟨?_, ?_, ?_, ?_⟩ <;> ext i hi <;> interval_cases i <;> simp

/-- The other bytes of the word are those of the flash. -/
theorem stored_set {position : ℕ} (hposition : position < 4) (cdata : BitVec 8) :
    (stored mem offset 4).set position cdata = stored mem offset position ++ [cdata] ++
      stored mem (offset + position + [cdata].length) (3 - position) := by
  interval_cases position <;> rfl

/-- Writing the word programs the byte. -/
theorem program_mergeByte (cdata : BitVec 8) :
    program mem (offset - offset % 4)
        (beBytes32 (mergeByte (mvFlash32Rd mem (offset - offset % 4)) (offset % 4) cdata)) =
      program mem offset [cdata] := by
  have hposition : offset % 4 < 4 := Nat.mod_lt _ (by decide)
  rw [beBytes32_mergeByte hposition, beBytes32_mvFlash32Rd, stored_set hposition, program_between,
    Nat.sub_add_cancel (Nat.mod_le _ _)]

/-- `mvFlash8Wr` writes a byte. -/
theorem mvFlash8Wr_written (hbus : info.busWidth = 1 ∨ info.busWidth = 2 ∨ info.busWidth = 4)
    (cdata : BitVec 8) :
    Written mem offset [cdata] (mvFlash8Wr dev info mem offset cdata) := by
  have hword : Written mem (offset - offset % 4)
      (beBytes32 (mergeByte (mvFlash32Rd mem (offset - offset % 4)) (offset % 4) cdata))
      (mvFlash8Wr dev info mem offset cdata) := mvFlash32Wr_written hbus
  have hprogram : program mem (offset - offset % 4) (beBytes32 (mergeByte
      (mvFlash32Rd mem (offset - offset % 4)) (offset % 4) cdata)) = program mem offset [cdata] :=
    program_mergeByte cdata
  refine ⟨fun x => ?_, fun hok => ?_⟩
  · rw [← hprogram]
    exact hword.partly x
  · rw [← hprogram]
    exact hword.ok hok

/-- What a function that writes a block returns: the number of bytes, and a flash where these are
programmed. -/
structure WrittenUpto (mem : ℕ → BitVec 8) (offset : ℕ) (block : List (BitVec 8))
    (result : ℕ × (ℕ → BitVec 8)) : Prop where
  le : result.1 ≤ block.length
  upto : Upto mem result.2 offset block result.1

/-- A block is written in two parts. -/
theorem WrittenUpto.after {xs ys : List (BitVec 8)} {k : ℕ} {mem' : ℕ → BitVec 8}
    (hrest : WrittenUpto (program mem offset xs) (offset + xs.length) ys (k, mem')) :
    WrittenUpto mem offset (xs ++ ys) (xs.length + k, mem') := by
  refine ⟨?_, hrest.upto.after⟩
  rw [List.length_append]
  exact Nat.add_le_add_left hrest.le _

/-- What a loop that has written `i` bytes of a block returns. -/
structure LoopWritten (mem : ℕ → BitVec 8) (offset : ℕ) (block : List (BitVec 8)) (i : ℕ)
    (result : ℕ × (ℕ → BitVec 8)) : Prop where
  le : i ≤ result.1
  written : WrittenUpto mem (offset + i) (block.drop i) (result.1 - i, result.2)

theorem LoopWritten.stop (hpartly : Partly mem mem' (offset + i) (block.drop i)) :
    LoopWritten mem offset block i (i, mem') := by
  refine ⟨le_rfl, ?_, ?_⟩
  · dsimp only
    omega
  · dsimp only
    rw [Nat.sub_self]
    exact hpartly.upto_zero

/-- The next part of the block is written, and the loop goes on when this succeeds. -/
theorem LoopWritten.part {xs : List (BitVec 8)} {word : Status × (ℕ → BitVec 8)}
    {rest : ℕ × (ℕ → BitVec 8)} (hxs : block.drop i = xs ++ block.drop (i + xs.length))
    (hword : Written mem (offset + i) xs word)
    (hrest : LoopWritten word.2 offset block (i + xs.length) rest) :
    LoopWritten mem offset block i (if word.1 ≠ .ok then (i, word.2) else rest) := by
  by_cases hok : word.1 = .ok
  · rw [if_neg (not_not.mpr hok)]
    have hle := hrest.le
    have hwritten := hrest.written
    rw [hword.ok hok, ← Nat.add_assoc] at hwritten
    refine ⟨by omega, ?_⟩
    have hafter := hwritten.after
    rwa [← hxs, (by omega : xs.length + (rest.1 - (i + xs.length)) = rest.1 - i)] at hafter
  · rw [if_pos hok]
    apply LoopWritten.stop
    rw [hxs]
    exact (hword.partly.upto_zero.before (Nat.zero_le _)).partly

/-- The next byte and the next four bytes of a block. -/
theorem drop_byte (hi : i < block.length) :
    block.drop i = [block.getD i 0] ++ block.drop (i + 1) := by
  rw [List.drop_eq_getElem_cons hi, List.getD_eq_getElem _ _ hi]
  rfl

theorem drop_word (hi : i + 4 ≤ block.length) :
    block.drop i = [block.getD i 0, block.getD (i + 1) 0, block.getD (i + 2) 0,
      block.getD (i + 3) 0] ++ block.drop (i + 4) := by
  rw [drop_byte (by omega), drop_byte (by omega : i + 1 < block.length),
    drop_byte (by omega : i + 1 + 1 < block.length),
    drop_byte (by omega : i + 1 + 1 + 1 < block.length)]
  rfl

theorem unbufWrLoop_written (hbus : info.busWidth = 1 ∨ info.busWidth = 2 ∨ info.busWidth = 4)
    (fuel : ℕ) : LoopWritten mem offset block i (unbufWrLoop dev info offset block fuel i mem) := by
  induction fuel generalizing i mem with
  | zero => exact LoopWritten.stop Partly.refl
  | succ fuel ih =>
    unfold unbufWrLoop
    by_cases hmore : i < block.length
    · rw [if_pos hmore]
      by_cases hbyte : (offset + i) % 4 ≠ 0 ∨ block.length - i < 4
      · rw [if_pos hbyte]
        exact LoopWritten.part (drop_byte hmore) (mvFlash8Wr_written hbus _) ih
      · rw [if_neg hbyte]
        have hword : Written mem (offset + i) (beBytes32 (assemble32 (block.getD i 0)
            (block.getD (i + 1) 0) (block.getD (i + 2) 0) (block.getD (i + 3) 0)))
            (mvFlash32Wr dev info mem (offset + i) (assemble32 (block.getD i 0)
              (block.getD (i + 1) 0) (block.getD (i + 2) 0) (block.getD (i + 3) 0))) :=
          mvFlash32Wr_written hbus
        rw [beBytes32_assemble32] at hword
        exact LoopWritten.part (drop_word (by omega)) hword ih
    · rw [if_neg hmore]
      exact LoopWritten.stop Partly.refl

/-- `mvFlashBlockUnbufWr` writes a block up to the number of bytes that it returns. -/
theorem mvFlashBlockUnbufWr_written
    (hbus : info.busWidth = 1 ∨ info.busWidth = 2 ∨ info.busWidth = 4) :
    WrittenUpto mem offset block (mvFlashBlockUnbufWr dev info mem offset block) := by
  have hloop : LoopWritten mem offset block 0 (mvFlashBlockUnbufWr dev info mem offset block) :=
    unbufWrLoop_written hbus block.length
  exact hloop.written

/-- The bytes of a word in the write buffer are those of the block. -/
theorem bufferWord_eq (hbus : info.busWidth = 1 ∨ info.busWidth = 2 ∨ info.busWidth = 4)
    (hi : i + info.busWidth ≤ block.length) :
    bufferWord info block i = (block.drop i).take info.busWidth := by
  unfold bufferWord
  rcases hbus with hone | htwo | hfour
  · rw [if_neg (by omega), if_neg (by omega), busBytes_one hone, hone,
      drop_byte (by omega : i < block.length)]
    simp
  · have hdrop : block.drop i = [block.getD i 0, block.getD (i + 1) 0] ++ block.drop (i + 2) := by
      rw [drop_byte (by omega), drop_byte (by omega : i + 1 < block.length)]
      rfl
    have hwidth : ∀ x : BitVec 16, (x.setWidth 32).setWidth 16 = x := by
      intro x
      ext j hj
      simp
    have hbytes : busBytes info ((byteSwap16 (assemble16 (block.getD i 0)
        (block.getD (i + 1) 0))).setWidth 32) = [block.getD i 0, block.getD (i + 1) 0] := by
      unfold busBytes
      rw [if_neg (by omega), if_pos htwo, hwidth, leBytes16_assemble16]
    rw [if_neg (by omega), if_pos htwo, hbytes, htwo, hdrop]
    rfl
  · rw [if_pos hfour, busBytes_four hfour, beBytes32_assemble32, hfour,
      drop_word (by omega : i + 4 ≤ block.length)]
    rfl

/-- A buffer takes the next words of the block. -/
theorem bufferWords_eq (hbus : info.busWidth = 1 ∨ info.busWidth = 2 ∨ info.busWidth = 4)
    {wordCount : ℕ} (hi : i + wordCount * info.busWidth ≤ block.length) :
    bufferWords info block wordCount i = (block.drop i).take (wordCount * info.busWidth) := by
  induction wordCount generalizing i with
  | zero => simp [bufferWords]
  | succ wordCount ih =>
    rw [Nat.succ_mul] at hi
    unfold bufferWords
    rw [bufferWord_eq hbus (by omega), ih (by omega), ← List.drop_drop, Nat.succ_mul,
      Nat.add_comm (wordCount * info.busWidth), List.take_add]

/-- The loop over the buffers programs the first ones of them, and all of them when it returns
`MV_OK`. -/
theorem hwBufferLoop_eq (hbus : info.busWidth = 1 ∨ info.busWidth = 2 ∨ info.busWidth = 4)
    {sec wordCount buffers : ℕ} (hi : i + buffers * (wordCount * info.busWidth) ≤ block.length) :
    ∃ j ≤ buffers, (hwBufferLoop dev info sec block wordCount buffers i offset mem).2 =
        program mem offset ((block.drop i).take (j * (wordCount * info.busWidth))) ∧
      ((hwBufferLoop dev info sec block wordCount buffers i offset mem).1 = .ok → j = buffers) := by
  induction buffers generalizing i offset mem with
  | zero =>
    refine ⟨0, le_rfl, ?_, fun _ => rfl⟩
    simp [hwBufferLoop]
  | succ buffers ih =>
    rw [Nat.succ_mul] at hi
    unfold hwBufferLoop
    split_ifs with htakes
    · have hlength : ((block.drop i).take (wordCount * info.busWidth)).length =
          wordCount * info.busWidth := by
        rw [List.length_take, List.length_drop]
        omega
      rw [bufferWords_eq hbus (by omega)]
      obtain ⟨j, hj, hmem, hok⟩ : ∃ j ≤ buffers,
          (hwBufferLoop dev info sec block wordCount buffers (i + wordCount * info.busWidth)
            (offset + wordCount * info.busWidth)
            (program mem offset ((block.drop i).take (wordCount * info.busWidth)))).2 =
            program (program mem offset ((block.drop i).take (wordCount * info.busWidth)))
              (offset + wordCount * info.busWidth)
              ((block.drop (i + wordCount * info.busWidth)).take
                (j * (wordCount * info.busWidth))) ∧
          ((hwBufferLoop dev info sec block wordCount buffers (i + wordCount * info.busWidth)
            (offset + wordCount * info.busWidth)
            (program mem offset ((block.drop i).take (wordCount * info.busWidth)))).1 = .ok →
              j = buffers) := ih (by omega)
      have happend : program (program mem offset ((block.drop i).take (wordCount * info.busWidth)))
          (offset + ((block.drop i).take (wordCount * info.busWidth)).length)
          ((block.drop (i + wordCount * info.busWidth)).take (j * (wordCount * info.busWidth))) =
          program mem offset ((block.drop i).take (wordCount * info.busWidth) ++
            (block.drop (i + wordCount * info.busWidth)).take (j * (wordCount * info.busWidth))) :=
        program_append
      rw [hlength] at happend
      refine ⟨j + 1, by omega, ?_, fun h => by rw [hok h]⟩
      rw [hmem, happend, ← List.drop_drop, ← List.take_add, Nat.succ_mul, Nat.add_comm (j * _)]
    · refine ⟨0, Nat.zero_le _, ?_, fun h => by cases h⟩
      simp

/-- The state of `mvFlashBlockWr` when it has written `d` bytes. -/
def BlockWrite.after (mem : ℕ → BitVec 8) (offset : ℕ) (block : List (BitVec 8)) (d : ℕ) :
    BlockWrite :=
  ⟨program mem offset (block.take d), offset + d, block.drop d, d⟩

/-- A part of the rest is written. -/
theorem advance_after {d n : ℕ} (hd : d + n ≤ block.length) :
    (BlockWrite.after mem offset block d).advance n
        (program (program mem offset (block.take d)) (offset + d) ((block.drop d).take n)) =
      BlockWrite.after mem offset block (d + n) := by
  have happend : program (program mem offset (block.take d)) (offset + (block.take d).length)
      ((block.drop d).take n) = program mem offset (block.take d ++ (block.drop d).take n) :=
    program_append
  rw [List.length_take, Nat.min_eq_left (by omega), ← List.take_add] at happend
  simp only [BlockWrite.advance, BlockWrite.after, happend, List.drop_drop, Nat.add_assoc]

/-- The rest is written up to some point. -/
theorem writtenUpto_after {d n : ℕ} {result : ℕ × (ℕ → BitVec 8)} (hd : d + n ≤ block.length)
    (hrest : WrittenUpto (program mem offset (block.take d)) (offset + d) ((block.drop d).take n)
      result) :
    WrittenUpto mem offset block (d + result.1, result.2) := by
  have hlength : (block.take d).length = d := by
    rw [List.length_take]
    omega
  have hupto : Upto (program mem offset (block.take d)) result.2 (offset + d)
      ((block.drop d).take n ++ (block.drop d).drop n) result.1 := hrest.upto.before hrest.le
  rw [List.take_append_drop] at hupto
  have hle := hrest.le
  rw [List.length_take, List.length_drop] at hle
  refine ⟨by dsimp only; omega, ?_⟩
  have hall : Upto (program mem offset (block.take d)) result.2 (offset + (block.take d).length)
      (block.drop d) result.1 := by
    rw [hlength]
    exact hupto
  have hafter := hall.after
  rwa [List.take_append_drop, hlength] at hafter

/-- The length of what the first loop of `mvFlashBlockWr` writes. -/
def headLoop (hwBuffSize : ℕ) : ℕ → ℕ → ℕ → ℕ
  | 0, _, _ => 0
  | fuel + 1, offset, n =>
    if (offset % hwBuffSize ≠ 0 ∨ n < hwBuffSize) ∧ n ≠ 0 then
      headSize hwBuffSize offset n +
        headLoop hwBuffSize fuel (offset + headSize hwBuffSize offset n)
          (n - headSize hwBuffSize offset n)
    else 0

theorem headSize_pos {hwBuffSize n : ℕ} (offset : ℕ) (hhw : hwBuffSize ≠ 0) (hn : n ≠ 0) :
    0 < headSize hwBuffSize offset n := by
  unfold headSize
  have hmod := Nat.mod_lt offset (Nat.pos_of_ne_zero hhw)
  split_ifs <;> omega

theorem headSize_le (hwBuffSize offset n : ℕ) : headSize hwBuffSize offset n ≤ n := by
  unfold headSize
  split_ifs <;> omega

theorem headLoop_le (hwBuffSize fuel offset n : ℕ) : headLoop hwBuffSize fuel offset n ≤ n := by
  induction fuel generalizing offset n with
  | zero => exact Nat.zero_le n
  | succ fuel ih =>
    unfold headLoop
    split_ifs
    · have hsize := headSize_le hwBuffSize offset n
      have hrest := ih (offset + headSize hwBuffSize offset n)
        (n - headSize hwBuffSize offset n)
      omega
    · exact Nat.zero_le n

/-- Behind the first loop nothing is left, or at least one whole buffer. -/
theorem headLoop_rest {hwBuffSize fuel : ℕ} (offset n : ℕ) (hhw : hwBuffSize ≠ 0)
    (hfuel : n < fuel) :
    n - headLoop hwBuffSize fuel offset n = 0 ∨
      (offset + headLoop hwBuffSize fuel offset n) % hwBuffSize = 0 ∧
        hwBuffSize ≤ n - headLoop hwBuffSize fuel offset n := by
  induction fuel generalizing offset n with
  | zero => omega
  | succ fuel ih =>
    unfold headLoop
    split_ifs with hmore
    · have hpos := headSize_pos offset hhw hmore.2
      have hle := headSize_le hwBuffSize offset n
      have hrest := ih (offset + headSize hwBuffSize offset n)
        (n - headSize hwBuffSize offset n) (by omega)
      rw [← Nat.add_assoc, ← Nat.sub_sub]
      exact hrest
    · rw [Nat.add_zero, Nat.sub_zero]
      omega

/-- What the first loop of `mvFlashBlockWr` returns: the state where it has written `d` bytes, or a
failure. -/
structure HeadWritten (mem : ℕ → BitVec 8) (offset : ℕ) (block : List (BitVec 8)) (d : ℕ)
    (result : Bool × BlockWrite) : Prop where
  complete : result.1 = true → result.2 = BlockWrite.after mem offset block d
  failed : result.1 = false →
    WrittenUpto mem offset block (result.2.numOfBytesWritten, result.2.mem)

/-- What an iteration writes. -/
def headWrite (dev : FlashDevice) (info : FlashInfo) (hwBuffSize : ℕ) (mem : ℕ → BitVec 8)
    (offset : ℕ) (block : List (BitVec 8)) (d : ℕ) : ℕ × (ℕ → BitVec 8) :=
  mvFlashBlockUnbufWr dev info (program mem offset (block.take d)) (offset + d)
    ((block.drop d).take (headSize hwBuffSize (offset + d) (block.length - d)))

theorem writeHead_after {hwBuffSize fuel d : ℕ} :
    writeHead dev info hwBuffSize (fuel + 1) (BlockWrite.after mem offset block d) =
      if ((offset + d) % hwBuffSize ≠ 0 ∨ block.length - d < hwBuffSize) ∧
          block.length - d ≠ 0 then
        if (headWrite dev info hwBuffSize mem offset block d).1 ≠
            headSize hwBuffSize (offset + d) (block.length - d) then
          (false, (BlockWrite.after mem offset block d).advance
            (headWrite dev info hwBuffSize mem offset block d).1
            (headWrite dev info hwBuffSize mem offset block d).2)
        else
          writeHead dev info hwBuffSize fuel ((BlockWrite.after mem offset block d).advance
            (headWrite dev info hwBuffSize mem offset block d).1
            (headWrite dev info hwBuffSize mem offset block d).2)
      else (true, BlockWrite.after mem offset block d) := by
  simp only [writeHead, BlockWrite.after, List.length_drop, headWrite]
  rfl

/-- An iteration that writes all that it should. -/
theorem headWrite_eq (hbus : info.busWidth = 1 ∨ info.busWidth = 2 ∨ info.busWidth = 4)
    {hwBuffSize d : ℕ} (hd : d ≤ block.length)
    (hall : (headWrite dev info hwBuffSize mem offset block d).1 =
      headSize hwBuffSize (offset + d) (block.length - d)) :
    (BlockWrite.after mem offset block d).advance
        (headWrite dev info hwBuffSize mem offset block d).1
        (headWrite dev info hwBuffSize mem offset block d).2 =
      BlockWrite.after mem offset block
        (d + headSize hwBuffSize (offset + d) (block.length - d)) := by
  have hsize := headSize_le hwBuffSize (offset + d) (block.length - d)
  have hwritten : WrittenUpto (program mem offset (block.take d)) (offset + d)
      ((block.drop d).take (headSize hwBuffSize (offset + d) (block.length - d)))
      (headWrite dev info hwBuffSize mem offset block d) := mvFlashBlockUnbufWr_written hbus
  have hupto := hwritten.upto
  have htaken : ((block.drop d).take (headSize hwBuffSize (offset + d) (block.length - d))).length =
      headSize hwBuffSize (offset + d) (block.length - d) := by
    rw [List.length_take, List.length_drop]
    omega
  have hmem : (headWrite dev info hwBuffSize mem offset block d).2 =
      program (program mem offset (block.take d)) (offset + d)
        ((block.drop d).take (headSize hwBuffSize (offset + d) (block.length - d))) :=
    hupto.eq_program (by omega)
  rw [hmem, hall, advance_after (by omega)]

/-- The first loop of `mvFlashBlockWr`. -/
theorem writeHead_written (hbus : info.busWidth = 1 ∨ info.busWidth = 2 ∨ info.busWidth = 4)
    {hwBuffSize : ℕ} (fuel d : ℕ) (hd : d ≤ block.length) :
    HeadWritten mem offset block (d + headLoop hwBuffSize fuel (offset + d) (block.length - d))
      (writeHead dev info hwBuffSize fuel (BlockWrite.after mem offset block d)) := by
  induction fuel generalizing d with
  | zero => exact ⟨fun _ => rfl, fun h => (by cases h)⟩
  | succ fuel ih =>
    rw [writeHead_after]
    unfold headLoop
    split_ifs with hmore hpart
    · refine ⟨fun h => (by cases h), fun _ => ?_⟩
      have hsize := headSize_le hwBuffSize (offset + d) (block.length - d)
      have hwritten : WrittenUpto (program mem offset (block.take d)) (offset + d)
          ((block.drop d).take (headSize hwBuffSize (offset + d) (block.length - d)))
          (headWrite dev info hwBuffSize mem offset block d) := mvFlashBlockUnbufWr_written hbus
      exact writtenUpto_after (d := d) (by omega) hwritten
    · have hsize := headSize_le hwBuffSize (offset + d) (block.length - d)
      rw [headWrite_eq hbus hd (not_not.mp hpart)]
      have hrest := ih (d + headSize hwBuffSize (offset + d) (block.length - d)) (by omega)
      rwa [← Nat.add_assoc, ← Nat.sub_sub, Nat.add_assoc d] at hrest
    · exact ⟨fun _ => rfl, fun h => (by cases h)⟩

/-- The bytes that one buffer takes of a block. -/
def FlashInfo.bufferBytes (info : FlashInfo) : ℕ :=
  info.hwBuffLen / info.devWidth * info.busWidth

/-- The length of what is written through the buffer, when `n` bytes are left. -/
def bufferedLength (hwBuffSize n : ℕ) : ℕ := n - n % hwBuffSize

/-- The length of what is left of it in the flash. -/
def FlashInfo.takenLength (info : FlashInfo) (n : ℕ) : ℕ :=
  bufferedLength info.flashGetHwBuffSize n / info.flashGetHwBuffSize * info.bufferBytes

/-- What is written is written. -/
theorem after_written {d : ℕ} (hd : d ≤ block.length) :
    WrittenUpto mem offset block (d, (BlockWrite.after mem offset block d).mem) := by
  have hnone : WrittenUpto (program mem offset (block.take d)) (offset + d) ((block.drop d).take 0)
      (0, program mem offset (block.take d)) :=
    ⟨Nat.zero_le _, Partly.refl.upto_zero⟩
  exact writtenUpto_after (by omega) hnone

/-- A part of the rest is programmed and not reported. -/
theorem partial_written {d n : ℕ} (hd : d ≤ block.length) :
    WrittenUpto mem offset block
      (d, program (program mem offset (block.take d)) (offset + d) ((block.drop d).take n)) := by
  have hpart : WrittenUpto (program mem offset (block.take d)) (offset + d)
      ((block.drop d).take (min n (block.length - d)))
      (0, program (program mem offset (block.take d)) (offset + d) ((block.drop d).take n)) := by
    refine ⟨Nat.zero_le _, ?_⟩
    have htake : (block.drop d).take (min n (block.length - d)) = (block.drop d).take n := by
      rw [← List.length_drop]
      exact List.take_eq_take_min.symm
    rw [htake]
    exact Partly.full.upto_zero
  have hle := Nat.min_le_right n (block.length - d)
  exact writtenUpto_after (by omega) hpart

/-- The end of `mvFlashBlockWr`. -/
theorem writeTail_written (hbus : info.busWidth = 1 ∨ info.busWidth = 2 ∨ info.busWidth = 4)
    {d : ℕ} (hd : d ≤ block.length) :
    WrittenUpto mem offset block
      ((writeTail dev info (BlockWrite.after mem offset block d)).numOfBytesWritten,
        (writeTail dev info (BlockWrite.after mem offset block d)).mem) := by
  unfold writeTail
  split_ifs
  · have hrest : WrittenUpto (program mem offset (block.take d)) (offset + d)
        ((block.drop d).take (block.length - d))
        (mvFlashBlockUnbufWr dev info (program mem offset (block.take d)) (offset + d)
          (block.drop d)) := by
      rw [← List.length_drop, List.take_length]
      exact mvFlashBlockUnbufWr_written hbus
    exact writtenUpto_after (d := d) (by omega) hrest
  · exact after_written hd

/-- Only a flash with a write buffer has buffers. -/
theorem flashVen_of_hwBuffSize (hhw : info.flashGetHwBuffSize ≠ 0) : info.flashVen = .intel := by
  unfold FlashInfo.flashGetHwBuffSize at hhw
  cases hven : info.flashVen with
  | intel => rfl
  | amd => simp [hven] at hhw
  | stm => simp [hven] at hhw
  | sst => simp [hven] at hhw

theorem flashGetHwBuffSize_eq (hhw : info.flashGetHwBuffSize ≠ 0) :
    info.flashGetHwBuffSize = info.mvFlashNumOfDevGet * info.hwBuffLen := by
  have hven := flashVen_of_hwBuffSize hhw
  unfold FlashInfo.flashGetHwBuffSize
  rw [hven]

/-- A buffer takes at most its size of a block. -/
theorem bufferBytes_le (hbus : info.busWidth = 1 ∨ info.busWidth = 2 ∨ info.busWidth = 4)
    (hdev : info.devWidth = 1 ∨ info.devWidth = 2) :
    info.bufferBytes ≤ info.mvFlashNumOfDevGet * info.hwBuffLen := by
  unfold FlashInfo.bufferBytes FlashInfo.mvFlashNumOfDevGet
  rcases hbus with h | h | h <;> rcases hdev with h' | h' <;> rw [h, h'] <;> simp <;> omega

/-- A buffer takes its size where the bus is not narrower than a device. -/
theorem bufferBytes_eq (hbus : info.busWidth = 1 ∨ info.busWidth = 2 ∨ info.busWidth = 4)
    (hdev : info.devWidth = 1 ∨ info.devWidth = 2) (hlen : info.hwBuffLen % 2 = 0)
    (hwide : info.devWidth ≤ info.busWidth) :
    info.bufferBytes = info.mvFlashNumOfDevGet * info.hwBuffLen := by
  unfold FlashInfo.bufferBytes FlashInfo.mvFlashNumOfDevGet
  rw [if_pos hwide]
  rcases hbus with h | h | h <;> rcases hdev with h' | h' <;> rw [h, h'] at hwide ⊢ <;> omega

end Mv88fxx81.Flash
