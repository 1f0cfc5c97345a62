import Mathlib.Data.List.Basic
import Mv88fxx81.Flash.BlockWrite

/-!
# Reading back what is written

A range of the flash can be written when its sectors are not protected and its
erased bits cover the data. The range is then read back as it was written, except
where the write buffer took only a part of its data.
-/

namespace Mv88fxx81.Flash

open Bytes NorMemory

variable {dev : FlashDevice} {info : FlashInfo} {mem mem' : ℕ → BitVec 8} {offset i k : ℕ}
  {data : BitVec 32} {block : List (BitVec 8)}

/-- The geometry of a flash: the sectors are one behind the other and consist of whole words, and
a device has a width of 8 or 16 bits. -/
structure FlashInfo.Valid (info : FlashInfo) : Prop where
  bus : info.busWidth = 1 ∨ info.busWidth = 2 ∨ info.busWidth = 4
  dev : info.devWidth = 1 ∨ info.devWidth = 2
  buff : info.hwBuffLen % 2 = 0
  first : (info.sector 0).baseOffs = 0
  next : ∀ n, n + 1 < info.sectorNum →
    (info.sector (n + 1)).baseOffs = (info.sector n).baseOffs + (info.sector n).size
  words : ∀ n < info.sectorNum, 0 < (info.sector n).size ∧ (info.sector n).size % 4 = 0
  small : ∀ n < info.sectorNum, (info.sector n).baseOffs + (info.sector n).size < 2 ^ 32
  count : info.sectorNum < 2 ^ 32

/-- The offset is in a sector. -/
def FlashInfo.InSector (info : FlashInfo) (offset n : ℕ) : Prop :=
  n < info.sectorNum ∧ (info.sector n).baseOffs ≤ offset ∧
    offset < (info.sector n).baseOffs + (info.sector n).size

/-- No sector of a range is protected. -/
def FlashInfo.Unlocked (info : FlashInfo) (offset n : ℕ) : Prop :=
  ∀ i < n, ∃ sec, info.InSector (offset + i) sec ∧ (info.sector sec).protect = false

/-- The sectors begin one behind the other. -/
theorem FlashInfo.Valid.baseOffs_le (hvalid : info.Valid) {m n : ℕ} (hlt : m < n)
    (hn : n < info.sectorNum) :
    (info.sector m).baseOffs + (info.sector m).size ≤ (info.sector n).baseOffs := by
  induction n with
  | zero => omega
  | succ n ih =>
    have hnext := hvalid.next n hn
    by_cases hm : m = n
    · subst hm
      omega
    · have hbefore := ih (by omega) (by omega)
      omega

/-- The sectors begin at whole words. -/
theorem FlashInfo.Valid.baseOffs_word (hvalid : info.Valid) {n : ℕ} (hn : n < info.sectorNum) :
    (info.sector n).baseOffs % 4 = 0 := by
  induction n with
  | zero => rw [hvalid.first]
  | succ n ih =>
    have hnext := hvalid.next n hn
    have hbase := ih (by omega)
    have hsize := (hvalid.words n (by omega)).2
    omega

/-- An offset is in one sector only. -/
theorem FlashInfo.Valid.inSector_unique (hvalid : info.Valid) {m n : ℕ}
    (hm : info.InSector offset m) (hn : info.InSector offset n) : m = n := by
  obtain ⟨hmlt, hmle, hmend⟩ := hm
  obtain ⟨hnlt, hnle, hnend⟩ := hn
  rcases Nat.lt_trichotomy m n with hlt | heq | hlt
  · have hbase := hvalid.baseOffs_le hlt hnlt
    omega
  · exact heq
  · have hbase := hvalid.baseOffs_le hlt hmlt
    omega

/-- `mvFlashInWhichSec` finds the only sector that an offset is in. -/
theorem mvFlashInWhichSec_of_unique {n : ℕ} (hn : info.InSector offset n)
    (hunique : ∀ m, info.InSector offset m → m = n) : info.mvFlashInWhichSec offset = n := by
  unfold FlashInfo.mvFlashInWhichSec
  have hfind : (List.range info.sectorNum).find? (fun secNum => decide
      ((info.sector secNum).baseOffs ≤ offset ∧
        offset < (info.sector secNum).baseOffs + (info.sector secNum).size)) = some n := by
    rw [List.find?_range_eq_some]
    refine ⟨by simpa using hn.2, List.mem_range.mpr hn.1, ?_⟩
    intro m hm
    simp only [Bool.not_eq_eq_eq_not, Bool.not_true, decide_eq_false_iff_not]
    intro hin
    have heq := hunique m ⟨by have := hn.1; omega, hin⟩
    omega
  rw [hfind]
  rfl

/-- `mvFlashInWhichSec` finds the sector of an offset. -/
theorem mvFlashInWhichSec_eq (hvalid : info.Valid) {n : ℕ} (hn : info.InSector offset n) :
    info.mvFlashInWhichSec offset = n :=
  mvFlashInWhichSec_of_unique hn fun _ hm => hvalid.inSector_unique hm hn

/-- A sector that is not protected. -/
theorem mvFlashSecLockGet_unlocked {n : ℕ} (hn : (info.sector n).protect = false) :
    info.mvFlashSecLockGet n = false := by
  unfold FlashInfo.mvFlashSecLockGet
  split_ifs
  · rfl
  · exact hn

/-- The check for protected sectors goes on only while a sector ends inside the range. -/
theorem checkSectors_unlocked (hvalid : info.Valid) {n sec fuel : ℕ}
    (hunlocked : info.Unlocked offset n) (hsec : sec < info.sectorNum)
    (hprotect : (info.sector sec).protect = false)
    (hend : offset < (info.sector sec).baseOffs + (info.sector sec).size)
    (hfuel : info.sectorNum < fuel + sec) : checkSectors info n fuel sec = some true := by
  induction fuel generalizing sec with
  | zero => omega
  | succ fuel ih =>
    unfold checkSectors
    rw [mvFlashSecLockGet_unlocked hprotect]
    have hknown : ¬ sec > info.sectorNum := by omega
    simp only [FlashInfo.mvFlashSecOffsGet, FlashInfo.mvFlashSecSizeGet, if_neg hknown,
      Bool.false_eq_true, if_false]
    split_ifs with hmore
    · -- the byte behind the sector is in the range, and the next sector has it
      have hcount := hvalid.count
      rw [Nat.mod_eq_of_lt (by omega)]
      obtain ⟨next, hin, hfree⟩ :=
        hunlocked ((info.sector sec).baseOffs + (info.sector sec).size - offset) (by omega)
      rw [Nat.add_sub_cancel' (by omega)] at hin
      have hnext : next = sec + 1 := by
        obtain ⟨hlt, hle, hlast⟩ := hin
        rcases Nat.lt_trichotomy next (sec + 1) with h | h | h
        · by_cases hsame : next = sec
          · subst hsame
            omega
          · have hbase := hvalid.baseOffs_le (by omega : next < sec) hsec
            omega
        · exact h
        · have hbase := hvalid.baseOffs_le h hlt
          have hafter := hvalid.next sec (by omega)
          have hsize := (hvalid.words (sec + 1) (by omega)).1
          omega
      subst hnext
      refine ih hin.1 hfree ?_ (by omega)
      have hlast := hin.2.2
      omega
    · rfl

/-- A block is read as it is in the flash. -/
theorem blockRdLoop_eq {blockSize fuel : ℕ} (hfuel : blockSize - i ≤ fuel) :
    blockRdLoop mem offset blockSize fuel i = stored mem (offset + i) (blockSize - i) := by
  induction fuel generalizing i with
  | zero =>
    rw [(by omega : blockSize - i = 0)]
    rfl
  | succ fuel ih =>
    unfold blockRdLoop
    split_ifs with hmore hbyte
    · have hsize : blockSize - i = 1 + (blockSize - (i + 1)) := by omega
      rw [ih (by omega), hsize, stored_add, Nat.add_assoc]
      rfl
    · have hsize : blockSize - i = 4 + (blockSize - (i + 4)) := by omega
      have hword : [(mvFlash32Rd mem (offset + i) >>> 24).setWidth 8,
          (mvFlash32Rd mem (offset + i) >>> 16).setWidth 8,
          (mvFlash32Rd mem (offset + i) >>> 8).setWidth 8,
          (mvFlash32Rd mem (offset + i)).setWidth 8] = stored mem (offset + i) 4 := by
        rw [← beBytes32_mvFlash32Rd]
        unfold beBytes32
        simp only [List.cons.injEq, and_true]
        refine ⟨?_, ?_, ?_, ?_⟩ <;> ext j hj <;> simp
      dsimp only
      rw [ih (by omega), hword, hsize, stored_add, Nat.add_assoc]
    · rw [(by omega : blockSize - i = 0)]
      rfl

theorem mvFlashBlockRd_eq (mem : ℕ → BitVec 8) (offset blockSize : ℕ) :
    mvFlashBlockRd mem offset blockSize = stored mem offset blockSize :=
  blockRdLoop_eq (by omega)

/-- A device that programs whatever it is told to. -/
def FlashDevice.perfect : FlashDevice := ⟨fun _ => true, fun _ _ => true⟩

/-- A word that fits can be programmed. -/
theorem mvFlash32Rd_fits (hfits : Fits mem offset (beBytes32 data)) :
    mvFlash32Rd mem offset &&& data = data := by
  apply beBytes32_inj
  have hread := beBytes32_mvFlash32Rd mem offset
  have h₀ := hfits 0 _ rfl
  have h₁ := hfits 1 _ rfl
  have h₂ := hfits 2 _ rfl
  have h₃ := hfits 3 _ rfl
  simp only [beBytes32, stored, List.range_succ, List.range_zero, List.nil_append, List.map_cons,
    List.map_nil, List.cons_append, List.cons.injEq, and_true] at hread
  obtain ⟨hr₃, hr₂, hr₁, hr₀⟩ := hread
  simp only [beBytes32, BitVec.extractLsb'_and, List.cons.injEq, and_true]
  rw [hr₀, hr₁, hr₂, hr₃]
  exact ⟨h₀, h₁, h₂, h₃⟩

/-- A perfect device writes a word that fits. -/
theorem mvFlash32Wr_perfect (hvalid : info.Valid) (haligned : offset % 4 = 0)
    (hunlocked : info.Unlocked offset 1) (hfits : Fits mem offset (beBytes32 data)) :
    (mvFlash32Wr .perfect info mem offset data).1 = .ok := by
  obtain ⟨sec, hin, hfree⟩ := hunlocked 0 (by decide)
  rw [Nat.add_zero] at hin
  unfold mvFlash32Wr
  dsimp only
  have hsec : ¬ info.sectorNum ≤ sec := Nat.not_le.mpr hin.1
  rw [if_neg (not_not.mpr haligned), mvFlashInWhichSec_eq hvalid hin, if_neg hsec,
    mvFlashSecLockGet_unlocked hfree, if_neg (by decide), mvFlash32Rd_fits hfits,
    if_neg (not_not.mpr rfl)]
  rcases hvalid.bus with hbus | hbus | hbus
  · rw [if_neg (by omega), if_neg (by omega), if_pos hbus]
    simp [progBytes, mvFlashProg, FlashDevice.perfect]
  · rw [if_neg (by omega), if_pos hbus]
    simp [progHalfWords, mvFlashProg, FlashDevice.perfect]
  · rw [if_pos hbus]
    rfl

/-- A byte and its word are in one sector. -/
theorem FlashInfo.Unlocked.word (hvalid : info.Valid) (hunlocked : info.Unlocked offset 1) :
    info.Unlocked (offset - offset % 4) 1 := by
  intro i hi
  obtain ⟨sec, ⟨hlt, hle, hend⟩, hfree⟩ := hunlocked 0 (by decide)
  have hbase := hvalid.baseOffs_word hlt
  refine ⟨sec, ⟨hlt, ?_, ?_⟩, hfree⟩
  · omega
  · omega

/-- A perfect device writes a byte that fits. -/
theorem mvFlash8Wr_perfect {cdata : BitVec 8} (hvalid : info.Valid)
    (hunlocked : info.Unlocked offset 1) (hfits : Fits mem offset [cdata]) :
    (mvFlash8Wr .perfect info mem offset cdata).1 = .ok := by
  have hposition : offset % 4 < 4 := Nat.mod_lt _ (by decide)
  have hword : Fits mem (offset - offset % 4) (beBytes32
      (mergeByte (mvFlash32Rd mem (offset - offset % 4)) (offset % 4) cdata)) := by
    rw [beBytes32_mergeByte hposition, beBytes32_mvFlash32Rd, stored_set hposition]
    have hback : offset - offset % 4 + offset % 4 = offset := Nat.sub_add_cancel (Nat.mod_le _ _)
    refine fits_append.mpr ⟨fits_append.mpr ⟨fits_stored, ?_⟩, ?_⟩
    · rw [stored_length, hback]
      exact hfits
    · rw [List.length_append, stored_length, ← Nat.add_assoc]
      exact fits_stored
  exact mvFlash32Wr_perfect hvalid (by omega) (hunlocked.word hvalid) hword

theorem FlashInfo.Unlocked.sub {m n : ℕ} (hunlocked : info.Unlocked offset n)
    (hi : i + m ≤ n) : info.Unlocked (offset + i) m := by
  intro j hj
  rw [Nat.add_assoc]
  exact hunlocked (i + j) (by omega)

/-- The loop goes on behind a part that is written. -/
theorem fits_drop {xs : List (BitVec 8)} {word : Status × (ℕ → BitVec 8)}
    (hxs : block.drop i = xs ++ block.drop (i + xs.length))
    (hword : Written mem (offset + i) xs word) (hok : word.1 = .ok)
    (hfits : Fits mem (offset + i) (block.drop i)) :
    Fits word.2 (offset + (i + xs.length)) (block.drop (i + xs.length)) := by
  rw [hxs] at hfits
  rw [hword.ok hok, ← Nat.add_assoc]
  exact (fits_append.mp hfits).2.behind

/-- A perfect device writes a block that fits. -/
theorem unbufWrLoop_perfect (hvalid : info.Valid) {fuel : ℕ} (hi : i ≤ block.length)
    (hfuel : block.length ≤ fuel + i) (hunlocked : info.Unlocked offset block.length)
    (hfits : Fits mem (offset + i) (block.drop i)) :
    (unbufWrLoop .perfect info offset block fuel i mem).1 = block.length := by
  induction fuel generalizing i mem with
  | zero =>
    unfold unbufWrLoop
    dsimp only
    omega
  | succ fuel ih =>
    unfold unbufWrLoop
    by_cases hmore : i < block.length
    · rw [if_pos hmore]
      have hfree : info.Unlocked (offset + i) 1 := hunlocked.sub (by omega)
      by_cases hbyte : (offset + i) % 4 ≠ 0 ∨ block.length - i < 4
      · rw [if_pos hbyte]
        have hdrop := drop_byte hmore
        have hok : (mvFlash8Wr .perfect info mem (offset + i) (block.getD i 0)).1 = .ok := by
          apply mvFlash8Wr_perfect hvalid hfree
          rw [hdrop] at hfits
          exact (fits_append.mp hfits).1
        simp only [hok, ne_eq, not_true_eq_false, if_false]
        apply ih (by omega) (by omega)
        exact fits_drop hdrop (mvFlash8Wr_written hvalid.bus _) hok hfits
      · rw [if_neg hbyte]
        have hdrop := drop_word (by omega : i + 4 ≤ block.length)
        have hwritten : Written mem (offset + i) [block.getD i 0, block.getD (i + 1) 0,
            block.getD (i + 2) 0, block.getD (i + 3) 0]
            (mvFlash32Wr .perfect info mem (offset + i) (assemble32 (block.getD i 0)
              (block.getD (i + 1) 0) (block.getD (i + 2) 0) (block.getD (i + 3) 0))) := by
          rw [← beBytes32_assemble32]
          exact mvFlash32Wr_written hvalid.bus
        have hok : (mvFlash32Wr .perfect info mem (offset + i) (assemble32 (block.getD i 0)
            (block.getD (i + 1) 0) (block.getD (i + 2) 0) (block.getD (i + 3) 0))).1 = .ok := by
          apply mvFlash32Wr_perfect hvalid (by omega) hfree
          rw [beBytes32_assemble32]
          rw [hdrop] at hfits
          exact (fits_append.mp hfits).1
        simp only [hok, ne_eq, not_true_eq_false, if_false]
        apply ih (by omega) (by omega)
        exact fits_drop hdrop hwritten hok hfits
    · rw [if_neg hmore]
      dsimp only
      omega

theorem mvFlashBlockUnbufWr_perfect (hvalid : info.Valid)
    (hunlocked : info.Unlocked offset block.length) (hfits : Fits mem offset block) :
    mvFlashBlockUnbufWr .perfect info mem offset block =
      (block.length, program mem offset block) := by
  have hall : (mvFlashBlockUnbufWr .perfect info mem offset block).1 = block.length :=
    unbufWrLoop_perfect hvalid (Nat.zero_le _) (Nat.le_refl _) hunlocked hfits
  have hwritten : WrittenUpto mem offset block
      (mvFlashBlockUnbufWr .perfect info mem offset block) := mvFlashBlockUnbufWr_written hvalid.bus
  apply Prod.ext
  · exact hall
  · exact hwritten.upto.eq_program (by omega)

/-- The rest of a block that fits. -/
theorem fits_rest {d n : ℕ} (hd : d + n ≤ block.length) (hfits : Fits mem offset block) :
    Fits (program mem offset (block.take d)) (offset + d) ((block.drop d).take n) := by
  have hlength : (block.take d).length = d := by
    rw [List.length_take]
    omega
  rw [← List.take_append_drop d block] at hfits
  have hrest := (fits_append.mp hfits).2.behind
  rw [hlength, ← List.take_append_drop n (block.drop d)] at hrest
  exact (fits_append.mp hrest).1

theorem headWrite_perfect (hvalid : info.Valid) {hwBuffSize d : ℕ} (hd : d ≤ block.length)
    (hunlocked : info.Unlocked offset block.length) (hfits : Fits mem offset block) :
    (headWrite .perfect info hwBuffSize mem offset block d).1 =
      headSize hwBuffSize (offset + d) (block.length - d) := by
  have hsize := headSize_le hwBuffSize (offset + d) (block.length - d)
  have htaken : ((block.drop d).take (headSize hwBuffSize (offset + d) (block.length - d))).length =
      headSize hwBuffSize (offset + d) (block.length - d) := by
    rw [List.length_take, List.length_drop]
    omega
  unfold headWrite
  rw [mvFlashBlockUnbufWr_perfect hvalid (hunlocked.sub (by omega)) (fits_rest (by omega) hfits)]
  exact htaken

/-- The first loop of `mvFlashBlockWr` succeeds on a perfect device. -/
theorem writeHead_perfect (hvalid : info.Valid) {hwBuffSize d : ℕ} (fuel : ℕ)
    (hd : d ≤ block.length) (hunlocked : info.Unlocked offset block.length)
    (hfits : Fits mem offset block) :
    (writeHead .perfect info hwBuffSize fuel (BlockWrite.after mem offset block d)).1 = true := by
  induction fuel generalizing d with
  | zero => rfl
  | succ fuel ih =>
    have hall : (headWrite .perfect info hwBuffSize mem offset block d).1 =
        headSize hwBuffSize (offset + d) (block.length - d) :=
      headWrite_perfect hvalid hd hunlocked hfits
    have hsize := headSize_le hwBuffSize (offset + d) (block.length - d)
    rw [writeHead_after, headWrite_eq hvalid.bus hd hall, if_neg (not_not.mpr hall)]
    split_ifs
    · exact ih (by omega)
    · rfl

/-- `intelFlashHwBufferProg` programs the first bytes of the data, and reports success when the
device has taken all buffers. -/
theorem flashHwBufferProg_eq (hvalid : info.Valid) (hhw : info.flashGetHwBuffSize ≠ 0)
    (haligned : offset % info.flashGetHwBuffSize = 0) (hne : block.length ≠ 0)
    (hwhole : block.length % info.flashGetHwBuffSize = 0) :
    ∃ j ≤ block.length / info.flashGetHwBuffSize,
      (flashHwBufferProg dev info mem offset block).2 =
        program mem offset (block.take (j * info.bufferBytes)) ∧
      ((flashHwBufferProg dev info mem offset block).1 = .ok →
        j = block.length / info.flashGetHwBuffSize) := by
  have hsize := flashGetHwBuffSize_eq hhw
  have hbytes := bufferBytes_le hvalid.bus hvalid.dev
  rw [← hsize] at hbytes
  unfold flashHwBufferProg
  rw [flashVen_of_hwBuffSize hhw]
  unfold intelFlashHwBufferProg
  rw [← hsize]
  dsimp only
  rw [if_neg hhw, if_neg (not_not.mpr hwhole), if_neg (not_not.mpr haligned), hwBufferTurns,
    if_neg hne]
  have hle : 0 + block.length / info.flashGetHwBuffSize * info.bufferBytes ≤ block.length := by
    rw [Nat.zero_add]
    exact (Nat.mul_le_mul_left _ hbytes).trans (Nat.div_mul_le_self _ _)
  exact hwBufferLoop_eq hvalid.bus hle

theorem flashHwBufferProg_perfect (hvalid : info.Valid) (hhw : info.flashGetHwBuffSize ≠ 0)
    (haligned : offset % info.flashGetHwBuffSize = 0) (hne : block.length ≠ 0)
    (hwhole : block.length % info.flashGetHwBuffSize = 0) :
    flashHwBufferProg .perfect info mem offset block = (.ok, program mem offset
      (block.take (block.length / info.flashGetHwBuffSize * info.bufferBytes))) := by
  have hloop : ∀ sec wordCount buffers i offset mem,
      (hwBufferLoop .perfect info sec block wordCount buffers i offset mem).1 = .ok := by
    intro sec wordCount buffers
    induction buffers with
    | zero => exact fun _ _ _ => rfl
    | succ buffers ih => exact fun _ _ _ => ih _ _ _
  have hok : (flashHwBufferProg .perfect info mem offset block).1 = .ok := by
    have hsize := flashGetHwBuffSize_eq hhw
    unfold flashHwBufferProg
    rw [flashVen_of_hwBuffSize hhw]
    unfold intelFlashHwBufferProg
    rw [← hsize]
    dsimp only
    rw [if_neg hhw, if_neg (not_not.mpr hwhole), if_neg (not_not.mpr haligned)]
    exact hloop _ _ _ _ _ _
  obtain ⟨j, -, hmem, hall⟩ : ∃ j ≤ block.length / info.flashGetHwBuffSize,
      (flashHwBufferProg .perfect info mem offset block).2 =
        program mem offset (block.take (j * info.bufferBytes)) ∧
      ((flashHwBufferProg .perfect info mem offset block).1 = .ok →
        j = block.length / info.flashGetHwBuffSize) :=
    flashHwBufferProg_eq hvalid hhw haligned hne hwhole
  rw [← hall hok, ← hmem, ← hok]

/-- The length of what `mvFlashBlockWr` writes before the first buffer. -/
def FlashInfo.headLength (info : FlashInfo) (offset n : ℕ) : ℕ :=
  headLoop info.flashGetHwBuffSize (n + 1) offset n

/-- The bytes behind those that the buffers take, up to where `mvFlashBlockWr` goes on, are in the
flash already. -/
def FlashInfo.RestStored (info : FlashInfo) (mem : ℕ → BitVec 8) (offset : ℕ)
    (block : List (BitVec 8)) : Prop :=
  let head := info.headLength offset block.length
  ∀ i b, head + info.takenLength (block.length - head) ≤ i →
    i < head + bufferedLength info.flashGetHwBuffSize (block.length - head) →
    block[i]? = some b → mem (offset + i) = b

theorem bufferedLength_le (hwBuffSize n : ℕ) : bufferedLength hwBuffSize n ≤ n := Nat.sub_le _ _

theorem bufferedLength_mod (hwBuffSize n : ℕ) : bufferedLength hwBuffSize n % hwBuffSize = 0 :=
  Nat.sub_mod_eq_zero_of_mod_eq (Nat.mod_mod n hwBuffSize).symm

/-- The buffers take at most what is written through them. -/
theorem takenLength_le (hvalid : info.Valid) (hhw : info.flashGetHwBuffSize ≠ 0) (n : ℕ) :
    info.takenLength n ≤ bufferedLength info.flashGetHwBuffSize n := by
  have hbytes := bufferBytes_le hvalid.bus hvalid.dev
  rw [← flashGetHwBuffSize_eq hhw] at hbytes
  exact (Nat.mul_le_mul_left _ hbytes).trans (Nat.div_mul_le_self _ _)

/-- They take all of it where the bus is not narrower than a device. -/
theorem takenLength_eq (hvalid : info.Valid) (hhw : info.flashGetHwBuffSize ≠ 0)
    (hwide : info.devWidth ≤ info.busWidth) (n : ℕ) :
    info.takenLength n = bufferedLength info.flashGetHwBuffSize n := by
  have hbytes := bufferBytes_eq hvalid.bus hvalid.dev hvalid.buff hwide
  rw [← flashGetHwBuffSize_eq hhw] at hbytes
  unfold FlashInfo.takenLength
  rw [hbytes]
  exact Nat.div_mul_cancel (Nat.dvd_of_mod_eq_zero (bufferedLength_mod _ n))

/-- What is left of a block when `mvFlashBlockWr` comes to the buffers. -/
structure AtBuffers (info : FlashInfo) (offset : ℕ) (block : List (BitVec 8)) (d : ℕ) : Prop where
  buffered : info.flashGetHwBuffSize ≠ 0
  le : d ≤ block.length
  aligned : (offset + d) % info.flashGetHwBuffSize = 0
  enough : info.flashGetHwBuffSize ≤ block.length - d

theorem AtBuffers.more {d : ℕ} (h : AtBuffers info offset block d) : block.length - d ≠ 0 := by
  have hle := h.enough
  have hne := h.buffered
  omega

theorem bufferedLength_take (hwBuffSize d : ℕ) :
    ((block.drop d).take (bufferedLength hwBuffSize (block.length - d))).length =
      bufferedLength hwBuffSize (block.length - d) := by
  have hle := bufferedLength_le hwBuffSize (block.length - d)
  rw [List.length_take, List.length_drop]
  omega

/-- At least one buffer is written. -/
theorem AtBuffers.length_ne_zero {d : ℕ} (h : AtBuffers info offset block d) :
    ((block.drop d).take (bufferedLength info.flashGetHwBuffSize (block.length - d))).length ≠
      0 := by
  have hle := h.enough
  have hmod := Nat.mod_lt (block.length - d) (Nat.pos_of_ne_zero h.buffered)
  rw [bufferedLength_take]
  unfold bufferedLength
  omega

/-- What is written through the buffers. -/
def buffersWrite (dev : FlashDevice) (info : FlashInfo) (mem : ℕ → BitVec 8) (offset : ℕ)
    (block : List (BitVec 8)) (d : ℕ) : Status × (ℕ → BitVec 8) :=
  flashHwBufferProg dev info (program mem offset (block.take d)) (offset + d)
    ((block.drop d).take (bufferedLength info.flashGetHwBuffSize (block.length - d)))

/-- What the buffers leave in the flash. -/
theorem AtBuffers.buffers (hvalid : info.Valid) {d : ℕ} (hat : AtBuffers info offset block d)
    (dev : FlashDevice) (mem : ℕ → BitVec 8) :
    ∃ n ≤ info.takenLength (block.length - d),
      (buffersWrite dev info mem offset block d).2 =
        program (program mem offset (block.take d)) (offset + d) ((block.drop d).take n) ∧
      ((buffersWrite dev info mem offset block d).1 = .ok →
        n = info.takenLength (block.length - d)) := by
  have hlength : ((block.drop d).take
      (bufferedLength info.flashGetHwBuffSize (block.length - d))).length =
      bufferedLength info.flashGetHwBuffSize (block.length - d) := bufferedLength_take _ d
  have hwhole := bufferedLength_mod info.flashGetHwBuffSize (block.length - d)
  rw [← hlength] at hwhole
  unfold buffersWrite
  obtain ⟨j, hj, hmem, hok⟩ := @flashHwBufferProg_eq dev info (program mem offset (block.take d))
    _ _ hvalid hat.buffered hat.aligned hat.length_ne_zero hwhole
  rw [hlength] at hj hok
  have hle : j * info.bufferBytes ≤ info.takenLength (block.length - d) :=
    Nat.mul_le_mul_right _ hj
  have htaken := takenLength_le hvalid hat.buffered (block.length - d)
  refine ⟨j * info.bufferBytes, hle, ?_, fun h => ?_⟩
  · rw [hmem, List.take_take, Nat.min_eq_left (by omega)]
  · rw [hok h]
    rfl

/-- Where the bytes that the buffers leave out are in the flash, all of the buffers is written. -/
theorem AtBuffers.advance (hvalid : info.Valid) {d : ℕ} (hat : AtBuffers info offset block d)
    (hstored : ∀ i b, d + info.takenLength (block.length - d) ≤ i →
      i < d + bufferedLength info.flashGetHwBuffSize (block.length - d) →
      block[i]? = some b → mem (offset + i) = b) :
    (BlockWrite.after mem offset block d).advance
        (bufferedLength info.flashGetHwBuffSize (block.length - d))
        (program (program mem offset (block.take d)) (offset + d)
          ((block.drop d).take (info.takenLength (block.length - d)))) =
      BlockWrite.after mem offset block
        (d + bufferedLength info.flashGetHwBuffSize (block.length - d)) := by
  have hd := hat.le
  have htaken := takenLength_le hvalid hat.buffered (block.length - d)
  have hle := bufferedLength_le info.flashGetHwBuffSize (block.length - d)
  generalize info.takenLength (block.length - d) = p at *
  generalize bufferedLength info.flashGetHwBuffSize (block.length - d) = m at *
  have hlength : ((block.drop d).take p).length = p := by
    rw [List.length_take, List.length_drop]
    omega
  have hsplit : (block.drop d).take m =
      (block.drop d).take p ++ ((block.drop d).drop p).take (m - p) := by
    rw [← List.take_add, Nat.add_sub_cancel' htaken]
  rw [← advance_after (by omega), hsplit, ← program_append, hlength]
  congr 1
  symm
  apply program_same
  intro i b hi
  obtain ⟨hlt, hget⟩ : i < m - p ∧ block[d + p + i]? = some b := by
    rw [List.getElem?_take] at hi
    split_ifs at hi with hlt
    · rw [List.drop_drop, List.getElem?_drop] at hi
      exact ⟨hlt, hi⟩
  have hmem := hstored (d + p + i) b (by omega) (by omega) hget
  rw [program_outside (by omega), program_outside (by rw [List.length_take]; omega), ← hmem]
  congr 1
  omega

theorem writeBuffers_after {d : ℕ} {copied : Bool} :
    writeBuffers dev info copied info.flashGetHwBuffSize (BlockWrite.after mem offset block d) =
      if block.length - d ≠ 0 then
        if ¬ copied then BlockWrite.after mem offset block d
        else if (buffersWrite dev info mem offset block d).1 ≠ .ok then
          { BlockWrite.after mem offset block d with
            mem := (buffersWrite dev info mem offset block d).2 }
        else
          writeTail dev info ((BlockWrite.after mem offset block d).advance
            (bufferedLength info.flashGetHwBuffSize (block.length - d))
            (buffersWrite dev info mem offset block d).2)
      else BlockWrite.after mem offset block d := by
  simp only [writeBuffers, BlockWrite.after, List.length_drop, buffersWrite]
  rfl

/-- The part of `mvFlashBlockWr` behind its first loop. -/
theorem writeBuffers_written (hvalid : info.Valid) {d : ℕ} {copied : Bool}
    (hat : AtBuffers info offset block d)
    (hstored : ∀ i b, d + info.takenLength (block.length - d) ≤ i →
      i < d + bufferedLength info.flashGetHwBuffSize (block.length - d) →
      block[i]? = some b → mem (offset + i) = b) :
    WrittenUpto mem offset block
      ((writeBuffers dev info copied info.flashGetHwBuffSize
          (BlockWrite.after mem offset block d)).numOfBytesWritten,
        (writeBuffers dev info copied info.flashGetHwBuffSize
          (BlockWrite.after mem offset block d)).mem) := by
  obtain ⟨n, -, hmem, hok⟩ := hat.buffers hvalid dev mem
  have hle := bufferedLength_le info.flashGetHwBuffSize (block.length - d)
  have hd := hat.le
  rw [writeBuffers_after, if_pos hat.more]
  by_cases hcopied : copied = true
  · rw [if_neg (not_not.mpr hcopied)]
    by_cases hstatus : (buffersWrite dev info mem offset block d).1 = .ok
    · rw [if_neg (not_not.mpr hstatus), hmem, hok hstatus, hat.advance hvalid hstored]
      exact writeTail_written hvalid.bus (by omega)
    · rw [if_pos hstatus]
      dsimp only
      rw [hmem]
      exact partial_written hd
  · rw [if_pos hcopied]
    exact after_written hd

/-- What a write of a block promises, with the number of bytes that it returns: these can be read
back, and nothing outside of the range is changed. -/
structure RoundTrips (mem : ℕ → BitVec 8) (offset : ℕ) (block : List (BitVec 8))
    (result : ℕ × (ℕ → BitVec 8)) : Prop where
  le : result.1 ≤ block.length
  all : result.1 = block.length → mvFlashBlockRd result.2 offset block.length = block
  first : ∀ i b, i < result.1 → block[i]? = some b → result.2 (offset + i) = b
  outside : ∀ x, x < offset ∨ offset + block.length ≤ x → result.2 x = mem x

/-- A block whose bytes are in a range of the flash. -/
theorem stored_eq_iff : stored mem offset block.length = block ↔
    ∀ i b, block[i]? = some b → mem (offset + i) = b := by
  constructor
  · intro hsame i b hi
    have hlt := (List.getElem?_eq_some_iff.mp hi).1
    rw [← hsame, stored_getElem? hlt] at hi
    exact Option.some.inj hi
  · intro hsame
    apply List.ext_getElem?
    intro i
    by_cases hlt : i < block.length
    · have hi : block[i]? = some (block.get ⟨i, hlt⟩) := List.getElem?_eq_getElem hlt
      rw [stored_getElem? hlt, hi, hsame i _ hi]
    · rw [List.getElem?_eq_none (by rw [stored_length]; omega), List.getElem?_eq_none (by omega)]

/-- What is written can be read back. -/
theorem WrittenUpto.roundTrips {result : ℕ × (ℕ → BitVec 8)} (hfits : Fits mem offset block)
    (hwritten : WrittenUpto mem offset block result) : RoundTrips mem offset block result := by
  have hfirst : ∀ i b, i < result.1 → block[i]? = some b → result.2 (offset + i) = b :=
    fun i b hi hb => hwritten.upto.inside hfits hi hb
  refine ⟨hwritten.le, ?_, hfirst, fun x hx => hwritten.upto.outside hx⟩
  intro hall
  rw [mvFlashBlockRd_eq, stored_eq_iff]
  intro i b hb
  exact hfirst i b (by rw [hall]; exact (List.getElem?_eq_some_iff.mp hb).1) hb

/-- Behind the first loop nothing is left, or `mvFlashBlockWr` comes to the buffers. -/
theorem atBuffers_headLength (hhw : info.flashGetHwBuffSize ≠ 0)
    (hmore : block.length - info.headLength offset block.length ≠ 0) :
    AtBuffers info offset block (info.headLength offset block.length) := by
  have hrest := headLoop_rest offset block.length hhw (Nat.lt_succ_self block.length)
  have hle := headLoop_le info.flashGetHwBuffSize (block.length + 1) offset block.length
  rcases hrest with hnone | ⟨haligned, henough⟩
  · exact absurd hnone hmore
  · exact ⟨hhw, hle, haligned, henough⟩

/-- A block is begun. -/
theorem after_zero : (⟨mem, offset, block, 0⟩ : BlockWrite) =
    BlockWrite.after mem offset block 0 := by
  simp [BlockWrite.after]

/-- A block without data leaves the flash as it is. -/
theorem mvFlashBlockWr_nil {copied : Bool} {fuel : ℕ} (hfuel : 0 < fuel) :
    mvFlashBlockWr dev info copied fuel mem offset [] = some (0, mem) := by
  obtain ⟨fuel, rfl⟩ := Nat.exists_eq_succ_of_ne_zero hfuel.ne'
  unfold mvFlashBlockWr checkSectors
  by_cases hlocked : info.mvFlashSecLockGet (info.mvFlashInWhichSec offset) = true
  · rw [if_pos hlocked]
    rfl
  · rw [if_neg hlocked, List.length_nil, if_neg (Nat.not_lt_zero _)]
    simp only [Option.map_some, not_true_eq_false, if_false]
    by_cases hhw : info.flashGetHwBuffSize = 0
    · rw [if_pos hhw]
      rfl
    · simp [if_neg hhw, writeHead, writeBuffers]

/-- `mvFlashBlockWr` behind its check of the sectors. -/
theorem mvFlashBlockWr_eq {copied : Bool} {fuel : ℕ} (hvalid : info.Valid)
    (hunlocked : info.Unlocked offset block.length) (hblock : 0 < block.length)
    (hfuel : info.sectorNum < fuel) :
    mvFlashBlockWr dev info copied fuel mem offset block = some
      (if info.flashGetHwBuffSize = 0 then mvFlashBlockUnbufWr dev info mem offset block
      else
        let result := writeHead dev info info.flashGetHwBuffSize (block.length + 1)
          (BlockWrite.after mem offset block 0)
        if result.1 then
          ((writeBuffers dev info copied info.flashGetHwBuffSize result.2).numOfBytesWritten,
            (writeBuffers dev info copied info.flashGetHwBuffSize result.2).mem)
        else (result.2.numOfBytesWritten, result.2.mem)) := by
  obtain ⟨sec, hin, hfree⟩ := hunlocked 0 hblock
  rw [Nat.add_zero] at hin
  have hcheck : checkSectors info block.length fuel sec = some true :=
    checkSectors_unlocked hvalid hunlocked hin.1 hfree hin.2.2 (by omega)
  unfold mvFlashBlockWr
  rw [mvFlashInWhichSec_eq hvalid hin, hcheck, ← after_zero]
  rfl

/-- What the first loop of `mvFlashBlockWr` leaves. -/
theorem headWritten_zero (hvalid : info.Valid) (dev : FlashDevice) (mem : ℕ → BitVec 8)
    (offset : ℕ) (block : List (BitVec 8)) :
    HeadWritten mem offset block (info.headLength offset block.length)
      (writeHead dev info info.flashGetHwBuffSize (block.length + 1)
        (BlockWrite.after mem offset block 0)) := by
  have hwritten : HeadWritten mem offset block (0 + headLoop info.flashGetHwBuffSize
      (block.length + 1) (offset + 0) (block.length - 0)) (writeHead dev info
        info.flashGetHwBuffSize (block.length + 1) (BlockWrite.after mem offset block 0)) :=
    writeHead_written hvalid.bus _ 0 (Nat.zero_le _)
  rwa [Nat.zero_add, Nat.add_zero, Nat.sub_zero] at hwritten

/-- `mvFlashBlockWr` writes the block up to the number that it returns, where the bytes that the
buffers leave out are in the flash. -/
theorem mvFlashBlockWr_written {copied : Bool} {fuel : ℕ} (hvalid : info.Valid)
    (hunlocked : info.Unlocked offset block.length) (hblock : 0 < block.length)
    (hfuel : info.sectorNum < fuel) (hstored : info.RestStored mem offset block) :
    ∃ result, mvFlashBlockWr dev info copied fuel mem offset block = some result ∧
      WrittenUpto mem offset block result := by
  rw [mvFlashBlockWr_eq hvalid hunlocked hblock hfuel]
  refine ⟨_, rfl, ?_⟩
  by_cases hhw : info.flashGetHwBuffSize = 0
  · rw [if_pos hhw]
    exact mvFlashBlockUnbufWr_written hvalid.bus
  · rw [if_neg hhw]
    have hhead := headWritten_zero hvalid dev mem offset block
    dsimp only
    split_ifs with hcomplete
    · rw [hhead.complete hcomplete]
      by_cases hmore : block.length - info.headLength offset block.length = 0
      · rw [writeBuffers_after, if_neg (not_not.mpr hmore)]
        exact after_written (headLoop_le _ _ _ _)
      · exact writeBuffers_written hvalid (atBuffers_headLength hhw hmore) hstored
    · exact hhead.failed (Bool.not_eq_true _ ▸ hcomplete)

/-- On a perfect device the buffers leave out what is behind the bytes that they take. -/
theorem writeBuffers_perfect (hvalid : info.Valid) {d : ℕ}
    (hunlocked : info.Unlocked offset block.length) (hfits : Fits mem offset block)
    (hat : AtBuffers info offset block d) :
    (writeBuffers .perfect info true info.flashGetHwBuffSize
        (BlockWrite.after mem offset block d)).numOfBytesWritten = block.length ∧
      ∀ i, d + info.takenLength (block.length - d) ≤ i →
        i < d + bufferedLength info.flashGetHwBuffSize (block.length - d) →
        (writeBuffers .perfect info true info.flashGetHwBuffSize
          (BlockWrite.after mem offset block d)).mem (offset + i) = mem (offset + i) := by
  have hlength : ((block.drop d).take
      (bufferedLength info.flashGetHwBuffSize (block.length - d))).length =
      bufferedLength info.flashGetHwBuffSize (block.length - d) := bufferedLength_take _ d
  have hwhole := bufferedLength_mod info.flashGetHwBuffSize (block.length - d)
  rw [← hlength] at hwhole
  have htaken := takenLength_le hvalid hat.buffered (block.length - d)
  have hle := bufferedLength_le info.flashGetHwBuffSize (block.length - d)
  have hd := hat.le
  have hbuffers : buffersWrite .perfect info mem offset block d =
      (.ok, program (program mem offset (block.take d)) (offset + d)
        ((block.drop d).take (info.takenLength (block.length - d)))) := by
    unfold buffersWrite
    rw [flashHwBufferProg_perfect hvalid hat.buffered hat.aligned hat.length_ne_zero hwhole,
      hlength, List.take_take]
    rw [Nat.min_eq_left (by exact htaken)]
    rfl
  rw [writeBuffers_after, if_pos hat.more, hbuffers, if_neg (by decide),
    if_neg (not_not.mpr rfl)]
  dsimp only
  generalize info.takenLength (block.length - d) = p at *
  generalize bufferedLength info.flashGetHwBuffSize (block.length - d) = m at *
  have hkept : ∀ i, d + p ≤ i → program (program mem offset (block.take d)) (offset + d)
      ((block.drop d).take p) (offset + i) = mem (offset + i) := by
    intro i hi
    rw [program_outside (by rw [List.length_take, List.length_drop]; omega),
      program_outside (by rw [List.length_take]; omega)]
  have hrest : Fits (program (program mem offset (block.take d)) (offset + d)
      ((block.drop d).take p)) (offset + d + m) ((block.drop d).drop m) := by
    intro i b hi
    rw [List.drop_drop, List.getElem?_drop] at hi
    rw [Nat.add_assoc offset, Nat.add_assoc offset, hkept _ (by omega)]
    exact hfits (d + m + i) b hi
  have hfree : info.Unlocked (offset + d + m) ((block.drop d).drop m).length := by
    rw [Nat.add_assoc]
    apply hunlocked.sub
    rw [List.length_drop, List.length_drop]
    omega
  unfold writeTail
  simp only [BlockWrite.advance, BlockWrite.after, List.length_drop]
  split_ifs with hmore
  · rw [mvFlashBlockUnbufWr_perfect hvalid hfree hrest]
    simp only [List.length_drop]
    refine ⟨by omega, ?_⟩
    intro i hi hlt
    rw [program_outside (by omega), hkept i hi]
  · dsimp only
    refine ⟨by omega, ?_⟩
    intro i hi _
    exact hkept i hi

/-- Without a buffer nothing is left out. -/
theorem bufferedLength_zero (n : ℕ) : bufferedLength 0 n = 0 := by
  unfold bufferedLength
  rw [Nat.mod_zero, Nat.sub_self]

/-- Nothing is left out where the bus is not narrower than a device. -/
theorem restStored_wide (hvalid : info.Valid) (hwide : info.devWidth ≤ info.busWidth) :
    info.RestStored mem offset block := by
  intro i b hle hlt _
  by_cases hhw : info.flashGetHwBuffSize = 0
  · rw [hhw, bufferedLength_zero] at hlt
    omega
  · rw [takenLength_eq hvalid hhw hwide] at hle
    omega

/-- A perfect device writes all of the block. Where it can be read back, the bytes that the buffers
leave out are in the flash already. -/
theorem restStored_perfect {fuel : ℕ} (hvalid : info.Valid)
    (hunlocked : info.Unlocked offset block.length) (hfits : Fits mem offset block)
    (hblock : 0 < block.length) (hfuel : info.sectorNum < fuel)
    (hround : ∃ result, mvFlashBlockWr .perfect info true fuel mem offset block = some result ∧
      RoundTrips mem offset block result) : info.RestStored mem offset block := by
  intro i b hle hlt hi
  by_cases hhw : info.flashGetHwBuffSize = 0
  · rw [hhw, bufferedLength_zero] at hlt
    omega
  by_cases hmore : block.length - info.headLength offset block.length = 0
  · have hnone := bufferedLength_le info.flashGetHwBuffSize
      (block.length - info.headLength offset block.length)
    omega
  obtain ⟨result, hresult, hround⟩ := hround
  rw [mvFlashBlockWr_eq hvalid hunlocked hblock hfuel, if_neg hhw] at hresult
  have hhead := headWritten_zero hvalid .perfect mem offset block
  have hcomplete : (writeHead .perfect info info.flashGetHwBuffSize (block.length + 1)
      (BlockWrite.after mem offset block 0)).1 = true :=
    writeHead_perfect hvalid _ (Nat.zero_le _) hunlocked hfits
  dsimp only at hresult
  rw [if_pos hcomplete, hhead.complete hcomplete] at hresult
  obtain ⟨hcount, hkept⟩ :=
    writeBuffers_perfect hvalid hunlocked hfits (atBuffers_headLength hhw hmore)
  have heq := Option.some.inj hresult
  have hread := hround.all (by rw [← heq]; exact hcount)
  rw [mvFlashBlockRd_eq, stored_eq_iff] at hread
  rw [← hread i b hi, ← heq]
  exact (hkept i hle hlt).symm

/-- A write of a block round trips, whatever the device completes, exactly when the bytes that the
buffers leave out are in the flash already; none are left out where the bus is not narrower than a
device. -/
theorem mvFlashBlockWr_roundTrips_iff {fuel : ℕ} (hvalid : info.Valid)
    (hunlocked : info.Unlocked offset block.length) (hfits : Fits mem offset block)
    (hfuel : info.sectorNum < fuel) :
    (∀ dev copied, ∃ result, mvFlashBlockWr dev info copied fuel mem offset block = some result ∧
      RoundTrips mem offset block result) ↔
    info.devWidth ≤ info.busWidth ∨ info.RestStored mem offset block := by
  by_cases hblock : 0 < block.length
  · constructor
    · intro hall
      exact .inr (restStored_perfect hvalid hunlocked hfits hblock hfuel (hall .perfect true))
    · intro hcases dev copied
      have hstored : info.RestStored mem offset block := by
        rcases hcases with hwide | hstored
        · exact restStored_wide hvalid hwide
        · exact hstored
      obtain ⟨result, hresult, hwritten⟩ := mvFlashBlockWr_written hvalid hunlocked hblock hfuel
        hstored
      exact ⟨result, hresult, hwritten.roundTrips hfits⟩
  · have hnil : block = [] := List.length_eq_zero_iff.mp (by omega)
    subst hnil
    constructor
    · intro _
      right
      intro i b _ _ hi
      cases hi
    · intro _ dev copied
      refine ⟨(0, mem), mvFlashBlockWr_nil (by omega), le_rfl, fun _ => rfl, ?_, fun _ _ => rfl⟩
      intro i b hi
      exact absurd hi (Nat.not_lt_zero i)

/-- A flash of devices with a width of 16 bits. -/
def smallFlash (busWidth : ℕ) : FlashInfo :=
  { flashVen := .intel
    sectorNum := 1
    hwBuffLen := 32
    sector := fun _ => ⟨0, 0x20000, false⟩
    busWidth := busWidth
    devWidth := 2 }

theorem smallFlash_valid {busWidth : ℕ} (hbus : busWidth = 1 ∨ busWidth = 2 ∨ busWidth = 4) :
    (smallFlash busWidth).Valid := by
  refine ⟨hbus, .inr rfl, by simp [smallFlash], rfl, ?_, ?_, ?_, by simp [smallFlash]⟩
  · intro n hn
    exact absurd hn (by simp [smallFlash])
  · intro n _
    simp [smallFlash]
  · intro n _
    simp [smallFlash]

/-- A range at the begin of the flash. -/
theorem smallFlash_unlocked {busWidth n : ℕ} (hn : n ≤ 0x20000) :
    (smallFlash busWidth).Unlocked 0 n := by
  intro i hi
  refine ⟨0, ⟨by simp [smallFlash], Nat.zero_le _, ?_⟩, rfl⟩
  simp only [smallFlash]
  omega

/-- An erased flash takes any data. -/
theorem fits_erased (offset : ℕ) (block : List (BitVec 8)) : Fits (fun _ => 0xff) offset block := by
  intro i b _
  exact BitVec.allOnes_and

/-- On a bus of 16 bits the data are read back. -/
theorem smallFlash_roundTrips :
    ∃ result, mvFlashBlockWr .perfect (smallFlash 2) true 2 (fun _ => 0xff) 0
        (List.replicate 32 0) = some result ∧
      RoundTrips (fun _ => 0xff) 0 (List.replicate 32 0) result :=
  (mvFlashBlockWr_roundTrips_iff (smallFlash_valid (.inr (.inl rfl)))
    (smallFlash_unlocked (by decide)) (fits_erased _ _) (by decide)).mpr (.inl (by decide))
    .perfect true

/-- On a bus of 8 bits a write of 32 bytes to the erased flash is reported as complete, and the
second half of them is still erased. -/
theorem smallFlash_half_written :
    (smallFlash 1).Valid ∧ (smallFlash 1).Unlocked 0 (List.replicate 32 (0 : BitVec 8)).length ∧
      Fits (fun _ => 0xff) 0 (List.replicate 32 (0 : BitVec 8)) ∧
      ∃ mem', mvFlashBlockWr .perfect (smallFlash 1) true 2 (fun _ => 0xff) 0
          (List.replicate 32 0) = some (32, mem') ∧
        mvFlashBlockRd mem' 0 32 = List.replicate 16 0 ++ List.replicate 16 0xff ∧
        mvFlashBlockRd mem' 0 32 ≠ List.replicate 32 0 := by
  refine ⟨smallFlash_valid (.inl rfl), smallFlash_unlocked (by decide), fits_erased _ _, _, rfl,
    ?_, ?_⟩
  · decide
  · decide

end Mv88fxx81.Flash
