import Mv88fxx81.Flash.RoundTrip

/-!
# Locked sectors

`mvFlashBlockWr` looks for locked sectors before it writes. Its walk over the sectors stops at
the first sector that ends behind the size of the block, not behind the end of the range, so that
it may miss a locked sector of the range. It never looks at a sector outside of the range.
-/

namespace Mv88fxx81.Flash

open NorMemory

variable {dev : FlashDevice} {info : FlashInfo} {mem : ℕ → BitVec 8} {offset n sec : ℕ}
  {block : List (BitVec 8)}

/-- A sector has a byte of a range. -/
def FlashInfo.Intersects (info : FlashInfo) (offset n sec : ℕ) : Prop :=
  ∃ i < n, info.InSector (offset + i) sec

/-- A range is inside the flash. -/
def FlashInfo.Covers (info : FlashInfo) (offset n : ℕ) : Prop :=
  ∀ i < n, ∃ sec, info.InSector (offset + i) sec

/-- The flash without its locks. -/
def FlashInfo.unlocked (info : FlashInfo) : FlashInfo :=
  { info with sector := fun sec => { info.sector sec with protect := false } }

theorem FlashInfo.unlocked_protect (sec : ℕ) : (info.unlocked.sector sec).protect = false := rfl

theorem FlashInfo.Valid.unlocked (hvalid : info.Valid) : info.unlocked.Valid :=
  ⟨hvalid.bus, hvalid.dev, hvalid.buff, hvalid.first, hvalid.next, hvalid.words, hvalid.small,
    hvalid.count⟩

/-- A range without locked sectors. -/
theorem unlocked_of_intersects (hcovers : info.Covers offset n)
    (hfree : ∀ sec, info.Intersects offset n sec → (info.sector sec).protect = false) :
    info.Unlocked offset n := by
  intro i hi
  obtain ⟨sec, hin⟩ := hcovers i hi
  exact ⟨sec, hin, hfree sec ⟨i, hi, hin⟩⟩

/-! ### The walk over the sectors -/

/-- The sectors that the walk looks at: the first one, and those that begin below the size of the
block. -/
def Visited (info : FlashInfo) (n first sec : ℕ) : Prop :=
  sec < info.sectorNum ∧ (sec = first ∨ (first < sec ∧ (info.sector sec).baseOffs < n))

theorem mvFlashSecLockGet_eq (hsec : sec < info.sectorNum) :
    info.mvFlashSecLockGet sec = (info.sector sec).protect := by
  unfold FlashInfo.mvFlashSecLockGet
  rw [if_neg (by omega)]

/-- The walk finds a locked sector among those that it looks at. -/
theorem checkSectors_cases (info : FlashInfo) (hvalid : info.Valid) {fuel : ℕ}
    (hsec : sec < info.sectorNum) (hlast : ∃ last, last + 1 = info.sectorNum ∧
      n ≤ (info.sector last).baseOffs + (info.sector last).size)
    (hfuel : info.sectorNum < fuel + sec) :
    (checkSectors info n fuel sec = some true ∧
        ∀ s, Visited info n sec s → (info.sector s).protect = false) ∨
      (checkSectors info n fuel sec = some false ∧
        ∃ s, Visited info n sec s ∧ (info.sector s).protect = true) := by
  induction fuel generalizing sec with
  | zero => omega
  | succ fuel ih =>
    unfold checkSectors
    have hknown : ¬ sec > info.sectorNum := by omega
    rw [mvFlashSecLockGet_eq hsec]
    simp only [FlashInfo.mvFlashSecOffsGet, FlashInfo.mvFlashSecSizeGet, if_neg hknown]
    cases hprotect : (info.sector sec).protect with
    | true => exact .inr ⟨if_pos rfl, sec, ⟨hsec, .inl rfl⟩, hprotect⟩
    | false =>
      rw [if_neg Bool.false_ne_true]
      by_cases hmore : (info.sector sec).baseOffs + (info.sector sec).size < n
      · have hcount := hvalid.count
        obtain ⟨last, hlast', hend⟩ := hlast
        have hnext : sec + 1 < info.sectorNum := by
          by_contra hnot
          have hsame : sec = last := by omega
          subst hsame
          omega
        have hbase := hvalid.next sec hnext
        rw [if_pos hmore, Nat.mod_eq_of_lt (by omega)]
        rcases ih hnext (by omega) with ⟨hcheck, hfree⟩ | ⟨hcheck, s, hvisited, hlocked⟩
        · refine .inl ⟨hcheck, fun s hs => ?_⟩
          obtain ⟨hslt, hs⟩ := hs
          rcases hs with rfl | ⟨hlt, hbelow⟩
          · exact hprotect
          · refine hfree s ⟨hslt, ?_⟩
            by_cases hsame : s = sec + 1
            · exact .inl hsame
            · exact .inr ⟨by omega, hbelow⟩
        · refine .inr ⟨hcheck, s, ⟨hvisited.1, ?_⟩, hlocked⟩
          rcases hvisited.2 with rfl | ⟨hlt, hbelow⟩
          · exact .inr ⟨by omega, by omega⟩
          · exact .inr ⟨by omega, hbelow⟩
      · rw [if_neg hmore]
        refine .inl ⟨rfl, fun s hs => ?_⟩
        obtain ⟨hslt, rfl | ⟨hlt, hbelow⟩⟩ := hs
        · exact hprotect
        · have hbase := hvalid.baseOffs_le hlt hslt
          omega

/-- The last sector ends behind a range inside the flash. -/
theorem FlashInfo.Covers.last (hvalid : info.Valid) (hcovers : info.Covers offset n)
    (hn : 0 < n) : ∃ last, last + 1 = info.sectorNum ∧
      n ≤ (info.sector last).baseOffs + (info.sector last).size := by
  obtain ⟨sec, hlt, _, hend⟩ := hcovers (n - 1) (by omega)
  refine ⟨info.sectorNum - 1, by omega, ?_⟩
  by_cases hsame : sec = info.sectorNum - 1
  · rw [← hsame]
    omega
  · have hbase := hvalid.baseOffs_le (by omega : sec < info.sectorNum - 1) (by omega)
    omega

/-- The walk looks at sectors of the range only. -/
theorem Visited.intersects (hvalid : info.Valid) (hn : 0 < n) {first : ℕ}
    (hfirst : info.InSector offset first) (hvisited : Visited info n first sec) :
    info.Intersects offset n sec := by
  obtain ⟨hlt, rfl | ⟨hbehind, hbelow⟩⟩ := hvisited
  · exact ⟨0, hn, hfirst⟩
  · have hbase := hvalid.baseOffs_le hbehind hlt
    have hfirstEnd := hfirst.2.2
    have hsize := (hvalid.words sec hlt).1
    refine ⟨(info.sector sec).baseOffs - offset, by omega, hlt, by omega, by omega⟩

/-! ### Writing does not depend on locks outside of the range -/

theorem mvFlash32Wr_unlocked (hvalid : info.Valid) (hunlocked : info.Unlocked offset 1)
    (data : BitVec 32) :
    mvFlash32Wr dev info mem offset data = mvFlash32Wr dev info.unlocked mem offset data := by
  obtain ⟨sec, hin, hfree⟩ := hunlocked 0 (by decide)
  rw [Nat.add_zero] at hin
  have hsec : info.mvFlashInWhichSec offset = sec := mvFlashInWhichSec_eq hvalid hin
  have hsec' : info.unlocked.mvFlashInWhichSec offset = sec := hsec
  have hlock : info.mvFlashSecLockGet sec = info.unlocked.mvFlashSecLockGet sec := by
    rw [mvFlashSecLockGet_unlocked hfree, mvFlashSecLockGet_unlocked (info.unlocked_protect sec)]
  unfold mvFlash32Wr
  rw [hsec, hsec']
  dsimp only
  rw [hlock]
  rfl

theorem mvFlash8Wr_unlocked (hvalid : info.Valid) (hunlocked : info.Unlocked offset 1)
    (cdata : BitVec 8) :
    mvFlash8Wr dev info mem offset cdata = mvFlash8Wr dev info.unlocked mem offset cdata :=
  mvFlash32Wr_unlocked hvalid (hunlocked.word hvalid) _

theorem unbufWrLoop_unlocked (hvalid : info.Valid) (hunlocked : info.Unlocked offset block.length)
    (fuel i : ℕ) : unbufWrLoop dev info offset block fuel i mem =
      unbufWrLoop dev info.unlocked offset block fuel i mem := by
  induction fuel generalizing i mem with
  | zero => rfl
  | succ fuel ih =>
    unfold unbufWrLoop
    by_cases hmore : i < block.length
    · have hfree : info.Unlocked (offset + i) 1 := hunlocked.sub (by omega)
      rw [if_pos hmore, if_pos hmore]
      by_cases hbyte : (offset + i) % 4 ≠ 0 ∨ block.length - i < 4
      · rw [if_pos hbyte, if_pos hbyte, mvFlash8Wr_unlocked hvalid hfree]
        simp only [ih]
      · rw [if_neg hbyte, if_neg hbyte]
        dsimp only
        rw [mvFlash32Wr_unlocked hvalid hfree]
        simp only [ih]
    · rw [if_neg hmore, if_neg hmore]

theorem mvFlashBlockUnbufWr_unlocked (hvalid : info.Valid)
    (hunlocked : info.Unlocked offset block.length) :
    mvFlashBlockUnbufWr dev info mem offset block =
      mvFlashBlockUnbufWr dev info.unlocked mem offset block :=
  unbufWrLoop_unlocked hvalid hunlocked _ _

/-- What is left of a range without locks has no locks. -/
theorem FlashInfo.Unlocked.advance {s : BlockWrite}
    (hunlocked : info.Unlocked s.offset s.block.length) (k : ℕ) (mem : ℕ → BitVec 8) :
    info.Unlocked (s.advance k mem).offset (s.advance k mem).block.length := by
  intro i hi
  simp only [BlockWrite.advance, List.length_drop] at hi ⊢
  rw [Nat.add_assoc]
  exact hunlocked (k + i) (by omega)

theorem FlashInfo.Unlocked.take {m : ℕ} (hunlocked : info.Unlocked offset block.length) :
    info.Unlocked offset (block.take m).length := by
  intro i hi
  rw [List.length_take] at hi
  exact hunlocked i (by omega)

theorem writeHead_unlocked (dev : FlashDevice) (hvalid : info.Valid) {s : BlockWrite}
    (hunlocked : info.Unlocked s.offset s.block.length) (hwBuffSize fuel : ℕ) :
    writeHead dev info hwBuffSize fuel s = writeHead dev info.unlocked hwBuffSize fuel s ∧
      info.Unlocked (writeHead dev info hwBuffSize fuel s).2.offset
        (writeHead dev info hwBuffSize fuel s).2.block.length := by
  induction fuel generalizing s with
  | zero => exact ⟨rfl, hunlocked⟩
  | succ fuel ih =>
    unfold writeHead
    by_cases hmore : (s.offset % hwBuffSize ≠ 0 ∨ s.block.length < hwBuffSize) ∧ s.block.length ≠ 0
    · rw [if_pos hmore, if_pos hmore]
      dsimp only
      rw [← mvFlashBlockUnbufWr_unlocked hvalid hunlocked.take]
      have hrest := hunlocked.advance (mvFlashBlockUnbufWr dev info s.mem s.offset
        (s.block.take (headSize hwBuffSize s.offset s.block.length))).1
        (mvFlashBlockUnbufWr dev info s.mem s.offset
          (s.block.take (headSize hwBuffSize s.offset s.block.length))).2
      by_cases hall : (mvFlashBlockUnbufWr dev info s.mem s.offset
          (s.block.take (headSize hwBuffSize s.offset s.block.length))).1 ≠
          headSize hwBuffSize s.offset s.block.length
      · rw [if_pos hall, if_pos hall]
        exact ⟨rfl, hrest⟩
      · rw [if_neg hall, if_neg hall]
        exact ih hrest
    · rw [if_neg hmore, if_neg hmore]
      exact ⟨rfl, hunlocked⟩

theorem writeTail_unlocked (hvalid : info.Valid) {s : BlockWrite}
    (hunlocked : info.Unlocked s.offset s.block.length) :
    writeTail dev info s = writeTail dev info.unlocked s := by
  unfold writeTail
  rw [mvFlashBlockUnbufWr_unlocked hvalid hunlocked]

theorem hwBufferLoop_unlocked (dev : FlashDevice) (info : FlashInfo) :
    hwBufferLoop dev info = hwBufferLoop dev info.unlocked := by
  funext sec pData wordCount buffers offInBuff offset mem
  have hword : ∀ k, bufferWord info pData k = bufferWord info.unlocked pData k := fun _ => rfl
  have hwords : ∀ count k, bufferWords info pData count k =
      bufferWords info.unlocked pData count k := by
    intro count
    induction count with
    | zero => exact fun _ => rfl
    | succ count ih =>
      intro k
      unfold bufferWords
      rw [hword, ih]
      rfl
  induction buffers generalizing offInBuff offset mem with
  | zero => rfl
  | succ buffers ih =>
    unfold hwBufferLoop
    rw [ih, hwords]
    rfl

theorem flashHwBufferProg_unlocked (dev : FlashDevice) (info : FlashInfo) :
    flashHwBufferProg dev info = flashHwBufferProg dev info.unlocked := by
  funext mem offset pData
  unfold flashHwBufferProg intelFlashHwBufferProg
  rw [hwBufferLoop_unlocked dev info]
  rfl

theorem writeBuffers_unlocked (dev : FlashDevice) (hvalid : info.Valid) {s : BlockWrite}
    (hunlocked : info.Unlocked s.offset s.block.length) (copied : Bool) (hwBuffSize : ℕ) :
    writeBuffers dev info copied hwBuffSize s =
      writeBuffers dev info.unlocked copied hwBuffSize s := by
  unfold writeBuffers
  rw [flashHwBufferProg_unlocked dev info]
  simp only [writeTail_unlocked hvalid (hunlocked.advance _ _)]

/-- `mvFlashBlockWr` behind its walk over the sectors. -/
def writeBlock (dev : FlashDevice) (info : FlashInfo) (copied : Bool) (mem : ℕ → BitVec 8)
    (offset : ℕ) (block : List (BitVec 8)) : ℕ × (ℕ → BitVec 8) :=
  if info.flashGetHwBuffSize = 0 then mvFlashBlockUnbufWr dev info mem offset block
  else
    let result :=
      writeHead dev info info.flashGetHwBuffSize (block.length + 1) ⟨mem, offset, block, 0⟩
    if result.1 then
      ((writeBuffers dev info copied info.flashGetHwBuffSize result.2).numOfBytesWritten,
        (writeBuffers dev info copied info.flashGetHwBuffSize result.2).mem)
    else (result.2.numOfBytesWritten, result.2.mem)

theorem mvFlashBlockWr_passed {copied : Bool} {fuel : ℕ}
    (hcheck : checkSectors info block.length fuel (info.mvFlashInWhichSec offset) = some true) :
    mvFlashBlockWr dev info copied fuel mem offset block =
      some (writeBlock dev info copied mem offset block) := by
  unfold mvFlashBlockWr
  rw [hcheck]
  rfl

theorem mvFlashBlockWr_refused {copied : Bool} {fuel : ℕ}
    (hcheck : checkSectors info block.length fuel (info.mvFlashInWhichSec offset) = some false) :
    mvFlashBlockWr dev info copied fuel mem offset block = some (0, mem) := by
  unfold mvFlashBlockWr
  rw [hcheck]
  rfl

theorem writeBlock_unlocked (hvalid : info.Valid) (hunlocked : info.Unlocked offset block.length)
    (copied : Bool) : writeBlock dev info copied mem offset block =
      writeBlock dev info.unlocked copied mem offset block := by
  obtain ⟨hhead, hrest⟩ := writeHead_unlocked dev hvalid
    (s := ⟨mem, offset, block, 0⟩) hunlocked info.flashGetHwBuffSize (block.length + 1)
  have hbuffers := writeBuffers_unlocked dev hvalid hrest copied info.flashGetHwBuffSize
  have hsize : info.unlocked.flashGetHwBuffSize = info.flashGetHwBuffSize := rfl
  unfold writeBlock
  rw [hsize, mvFlashBlockUnbufWr_unlocked hvalid hunlocked]
  dsimp only
  rw [hbuffers, hhead]

/-! ### A device that writes what it is told to -/

/-- The first byte of a block is written where the flash is erased and not locked. -/
theorem mvFlashBlockUnbufWr_first (hvalid : info.Valid) (hunlocked : info.Unlocked offset 1)
    (hblock : 0 < block.length) :
    0 < (mvFlashBlockUnbufWr .perfect info (fun _ => 0xff) offset block).1 := by
  have hfits : Fits (fun _ => (0xff : BitVec 8)) offset block := fits_erased _ _
  obtain ⟨fuel, hfuel⟩ := Nat.exists_eq_succ_of_ne_zero hblock.ne'
  unfold mvFlashBlockUnbufWr
  rw [hfuel, unbufWrLoop, if_pos hblock, Nat.add_zero]
  by_cases hbyte : offset % 4 ≠ 0 ∨ block.length - 0 < 4
  · have hok : (mvFlash8Wr .perfect info (fun _ => 0xff) offset (block.getD 0 0)).1 = .ok := by
      apply mvFlash8Wr_perfect hvalid hunlocked
      exact fits_erased _ _
    rw [if_pos hbyte]
    simp only [hok, ne_eq, not_true_eq_false, if_false]
    have hloop : LoopWritten _ offset block (0 + 1) (unbufWrLoop .perfect info offset block fuel
        (0 + 1) (mvFlash8Wr .perfect info (fun _ => 0xff) offset (block.getD 0 0)).2) :=
      unbufWrLoop_written hvalid.bus fuel
    exact hloop.le
  · have hok : (mvFlash32Wr .perfect info (fun _ => 0xff) offset (assemble32 (block.getD 0 0)
        (block.getD (0 + 1) 0) (block.getD (0 + 2) 0) (block.getD (0 + 3) 0))).1 = .ok := by
      apply mvFlash32Wr_perfect hvalid (by omega) hunlocked
      exact fits_erased _ _
    rw [if_neg hbyte]
    simp only [hok, ne_eq, not_true_eq_false, if_false]
    have hloop : LoopWritten _ offset block (0 + 4) (unbufWrLoop .perfect info offset block fuel
        (0 + 4) (mvFlash32Wr .perfect info (fun _ => 0xff) offset (assemble32 (block.getD 0 0)
          (block.getD (0 + 1) 0) (block.getD (0 + 2) 0) (block.getD (0 + 3) 0))).2) :=
      unbufWrLoop_written hvalid.bus fuel
    exact Nat.lt_of_lt_of_le (by decide) hloop.le

theorem writeHead_mono (hwBuffSize fuel : ℕ) (s : BlockWrite) :
    s.numOfBytesWritten ≤ (writeHead dev info hwBuffSize fuel s).2.numOfBytesWritten := by
  induction fuel generalizing s with
  | zero => exact Nat.le_refl _
  | succ fuel ih =>
    unfold writeHead
    by_cases hmore : (s.offset % hwBuffSize ≠ 0 ∨ s.block.length < hwBuffSize) ∧ s.block.length ≠ 0
    · rw [if_pos hmore]
      dsimp only
      by_cases hall : (mvFlashBlockUnbufWr dev info s.mem s.offset
          (s.block.take (headSize hwBuffSize s.offset s.block.length))).1 ≠
          headSize hwBuffSize s.offset s.block.length
      · rw [if_pos hall]
        exact Nat.le_add_right _ _
      · rw [if_neg hall]
        exact Nat.le_trans (Nat.le_add_right s.numOfBytesWritten _) (ih (s.advance _ _))
    · rw [if_neg hmore]

theorem writeTail_mono (s : BlockWrite) :
    s.numOfBytesWritten ≤ (writeTail dev info s).numOfBytesWritten := by
  unfold writeTail
  by_cases hmore : s.block.length ≠ 0
  · rw [if_pos hmore]
    exact Nat.le_add_right _ _
  · rw [if_neg hmore]

theorem writeBuffers_mono (copied : Bool) (hwBuffSize : ℕ) (s : BlockWrite) :
    s.numOfBytesWritten ≤ (writeBuffers dev info copied hwBuffSize s).numOfBytesWritten := by
  unfold writeBuffers
  by_cases hmore : s.block.length ≠ 0
  · rw [if_pos hmore]
    cases copied with
    | false => exact Nat.le_refl _
    | true =>
      rw [if_neg (not_not.mpr rfl)]
      dsimp only
      by_cases hok : (flashHwBufferProg dev info s.mem s.offset
          (s.block.take (s.block.length - s.block.length % hwBuffSize))).1 ≠ .ok
      · rw [if_pos hok]
      · rw [if_neg hok]
        exact Nat.le_trans (Nat.le_add_right s.numOfBytesWritten _) (writeTail_mono (s.advance _ _))
  · rw [if_neg hmore]

/-- A block whose first byte is not locked is begun. -/
theorem writeBlock_first (block : List (BitVec 8)) (hvalid : info.Valid)
    (hunlocked : info.Unlocked offset 1) (hblock : 0 < block.length) :
    0 < (writeBlock .perfect info true (fun _ => 0xff) offset block).1 := by
  unfold writeBlock
  by_cases hhw : info.flashGetHwBuffSize = 0
  · rw [if_pos hhw]
    exact mvFlashBlockUnbufWr_first hvalid hunlocked hblock
  · rw [if_neg hhw]
    dsimp only
    generalize hs : writeHead .perfect info info.flashGetHwBuffSize (block.length + 1)
      ⟨fun _ => 0xff, offset, block, 0⟩ = result
    by_cases hmore : (offset % info.flashGetHwBuffSize ≠ 0 ∨
        block.length < info.flashGetHwBuffSize) ∧ block.length ≠ 0
    · -- The first bytes are written without the buffer.
      have hfirst : 0 < result.2.numOfBytesWritten := by
        have hsize := headSize_pos offset hhw hmore.2
        have hle := headSize_le info.flashGetHwBuffSize offset block.length
        have htake : 0 < (block.take
            (headSize info.flashGetHwBuffSize offset block.length)).length := by
          rw [List.length_take]
          omega
        have hpart := mvFlashBlockUnbufWr_first hvalid hunlocked htake
        rw [← hs, writeHead, if_pos hmore]
        dsimp only
        by_cases hall : (mvFlashBlockUnbufWr .perfect info (fun _ => 0xff) offset
            (block.take (headSize info.flashGetHwBuffSize offset block.length))).1 ≠
            headSize info.flashGetHwBuffSize offset block.length
        · rw [if_pos hall]
          exact Nat.lt_of_lt_of_le hpart (Nat.le_add_left _ _)
        · rw [if_neg hall]
          exact Nat.lt_of_lt_of_le (Nat.lt_of_lt_of_le hpart (Nat.le_add_left _ 0))
            (writeHead_mono _ _ (BlockWrite.advance ⟨fun _ => 0xff, offset, block, 0⟩ _ _))
      by_cases hcomplete : result.1 = true
      · rw [if_pos hcomplete]
        exact Nat.lt_of_lt_of_le hfirst (writeBuffers_mono _ _ _)
      · rw [if_neg hcomplete]
        exact hfirst
    · -- The block begins with whole buffers.
      have hstart : result = (true, ⟨fun _ => 0xff, offset, block, 0⟩) := by
        rw [← hs, writeHead, if_neg hmore]
      have hbuffer : ¬ block.length < info.flashGetHwBuffSize := fun h => hmore ⟨.inr h, by omega⟩
      have haligned : offset % info.flashGetHwBuffSize = 0 := by
        by_contra hoff
        exact hmore ⟨.inl hoff, by omega⟩
      have hmod := Nat.mod_lt block.length (Nat.pos_of_ne_zero hhw)
      have htake : (block.take (block.length - block.length % info.flashGetHwBuffSize)).length =
          block.length - block.length % info.flashGetHwBuffSize := by
        rw [List.length_take]
        omega
      have hwhole : (block.take (block.length - block.length % info.flashGetHwBuffSize)).length %
          info.flashGetHwBuffSize = 0 := by
        rw [htake]
        exact bufferedLength_mod _ _
      obtain ⟨mem, hok⟩ : ∃ mem, flashHwBufferProg .perfect info (fun _ => 0xff) offset
          (block.take (block.length - block.length % info.flashGetHwBuffSize)) = (.ok, mem) :=
        ⟨_, flashHwBufferProg_perfect hvalid hhw haligned (by rw [htake]; omega) hwhole⟩
      rw [hstart, if_pos rfl]
      unfold writeBuffers
      rw [if_pos (by omega : block.length ≠ 0), if_neg (not_not.mpr rfl), hok]
      dsimp only
      rw [if_neg (not_not.mpr rfl)]
      have hsize : 0 < 0 + (block.length - block.length % info.flashGetHwBuffSize) := by omega
      exact Nat.lt_of_lt_of_le hsize
        (writeTail_mono (BlockWrite.advance ⟨fun _ => 0xff, offset, block, 0⟩ _ mem))

/-! ### When locks are respected -/

/-- Nothing is written to a range with a locked sector, and a range without locked sectors is
written as if no sector was locked. -/
def RespectsLocks (info : FlashInfo) (offset n : ℕ) : Prop :=
  ∀ (dev : FlashDevice) (copied : Bool) (mem : ℕ → BitVec 8) (block : List (BitVec 8)) (fuel : ℕ),
    block.length = n → info.sectorNum < fuel →
    ((∃ sec, info.Intersects offset n sec ∧ (info.sector sec).protect = true) →
      mvFlashBlockWr dev info copied fuel mem offset block = some (0, mem)) ∧
    ((∀ sec, info.Intersects offset n sec → (info.sector sec).protect = false) →
      mvFlashBlockWr dev info copied fuel mem offset block =
        mvFlashBlockWr dev info.unlocked copied fuel mem offset block)

/-- Locks are respected if one of the locked sectors of the range has its first byte or begins
below the size of the block, or if no sector of the range is locked. -/
theorem respectsLocks_iff (hvalid : info.Valid) (hcovers : info.Covers offset n) :
    RespectsLocks info offset n ↔
      ((∃ sec, info.Intersects offset n sec ∧ (info.sector sec).protect = true) →
        ∃ sec, info.Intersects offset n sec ∧ (info.sector sec).protect = true ∧
          (info.InSector offset sec ∨ (info.sector sec).baseOffs < n)) := by
  rcases Nat.eq_zero_or_pos n with rfl | hn
  · -- An empty range intersects no sector, and nothing is written.
    refine iff_of_true ?_ ?_
    · intro dev copied mem block fuel hlength hfuel
      obtain rfl := List.eq_nil_of_length_eq_zero hlength
      have hempty : ∀ info : FlashInfo,
          mvFlashBlockWr dev info copied fuel mem offset [] = some (0, mem) :=
        fun _ => mvFlashBlockWr_nil (by omega)
      exact ⟨fun _ => hempty info, fun _ => by rw [hempty, hempty]⟩
    · rintro ⟨sec, ⟨i, hi, _⟩, _⟩
      omega
  · obtain ⟨first, hfirst⟩ := hcovers 0 hn
    rw [Nat.add_zero] at hfirst
    have hlast := hcovers.last hvalid hn
    have hwhich := mvFlashInWhichSec_eq hvalid hfirst
    have hwhich' : info.unlocked.mvFlashInWhichSec offset = first := hwhich
    constructor
    · rintro hrespects ⟨sec, hinter, hlocked⟩
      rcases checkSectors_cases info hvalid hfirst.1 hlast
          (by omega : info.sectorNum < info.sectorNum + 1 + first) with
        ⟨hcheck, hfree⟩ | ⟨_, s, hvisited, hslocked⟩
      · -- The walk has missed the lock, so that a perfect device writes the first byte.
        exfalso
        have hfree₀ : info.Unlocked offset 1 := by
          intro i hi
          obtain rfl : i = 0 := by omega
          exact ⟨first, hfirst, hfree first ⟨hfirst.1, .inl rfl⟩⟩
        have hwritten := (hrespects .perfect true (fun _ => 0xff) (List.replicate n 0)
          (info.sectorNum + 1) List.length_replicate (by omega)).1 ⟨sec, hinter, hlocked⟩
        rw [mvFlashBlockWr_passed (by rw [List.length_replicate, hwhich]; exact hcheck),
          Option.some.injEq] at hwritten
        have hcount := writeBlock_first (List.replicate n 0) hvalid hfree₀
          (by rw [List.length_replicate]; exact hn)
        rw [hwritten] at hcount
        exact Nat.lt_irrefl 0 hcount
      · refine ⟨s, hvisited.intersects hvalid hn hfirst, hslocked, ?_⟩
        rcases hvisited.2 with rfl | ⟨_, hbelow⟩
        · exact .inl hfirst
        · exact .inr hbelow
    · intro hfound dev copied mem block fuel hlength hfuel
      subst hlength
      rcases checkSectors_cases info hvalid hfirst.1 hlast
          (by omega : info.sectorNum < fuel + first) with
        ⟨hcheck, hfree⟩ | ⟨hcheck, s, hvisited, hslocked⟩
      · refine ⟨fun hlocked => ?_, fun hnone => ?_⟩
        · obtain ⟨sec, hinter, hseclocked, hplace⟩ := hfound hlocked
          have hvisited : Visited info block.length first sec := by
            obtain ⟨i, hi, hin⟩ := hinter
            refine ⟨hin.1, ?_⟩
            rcases hplace with hsame | hbelow
            · exact .inl (hvalid.inSector_unique hsame hfirst)
            · by_cases hsame : sec = first
              · exact .inl hsame
              · refine .inr ⟨?_, hbelow⟩
                by_contra hnot
                have hbase := hvalid.baseOffs_le (by omega : sec < first) hfirst.1
                have hend := hin.2.2
                have hstart := hfirst.2.1
                omega
          rw [hfree sec hvisited] at hseclocked
          exact absurd hseclocked Bool.false_ne_true
        · have hcheck' : checkSectors info.unlocked block.length fuel first = some true := by
            rcases checkSectors_cases info.unlocked hvalid.unlocked hfirst.1 hlast
                (by omega : info.sectorNum < fuel + first) with ⟨hpass, _⟩ | ⟨_, s, _, hs⟩
            · exact hpass
            · exact absurd hs Bool.false_ne_true
          rw [mvFlashBlockWr_passed (by rw [hwhich]; exact hcheck),
            mvFlashBlockWr_passed (by rw [hwhich']; exact hcheck'),
            writeBlock_unlocked hvalid (unlocked_of_intersects hcovers hnone)]
      · refine ⟨fun _ => mvFlashBlockWr_refused (by rw [hwhich]; exact hcheck), fun hnone => ?_⟩
        rw [hnone s (hvisited.intersects hvalid hn hfirst)] at hslocked
        exact absurd hslocked Bool.false_ne_true

/-- A flash of two sectors, of which the second one is locked. -/
def halfLocked : FlashInfo :=
  { flashVen := .amd
    sectorNum := 2
    hwBuffLen := 0
    sector := fun sec => ⟨sec * 0x10000, 0x10000, sec == 1⟩
    busWidth := 2
    devWidth := 2 }

theorem halfLocked_valid : halfLocked.Valid := by
  refine ⟨.inr (.inl rfl), .inr rfl, rfl, rfl, ?_, ?_, ?_, by decide⟩
  · intro n _
    exact Nat.succ_mul n 0x10000
  · intro n _
    have hsize : 0 < 0x10000 ∧ 0x10000 % 4 = 0 := by decide
    exact hsize
  · intro n hn
    change n < 2 at hn
    change n * 0x10000 + 0x10000 < 2 ^ 32
    omega

theorem halfLocked_covers {offset n : ℕ} (hn : offset + n ≤ 0x20000) :
    halfLocked.Covers offset n := by
  intro i hi
  refine ⟨(offset + i) / 0x10000, ?_, ?_, ?_⟩
  · change (offset + i) / 0x10000 < 2
    omega
  · change (offset + i) / 0x10000 * 0x10000 ≤ offset + i
    omega
  · change offset + i < (offset + i) / 0x10000 * 0x10000 + 0x10000
    omega

/-- The last word of the first sector and the first word of the locked one. -/
theorem halfLocked_iff : RespectsLocks halfLocked 0xfffc 8 ↔
    ((∃ sec, halfLocked.Intersects 0xfffc 8 sec ∧ (halfLocked.sector sec).protect = true) →
      ∃ sec, halfLocked.Intersects 0xfffc 8 sec ∧ (halfLocked.sector sec).protect = true ∧
        (halfLocked.InSector 0xfffc sec ∨ (halfLocked.sector sec).baseOffs < 8)) :=
  respectsLocks_iff halfLocked_valid (halfLocked_covers (by decide))

/-- Eight bytes over the border of the locked sector: four of them are written. -/
theorem halfLocked_written : ¬ RespectsLocks halfLocked 0xfffc 8 := by
  intro hrespects
  have hlocked : ∃ sec, halfLocked.Intersects 0xfffc 8 sec ∧
      (halfLocked.sector sec).protect = true :=
    ⟨1, ⟨4, by decide, by decide, by decide, by decide⟩, rfl⟩
  have hrefused := (hrespects .perfect true (fun _ => 0xff) (List.replicate 8 0) 3 rfl
    (by decide)).1 hlocked
  have hcount : (mvFlashBlockWr .perfect halfLocked true 3 (fun _ => 0xff) 0xfffc
      (List.replicate 8 0)).map Prod.fst = some 4 := by
    decide
  rw [hrefused] at hcount
  exact absurd hcount (by decide)

end Mv88fxx81.Flash
