import Mathlib.Data.List.Range
import Mv88fxx81.Sata.PioData

/-!
# The blocks of a PIO command

The words of a command are cut into blocks. A transfer moves the next block, or what is
left of the last one.
-/

namespace Mv88fxx81.Sata.Pio

open Mv88fxx81.Sata.Core (NonUdmaProtocol)

variable {drqDataBlockSize : ℕ} {drive : ℕ → BitVec 16} {s s' : PioState}

/-! ### Blocks -/

/-- The words of block `n`, when `total` words are cut into blocks of `unit` words. -/
def blockWords (word : ℕ → BitVec 16) (unit total n : ℕ) : List (BitVec 16) :=
  (List.range (min unit (total - n * unit))).map fun i => word (n * unit + i)

/-- The number of the blocks. -/
def blockNum (unit total : ℕ) : ℕ := (total + unit - 1) / unit

/-- A block has words when it begins before the end. -/
theorem lt_blockNum_iff {unit total n : ℕ} (hunit : 0 < unit) :
    n < blockNum unit total ↔ n * unit < total := by
  unfold blockNum
  rw [Nat.lt_iff_add_one_le, Nat.le_div_iff_mul_le hunit, Nat.succ_mul]
  omega

/-- The blocks from `first` on, and the completion. -/
def eventsFrom (word : ℕ → BitVec 16) (unit total first n : ℕ) : List PioEvent :=
  (List.range n).map (fun i => .block (blockWords word unit total (first + i))) ++
    [.complete false]

theorem eventsFrom_succ (word : ℕ → BitVec 16) (unit total first n : ℕ) :
    eventsFrom word unit total first (n + 1) =
      .block (blockWords word unit total first) ::
        eventsFrom word unit total (first + 1) n := by
  unfold eventsFrom
  rw [List.range_succ_eq_map, List.map_cons, List.map_map, List.cons_append, Nat.add_zero]
  congr 2
  refine List.map_congr_left fun i _ => ?_
  dsimp only [Function.comp_apply]
  rw [Nat.succ_add_eq_add_succ]

/-! ### The loops -/

/-- The first word and the other ones. -/
theorem range_words (word : ℕ → BitVec 16) (first n : ℕ) :
    (List.range (n + 1)).map (fun i => word (first + i)) =
      word first :: (List.range n).map fun i => word (first + 1 + i) := by
  rw [List.range_succ_eq_map, List.map_cons, List.map_map, Nat.add_zero]
  congr 1
  refine List.map_congr_left fun i _ => ?_
  dsimp only [Function.comp_apply]
  rw [Nat.succ_add_eq_add_succ]

/-- The words that have been sent. -/
theorem sendLoop_eq (n : ℕ) (s : PioState) :
    sendLoop n s = ((List.range n).map fun i => s.buffer (s.bufPtr + i),
      { s with bufPtr := s.bufPtr + n }) := by
  induction n generalizing s with
  | zero => rfl
  | succ n ih =>
    unfold sendLoop
    rw [ih, range_words]
    dsimp only
    rw [Nat.add_assoc, Nat.add_comm 1 n]

/-- The words that have been written. -/
theorem writeLoop_eq (n : ℕ) (s : PioState) :
    writeLoop n s = ((List.range (min n s.count)).map fun i => s.buffer (s.bufPtr + i),
      { s with bufPtr := s.bufPtr + min n s.count, count := s.count - min n s.count }) := by
  induction n generalizing s with
  | zero =>
    rw [Nat.zero_min]
    rfl
  | succ n ih =>
    unfold writeLoop
    by_cases hzero : s.count = 0
    · rw [if_pos hzero, hzero, Nat.min_zero]
      obtain ⟨protocolType, bufPtr, count, buffer, supplied, log⟩ := s
      subst hzero
      rfl
    · have hmin : min (n + 1) s.count = min n (s.count - 1) + 1 := by omega
      have hcount : s.count - 1 - min n (s.count - 1) = s.count - (min n (s.count - 1) + 1) := by
        omega
      rw [if_neg hzero, ih, hmin, range_words]
      dsimp only
      rw [hcount, Nat.add_assoc, Nat.add_comm 1]

/-- The state when `n` words have been read. -/
def afterRead (drive : ℕ → BitVec 16) (s : PioState) (n : ℕ) : PioState :=
  { s with
    bufPtr := s.bufPtr + n
    count := s.count - n
    buffer := fun a => if s.bufPtr ≤ a ∧ a < s.bufPtr + n then drive (s.supplied + (a - s.bufPtr))
      else s.buffer a
    supplied := s.supplied + n }

theorem afterRead_zero (s : PioState) : afterRead drive s 0 = s := by
  have hbuffer : (fun a => if s.bufPtr ≤ a ∧ a < s.bufPtr + 0 then
      drive (s.supplied + (a - s.bufPtr)) else s.buffer a) = s.buffer := by
    funext a
    rw [if_neg (by omega)]
  unfold afterRead
  rw [hbuffer]
  rfl

/-- One word is read before the other ones. -/
theorem afterRead_succ (s : PioState) (n : ℕ) :
    afterRead drive { s with
      count := s.count - 1
      bufPtr := s.bufPtr + 1
      buffer := Function.update s.buffer s.bufPtr (drive s.supplied)
      supplied := s.supplied + 1 } n = afterRead drive s (n + 1) := by
  have hcount : s.count - 1 - n = s.count - (n + 1) := by omega
  have hbuffer : (fun a => if s.bufPtr + 1 ≤ a ∧ a < s.bufPtr + 1 + n then
      drive (s.supplied + 1 + (a - (s.bufPtr + 1)))
      else Function.update s.buffer s.bufPtr (drive s.supplied) a) =
      fun a => if s.bufPtr ≤ a ∧ a < s.bufPtr + (n + 1) then drive (s.supplied + (a - s.bufPtr))
      else s.buffer a := by
    funext a
    by_cases hfirst : a = s.bufPtr
    · rw [if_neg (by omega), if_pos (by omega), hfirst, Function.update_self, Nat.sub_self,
        Nat.add_zero]
    · rw [Function.update_of_ne hfirst]
      by_cases hlater : s.bufPtr + 1 ≤ a ∧ a < s.bufPtr + 1 + n
      · rw [if_pos hlater, if_pos (by omega)]
        congr 1
        omega
      · rw [if_neg hlater, if_neg (by omega)]
  unfold afterRead
  dsimp only
  rw [hbuffer, hcount, Nat.add_assoc, Nat.add_assoc, Nat.add_comm 1 n]

/-- The words that have been read. -/
theorem readLoop_eq (n : ℕ) (s : PioState) :
    readLoop drive n s = ((List.range (min n s.count)).map fun i => drive (s.supplied + i),
      afterRead drive s (min n s.count)) := by
  induction n generalizing s with
  | zero =>
    rw [Nat.zero_min, afterRead_zero]
    rfl
  | succ n ih =>
    unfold readLoop
    by_cases hzero : s.count = 0
    · rw [if_pos hzero, hzero, Nat.min_zero, afterRead_zero]
      rfl
    · have hmin : min (n + 1) s.count = min n (s.count - 1) + 1 := by omega
      rw [if_neg hzero]
      dsimp only
      rw [ih, hmin, range_words]
      dsimp only
      rw [afterRead_succ]

/-! ### One block -/

/-- The command has moved `m` blocks of `total` words. -/
structure At (protocolType : NonUdmaProtocol) (drive buffer : ℕ → BitVec 16) (unit total : ℕ)
    (s : PioState) (m : ℕ) : Prop where
  protocol : s.protocolType = protocolType
  bufPtr : s.bufPtr = min (m * unit) total
  count : s.count = total - m * unit
  buffer : ∀ a, s.buffer a =
    if protocolType = .pioDataIn ∧ a < min (m * unit) total then drive a else buffer a
  supplied : protocolType = .pioDataIn → s.supplied = min (m * unit) total

/-- The words that a command moves. -/
def source (protocolType : NonUdmaProtocol) (drive buffer : ℕ → BitVec 16) : ℕ → BitVec 16 :=
  if protocolType = .pioDataIn then drive else buffer

/-- A transfer moves one block. -/
theorem transferPIOData_at {protocolType : NonUdmaProtocol} {buffer : ℕ → BitVec 16}
    {unit total m : ℕ} (hunit : drqDataBlockSize * ataSectorSizeInWords = unit)
    (hdata : protocolType ≠ .nonData) (hat : At protocolType drive buffer unit total s m)
    (hm : m * unit < total) :
    ∃ s', transferPIOData drqDataBlockSize drive s = (true, s') ∧
      At protocolType drive buffer unit total s' (m + 1) ∧
      s'.log = s.log ++
        [.block (blockWords (source protocolType drive buffer) unit total m)] := by
  obtain ⟨hprotocol, hptr, hcount, hbuffer, hsupplied⟩ := hat
  have hstart : s.bufPtr = m * unit := by omega
  have hptr' : s.bufPtr + min unit s.count = min ((m + 1) * unit) total := by
    rw [Nat.succ_mul]
    omega
  have hcount' : s.count - min unit s.count = total - (m + 1) * unit := by
    rw [Nat.succ_mul]
    omega
  unfold transferPIOData
  dsimp only
  rw [hunit, hprotocol]
  cases protocolType with
  | nonData => exact absurd rfl hdata
  | pioDataOut =>
    dsimp only
    rw [writeLoop_eq]
    refine ⟨_, rfl, ⟨hprotocol, hptr', hcount', fun a => ?_, fun h => by cases h⟩, ?_⟩
    · change s.buffer a = _
      rw [hbuffer a, if_neg (fun h => by cases h.1), if_neg (fun h => by cases h.1)]
    · have hwords : (List.range (min unit s.count)).map (fun i => s.buffer (s.bufPtr + i)) =
          blockWords (source .pioDataOut drive buffer) unit total m := by
        unfold blockWords source
        rw [if_neg (by decide), hcount, hstart]
        refine List.map_congr_left fun i _ => ?_
        rw [hbuffer, if_neg (fun h => by cases h.1)]
      rw [← hwords]
      rfl
  | pioDataIn =>
    have hstart' : s.supplied = m * unit := by
      rw [hsupplied rfl]
      omega
    dsimp only
    rw [readLoop_eq]
    refine ⟨_, rfl, ⟨hprotocol, hptr', hcount', fun a => ?_, fun _ => ?_⟩, ?_⟩
    · change (if s.bufPtr ≤ a ∧ a < s.bufPtr + min unit s.count then
        drive (s.supplied + (a - s.bufPtr)) else s.buffer a) = _
      rw [hptr', hbuffer a]
      by_cases hnew : s.bufPtr ≤ a ∧ a < min ((m + 1) * unit) total
      · rw [if_pos hnew, if_pos ⟨rfl, hnew.2⟩]
        congr 1
        omega
      · rw [if_neg hnew]
        by_cases hold : a < min (m * unit) total
        · rw [if_pos ⟨rfl, hold⟩, if_pos ⟨rfl, by rw [Nat.succ_mul]; omega⟩]
        · rw [if_neg (fun h => hold h.2), if_neg (fun h => hnew ⟨by omega, h.2⟩)]
    · change s.supplied + min unit s.count = _
      rw [← hptr', hstart, hstart']
    · have hwords : (List.range (min unit s.count)).map (fun i => drive (s.supplied + i)) =
          blockWords (source .pioDataIn drive buffer) unit total m := by
        unfold blockWords source
        rw [if_pos rfl, hcount, hstart']
      rw [← hwords]
      rfl

end Mv88fxx81.Sata.Pio
