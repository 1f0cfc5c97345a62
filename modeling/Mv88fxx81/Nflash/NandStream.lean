import Mathlib.Data.List.Basic
import Mv88fxx81.Nflash.NandRead

/-!
# What a read of a NAND flash delivers

The pages of a device are one stream of bytes, the data of every page followed by its spare
bytes. A read of the device that is waited for continues in this stream; from this follows what
the three phases of `readData` deliver and return.
-/

namespace Mv88fxx81.Nflash

open NandDevice

variable {dev dev' : NandDevice} {flash : NflashInfo} {n pos offset size : ℕ}

/-- The bytes of the stream from a position on. -/
def NandDevice.streamed (dev : NandDevice) (pos n : ℕ) : List UInt8 :=
  (List.range n).map fun k => dev.cells ((pos + k) / nflashPageSize) ((pos + k) % nflashPageSize)

/-- A wait that begins with the given status command sees no ready device. -/
def NandDevice.TimesOut (dev : NandDevice) (statusCommand : ℕ) : Prop :=
  ∀ i < nflashProgEraseTimeout, dev.status statusCommand i &&& 0x40 ≠ 0x40

/-- Nothing but the pins of a device has changed. -/
structure SameChip (dev dev' : NandDevice) : Prop where
  cells : dev'.cells = dev.cells
  sequential : dev'.sequential = dev.sequential
  status : dev'.status = dev.status

/-- The device is at a position of the stream, in the data or the spare bytes of a page. -/
structure At (dev : NandDevice) (pos : ℕ) : Prop where
  area : dev.area ≠ .readSpare
  column : dev.column < nflashPageSize
  pos : pos = nflashPageSize * dev.page + dev.column

theorem SameChip.refl : SameChip dev dev := ⟨rfl, rfl, rfl⟩

theorem SameChip.trans {dev'' : NandDevice} (h : SameChip dev dev') (h' : SameChip dev' dev'') :
    SameChip dev dev'' :=
  ⟨h'.cells.trans h.cells, h'.sequential.trans h.sequential, h'.status.trans h.status⟩

theorem SameChip.streamed (hchip : SameChip dev dev') : dev'.streamed = dev.streamed := by
  funext pos n
  unfold NandDevice.streamed
  rw [hchip.cells]

theorem SameChip.timesOut (hchip : SameChip dev dev') (k : ℕ) :
    dev'.TimesOut k ↔ dev.TimesOut k := by
  unfold TimesOut
  rw [hchip.status]

theorem streamed_succ : dev.streamed pos (n + 1) =
    dev.cells (pos / nflashPageSize) (pos % nflashPageSize) :: dev.streamed (pos + 1) n := by
  unfold streamed
  rw [List.range_succ_eq_map, List.map_cons, List.map_map]
  congr 1
  apply List.map_congr_left
  intro k _
  have hindex : pos + (k + 1) = pos + 1 + k := by omega
  simp only [Function.comp_apply, Nat.succ_eq_add_one, hindex]

theorem streamed_add {m : ℕ} :
    dev.streamed pos (n + m) = dev.streamed pos n ++ dev.streamed (pos + n) m := by
  induction n generalizing pos with
  | zero => simp [streamed]
  | succ n ih =>
    have hcount : n + 1 + m = n + m + 1 := by omega
    have hindex : pos + (n + 1) = pos + 1 + n := by omega
    rw [hcount, streamed_succ, streamed_succ, ih, hindex, List.cons_append]

@[simp] theorem streamed_length : (dev.streamed pos n).length = n := by
  simp [streamed]

/-- The page and the column of a position. -/
theorem At.place (hat : At dev pos) :
    pos / nflashPageSize = dev.page ∧ pos % nflashPageSize = dev.column := by
  obtain ⟨_, hcolumn, hpos⟩ := hat
  rw [hpos]
  constructor
  · rw [Nat.mul_add_div (by decide), Nat.div_eq_of_lt hcolumn, Nat.add_zero]
  · rw [Nat.mul_add_mod, Nat.mod_eq_of_lt hcolumn]

/-! ### Reading bytes -/

/-- A device that is ready for data reads. -/
structure Ready (dev : NandDevice) : Prop where
  dataMode : dev.statusMode = false
  notBusy : dev.busy = false

theorem readByte_ready (hat : At dev pos) (hready : Ready dev) :
    dev.readByte = (dev.cells dev.page dev.column, dev.advance) := by
  have hcolumn : ¬ (dev.busy ∨ nflashPageSize ≤ dev.column) := by
    rw [hready.notBusy, not_or]
    exact ⟨Bool.false_ne_true, by have := hat.column; omega⟩
  unfold readByte
  rw [hready.dataMode, if_neg Bool.false_ne_true, if_neg hcolumn]

/-- Reading up to the end of a page delivers the stream, and a device that goes on with the next
page stays in the stream. -/
theorem mvNflash8bitDataGet_streamed (hat : At dev pos) (hready : Ready dev)
    (hn : dev.column + n ≤ nflashPageSize) :
    (mvNflash8bitDataGet n dev).1 = dev.streamed pos n ∧
      SameChip dev (mvNflash8bitDataGet n dev).2 ∧
      (mvNflash8bitDataGet n dev).2.statusCommands = dev.statusCommands ∧
      (dev.sequential → At (mvNflash8bitDataGet n dev).2 (pos + n)) := by
  induction n generalizing dev pos with
  | zero => exact ⟨rfl, .refl, rfl, fun _ => hat⟩
  | succ n ih =>
    obtain ⟨hpage, hcolumn⟩ := hat.place
    have hsize := hat.column
    rw [mvNflash8bitDataGet, readByte_ready hat hready, streamed_succ, hpage, hcolumn]
    dsimp only
    by_cases hinside : dev.column + 1 < nflashPageSize
    · have hadvance : dev.advance = { dev with column := dev.column + 1 } := if_pos (.inl hinside)
      have hat' : At dev.advance (pos + 1) := by
        rw [hadvance]
        exact ⟨hat.area, hinside, by rw [hat.pos, Nat.add_assoc]⟩
      have hready' : Ready dev.advance := by
        rw [hadvance]
        exact ⟨hready.dataMode, hready.notBusy⟩
      have hchip : SameChip dev dev.advance := by
        rw [hadvance]
        exact ⟨rfl, rfl, rfl⟩
      have hcommands : dev.advance.statusCommands = dev.statusCommands := by rw [hadvance]
      have hleft : dev.advance.column + n ≤ nflashPageSize := by
        rw [hadvance]
        change dev.column + 1 + n ≤ nflashPageSize
        omega
      obtain ⟨hbytes, hsame, hcount, hnext⟩ := ih hat' hready' hleft
      refine ⟨?_, hchip.trans hsame, hcount.trans hcommands, fun hseq => ?_⟩
      · rw [hbytes, hchip.streamed]
      · have hpos : pos + (n + 1) = pos + 1 + n := by omega
        rw [hpos]
        exact hnext (hchip.sequential ▸ hseq)
    · have hn₀ : n = 0 := by omega
      subst hn₀
      refine ⟨rfl, ?_, ?_, fun hseq => ?_⟩
      · change SameChip dev dev.advance
        unfold advance
        by_cases hend : dev.column + 1 < nflashPageSize ∨ ¬ dev.sequential
        · rw [if_pos hend]
          exact ⟨rfl, rfl, rfl⟩
        · rw [if_neg hend]
          exact ⟨rfl, rfl, rfl⟩
      · change dev.advance.statusCommands = dev.statusCommands
        unfold advance
        by_cases hend : dev.column + 1 < nflashPageSize ∨ ¬ dev.sequential
        · rw [if_pos hend]
        · rw [if_neg hend]
      · change At dev.advance (pos + 1)
        have hend : ¬ (dev.column + 1 < nflashPageSize ∨ ¬ dev.sequential) := by
          rw [not_or, not_not]
          exact ⟨hinside, hseq⟩
        unfold advance
        rw [if_neg hend, if_neg hat.area]
        have hfirst : 0 < nflashPageSize := by decide
        have hpos := hat.pos
        refine ⟨hat.area, hfirst, ?_⟩
        change pos + 1 = nflashPageSize * (dev.page + 1) + 0
        rw [Nat.mul_add]
        omega

/-! ### Waiting -/

/-- The polls of a wait change the busy state and the number of polls only, and they end with a
ready device unless all of them see a busy one. -/
theorem pollStatus_spec (n : ℕ) (dev : NandDevice) (hmode : dev.statusMode = true) :
    ∃ reads busy, (pollStatus n dev).2 = { dev with statusReads := reads, busy := busy } ∧
      ((pollStatus n dev).1 ≠ .timeout → busy = false) ∧
      ((pollStatus n dev).1 = .timeout ↔
        ∀ i < n, dev.status dev.statusCommands (dev.statusReads + i) &&& 0x40 ≠ 0x40) := by
  induction n generalizing dev with
  | zero => exact ⟨dev.statusReads, dev.busy, rfl, fun h => absurd rfl h, by simp [pollStatus]⟩
  | succ n ih =>
    have hread : dev.readByte = (dev.status dev.statusCommands dev.statusReads,
        { dev with
          statusReads := dev.statusReads + 1
          busy := dev.busy &&
            dev.status dev.statusCommands dev.statusReads &&& 0x40 ≠ 0x40 }) := by
      unfold readByte
      rw [if_pos hmode]
    rw [pollStatus, hread]
    dsimp only
    by_cases hbit : dev.status dev.statusCommands dev.statusReads &&& 0x40 = 0x40
    · have hnot : ¬ ∀ i < n + 1,
          dev.status dev.statusCommands (dev.statusReads + i) &&& 0x40 ≠ 0x40 :=
        fun h => h 0 (by omega) hbit
      rw [if_pos hbit]
      by_cases hprotect : dev.status dev.statusCommands dev.statusReads &&& 0x80 = 0
      · rw [if_pos hprotect]
        exact ⟨_, _, rfl, fun _ => by simp [hbit], iff_of_false nofun hnot⟩
      · rw [if_neg hprotect]
        by_cases hok : dev.status dev.statusCommands dev.statusReads &&& 0x01 = 0
        · rw [if_pos hok]
          exact ⟨_, _, rfl, fun _ => by simp [hbit], iff_of_false nofun hnot⟩
        · rw [if_neg hok]
          exact ⟨_, _, rfl, fun _ => by simp [hbit], iff_of_false nofun hnot⟩
    · rw [if_neg hbit]
      obtain ⟨reads, busy, hdev, hready, htimeout⟩ := ih ({ dev with
        statusReads := dev.statusReads + 1
        busy := dev.busy &&
          dev.status dev.statusCommands dev.statusReads &&& 0x40 ≠ 0x40 }) hmode
      refine ⟨reads, busy, hdev, hready, htimeout.trans ?_⟩
      constructor
      · intro h i hi
        cases i with
        | zero => exact hbit
        | succ i =>
          have hindex : dev.statusReads + (i + 1) = dev.statusReads + 1 + i := by omega
          rw [hindex]
          exact h i (by omega)
      · intro h i hi
        have hstep := h (i + 1) (by omega)
        have hindex : dev.statusReads + (i + 1) = dev.statusReads + 1 + i := by omega
        rwa [hindex] at hstep

/-- A wait keeps the place; the device is ready afterwards unless the wait timed out. -/
theorem prgmEraseStsGet_spec (hat : At dev pos) :
    SameChip dev dev.prgmEraseStsGet.2 ∧ At dev.prgmEraseStsGet.2 pos ∧
      dev.prgmEraseStsGet.2.statusCommands = dev.statusCommands + 1 ∧
      (dev.prgmEraseStsGet.1 = .timeout ↔ dev.TimesOut (dev.statusCommands + 1)) ∧
      (dev.prgmEraseStsGet.1 ≠ .timeout → dev.prgmEraseStsGet.2.busy = false) := by
  obtain ⟨reads, busy, hdev, hready, htimeout⟩ :=
    pollStatus_spec nflashProgEraseTimeout (dev.mvNflashCommandSet .readStatus) rfl
  have hdev' : dev.prgmEraseStsGet.2 = _ := hdev
  have hstatus : dev.prgmEraseStsGet.1 = .timeout ↔ _ := htimeout
  refine ⟨?_, ?_, ?_, ?_, ?_⟩
  · rw [hdev']
    exact ⟨rfl, rfl, rfl⟩
  · rw [hdev']
    exact ⟨hat.area, hat.column, hat.pos⟩
  · rw [hdev']
    rfl
  · rw [hstatus]
    simp [mvNflashCommandSet, TimesOut]
  · intro h
    rw [hdev']
    exact hready h

/-- After a wait that does not time out, a read command lets the data go on. -/
theorem resume_spec {readType : ReadType} (hat : At dev pos) (hread : readType ≠ .readSpare)
    (hstatus : dev.prgmEraseStsGet.1 ≠ .timeout) :
    At (dev.prgmEraseStsGet.2.mvNflashCommandSet (.read readType)) pos ∧
      Ready (dev.prgmEraseStsGet.2.mvNflashCommandSet (.read readType)) ∧
      SameChip dev (dev.prgmEraseStsGet.2.mvNflashCommandSet (.read readType)) ∧
      (dev.prgmEraseStsGet.2.mvNflashCommandSet (.read readType)).statusCommands =
        dev.statusCommands + 1 := by
  obtain ⟨hchip, hat', hcommands, _, hready⟩ := prgmEraseStsGet_spec hat
  exact ⟨⟨hread, hat'.column, hat'.pos⟩, ⟨rfl, hready hstatus⟩,
    ⟨hchip.cells, hchip.sequential, hchip.status⟩, hcommands⟩

/-! ### The phases of `readData` -/

/-- What a part of a read adds to the buffer: a part of the stream, and all of it unless a wait
times out. -/
structure Delivers (dev : NandDevice) (pos tmpSize size : ℕ) (pData : List UInt8)
    (r : ReadResult) : Prop where
  prefix_streamed : ∃ m ≤ tmpSize, r.pData = pData ++ dev.streamed pos m
  complete : (∀ k, dev.statusCommands < k → ¬ dev.TimesOut k) →
    r.pData = pData ++ dev.streamed pos tmpSize ∧ r.copied = size

/-- From the start of a page on, the full pages and the last page are the stream. -/
theorem readPages_delivers {readType : ReadType} {tmpSize numOfFullPages : ℕ} (size : ℕ)
    (pData : List UInt8) (hat : At dev pos) (hready : Ready dev) (hseq : dev.sequential = true)
    (hread : readType ≠ .readSpare) (hpages : numOfFullPages = tmpSize / nflashPageSize)
    (hcolumn : tmpSize = 0 ∨ dev.column = 0) :
    Delivers dev pos tmpSize size pData
      (readPages readType nflashPageSize size numOfFullPages tmpSize pData dev) := by
  have hpositive : 0 < nflashPageSize := by decide
  induction numOfFullPages generalizing dev pos tmpSize pData with
  | zero =>
    rw [readPages]
    by_cases hzero : tmpSize = 0
    · subst hzero
      rw [if_pos rfl]
      have hnone : pData = pData ++ dev.streamed pos 0 := (List.append_nil pData).symm
      exact ⟨⟨0, Nat.le_refl _, hnone⟩, fun _ => ⟨hnone, rfl⟩⟩
    · have hlt : tmpSize < nflashPageSize := (Nat.div_eq_zero_iff_lt hpositive).mp hpages.symm
      have hstart := hcolumn.resolve_left hzero
      obtain ⟨hbytes, hchip, hcommands, hnext⟩ :=
        mvNflash8bitDataGet_streamed (n := tmpSize) hat hready (by omega)
      obtain ⟨_, _, _, htimeout, _⟩ := prgmEraseStsGet_spec (hnext hseq)
      rw [hcommands, hchip.timesOut] at htimeout
      rw [if_neg hzero]
      dsimp only
      rw [hbytes]
      by_cases hstatus : (mvNflash8bitDataGet tmpSize dev).2.prgmEraseStsGet.1 = .timeout
      · rw [if_pos hstatus]
        exact ⟨⟨tmpSize, Nat.le_refl _, rfl⟩,
          fun hnever => absurd (htimeout.mp hstatus) (hnever _ (by omega))⟩
      · rw [if_neg hstatus]
        exact ⟨⟨tmpSize, Nat.le_refl _, rfl⟩, fun _ => ⟨rfl, rfl⟩⟩
  | succ numOfFullPages ih =>
    have hfull : nflashPageSize ≤ tmpSize := by
      by_contra hless
      rw [Nat.div_eq_of_lt (by omega)] at hpages
      omega
    have hstart : dev.column = 0 := hcolumn.resolve_left (by omega)
    have hleft : numOfFullPages = (tmpSize - nflashPageSize) / nflashPageSize := by
      have hdiv := Nat.div_eq_sub_div hpositive hfull
      omega
    obtain ⟨hbytes, hchip, hcommands, hnext⟩ :=
      mvNflash8bitDataGet_streamed (n := nflashPageSize) hat hready (by omega)
    have hat' := hnext hseq
    have hend : (mvNflash8bitDataGet nflashPageSize dev).2.column = 0 := by
      rw [← hat'.place.2, Nat.add_mod_right, hat.place.2, hstart]
    obtain ⟨_, _, _, htimeout, _⟩ := prgmEraseStsGet_spec hat'
    rw [hcommands, hchip.timesOut] at htimeout
    have hsplit : dev.streamed pos tmpSize = dev.streamed pos nflashPageSize ++
        dev.streamed (pos + nflashPageSize) (tmpSize - nflashPageSize) := by
      rw [← streamed_add, Nat.add_sub_cancel' hfull]
    rw [readPages]
    dsimp only
    rw [hbytes]
    by_cases hstatus : (mvNflash8bitDataGet nflashPageSize dev).2.prgmEraseStsGet.1 = .timeout
    · rw [if_pos hstatus]
      exact ⟨⟨nflashPageSize, hfull, rfl⟩,
        fun hnever => absurd (htimeout.mp hstatus) (hnever _ (by omega))⟩
    · rw [if_neg hstatus]
      obtain ⟨hat'', hready'', hchip'', hcommands''⟩ := resume_spec hat' hread hstatus
      have hcolumn'' : ((mvNflash8bitDataGet nflashPageSize dev).2.prgmEraseStsGet.2
          |>.mvNflashCommandSet (.read readType)).column = 0 := by
        rw [← hat''.place.2, hat'.place.2, hend]
      obtain ⟨⟨m, hm, hfront⟩, hcomplete⟩ := ih
        (pData ++ dev.streamed pos nflashPageSize) hat'' hready''
        ((hchip.trans hchip'').sequential.trans hseq) hleft (.inr hcolumn'')
      rw [(hchip.trans hchip'').streamed, List.append_assoc] at hfront
      refine ⟨⟨nflashPageSize + m, by omega, ?_⟩, fun hnever => ?_⟩
      · rw [hfront, streamed_add]
      · obtain ⟨hall, hcopied⟩ := hcomplete fun k hk => by
          rw [(hchip.trans hchip'').timesOut]
          exact hnever k (by omega)
        rw [(hchip.trans hchip'').streamed, List.append_assoc, ← hsplit] at hall
        exact ⟨hall, hcopied⟩

/-- The driver knows its device: one of the 8-bit devices of `supNflashAry`. -/
structure Describes (flash : NflashInfo) (dev : NandDevice) : Prop where
  devWidth : flash.devWidth = .x8
  pageDataSize : flash.pageDataSize = 512
  spareSize : flash.spareSize = 16
  sequential : dev.sequential = true ↔ flash.devId = k9f5608d0c

/-- How many bytes can be read from a place in a page on. -/
def readable (dev : NandDevice) (start size : ℕ) : ℕ :=
  if dev.sequential then size else min size (nflashPageSize - start)

/-- A read whose first part stays in its page delivers the stream. -/
theorem readData_delivers {readType : ReadType} (offset size : ℕ)
    (hflash : Describes flash dev) (hat : At dev pos) (hready : Ready dev)
    (hread : readType ≠ .readSpare)
    (hfirst : (dev.column = offset % 256) ∨
      (dev.column = 256 + offset % 256 ∧ dev.column + size ≤ nflashPageSize)) :
    ∃ m ≤ readable dev dev.column size,
      (readData flash readType offset size dev).pData = dev.streamed pos m ∧
      ((∀ k, dev.statusCommands + 1 < k → ¬ dev.TimesOut k) →
        (readData flash readType offset size dev).copied = m) ∧
      ((∀ k, dev.statusCommands < k → ¬ dev.TimesOut k) →
        m = readable dev dev.column size) := by
  have hpage : nflashPageSize = 528 := rfl
  have hmax : (if readType = .readSpare then flash.spareSize
      else flash.pageDataSize + flash.spareSize) = nflashPageSize := by
    rw [if_neg hread, hflash.pageDataSize, hflash.spareSize]
    rfl
  have hoffset := Nat.mod_lt offset (show 256 > 0 by decide)
  unfold readData
  dsimp only
  rw [hmax]
  generalize hcount : (if nflashPageSize - offset % 256 < size then nflashPageSize - offset % 256
    else size) = count
  -- The first part ends at the end of the read or of the page.
  have hcases : (count = size ∧ dev.column + size ≤ nflashPageSize) ∨
      (count < size ∧ dev.column + count = nflashPageSize) := by
    rw [← hcount]
    by_cases hless : nflashPageSize - offset % 256 < size
    · rw [if_pos hless]
      omega
    · rw [if_neg hless]
      omega
  obtain ⟨hbytes, hchip, hcommands, hnext⟩ :=
    mvNflash8bitDataGet_streamed (n := count) hat hready (by omega)
  by_cases hdev : flash.devId = k9f5608d0c
  · have hseq := hflash.sequential.mpr hdev
    have hreadable : readable dev dev.column size = size := if_pos hseq
    have hat' := hnext hseq
    obtain ⟨_, _, _, htimeout, _⟩ := prgmEraseStsGet_spec hat'
    rw [hcommands, hchip.timesOut] at htimeout
    rw [if_neg (not_not.mpr hdev.symm), hreadable, hbytes]
    by_cases hstatus : (mvNflash8bitDataGet count dev).2.prgmEraseStsGet.1 = .timeout
    · rw [if_pos hstatus]
      exact ⟨count, by omega, rfl, fun _ => rfl,
        fun hnever => absurd (htimeout.mp hstatus) (hnever _ (by omega))⟩
    · rw [if_neg hstatus]
      obtain ⟨hat'', hready'', hchip'', hcommands''⟩ := resume_spec hat' hread hstatus
      have hend : size - count = 0 ∨ ((mvNflash8bitDataGet count dev).2.prgmEraseStsGet.2
          |>.mvNflashCommandSet (.read readType)).column = 0 := by
        rcases hcases with ⟨hall, _⟩ | ⟨_, hpart⟩
        · exact .inl (by omega)
        · refine .inr ?_
          rw [← hat''.place.2, hat.pos, Nat.add_assoc, hpart, ← Nat.mul_succ, Nat.mul_mod_right]
      obtain ⟨⟨m, hm, hfront⟩, hcomplete⟩ := readPages_delivers
        size (dev.streamed pos count) hat'' hready''
        ((hchip.trans hchip'').sequential.trans hseq) hread rfl hend
      rw [(hchip.trans hchip'').streamed, ← streamed_add] at hfront
      rw [(hchip.trans hchip'').streamed, ← streamed_add] at hcomplete
      have hlate : (∀ k, dev.statusCommands + 1 < k → ¬ dev.TimesOut k) →
          ∀ k, ((mvNflash8bitDataGet count dev).2.prgmEraseStsGet.2
            |>.mvNflashCommandSet (.read readType)).statusCommands < k →
          ¬ ((mvNflash8bitDataGet count dev).2.prgmEraseStsGet.2
            |>.mvNflashCommandSet (.read readType)).TimesOut k := by
        intro hnever k hk
        rw [(hchip.trans hchip'').timesOut]
        exact hnever k (by omega)
      have hlength : (∀ k, dev.statusCommands + 1 < k → ¬ dev.TimesOut k) → count + m = size := by
        intro hnever
        have hsame := (hcomplete (hlate hnever)).1
        rw [hfront] at hsame
        have hlen := congrArg List.length hsame
        rw [streamed_length, streamed_length] at hlen
        omega
      refine ⟨count + m, by omega, hfront, fun hnever => ?_, fun hnever => ?_⟩
      · rw [hlength hnever]
        exact (hcomplete (hlate hnever)).2
      · exact hlength fun k hk => hnever k (by omega)
  · have hseq : ¬ dev.sequential = true := mt hflash.sequential.mp hdev
    have hreadable : readable dev dev.column size = count := by
      unfold readable
      rw [if_neg hseq]
      omega
    rw [if_pos (Ne.symm hdev), hbytes, hreadable]
    exact ⟨count, Nat.le_refl _, rfl, fun _ => rfl, fun _ => rfl⟩

end Mv88fxx81.Nflash
