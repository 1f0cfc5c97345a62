import Mv88fxx81.Nflash.NandStream

/-!
# Reading a NAND flash from an offset

An offset counts data bytes. `mvNflashPageRead` chooses the plane from it and puts the device at
its page and column; what is read from there on is the stream of the pages.
-/

namespace Mv88fxx81.Nflash

open NandDevice

variable {dev : NandDevice} {flash : NflashInfo} {offset size : ℕ}

/-- The position in the stream of a data offset. -/
def streamPos (offset : ℕ) : ℕ := nflashPageSize * (offset / 512) + offset % 512

/-- The read is in the first plane, or in the second one and does not leave the page. -/
def PlaneFits (offset size : ℕ) : Prop :=
  offset % 512 < nflashDataPlainSize ∨
    (nflashDataPlainSize < offset % 512 ∧ offset % 512 + size ≤ nflashPageSize)

/-- The device before the first wait of a read. -/
def addressed (flash : NflashInfo) (offset : ℕ) (dev : NandDevice) : NandDevice :=
  (((dev.mvNflashCommandSet (.read (planeOf flash offset))).mvNflashAddrSet
    (offset % 256)).mvNflashAddrSet (offset / 2 ^ 9 % 256)).mvNflashAddrSet (offset / 2 ^ 17 % 256)

theorem planeOf_ne_readSpare : planeOf flash offset ≠ .readSpare := by
  unfold planeOf
  by_cases hplane : flash.devWidth = .x8 ∧ offset % flash.pageDataSize > nflashDataPlainSize
  · rw [if_pos hplane]
    exact nofun
  · rw [if_neg hplane]
    exact nofun

/-- The command and the address bytes put the device at the offset. -/
theorem addressed_spec (hflash : Describes flash dev) (hoffset : offset < 2 ^ 25)
    (hplane : offset % 512 ≠ nflashDataPlainSize) :
    At (addressed flash offset dev) (streamPos offset) ∧
      SameChip dev (addressed flash offset dev) ∧
      (addressed flash offset dev).statusCommands = dev.statusCommands ∧
      (addressed flash offset dev).column = offset % 512 ∧
      (addressed flash offset dev).statusMode = false := by
  have hbyte : ∀ k, (UInt8.ofNat (k % 256)).toNat = k % 256 := by
    intro k
    rw [UInt8.toNat_ofNat']
    omega
  have hpage : (addressed flash offset dev).page = offset / 512 := by
    change 256 * (UInt8.ofNat (offset / 2 ^ 17 % 256)).toNat +
      (UInt8.ofNat (offset / 2 ^ 9 % 256)).toNat = offset / 512
    rw [hbyte, hbyte]
    omega
  have hcolumn : (addressed flash offset dev).column = offset % 512 := by
    change areaBase (planeOf flash offset) + (UInt8.ofNat (offset % 256)).toNat = offset % 512
    rw [hbyte, planeOf, hflash.devWidth, hflash.pageDataSize]
    unfold nflashDataPlainSize at hplane ⊢
    by_cases hsecond : offset % 512 > 256
    · rw [if_pos ⟨rfl, hsecond⟩, areaBase]
      omega
    · rw [if_neg (fun h => hsecond h.2), areaBase]
      omega
  refine ⟨⟨planeOf_ne_readSpare, ?_, ?_⟩, ⟨rfl, rfl, rfl⟩, rfl, hcolumn, rfl⟩
  · rw [hcolumn, nflashPageSize]
    omega
  · rw [hpage, hcolumn]
    rfl

/-- A read that does not cut a plane short delivers the stream from its offset on, to the end of
the page at most unless the device goes on with the next one. It returns the number of bytes
that were copied, also if its first or its second wait times out. -/
theorem mvNflashPageRead_streamed (hflash : Describes flash dev) (hoffset : offset < 2 ^ 25)
    (hplane : PlaneFits offset size) :
    ∃ m ≤ readable dev (offset % 512) size,
      (mvNflashPageRead flash offset size dev).pData = dev.streamed (streamPos offset) m ∧
      ((∀ k, dev.statusCommands + 2 < k → ¬ dev.TimesOut k) →
        (mvNflashPageRead flash offset size dev).copied = m) ∧
      ((∀ k, dev.statusCommands < k → ¬ dev.TimesOut k) →
        m = readable dev (offset % 512) size) := by
  have hne : offset % 512 ≠ nflashDataPlainSize := by
    unfold PlaneFits at hplane
    omega
  obtain ⟨hat, hchip, hcommands, hcolumn, _⟩ := addressed_spec hflash hoffset hne
  obtain ⟨hchip', _, _, htimeout, _⟩ := prgmEraseStsGet_spec hat
  rw [hcommands, hchip.timesOut] at htimeout
  have hread : mvNflashPageRead flash offset size dev =
      if (addressed flash offset dev).prgmEraseStsGet.1 = .timeout then
        { copied := 0, pData := [], dev := (addressed flash offset dev).prgmEraseStsGet.2 }
      else
        readData flash (planeOf flash offset) offset size
          ((addressed flash offset dev).prgmEraseStsGet.2.mvNflashCommandSet
            (.read (planeOf flash offset))) := rfl
  rw [hread]
  by_cases hstatus : (addressed flash offset dev).prgmEraseStsGet.1 = .timeout
  · rw [if_pos hstatus]
    exact ⟨0, Nat.zero_le _, rfl, fun _ => rfl,
      fun hnever => absurd (htimeout.mp hstatus) (hnever _ (by omega))⟩
  · rw [if_neg hstatus]
    obtain ⟨hat'', hready'', hchip'', hcommands''⟩ :=
      resume_spec hat planeOf_ne_readSpare hstatus
    have hsame := hchip.trans hchip''
    have hcolumn'' : ((addressed flash offset dev).prgmEraseStsGet.2.mvNflashCommandSet
        (.read (planeOf flash offset))).column = offset % 512 := by
      rw [← hat''.place.2, hat.place.2, hcolumn]
    have hflash'' : Describes flash ((addressed flash offset dev).prgmEraseStsGet.2
        |>.mvNflashCommandSet (.read (planeOf flash offset))) :=
      ⟨hflash.devWidth, hflash.pageDataSize, hflash.spareSize,
        hsame.sequential ▸ hflash.sequential⟩
    obtain ⟨m, hm, hbytes, hcopied, hcomplete⟩ := readData_delivers offset size
      hflash'' hat'' hready'' planeOf_ne_readSpare (by
        rw [hcolumn'']
        unfold PlaneFits nflashDataPlainSize at hplane
        omega)
    have hreadable : readable ((addressed flash offset dev).prgmEraseStsGet.2.mvNflashCommandSet
        (.read (planeOf flash offset))) (offset % 512) size =
        readable dev (offset % 512) size := by
      unfold readable
      rw [hsame.sequential]
    rw [hcolumn'', hreadable] at hm hcomplete
    refine ⟨m, hm, ?_, fun hnever => ?_, fun hnever => ?_⟩
    · rw [hbytes, hsame.streamed]
    · refine hcopied fun k hk => ?_
      rw [hsame.timesOut]
      exact hnever k (by omega)
    · refine hcomplete fun k hk => ?_
      rw [hsame.timesOut]
      exact hnever k (by omega)

/-- A device without sequential reads that is always ready. -/
def readyDevice : NandDevice :=
  { cells := fun _ _ => 0
    sequential := false
    status := fun _ _ => 0xc0
    unready := fun _ => 0xff
    area := .readAPlain
    addrBytes := []
    statusMode := false
    page := 0
    column := 0
    busy := false
    statusCommands := 0
    statusReads := 0
    unreadyReads := 0 }

/-- `K9F5608Q0C`. -/
def k9f5608q0c : NflashInfo :=
  { devId := 0x35, devWidth := .x8, pageDataSize := 512, spareSize := 16 }

theorem readyDevice_described : Describes k9f5608q0c readyDevice :=
  ⟨rfl, rfl, rfl, by decide⟩

/-- The first page and half a page are read from the start, of which the device delivers the
first page with its spare bytes. -/
theorem mvNflashPageRead_readyDevice : ∃ m ≤ readable readyDevice (0 % 512) 768,
      (mvNflashPageRead k9f5608q0c 0 768 readyDevice).pData =
        readyDevice.streamed (streamPos 0) m ∧
      ((∀ k, readyDevice.statusCommands + 2 < k → ¬ readyDevice.TimesOut k) →
        (mvNflashPageRead k9f5608q0c 0 768 readyDevice).copied = m) ∧
      ((∀ k, readyDevice.statusCommands < k → ¬ readyDevice.TimesOut k) →
        m = readable readyDevice (0 % 512) 768) :=
  mvNflashPageRead_streamed readyDevice_described (by decide) (.inl (by decide))

/-- Not every read delivers as many bytes as are asked for, from a device that is always ready. -/
theorem not_mvNflashPageRead_all : ¬ ∀ (flash : NflashInfo) (dev : NandDevice) (offset size : ℕ),
    Describes flash dev → offset < 2 ^ 25 → (∀ k, ¬ dev.TimesOut k) →
      (mvNflashPageRead flash offset size dev).pData = dev.streamed (streamPos offset) size ∧
        (mvNflashPageRead flash offset size dev).copied = size := by
  intro hall
  have hbit : (0xc0 : UInt8) &&& 0x40 = 0x40 := by decide
  have hready : ∀ k, ¬ readyDevice.TimesOut k := fun k h => h 0 (by decide) hbit
  have hcopied := (hall k9f5608q0c readyDevice 0 768 readyDevice_described (by decide) hready).2
  have hvalue : (mvNflashPageRead k9f5608q0c 0 768 readyDevice).copied = 528 := by
    decide +kernel
  omega

end Mv88fxx81.Nflash
