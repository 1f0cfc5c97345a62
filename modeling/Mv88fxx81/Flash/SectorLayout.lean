import Mathlib.Algebra.BigOperators.Intervals
import Mv88fxx81.Flash.RoundTrip
import Mv88fxx81.Flash.SectorTable

/-!
# The sectors of a description

A description says how large the sectors are. The table that is built from it lays
them out one behind the other, and the sector of an offset is found in it. The flags
are the ones of the sectors, except for a boot block at the top.
-/

namespace Mv88fxx81.Flash

open Segments

variable {lockBit : ℕ → Bool} {spec : FlashSpec} {info table : FlashInfo}

/-! ### Descriptions -/

/-- The size of a fragment, in all devices together. -/
def fragSize (spec : FlashSpec) (info : FlashInfo) (i : ℕ) : ℕ :=
  (spec.pSecSizeFragList.getD []).getD i 0 * info.mvFlashNumOfDevGet

/-- The size of a sector that is not cut. -/
def unitSize (spec : FlashSpec) (info : FlashInfo) : ℕ :=
  match spec.secType with
  | .regular => mvFlashSizeGet spec info / info.sectorNum
  | .bottom | .top => ∑ i ∈ Finset.range spec.secFragNum, fragSize spec info i

/-- The sizes of the sectors. At the top the fragments are in the opposite order. -/
def secSize (spec : FlashSpec) (info : FlashInfo) (n : ℕ) : ℕ :=
  match spec.secType with
  | .regular => unitSize spec info
  | .bottom => if n < spec.secFragNum then fragSize spec info n else unitSize spec info
  | .top =>
    if n < info.sectorNum - spec.secFragNum then unitSize spec info
    else fragSize spec info (info.sectorNum - 1 - n)

/-- A description of equal sectors, of which one may be cut into fragments. -/
structure FlashSpec.Consistent (spec : FlashSpec) (info : FlashInfo) : Prop where
  /-- The sectors fit into the table. -/
  sectors : info.sectorNum ≤ maxSectorNum
  /-- The size fits into 32 bits. -/
  small : mvFlashSizeGet spec info < 2 ^ 32
  /-- The flash is cut into equal sectors. -/
  equal : spec.secType = .regular →
    0 < info.sectorNum ∧ info.sectorNum ∣ mvFlashSizeGet spec info
  /-- The fragments of the list are one sector, and there are other ones. -/
  boot : spec.secType ≠ .regular → spec.pSecSizeFragList.map List.length = some spec.secFragNum ∧
    spec.secFragNum < info.sectorNum ∧
    mvFlashSizeGet spec info =
      (info.sectorNum - spec.secFragNum) * unitSize spec info + unitSize spec info

/-- The list of the fragments of a boot block. -/
theorem FlashSpec.Consistent.list (hcons : spec.Consistent info) (htype : spec.secType ≠ .regular) :
    ∃ pSecFrag, spec.pSecSizeFragList = some pSecFrag ∧
      ∀ i, fragSize spec info i = pSecFrag.getD i 0 * info.mvFlashNumOfDevGet := by
  obtain ⟨pSecFrag, hlist, -⟩ := Option.map_eq_some_iff.mp (hcons.boot htype).1
  refine ⟨pSecFrag, hlist, fun i => ?_⟩
  unfold fragSize
  rw [hlist, Option.getD_some]

/-- The sectors of a description are as large as the flash. -/
theorem FlashSpec.Consistent.start_sectorNum (hcons : spec.Consistent info) :
    start (secSize spec info) info.sectorNum = mvFlashSizeGet spec info := by
  cases htype : spec.secType with
  | regular =>
    obtain ⟨-, hdvd⟩ := hcons.equal htype
    have hconst : ∀ i < info.sectorNum, secSize spec info i =
        mvFlashSizeGet spec info / info.sectorNum := by
      intro i _
      unfold secSize unitSize
      rw [htype]
    rw [start_of_const hconst, Nat.mul_div_cancel' hdvd]
  | bottom =>
    obtain ⟨-, hfrag, hsize⟩ := hcons.boot (by rw [htype]; decide)
    have hunit : start (secSize spec info) spec.secFragNum = unitSize spec info := by
      unfold unitSize
      rw [htype]
      refine Finset.sum_congr rfl fun i hi => ?_
      unfold secSize
      rw [htype]
      exact if_pos (Finset.mem_range.mp hi)
    have hrest : start (fun i => secSize spec info (spec.secFragNum + i))
        (info.sectorNum - spec.secFragNum) =
        (info.sectorNum - spec.secFragNum) * unitSize spec info := by
      refine start_of_const fun i _ => ?_
      unfold secSize
      rw [htype]
      exact if_neg (by omega)
    have hsplit : info.sectorNum = spec.secFragNum + (info.sectorNum - spec.secFragNum) := by omega
    calc start (secSize spec info) info.sectorNum
        = start (secSize spec info) (spec.secFragNum + (info.sectorNum - spec.secFragNum)) :=
          congrArg _ hsplit
      _ = unitSize spec info + (info.sectorNum - spec.secFragNum) * unitSize spec info := by
          rw [start_add, hunit, hrest]
      _ = mvFlashSizeGet spec info := by
          rw [hsize, Nat.add_comm]
  | top =>
    obtain ⟨-, hfrag, hsize⟩ := hcons.boot (by rw [htype]; decide)
    have hrest : start (secSize spec info) (info.sectorNum - spec.secFragNum) =
        (info.sectorNum - spec.secFragNum) * unitSize spec info := by
      refine start_of_const fun i hi => ?_
      unfold secSize
      rw [htype]
      exact if_pos hi
    have hunit : start (fun i => secSize spec info (info.sectorNum - spec.secFragNum + i))
        spec.secFragNum = unitSize spec info := by
      unfold unitSize start
      rw [htype]
      dsimp only
      rw [← Finset.sum_range_reflect]
      refine Finset.sum_congr rfl fun i hi => ?_
      rw [Finset.mem_range] at hi
      unfold secSize
      rw [htype]
      dsimp only
      rw [if_neg (by omega)]
      congr 1
      omega
    have hsplit : info.sectorNum = info.sectorNum - spec.secFragNum + spec.secFragNum := by omega
    calc start (secSize spec info) info.sectorNum
        = start (secSize spec info) (info.sectorNum - spec.secFragNum + spec.secFragNum) :=
          congrArg _ hsplit
      _ = (info.sectorNum - spec.secFragNum) * unitSize spec info + unitSize spec info := by
          rw [start_add, hunit, hrest]
      _ = mvFlashSizeGet spec info := hsize.symm

/-! ### The table -/

/-- The flag that a sector gets. The ones of a boot block at the top are written to the first
sectors, so the last sectors keep what the memory has held, or get the flag of a later one. -/
def writtenFlag (lockBit : ℕ → Bool) (spec : FlashSpec) (info : FlashInfo) (s : ℕ) : Bool :=
  if spec.secType = .top ∧ info.sectorNum - spec.secFragNum ≤ s then
    if s < spec.secFragNum then
      protectAt lockBit spec info
        (start (secSize spec info) (info.sectorNum - spec.secFragNum + s))
    else (info.sector s).protect
  else protectAt lockBit spec info (start (secSize spec info) s)

/-- What the table holds. -/
structure TableOf (lockBit : ℕ → Bool) (spec : FlashSpec) (info table : FlashInfo) : Prop where
  sectorNum : table.sectorNum = info.sectorNum
  place : ∀ s < info.sectorNum,
    (table.sector s).place = (start (secSize spec info) s, secSize spec info s)
  protect : ∀ s < info.sectorNum, (table.sector s).protect = writtenFlag lockBit spec info s

theorem flashSecsInit_regular (htype : spec.secType = .regular) :
    ∃ table, flashSecsInit lockBit spec info = some table ∧ TableOf lockBit spec info table := by
  have hsize : ∀ s, 0 ≤ s → s < info.sectorNum →
      secSize spec info s = mvFlashSizeGet spec info / info.sectorNum := by
    intro s _ _
    unfold secSize unitSize
    rw [htype]
  have hrest := fun s => @restLoop_sector lockBit spec info info.sector 0 (secSize spec info) _ 0
    info.sectorNum (Nat.zero_le _) (Nat.le_refl _) hsize rfl s
  unfold flashSecsInit
  dsimp only
  rw [if_pos htype]
  refine ⟨_, rfl, ⟨rfl, fun s hs => ?_, fun s hs => ?_⟩⟩
  · rw [(hrest s).1, if_pos ⟨Nat.zero_le s, hs⟩]
  · unfold writtenFlag
    rw [(hrest s).2, if_pos ⟨Nat.zero_le s, hs⟩, htype, if_neg (fun h => by cases h.1)]

/-- What is left of the flash when the fragments are taken off. -/
theorem FlashSpec.Consistent.restSecSize (hcons : spec.Consistent info)
    (htype : spec.secType ≠ .regular) (hunit : unitSize spec info =
      ∑ i ∈ Finset.range spec.secFragNum, fragSize spec info i) :
    (mvFlashSizeGet spec info - ∑ i ∈ Finset.range spec.secFragNum, fragSize spec info i) /
      (info.sectorNum - spec.secFragNum) = unitSize spec info := by
  obtain ⟨-, hfrag, hsize⟩ := hcons.boot htype
  rw [← hunit, hsize, Nat.add_sub_cancel_right]
  exact Nat.mul_div_cancel_left _ (by omega)

theorem flashSecsInit_bottom (hcons : spec.Consistent info) (htype : spec.secType = .bottom) :
    ∃ table, flashSecsInit lockBit spec info = some table ∧ TableOf lockBit spec info table := by
  have hne : spec.secType ≠ .regular := by
    rw [htype]
    decide
  have hnotTop : spec.secType ≠ .top := by
    rw [htype]
    decide
  obtain ⟨pSecFrag, hlist, hfragSize⟩ := hcons.list hne
  obtain ⟨-, hfrag, -⟩ := hcons.boot hne
  have hunit : unitSize spec info = ∑ i ∈ Finset.range spec.secFragNum, fragSize spec info i := by
    unfold unitSize
    rw [htype]
  have hrestSize := hcons.restSecSize hne hunit
  have hsizes : ∀ j, 0 ≤ j → j < 0 + spec.secFragNum →
      fragSize spec info j = secSize spec info (0 + j) := by
    intro j _ hlt
    rw [Nat.zero_add] at hlt ⊢
    unfold secSize
    rw [htype]
    exact (if_pos hlt).symm
  have hunits : ∀ s, spec.secFragNum ≤ s → s < info.sectorNum →
      secSize spec info s = unitSize spec info := by
    intro s hle _
    unfold secSize
    rw [htype]
    exact if_neg (Nat.not_lt.mpr hle)
  have hbase := @secLoop_base lockBit spec info info.sector 0 spec.secFragNum 0 _ _ hsizes
  have hplace := @secLoop_place lockBit spec info info.sector 0 spec.secFragNum 0 _ _ hsizes
  have hprotect := @secLoop_protect lockBit spec info info.sector 0 spec.secFragNum 0 _ _ hsizes
    (by omega)
  simp only [Nat.zero_add, start_zero, Nat.add_zero] at hbase hplace hprotect
  unfold flashSecsInit
  dsimp only
  rw [if_neg hne, hlist]
  dsimp only
  simp only [← hfragSize]
  rw [if_neg hnotTop, hrestSize]
  generalize secLoop lockBit spec info 0 (fun i => fragSize spec info i) spec.secFragNum 0 0
    info.sector = loop at hbase hplace hprotect ⊢
  obtain ⟨base, sector⟩ := loop
  have hrest := fun s => @restLoop_sector lockBit spec info sector base (secSize spec info) _
    spec.secFragNum info.sectorNum (Nat.le_of_lt hfrag) (Nat.le_refl _) hunits hbase s
  refine ⟨_, rfl, ⟨rfl, fun s hs => ?_, fun s hs => ?_⟩⟩
  · rw [(hrest s).1]
    by_cases hlt : s < spec.secFragNum
    · rw [if_neg (by omega), hplace s, if_pos ⟨Nat.zero_le s, hlt⟩]
    · rw [if_pos (by omega)]
  · unfold writtenFlag
    rw [if_neg (fun h => hnotTop h.1), (hrest s).2]
    by_cases hlt : s < spec.secFragNum
    · rw [if_neg (by omega), hprotect s, if_pos ⟨Nat.zero_le s, hlt⟩]
    · rw [if_pos (by omega)]

theorem flashSecsInit_top (hcons : spec.Consistent info) (htype : spec.secType = .top) :
    ∃ table, flashSecsInit lockBit spec info = some table ∧ TableOf lockBit spec info table := by
  have hne : spec.secType ≠ .regular := by
    rw [htype]
    decide
  obtain ⟨pSecFrag, hlist, hfragSize⟩ := hcons.list hne
  obtain ⟨-, hfrag, hsize⟩ := hcons.boot hne
  have hunit : unitSize spec info = ∑ i ∈ Finset.range spec.secFragNum, fragSize spec info i := by
    unfold unitSize
    rw [htype]
  have hrestSize := hcons.restSecSize hne hunit
  have hunits : ∀ s, 0 ≤ s → s < info.sectorNum - spec.secFragNum →
      secSize spec info s = unitSize spec info := by
    intro s _ hlt
    unfold secSize
    rw [htype]
    exact if_pos hlt
  have hsizes : ∀ j, 0 ≤ j → j < 0 + spec.secFragNum →
      fragSize spec info (spec.secFragNum - 1 - j) =
        secSize spec info (info.sectorNum - spec.secFragNum + j) := by
    intro j _ hlt
    unfold secSize
    rw [htype]
    dsimp only
    rw [if_neg (by omega)]
    congr 1
    omega
  have htopBase : mvFlashSizeGet spec info - unitSize spec info =
      start (secSize spec info) (info.sectorNum - spec.secFragNum) := by
    rw [hsize, Nat.add_sub_cancel_right]
    exact (start_of_const fun i hi => hunits i (Nat.zero_le i) hi).symm
  have hplace := @secLoop_place lockBit spec info info.sector _ spec.secFragNum 0 _ _ hsizes
  have hprotect := @secLoop_protect lockBit spec info info.sector _ spec.secFragNum 0 _ _ hsizes
    (by omega)
  simp only [Nat.zero_add, Nat.add_zero, ← htopBase] at hplace hprotect
  unfold flashSecsInit
  dsimp only
  rw [if_neg hne, hlist]
  dsimp only
  simp only [← hfragSize]
  rw [if_pos htype, hrestSize]
  generalize secLoop lockBit spec info (info.sectorNum - spec.secFragNum)
    (fun i => fragSize spec info (spec.secFragNum - 1 - i)) spec.secFragNum 0
    (mvFlashSizeGet spec info - unitSize spec info) info.sector = loop at hplace hprotect ⊢
  obtain ⟨base, sector⟩ := loop
  have hrest := fun s => @restLoop_sector lockBit spec info sector 0 (secSize spec info) _ 0
    (info.sectorNum - spec.secFragNum) (Nat.zero_le _) (by omega) hunits rfl s
  refine ⟨_, rfl, ⟨rfl, fun s hs => ?_, fun s hs => ?_⟩⟩
  · rw [(hrest s).1]
    by_cases hlt : s < info.sectorNum - spec.secFragNum
    · rw [if_pos ⟨Nat.zero_le s, hlt⟩]
    · rw [if_neg (fun h => hlt h.2), hplace s, if_pos (by omega)]
  · unfold writtenFlag
    rw [(hrest s).2]
    by_cases hlt : s < info.sectorNum - spec.secFragNum
    · rw [if_pos ⟨Nat.zero_le s, hlt⟩, if_neg (fun h => by omega)]
    · rw [if_neg (fun h => hlt h.2), if_pos ⟨htype, Nat.le_of_not_lt hlt⟩, hprotect s]
      by_cases hfirst : s < spec.secFragNum
      · rw [if_pos ⟨Nat.zero_le s, hfirst⟩, if_pos hfirst]
      · rw [if_neg (fun h => hfirst h.2), if_neg hfirst]

/-- The table of a description that is consistent. -/
theorem flashSecsInit_tableOf (lockBit : ℕ → Bool) (hcons : spec.Consistent info) :
    ∃ table, flashSecsInit lockBit spec info = some table ∧ TableOf lockBit spec info table := by
  cases htype : spec.secType with
  | regular => exact flashSecsInit_regular htype
  | bottom => exact flashSecsInit_bottom hcons htype
  | top => exact flashSecsInit_top hcons htype

/-! ### Sectors of offsets -/

/-- The sectors of the table are the segments of the description. -/
theorem TableOf.inSector_iff (htable : TableOf lockBit spec info table) {offset n : ℕ} :
    table.InSector offset n ↔ n < info.sectorNum ∧ In (secSize spec info) offset n := by
  unfold FlashInfo.InSector In
  rw [htable.sectorNum]
  refine and_congr_right fun hn => ?_
  obtain ⟨hbase, hsize⟩ := Prod.mk.inj (htable.place n hn)
  rw [hbase, hsize]

/-- The sector of an offset in the flash is found, and it is the only one. -/
theorem TableOf.found (htable : TableOf lockBit spec info table) (hcons : spec.Consistent info)
    {offset : ℕ} (hoffset : offset < mvFlashSizeGet spec info) :
    table.InSector offset (table.mvFlashInWhichSec offset) ∧
      ∀ n, table.InSector offset n → n = table.mvFlashInWhichSec offset := by
  rw [← hcons.start_sectorNum] at hoffset
  obtain ⟨n, hn, hin⟩ := exists_in hoffset
  have hsec := htable.inSector_iff.mpr ⟨hn, hin⟩
  have hunique : ∀ m, table.InSector offset m → m = n := fun m hm =>
    (htable.inSector_iff.mp hm).2.unique hin
  rw [mvFlashInWhichSec_of_unique hsec hunique]
  exact ⟨hsec, hunique⟩

/-- No sector is found for an offset behind the flash. -/
theorem TableOf.outside (htable : TableOf lockBit spec info table) (hcons : spec.Consistent info)
    {offset : ℕ} (hoffset : mvFlashSizeGet spec info ≤ offset) :
    table.mvFlashInWhichSec offset = flashBadSecNum := by
  have hnone : (List.range table.sectorNum).find? (fun secNum => decide
      ((table.sector secNum).baseOffs ≤ offset ∧
        offset < (table.sector secNum).baseOffs + (table.sector secNum).size)) = none := by
    rw [List.find?_eq_none]
    intro n hmem htest
    rw [decide_eq_true_eq] at htest
    obtain ⟨hn, hin⟩ := htable.inSector_iff.mp ⟨List.mem_range.mp hmem, htest⟩
    have hlt := hin.lt_start hn
    rw [hcons.start_sectorNum] at hlt
    omega
  unfold FlashInfo.mvFlashInWhichSec
  rw [hnone]
  rfl

/-! ### Tables that are right -/

/-- The sectors of a table lie one behind the other from the start of the flash to its end, the
sector of an offset is found, and each flag is the one of its sector. -/
structure TableRight (lockBit : ℕ → Bool) (spec : FlashSpec) (info table : FlashInfo) : Prop where
  sectorNum : table.sectorNum = info.sectorNum
  first : (table.sector 0).baseOffs = 0
  next : ∀ n, n + 1 < info.sectorNum →
    (table.sector (n + 1)).baseOffs = (table.sector n).baseOffs + (table.sector n).size
  last : ∀ n, n + 1 = info.sectorNum →
    (table.sector n).baseOffs + (table.sector n).size = mvFlashSizeGet spec info
  found : ∀ offset, offset < mvFlashSizeGet spec info →
    table.InSector offset (table.mvFlashInWhichSec offset) ∧
      ∀ n, table.InSector offset n → n = table.mvFlashInWhichSec offset
  outside : ∀ offset, mvFlashSizeGet spec info ≤ offset →
    table.mvFlashInWhichSec offset = flashBadSecNum
  locks : ∀ n, n < info.sectorNum →
    (table.sector n).protect = protectAt lockBit spec info (table.sector n).baseOffs

/-- For a boot block at the top, the flag of a later fragment, or what the memory has held, happens
to be the flag of each fragment. -/
def TopFlagsMatch (lockBit : ℕ → Bool) (spec : FlashSpec) (info : FlashInfo) : Prop :=
  spec.secType = .top → ∀ s, info.sectorNum - spec.secFragNum ≤ s → s < info.sectorNum →
    (if s < spec.secFragNum then
      protectAt lockBit spec info
        (start (secSize spec info) (info.sectorNum - spec.secFragNum + s))
    else (info.sector s).protect) = protectAt lockBit spec info (start (secSize spec info) s)

/-- The flags that are written are the ones of the sectors when the flags at the top match. -/
theorem writtenFlag_iff :
    (∀ s, s < info.sectorNum →
      writtenFlag lockBit spec info s = protectAt lockBit spec info (start (secSize spec info) s)) ↔
      TopFlagsMatch lockBit spec info := by
  unfold TopFlagsMatch writtenFlag
  constructor
  · intro hall htype s hle hs
    have hflag := hall s hs
    rwa [if_pos ⟨htype, hle⟩] at hflag
  · intro htop s hs
    by_cases hblock : spec.secType = .top ∧ info.sectorNum - spec.secFragNum ≤ s
    · rw [if_pos hblock]
      exact htop hblock.1 s hblock.2 hs
    · rw [if_neg hblock]

/-- There is a sector. -/
theorem FlashSpec.Consistent.sectorNum_pos (hcons : spec.Consistent info) : 0 < info.sectorNum := by
  by_cases htype : spec.secType = .regular
  · exact (hcons.equal htype).1
  · have hfrag := (hcons.boot htype).2.1
    omega

/-- A table is right when the flags at the top match. -/
theorem TableOf.right_iff (htable : TableOf lockBit spec info table)
    (hcons : spec.Consistent info) :
    TableRight lockBit spec info table ↔ TopFlagsMatch lockBit spec info := by
  have hbase : ∀ n, n < info.sectorNum →
      (table.sector n).baseOffs = start (secSize spec info) n := fun n hn =>
    congrArg Prod.fst (htable.place n hn)
  have hsize : ∀ n, n < info.sectorNum → (table.sector n).size = secSize spec info n := fun n hn =>
    congrArg Prod.snd (htable.place n hn)
  rw [← writtenFlag_iff]
  constructor
  · intro hright s hs
    rw [← htable.protect s hs, hright.locks s hs, hbase s hs]
  · intro hflags
    constructor
    · exact htable.sectorNum
    · exact hbase 0 hcons.sectorNum_pos
    · intro n hn
      rw [hbase (n + 1) hn, hbase n (by omega), hsize n (by omega), start_succ]
    · intro n hn
      rw [hbase n (by omega), hsize n (by omega), ← start_succ, hn, hcons.start_sectorNum]
    · exact fun offset hoffset => htable.found hcons hoffset
    · exact fun offset hoffset => htable.outside hcons hoffset
    · intro n hn
      rw [htable.protect n hn, hflags n hn, hbase n hn]

/-- `flashSecsInit` builds the right table when there is no boot block at the top, or its flags
happen to match, and for no other description. -/
theorem flashSecsInit_right_iff (lockBit : ℕ → Bool) (hcons : spec.Consistent info) :
    (∃ table, flashSecsInit lockBit spec info = some table ∧ TableRight lockBit spec info table) ↔
      TopFlagsMatch lockBit spec info := by
  obtain ⟨table, hinit, htable⟩ := flashSecsInit_tableOf lockBit hcons
  rw [← htable.right_iff hcons]
  constructor
  · rintro ⟨table', hinit', hright⟩
    rw [hinit] at hinit'
    rw [Option.some.inj hinit']
    exact hright
  · exact fun hright => ⟨table, hinit, hright⟩

/-- A device of 4 MB with a boot block of eight fragments at the bottom. -/
def bottomSpec : FlashSpec := ⟨0x400000, .bottom, 8, some (List.replicate 8 0x2000), false⟩

/-- A device of 512 KB with a boot block of eight fragments at the top. -/
def topSpec : FlashSpec := ⟨0x80000, .top, 8, some (List.replicate 8 0x2000), true⟩

/-- One device whose table is empty. -/
def blankInfo (sectorNum : ℕ) : FlashInfo where
  flashVen := .intel
  sectorNum := sectorNum
  hwBuffLen := 32
  sector _ := ⟨0, 0, false⟩
  busWidth := 1
  devWidth := 1

theorem bottomSpec_consistent : bottomSpec.Consistent (blankInfo 71) where
  sectors := by decide
  small := by decide
  equal htype := by cases htype
  boot _ := by decide

theorem topSpec_consistent : topSpec.Consistent (blankInfo 15) where
  sectors := by decide
  small := by decide
  equal htype := by cases htype
  boot _ := by decide

/-- The table of the device with the boot block at the bottom is right. -/
theorem bottomSpec_right : ∃ table, flashSecsInit (fun _ => true) bottomSpec (blankInfo 71) =
    some table ∧ TableRight (fun _ => true) bottomSpec (blankInfo 71) table :=
  (flashSecsInit_right_iff (fun _ => true) bottomSpec_consistent).mpr fun htype => by cases htype

/-- The last fragment of the boot block at the top is locked, and its flag does not say so. -/
theorem topSpec_not_right :
    ¬ ∀ (lockBit : ℕ → Bool) (spec : FlashSpec) (info : FlashInfo), spec.Consistent info →
      ∃ table, flashSecsInit lockBit spec info = some table ∧
        TableRight lockBit spec info table := by
  intro hall
  obtain ⟨table, hinit, hright⟩ := hall (fun _ => true) topSpec (blankInfo 15) topSpec_consistent
  have hflag : (flashSecsInit (fun _ => true) topSpec (blankInfo 15)).map
      (fun table => (table.sector 14).protect) = some false := by
    decide
  rw [hinit] at hflag
  have hfalse : (table.sector 14).protect = false := Option.some.inj hflag
  have hlock := hright.locks 14 (by decide)
  rw [hfalse] at hlock
  cases hlock

end Mv88fxx81.Flash
