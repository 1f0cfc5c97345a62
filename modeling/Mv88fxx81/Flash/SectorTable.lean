import Mathlib.Algebra.BigOperators.Group.List.Basic
import Mv88fxx81.Flash.NorFlash
import Mv88fxx81.Lib.Segments

/-!
# The table of sectors

The table of the sectors is built from the description of a device. A device with a
boot block has one sector cut into fragments, at the bottom or at the top. Several
devices in parallel make every sector larger. The offsets and the sizes are written
where they belong. The flags of the fragments at the top are written to the first
sectors, which overwrite them afterwards.
-/

namespace Mv88fxx81.Flash

open Segments

/-- `FLASH_SEC_TYPE`. -/
inductive FlashSecType
  | regular
  | bottom
  | top
  deriving DecidableEq, Repr

/-- `FLASH_STRUCT`, as far as the table of the sectors is built from it. -/
structure FlashSpec where
  size : ℕ
  secType : FlashSecType
  secFragNum : ℕ
  pSecSizeFragList : Option (List ℕ)
  hwProtect : Bool
  deriving DecidableEq, Repr

/-- `MAX_SECTOR_NUM`. -/
def maxSectorNum : ℕ := 128

section

variable (lockBit : ℕ → Bool) (spec : FlashSpec) (info : FlashInfo)

/-- `mvFlashSizeGet`. -/
def mvFlashSizeGet : ℕ := spec.size * info.mvFlashNumOfDevGet

/-- `flashSecLockGet`. The device tells the lock bit of the sector at an offset. The error codes for
an illegal sector and for another vendor are not zero. -/
def flashSecLockGet (secNum : ℕ) : Bool :=
  if secNum ≥ info.sectorNum then true
  else
    match info.flashVen with
    | .intel => lockBit (info.mvFlashSecOffsGet secNum)
    | .amd | .stm | .sst => true

/-- The flag of a sector, from the hardware where it protects. -/
def secProtect (secNum : ℕ) : Bool :=
  if spec.hwProtect = false then false else flashSecLockGet lockBit info secNum

/-- One turn of the loops of `flashSecsInit`. The sector `first + i` gets its base and its size, and
its flag is written to sector `i`. -/
def initSector (first fragSize i base : ℕ) (sector : ℕ → FlashSector) : ℕ → FlashSector :=
  let sector := Function.update sector (first + i)
    { sector (first + i) with baseOffs := base, size := fragSize }
  Function.update sector i
    { sector i with
      protect := secProtect lockBit spec { info with sector := sector } (first + i) }

/-- The loops of `flashSecsInit`, from `i` on, with the base that they end with. -/
def secLoop (first : ℕ) (fragSize : ℕ → ℕ) :
    ℕ → ℕ → ℕ → (ℕ → FlashSector) → ℕ × (ℕ → FlashSector)
  | 0, _, base, sector => (base, sector)
  | count + 1, i, base, sector =>
    secLoop first fragSize count (i + 1) (base + fragSize i)
      (initSector lockBit spec info first (fragSize i) i base sector)

/-- The loop of `flashSecsInit` over the sectors of one size, which ends the call. -/
def restLoop (restSecSize firstSec lastSec base : ℕ) (sector : ℕ → FlashSector) : FlashInfo :=
  { info with
    sector := (secLoop lockBit spec info 0 (fun _ => restSecSize) (lastSec - firstSec) firstSec
      base sector).2 }

/-- `flashSecsInit`. Without a list of the fragments there is no table. -/
def flashSecsInit : Option FlashInfo :=
  let numOfSecs := info.sectorNum
  let size := mvFlashSizeGet spec info
  if spec.secType = .regular then
    some (restLoop lockBit spec info (size / numOfSecs) 0 numOfSecs 0 info.sector)
  else
    match spec.pSecSizeFragList with
    | none => none
    | some pSecFrag =>
      let numSecFrag := spec.secFragNum
      let flashDevNum := info.mvFlashNumOfDevGet
      let temp := ∑ i ∈ Finset.range numSecFrag, pSecFrag.getD i 0 * flashDevNum
      let restSecSize := (size - temp) / (numOfSecs - numSecFrag)
      if spec.secType = .top then
        let temp := numOfSecs - numSecFrag
        let (_, sector) := secLoop lockBit spec info temp
          (fun i => pSecFrag.getD (numSecFrag - 1 - i) 0 * flashDevNum) numSecFrag 0
          (size - restSecSize) info.sector
        some (restLoop lockBit spec info restSecSize 0 (numOfSecs - numSecFrag) 0 sector)
      else
        let (base, sector) := secLoop lockBit spec info 0
          (fun i => pSecFrag.getD i 0 * flashDevNum) numSecFrag 0 0 info.sector
        some (restLoop lockBit spec info restSecSize numSecFrag numOfSecs base sector)

end

/-! ### The loops -/

section

variable {lockBit : ℕ → Bool} {spec : FlashSpec} {info : FlashInfo}
  {sector : ℕ → FlashSector} {first count i base : ℕ}

/-- The flag of a sector that begins at an offset. -/
def protectAt (lockBit : ℕ → Bool) (spec : FlashSpec) (info : FlashInfo) (offset : ℕ) : Bool :=
  if spec.hwProtect = false then false
  else
    match info.flashVen with
    | .intel => lockBit offset
    | .amd | .stm | .sst => true

theorem secProtect_eq {secNum : ℕ} (hsec : secNum < info.sectorNum) :
    secProtect lockBit spec info secNum =
      protectAt lockBit spec info (info.sector secNum).baseOffs := by
  have hle : ¬ secNum > info.sectorNum := by omega
  unfold secProtect protectAt flashSecLockGet FlashInfo.mvFlashSecOffsGet
  rw [if_neg (Nat.not_le.mpr hsec), if_neg hle]

/-- Where a sector lies. -/
def FlashSector.place (x : FlashSector) : ℕ × ℕ := (x.baseOffs, x.size)

/-- The sector that a turn is about gets the base and the size. -/
theorem initSector_place {fragSize : ℕ} (s : ℕ) :
    (initSector lockBit spec info first fragSize i base sector s).place =
      if s = first + i then (base, fragSize) else (sector s).place := by
  unfold initSector FlashSector.place
  dsimp only
  by_cases hflag : s = i
  · subst hflag
    rw [Function.update_self]
    dsimp only
    by_cases hs : s = first + s
    · rw [← hs, Function.update_self, if_pos rfl]
    · rw [Function.update_of_ne hs, if_neg hs]
  · rw [Function.update_of_ne hflag]
    by_cases hs : s = first + i
    · subst hs
      rw [Function.update_self, if_pos rfl]
    · rw [Function.update_of_ne hs, if_neg hs]

/-- The flag of the sector that a turn is about is written to the sector with the number of the
turn. -/
theorem initSector_protect {fragSize : ℕ} (hfirst : first + i < info.sectorNum) (s : ℕ) :
    (initSector lockBit spec info first fragSize i base sector s).protect =
      if s = i then protectAt lockBit spec info base else (sector s).protect := by
  unfold initSector
  dsimp only
  by_cases hflag : s = i
  · subst hflag
    rw [Function.update_self, if_pos rfl]
    dsimp only
    rw [secProtect_eq (by exact hfirst)]
    dsimp only
    rw [Function.update_self]
    rfl
  · rw [Function.update_of_ne hflag, if_neg hflag]
    by_cases hs : s = first + i
    · subst hs
      rw [Function.update_self]
    · rw [Function.update_of_ne hs]

variable {fragSize size : ℕ → ℕ}

/-- The base that a loop ends with. -/
theorem secLoop_base (hsize : ∀ j, i ≤ j → j < i + count → fragSize j = size (first + j)) :
    (secLoop lockBit spec info first fragSize count i (start size (first + i)) sector).1 =
      start size (first + (i + count)) := by
  induction count generalizing i sector with
  | zero => rfl
  | succ count ih =>
    unfold secLoop
    rw [hsize i (Nat.le_refl i) (by omega), ← start_succ, Nat.add_assoc]
    rw [ih fun j hle hlt => hsize j (by omega) (by omega)]
    congr 1
    omega

/-- The sectors of a loop lie one behind the other. -/
theorem secLoop_place (hsize : ∀ j, i ≤ j → j < i + count → fragSize j = size (first + j)) (s : ℕ) :
    ((secLoop lockBit spec info first fragSize count i (start size (first + i)) sector).2 s).place =
      if first + i ≤ s ∧ s < first + (i + count) then (start size s, size s)
      else (sector s).place := by
  induction count generalizing i sector with
  | zero =>
    unfold secLoop
    rw [if_neg (by omega)]
  | succ count ih =>
    unfold secLoop
    rw [hsize i (Nat.le_refl i) (by omega), ← start_succ, Nat.add_assoc]
    rw [ih fun j hle hlt => hsize j (by omega) (by omega), initSector_place]
    by_cases hs : s = first + i
    · rw [if_neg (by omega), if_pos hs, if_pos (by omega), hs]
    · rw [if_neg hs]
      by_cases hlater : first + (i + 1) ≤ s ∧ s < first + (i + 1 + count)
      · rw [if_pos hlater, if_pos (by omega)]
      · rw [if_neg hlater, if_neg (by omega)]

/-- The flags that a loop writes. -/
theorem secLoop_protect (hsize : ∀ j, i ≤ j → j < i + count → fragSize j = size (first + j))
    (hfirst : first + (i + count) ≤ info.sectorNum) (s : ℕ) :
    ((secLoop lockBit spec info first fragSize count i (start size (first + i))
        sector).2 s).protect =
      if i ≤ s ∧ s < i + count then protectAt lockBit spec info (start size (first + s))
      else (sector s).protect := by
  induction count generalizing i sector with
  | zero =>
    unfold secLoop
    rw [if_neg (by omega)]
  | succ count ih =>
    unfold secLoop
    rw [hsize i (Nat.le_refl i) (by omega), ← start_succ, Nat.add_assoc]
    rw [ih (fun j hle hlt => hsize j (by omega) (by omega)) (by omega),
      initSector_protect (by omega)]
    by_cases hs : s = i
    · rw [if_neg (by omega), if_pos hs, if_pos (by omega), hs]
    · rw [if_neg hs]
      by_cases hlater : i + 1 ≤ s ∧ s < i + 1 + count
      · rw [if_pos hlater, if_pos (by omega)]
      · rw [if_neg hlater, if_neg (by omega)]

/-- The sectors of one size. -/
theorem restLoop_sector {restSecSize firstSec lastSec : ℕ} (hle : firstSec ≤ lastSec)
    (hlast : lastSec ≤ info.sectorNum)
    (hsize : ∀ s, firstSec ≤ s → s < lastSec → size s = restSecSize)
    (hbase : base = start size firstSec) (s : ℕ) :
    let rest := restLoop lockBit spec info restSecSize firstSec lastSec base sector
    (rest.sector s).place =
        (if firstSec ≤ s ∧ s < lastSec then (start size s, size s) else (sector s).place) ∧
      (rest.sector s).protect =
        if firstSec ≤ s ∧ s < lastSec then protectAt lockBit spec info (start size s)
        else (sector s).protect := by
  have hend : 0 + (firstSec + (lastSec - firstSec)) = lastSec := by omega
  have hend' : firstSec + (lastSec - firstSec) = lastSec := by omega
  have hconst : ∀ j, firstSec ≤ j → j < firstSec + (lastSec - firstSec) →
      restSecSize = size (0 + j) := by
    intro j hge hlt
    rw [Nat.zero_add]
    exact (hsize j hge (by omega)).symm
  have hplace := @secLoop_place lockBit spec info sector 0 (lastSec - firstSec) firstSec
    (fun _ => restSecSize) size hconst s
  have hprotect := @secLoop_protect lockBit spec info sector 0 (lastSec - firstSec) firstSec
    (fun _ => restSecSize) size hconst (by omega) s
  rw [Nat.zero_add, hend, ← hbase] at hplace
  rw [Nat.zero_add, hend', Nat.zero_add, ← hbase] at hprotect
  exact ⟨hplace, hprotect⟩

end

end Mv88fxx81.Flash
