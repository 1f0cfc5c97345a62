import Mv88fxx81.Dram.BankInfo

/-!
# Contents that are read without a fault

The bytes of a module decide whether its parameters can be computed. Where they can, the record of
each bank is a function of the content, and its size is the one the density byte names.
-/

namespace Mv88fxx81.Dram

open CheckedWords

/-- The content of a module whose type is known. -/
def readable (dimms : Fin 2 → Option Spd) (dimmNum : Fin 2) : Option (MemoryType × Spd) :=
  (dimms dimmNum).bind fun data => (memoryType? (data 2)).map fun memoryType => (memoryType, data)

/-- The bits of an address within a bank of a device. -/
def addressBits (data : Spd) : ℕ := (data 3).toNat + (data 4).toNat

/-- The parameters of a module can be computed: the shift for the density of its devices is by 0 to
31, the density fits a word, and neither the width of the devices nor the number of banks is 0. -/
structure SpdSafe (memoryType : MemoryType) (data : Spd) : Prop where
  shift : 20 ≤ addressBits data ∧ addressBits data < 52
  density : 2 ^ (addressBits data - 20) * (data 17).toNat * (data 13).toNat < 2 ^ 32
  width : (data 13).toNat ≠ 0
  banks : moduleBanks memoryType data ≠ 0

/-- The density of the devices of a module in Mbit. -/
def deviceDensity (data : Spd) : BitVec 32 :=
  (1 : BitVec 32) <<< (addressBits data - 20) * (data 17).setWidth 32 * (data 13).setWidth 32

/-- The number of the devices of a module. -/
def numberOfDevices (memoryType : MemoryType) (data : Spd) : BitVec 32 :=
  (data 6).setWidth 32 / (data 13).setWidth 32 * moduleBanks memoryType data

/-- The size of a bank of a module in megabytes. -/
def spdBankSize (memoryType : MemoryType) (data : Spd) : BitVec 32 :=
  bankSize memoryType ((data 31).setWidth 32)

/-- The record of a module. -/
def dimmRecord (memoryType : MemoryType) (data : Spd) : DimmInfo :=
  dimmInfoOf memoryType data (spdBankSize memoryType data * moduleBanks memoryType data)
    (deviceDensity data) (numberOfDevices memoryType data)

/-- The record of a bank. -/
def bankRecord (memoryType : MemoryType) (data : Spd) : DramBankInfo :=
  bankInfoOf (dimmRecord memoryType data) (spdBankSize memoryType data)
    (numberOfDevices memoryType data / moduleBanks memoryType data)

variable {memoryType : MemoryType} {data : Spd} {dimms : Fin 2 → Option Spd}

/-- The value of a byte as a word. -/
theorem byte_toNat (byte : BitVec 8) : (byte.setWidth 32).toNat = byte.toNat := by
  rw [BitVec.toNat_setWidth, Nat.mod_eq_of_lt (by have h := byte.isLt; omega)]

/-- A module has at most 256 banks. -/
theorem moduleBanks_lt : (moduleBanks memoryType data).toNat < 257 := by
  have hbyte := (data 5).isLt
  unfold moduleBanks
  split_ifs
  · have hand : ((data 5).setWidth 32 &&& 0x7).toNat ≤ 7 := by
      rw [BitVec.toNat_and]
      exact Nat.and_le_right
    rw [BitVec.toNat_add]
    change (((data 5).setWidth 32 &&& 0x7).toNat + 1) % 2 ^ 32 < 257
    omega
  · rw [byte_toNat]
    omega

/-- A density is zero or one of the table. -/
theorem densityFrom_mem {density : BitVec 32} {sizes : List (BitVec 32)} {bit : ℕ} :
    densityFrom density bit sizes = 0 ∨ densityFrom density bit sizes ∈ sizes := by
  induction sizes generalizing bit with
  | nil => exact Or.inl rfl
  | cons size sizes ih =>
    unfold densityFrom
    split_ifs
    · exact Or.inr List.mem_cons_self
    · exact ih.imp_right (List.mem_cons_of_mem _)

/-- The powers of two that the sizes of banks are. -/
def MemoryType.exponents : MemoryType → List ℕ
  | .sdram => [10, 3, 4, 5, 6, 7, 8, 9]
  | .ddr1 => [10, 11, 4, 5, 6, 7, 8, 9]
  | .ddr2 => [10, 11, 12, 13, 14, 7, 8, 9]

/-- The densities of the table are powers of two. -/
theorem densities_eq (type : MemoryType) :
    type.densities = type.exponents.map fun k => BitVec.ofNat 32 (2 ^ k) := by
  cases type <;> rfl

/-- The exponents of the densities. -/
theorem exponents_bounds (type : MemoryType) : ∀ k ∈ type.exponents, 3 ≤ k ∧ k ≤ 14 := by
  cases type <;> decide

/-- The sizes of banks are powers of two from 8 MB to 16 GB. -/
theorem spdBankSize_cases : spdBankSize memoryType data = 0 ∨
    ∃ k, 3 ≤ k ∧ k ≤ 14 ∧ (spdBankSize memoryType data).toNat = 2 ^ k := by
  refine densityFrom_mem.imp_right fun hmem => ?_
  rw [densities_eq] at hmem
  obtain ⟨k, hk, hsize⟩ := List.mem_map.mp hmem
  obtain ⟨hlow, hhigh⟩ := exponents_bounds memoryType k hk
  refine ⟨k, hlow, hhigh, ?_⟩
  have hlt : 2 ^ k < 2 ^ 32 := Nat.pow_lt_pow_right (by decide) (by omega)
  unfold spdBankSize bankSize
  rw [densities_eq, ← hsize, BitVec.toNat_ofNat, Nat.mod_eq_of_lt hlt]

/-- A bank has at most 16 GB. -/
theorem spdBankSize_le : (spdBankSize memoryType data).toNat ≤ 16384 := by
  rcases @spdBankSize_cases memoryType data with hzero | ⟨k, -, hle, hsize⟩
  · rw [hzero]
    decide
  · rw [hsize]
    exact Nat.pow_le_pow_right (by decide) hle

/-- The size of a module fits a word. -/
theorem dimmSize_fits :
    (spdBankSize memoryType data).toNat * (moduleBanks memoryType data).toNat < 2 ^ 32 := by
  have hmodule := @moduleBanks_lt memoryType data
  calc _ ≤ 16384 * 256 := Nat.mul_le_mul spdBankSize_le (by omega)
    _ < 2 ^ 32 := by decide

/-- The number of devices fits a word. -/
theorem devices_fit : ((data 6).setWidth 32 / (data 13).setWidth 32 : BitVec 32).toNat *
    (moduleBanks memoryType data).toNat < 2 ^ 32 := by
  have hmodule := @moduleBanks_lt memoryType data
  have hdiv : ((data 6).setWidth 32 / (data 13).setWidth 32 : BitVec 32).toNat ≤ 256 := by
    have hbyte := (data 6).isLt
    rw [BitVec.toNat_udiv, byte_toNat]
    exact (Nat.div_le_self _ _).trans (by omega)
  calc _ ≤ 256 * 256 := Nat.mul_le_mul hdiv (by omega)
    _ < 2 ^ 32 := by decide

/-- The amount of the shift is negative for too few address bits, and then too large. -/
theorem shiftAmount_toNat (hbits : 20 ≤ addressBits data) :
    ((data 3).setWidth 32 + (data 4).setWidth 32 - 20 : BitVec 32).toNat =
      addressBits data - 20 := by
  have hrow := (data 3).isLt
  have hcol := (data 4).isLt
  unfold addressBits at hbits ⊢
  rw [BitVec.toNat_sub, BitVec.toNat_add, byte_toNat, byte_toNat]
  change (2 ^ 32 - 20 + ((data 3).toNat + (data 4).toNat) % 2 ^ 32) % 2 ^ 32 = _
  omega

/-- With few address bits the shift is too large. -/
theorem shiftAmount_large (hbits : addressBits data < 20) :
    ¬ ((data 3).setWidth 32 + (data 4).setWidth 32 - 20 : BitVec 32).toNat < 32 := by
  unfold addressBits at hbits
  rw [BitVec.toNat_sub, BitVec.toNat_add, byte_toNat, byte_toNat]
  change ¬ (2 ^ 32 - 20 + ((data 3).toNat + (data 4).toNat) % 2 ^ 32) % 2 ^ 32 < 32
  omega

/-! ### Reading a bank -/

/-- A module that cannot be read. -/
theorem dimmSpdGet_none : dimmSpdGet none = .ok (.error .fail) := rfl

/-- A module of an unknown type. -/
theorem dimmSpdGet_unknown (htype : memoryType? (data 2) = none) :
    dimmSpdGet (some data) = .ok (.error .error) := by
  unfold dimmSpdGet
  dsimp only
  rw [htype]
  rfl

/-- The content of a module of a known type is read just when its parameters can be computed. -/
theorem dimmSpdGet_known (htype : memoryType? (data 2) = some memoryType) {result} :
    dimmSpdGet (some data) = .ok result ↔
      ((20 ≤ addressBits data ∧ addressBits data < 52) ∧
        2 ^ (addressBits data - 20) * (data 17).toNat * (data 13).toNat < 2 ^ 32 ∧
        (data 13).toNat ≠ 0) ∧ result = .ok (dimmRecord memoryType data) := by
  unfold dimmSpdGet
  dsimp only
  rw [htype]
  dsimp only
  constructor
  · intro hget
    obtain ⟨density, hdensity, hget⟩ := bind_eq_ok.mp hget
    obtain ⟨banksDensity, hbanks, hget⟩ := bind_eq_ok.mp hget
    obtain ⟨device, hdevice, hget⟩ := bind_eq_ok.mp hget
    obtain ⟨devicesOfBank, hdevices, hget⟩ := bind_eq_ok.mp hget
    obtain ⟨devices, hnumber, hget⟩ := bind_eq_ok.mp hget
    obtain ⟨size, hsize, hget⟩ := bind_eq_ok.mp hget
    obtain ⟨⟨hamount, hfits⟩, rfl⟩ := shiftLeft_eq_ok.mp hdensity
    obtain ⟨hmul, rfl⟩ := mul_eq_ok.mp hbanks
    obtain ⟨hmul', rfl⟩ := mul_eq_ok.mp hdevice
    obtain ⟨hwidth, rfl⟩ := div_eq_ok.mp hdevices
    obtain ⟨-, rfl⟩ := mul_eq_ok.mp hnumber
    obtain ⟨-, rfl⟩ := mul_eq_ok.mp hsize
    have hbits : 20 ≤ addressBits data := by
      by_contra hlt
      exact shiftAmount_large (Nat.lt_of_not_le hlt) hamount
    rw [shiftAmount_toNat hbits] at hamount hfits hmul hmul'
    rw [toNat_mul_of_fits hmul, toNat_shiftLeft_of_fits hfits, byte_toNat, byte_toNat] at hmul'
    refine ⟨⟨⟨hbits, by omega⟩, ?_, fun hzero => hwidth ?_⟩, ?_⟩
    · rw [← Nat.one_mul (2 ^ (addressBits data - 20))]
      exact hmul'
    · exact BitVec.eq_of_toNat_eq ((byte_toNat _).trans hzero)
    · rw [← Except.ok.inj hget, shiftAmount_toNat hbits]
      rfl
  · rintro ⟨⟨⟨hbits, hlt⟩, hdensity, hwidth⟩, rfl⟩
    have hpos : 0 < (data 13).toNat := Nat.pos_of_ne_zero hwidth
    have hamount := shiftAmount_toNat hbits
    have hshift : (1 : BitVec 32).toNat * 2 ^ (addressBits data - 20) < 2 ^ 32 := by
      change 1 * 2 ^ (addressBits data - 20) < 2 ^ 32
      rw [Nat.one_mul]
      exact Nat.pow_lt_pow_right (by decide) (by omega)
    have hone : ((1 : BitVec 32) <<< (addressBits data - 20)).toNat =
        2 ^ (addressBits data - 20) :=
      (toNat_shiftLeft_of_fits hshift).trans (Nat.one_mul _)
    have hbanks : ((1 : BitVec 32) <<< (addressBits data - 20)).toNat *
        ((data 17).setWidth 32).toNat < 2 ^ 32 := by
      rw [hone, byte_toNat]
      exact Nat.lt_of_le_of_lt (Nat.le_mul_of_pos_right _ hpos) hdensity
    have hdevice : ((1 : BitVec 32) <<< (addressBits data - 20) * (data 17).setWidth 32).toNat *
        ((data 13).setWidth 32).toNat < 2 ^ 32 := by
      rw [toNat_mul_of_fits hbanks, hone, byte_toNat, byte_toNat]
      exact hdensity
    have hne : (data 13).setWidth 32 ≠ (0 : BitVec 32) := by
      intro hzero
      have hzero' := congrArg BitVec.toNat hzero
      rw [byte_toNat] at hzero'
      exact hwidth hzero'
    refine bind_eq_ok.mpr ⟨_, shiftLeft_eq_ok.mpr ⟨⟨by omega, ?_⟩, rfl⟩, ?_⟩
    · rw [hamount]
      exact hshift
    · rw [hamount]
      exact bind_eq_ok.mpr ⟨_, mul_eq_ok.mpr ⟨hbanks, rfl⟩,
        bind_eq_ok.mpr ⟨_, mul_eq_ok.mpr ⟨hdevice, rfl⟩,
        bind_eq_ok.mpr ⟨_, div_eq_ok.mpr ⟨hne, rfl⟩,
        bind_eq_ok.mpr ⟨_, mul_eq_ok.mpr ⟨devices_fit, rfl⟩,
        bind_eq_ok.mpr ⟨_, mul_eq_ok.mpr ⟨dimmSize_fits, rfl⟩, rfl⟩⟩⟩⟩⟩

/-- The size of a module is a multiple of that of a bank. -/
theorem dimmSize_div (hbanks : moduleBanks memoryType data ≠ 0) :
    spdBankSize memoryType data * moduleBanks memoryType data / moduleBanks memoryType data =
      spdBankSize memoryType data := by
  have hpos : 0 < (moduleBanks memoryType data).toNat :=
    Nat.pos_of_ne_zero fun h => hbanks (BitVec.eq_of_toNat_eq h)
  apply BitVec.eq_of_toNat_eq
  rw [BitVec.toNat_udiv, toNat_mul_of_fits dimmSize_fits, Nat.mul_div_cancel _ hpos]

/-- The bank information of a record. -/
theorem cpyDimm2BankInfo_dimmRecord {result : DramBankInfo} :
    cpyDimm2BankInfo (dimmRecord memoryType data) = .ok result ↔
      moduleBanks memoryType data ≠ 0 ∧ result = bankRecord memoryType data := by
  unfold cpyDimm2BankInfo
  constructor
  · intro hcopy
    obtain ⟨size, hsize, hcopy⟩ := bind_eq_ok.mp hcopy
    obtain ⟨devices, hdevices, hcopy⟩ := bind_eq_ok.mp hcopy
    obtain ⟨hbanks, rfl⟩ := div_eq_ok.mp hsize
    obtain ⟨-, rfl⟩ := div_eq_ok.mp hdevices
    refine ⟨hbanks, ?_⟩
    rw [← Except.ok.inj hcopy]
    exact congrArg (bankInfoOf (dimmRecord memoryType data) · _) (dimmSize_div hbanks)
  · rintro ⟨hbanks, rfl⟩
    refine bind_eq_ok.mpr ⟨_, div_eq_ok.mpr ⟨hbanks, rfl⟩,
      bind_eq_ok.mpr ⟨_, div_eq_ok.mpr ⟨hbanks, rfl⟩, ?_⟩⟩
    exact congrArg (fun size => Except.ok (bankInfoOf (dimmRecord memoryType data) size _))
      (dimmSize_div hbanks)

/-- A bank is there when its module can be read, and has a second bank if that is meant. -/
def bankOf (dimms : Fin 2 → Option Spd) (bankNum : Fin 4) : Option (MemoryType × Spd) :=
  match readable dimms (dimmOf bankNum) with
  | some (memoryType, data) =>
    if moduleBanks memoryType data = 1 ∧ (bankNum : ℕ) % 2 = 1 then none
    else some (memoryType, data)
  | none => none

/-- The record of a bank that is there. -/
def bankRecord? (dimms : Fin 2 → Option Spd) (bankNum : Fin 4) : Option DramBankInfo :=
  (bankOf dimms bankNum).map fun content => bankRecord content.1 content.2

/-- The content of a module can be read, if at all, without a fault. -/
def ModuleSafe (dimms : Fin 2 → Option Spd) (dimmNum : Fin 2) : Prop :=
  ∀ memoryType data, readable dimms dimmNum = some (memoryType, data) → SpdSafe memoryType data

/-- The parameters of a bank are read just when those of its module can be computed. -/
theorem mvDramBankInfoGet_eq_ok {bankNum : Fin 4} {result : Option DramBankInfo} :
    mvDramBankInfoGet dimms bankNum = .ok result ↔
      ModuleSafe dimms (dimmOf bankNum) ∧ result = bankRecord? dimms bankNum := by
  unfold mvDramBankInfoGet bankRecord? bankOf ModuleSafe readable
  generalize dimms (dimmOf bankNum) = content
  cases content with
  | none =>
    rw [dimmSpdGet_none]
    constructor
    · intro h
      exact ⟨fun _ _ h => (by cases h), (Except.ok.inj h).symm⟩
    · rintro ⟨-, rfl⟩
      rfl
  | some data =>
    cases htype : memoryType? (data 2) with
    | none =>
      rw [dimmSpdGet_unknown htype]
      simp only [Option.bind_some, htype, Option.map_none]
      constructor
      · intro h
        exact ⟨fun _ _ h => (by cases h), (Except.ok.inj h).symm⟩
      · rintro ⟨-, rfl⟩
        rfl
    | some memoryType =>
      simp only [Option.bind_some, htype, Option.map_some, Option.some.injEq, Prod.mk.injEq]
      constructor
      · intro hget
        obtain ⟨dimm, hdimm, hget⟩ := bind_eq_ok.mp hget
        obtain ⟨⟨hbits, hdensity, hwidth⟩, rfl⟩ := (dimmSpdGet_known htype).mp hdimm
        dsimp only at hget
        by_cases hodd : moduleBanks memoryType data = 1 ∧ (bankNum : ℕ) % 2 = 1
        · have hone : moduleBanks memoryType data ≠ 0 := by rw [hodd.1]; decide
          have hodd' : (dimmRecord memoryType data).numOfModuleBanks = 1 ∧
              (bankNum : ℕ) % 2 = 1 := hodd
          rw [if_pos hodd'] at hget
          rw [if_pos hodd]
          refine ⟨?_, (Except.ok.inj hget).symm⟩
          rintro _ _ ⟨rfl, rfl⟩
          exact ⟨hbits, hdensity, hwidth, hone⟩
        · have hodd' : ¬ ((dimmRecord memoryType data).numOfModuleBanks = 1 ∧
              (bankNum : ℕ) % 2 = 1) := hodd
          rw [if_neg hodd'] at hget
          rw [if_neg hodd]
          obtain ⟨bank, hcopy, hget⟩ := bind_eq_ok.mp hget
          obtain ⟨hbanks, rfl⟩ := cpyDimm2BankInfo_dimmRecord.mp hcopy
          refine ⟨?_, (Except.ok.inj hget).symm⟩
          rintro _ _ ⟨rfl, rfl⟩
          exact ⟨hbits, hdensity, hwidth, hbanks⟩
      · rintro ⟨hsafe, rfl⟩
        obtain ⟨hbits, hdensity, hwidth, hbanks⟩ := hsafe memoryType data ⟨rfl, rfl⟩
        refine bind_eq_ok.mpr
          ⟨_, (dimmSpdGet_known htype).mpr ⟨⟨hbits, hdensity, hwidth⟩, rfl⟩, ?_⟩
        dsimp only
        by_cases hodd : moduleBanks memoryType data = 1 ∧ (bankNum : ℕ) % 2 = 1
        · have hodd' : (dimmRecord memoryType data).numOfModuleBanks = 1 ∧
              (bankNum : ℕ) % 2 = 1 := hodd
          rw [if_pos hodd', if_pos hodd]
          rfl
        · have hodd' : ¬ ((dimmRecord memoryType data).numOfModuleBanks = 1 ∧
              (bankNum : ℕ) % 2 = 1) := hodd
          rw [if_neg hodd', if_neg hodd]
          exact bind_eq_ok.mpr ⟨_, cpyDimm2BankInfo_dimmRecord.mpr ⟨hbanks, rfl⟩, rfl⟩

end Mv88fxx81.Dram
