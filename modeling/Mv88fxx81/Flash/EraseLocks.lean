import Mv88fxx81.Flash.RoundTrip
import Mv88fxx81.Lib.Run

/-!
# Erasing and locking sectors

A sector is erased unless it is protected or holds only ones, and the flash is erased sector by
sector. A device with lock bits of its own clears all of them at once, so the driver sets the
others again. As long as the calls succeed, the table of the driver and the lock bits agree, and
both are what the calls asked for last.
-/

namespace Mv88fxx81.Flash

open NorMemory TransitionSystem

/-- How the device answers to the commands that erase and lock, and what a command leaves behind
that fails. -/
structure FlashChip where
  erases : ℕ → Status
  spoiled : ℕ → (ℕ → BitVec 8) → ℕ → BitVec 8
  locks : ℕ → Bool → Status
  disturbed : ℕ → Bool → (ℕ → Bool) → ℕ → Bool

section Calls

variable (chip : FlashChip) (info : FlashInfo)

/-- The address is in a sector. -/
def FlashInfo.inSector (sec x : ℕ) : Bool :=
  (info.sector sec).baseOffs ≤ x && x < (info.sector sec).baseOffs + (info.sector sec).size

/-- `flashIsSecErased`, for a sector of the flash. -/
def flashIsSecErased (mem : ℕ → BitVec 8) (secNum : ℕ) : Bool :=
  (List.range ((info.mvFlashSecSizeGet secNum + 3) / 4)).all fun k =>
    mvFlash32Rd mem (info.mvFlashSecOffsGet secNum + 4 * k) == 0xffffffff

/-- `intelFlashSecErase` and `amdFlashSecErase`. -/
def venSecErase (mem : ℕ → BitVec 8) (sectorNum : ℕ) : Status × (ℕ → BitVec 8) :=
  (chip.erases sectorNum, fun x =>
    if info.inSector sectorNum x then
      if chip.erases sectorNum = .ok then 0xff else chip.spoiled sectorNum mem x
    else mem x)

/-- `mvFlashSecErase`. -/
def mvFlashSecErase (mem : ℕ → BitVec 8) (sectorNum : ℕ) : Status × (ℕ → BitVec 8) :=
  if sectorNum ≥ info.sectorNum then (.badParam, mem)
  else if info.mvFlashSecLockGet sectorNum then (.fail, mem)
  else if flashIsSecErased info mem sectorNum then (.ok, mem)
  else venSecErase chip info mem sectorNum

/-- The loop of `mvFlashErase` over some sectors. -/
def eraseLoop : List ℕ → (ℕ → BitVec 8) → Status × (ℕ → BitVec 8)
  | [], mem => (.ok, mem)
  | i :: is, mem =>
    let erase := mvFlashSecErase chip info mem i
    if erase.1 ≠ .ok then (.fail, erase.2) else eraseLoop is erase.2

/-- `mvFlashErase`. -/
def mvFlashErase (mem : ℕ → BitVec 8) : Status × (ℕ → BitVec 8) :=
  eraseLoop chip info (List.range info.sectorNum) mem

/-- The lock bits after a command for a sector. -/
def lockCommand (secNum : ℕ) (enable : Bool) (bits : ℕ → Bool) : ℕ → Bool :=
  if chip.locks secNum enable = .ok then
    if enable then Function.update bits secNum true else fun _ => false
  else chip.disturbed secNum enable bits

/-- The loop of `intelFlashSecLock` that sets the other lock bits again. -/
def relockLoop (secNum : ℕ) : List ℕ → (ℕ → Bool) → Status × (ℕ → Bool)
  | [], bits => (.ok, bits)
  | i :: is, bits =>
    if i ≠ secNum ∧ info.mvFlashSecLockGet i then
      if chip.locks i true ≠ .ok then (.fail, lockCommand chip i true bits)
      else relockLoop secNum is (lockCommand chip i true bits)
    else relockLoop secNum is bits

/-- `intelFlashSecLock`. -/
def intelFlashSecLock (secNum : ℕ) (enable : Bool) (bits : ℕ → Bool) : Status × (ℕ → Bool) :=
  match chip.locks secNum enable with
  | .timeout => (.timeout, lockCommand chip secNum enable bits)
  | .ok =>
    if enable then (.ok, lockCommand chip secNum enable bits)
    else
      relockLoop chip info secNum (List.range info.sectorNum) (lockCommand chip secNum enable bits)
  | _ => (.fail, lockCommand chip secNum enable bits)

/-- The flag of a sector in the table is set. -/
def FlashInfo.setProtect (secNum : ℕ) (enable : Bool) : FlashInfo :=
  { info with
    sector := Function.update info.sector secNum { info.sector secNum with protect := enable } }

/-- `mvFlashSecLockSet`. -/
def mvFlashSecLockSet (hwProtect : Bool) (bits : ℕ → Bool) (secNum : ℕ) (enable : Bool) :
    Status × FlashInfo × (ℕ → Bool) :=
  if secNum > info.sectorNum then (.badParam, info, bits)
  else if enable = info.mvFlashSecLockGet secNum then (.ok, info, bits)
  else if hwProtect = false then (.ok, info.setProtect secNum enable, bits)
  else
    match info.flashVen with
    | .intel =>
      let lock := intelFlashSecLock chip info secNum enable bits
      if lock.1 = .ok then (.ok, info.setProtect secNum enable, lock.2) else (lock.1, info, lock.2)
    | .amd | .stm | .sst => (.fail, info, bits)

end Calls

variable {chip : FlashChip} {info : FlashInfo} {mem mem' : ℕ → BitVec 8} {bits : ℕ → Bool}
  {sec secNum k x : ℕ} {enable : Bool}

/-! ### Erasing a sector -/

theorem inSector_iff : info.inSector sec x = true ↔
    (info.sector sec).baseOffs ≤ x ∧ x < (info.sector sec).baseOffs + (info.sector sec).size := by
  rw [FlashInfo.inSector, Bool.and_eq_true, decide_eq_true_eq, decide_eq_true_eq]

/-- All bytes of a sector are ones. -/
def SecErased (info : FlashInfo) (mem : ℕ → BitVec 8) (sec : ℕ) : Prop :=
  ∀ x, info.inSector sec x = true → mem x = 0xff

/-- A word that is read as ones consists of bytes that are ones. -/
theorem mvFlash32Rd_erased_iff (mem : ℕ → BitVec 8) (offset : ℕ) :
    mvFlash32Rd mem offset = 0xffffffff ↔ ∀ t < 4, mem (offset + t) = 0xff := by
  have hbytes : mvFlash32Rd mem offset = 0xffffffff ↔
      stored mem offset 4 = beBytes32 0xffffffff := by
    rw [← beBytes32_mvFlash32Rd]
    exact ⟨congrArg beBytes32, beBytes32_inj⟩
  have hones : beBytes32 0xffffffff = List.replicate 4 (0xff : BitVec 8) := by decide
  rw [hbytes, hones, stored, List.eq_replicate_iff]
  constructor
  · rintro ⟨-, hall⟩ t ht
    exact hall _ (List.mem_map.mpr ⟨t, List.mem_range.mpr ht, rfl⟩)
  · intro hall
    refine ⟨by rw [List.length_map, List.length_range], fun b hb => ?_⟩
    obtain ⟨t, ht, rfl⟩ := List.mem_map.mp hb
    exact hall t (List.mem_range.mp ht)

/-- The test sees a sector whose bytes are all ones. -/
theorem flashIsSecErased_iff (hvalid : info.Valid) (hsec : sec < info.sectorNum) :
    flashIsSecErased info mem sec = true ↔ SecErased info mem sec := by
  have hwords := (hvalid.words sec hsec).2
  have hsize : info.mvFlashSecSizeGet sec = (info.sector sec).size := if_neg (by omega)
  have hoffs : info.mvFlashSecOffsGet sec = (info.sector sec).baseOffs := if_neg (by omega)
  rw [flashIsSecErased, List.all_eq_true, hsize, hoffs]
  constructor
  · intro hall x hx
    obtain ⟨hle, hlt⟩ := inSector_iff.mp hx
    have hword := hall ((x - (info.sector sec).baseOffs) / 4) (List.mem_range.mpr (by omega))
    rw [beq_iff_eq, mvFlash32Rd_erased_iff] at hword
    have hbyte := hword ((x - (info.sector sec).baseOffs) % 4) (Nat.mod_lt _ (by decide))
    rwa [show (info.sector sec).baseOffs + 4 * ((x - (info.sector sec).baseOffs) / 4) +
      (x - (info.sector sec).baseOffs) % 4 = x by omega] at hbyte
  · intro herased k hk
    have hk' := List.mem_range.mp hk
    rw [beq_iff_eq, mvFlash32Rd_erased_iff]
    intro t ht
    exact herased _ (inSector_iff.mpr ⟨by omega, by omega⟩)

/-- A sector can be erased: it is not protected, and it holds only ones or the device erases it. -/
def Erasable (chip : FlashChip) (info : FlashInfo) (mem : ℕ → BitVec 8) (sec : ℕ) : Prop :=
  (info.sector sec).protect = false ∧ (SecErased info mem sec ∨ chip.erases sec = .ok)

/-- What erasing a sector does. -/
theorem mvFlashSecErase_spec (chip : FlashChip) (hvalid : info.Valid)
    (hsec : sec < info.sectorNum) :
    ((mvFlashSecErase chip info mem sec).1 = .ok ↔ Erasable chip info mem sec) ∧
      (∀ x, info.inSector sec x = false → (mvFlashSecErase chip info mem sec).2 x = mem x) ∧
      (Erasable chip info mem sec → SecErased info (mvFlashSecErase chip info mem sec).2 sec) ∧
      ((info.sector sec).protect = true → (mvFlashSecErase chip info mem sec).2 = mem) := by
  have hlock : info.mvFlashSecLockGet sec = (info.sector sec).protect := if_neg (by omega)
  unfold mvFlashSecErase Erasable
  rw [if_neg (by omega), hlock]
  cases hprotect : (info.sector sec).protect with
  | true =>
    rw [if_pos rfl]
    refine ⟨⟨fun h => ?_, fun h => ?_⟩, fun _ _ => rfl, fun h => ?_, fun _ => rfl⟩
    · cases h
    · cases h.1
    · cases h.1
  | false =>
    rw [if_neg Bool.false_ne_true]
    by_cases herased : flashIsSecErased info mem sec = true
    · have hbytes := (flashIsSecErased_iff hvalid hsec).mp herased
      rw [if_pos herased]
      exact ⟨⟨fun _ => ⟨rfl, .inl hbytes⟩, fun _ => rfl⟩, fun _ _ => rfl, fun _ => hbytes,
        fun h => by cases h⟩
    · have hbytes : ¬ SecErased info mem sec := fun h =>
        herased ((flashIsSecErased_iff hvalid hsec).mpr h)
      rw [if_neg herased, venSecErase]
      refine ⟨⟨fun h => ⟨rfl, .inr h⟩, fun h => h.2.resolve_left hbytes⟩, fun x hx => ?_,
        fun h x hx => ?_, fun h => by cases h⟩
      · dsimp only
        rw [hx, if_neg Bool.false_ne_true]
      · dsimp only
        rw [hx, if_pos rfl, if_pos (h.2.resolve_left hbytes)]

/-! ### Erasing the flash -/

/-- An offset is in one sector only. -/
theorem inSector_unique (hvalid : info.Valid) {sec' : ℕ} (hsec : sec < info.sectorNum)
    (hsec' : sec' < info.sectorNum) (hne : sec ≠ sec') (hx : info.inSector sec x = true) :
    info.inSector sec' x = false := by
  rw [Bool.eq_false_iff]
  intro hx'
  exact hne (hvalid.inSector_unique ⟨hsec, inSector_iff.mp hx⟩ ⟨hsec', inSector_iff.mp hx'⟩)

/-- What the device holds in a sector decides whether the sector can be erased. -/
theorem erasable_congr (hsame : ∀ x, info.inSector sec x = true → mem' x = mem x) :
    Erasable chip info mem' sec ↔ Erasable chip info mem sec := by
  have herased : SecErased info mem' sec ↔ SecErased info mem sec := by
    constructor
    · intro h x hx
      rw [← hsame x hx]
      exact h x hx
    · intro h x hx
      rw [hsame x hx]
      exact h x hx
  rw [Erasable, Erasable, herased]

/-- The sectors before the first one that cannot be erased are erased; the ones behind it are left
as they are, as is the sector itself where it is protected. -/
structure ErasedUpto (chip : FlashChip) (info : FlashInfo) (mem : ℕ → BitVec 8) (secs : List ℕ)
    (erase : Status × (ℕ → BitVec 8)) (k : ℕ) : Prop where
  le : k ≤ secs.length
  ok_iff : erase.1 = .ok ↔ k = secs.length
  erasable : ∀ sec ∈ secs.take k, Erasable chip info mem sec
  erased : ∀ sec ∈ secs.take k, SecErased info erase.2 sec
  refused : ∀ sec, secs[k]? = some sec → ¬ Erasable chip info mem sec ∧
    ((info.sector sec).protect = true → ∀ x, info.inSector sec x = true → erase.2 x = mem x)
  kept : ∀ x, (∀ sec ∈ secs.take (k + 1), info.inSector sec x = false) → erase.2 x = mem x

/-- The loop erases the sectors up to the first one that cannot be erased. -/
theorem eraseLoop_erasedUpto (chip : FlashChip) (hvalid : info.Valid) {secs : List ℕ}
    (hnodup : secs.Nodup) (hsecs : ∀ sec ∈ secs, sec < info.sectorNum) (mem : ℕ → BitVec 8) :
    ∃ k, ErasedUpto chip info mem secs (eraseLoop chip info secs mem) k := by
  induction secs generalizing mem with
  | nil =>
    refine ⟨0, le_rfl, ⟨fun _ => rfl, fun _ => rfl⟩, ?_, ?_, ?_, fun _ _ => rfl⟩
    · intro sec hmem
      cases hmem
    · intro sec hmem
      cases hmem
    · intro sec hsec
      cases hsec
  | cons sec secs ih =>
    obtain ⟨hnot, hnodup⟩ := List.nodup_cons.mp hnodup
    have hsec := hsecs sec List.mem_cons_self
    obtain ⟨hok, houtside, herased, hlocked⟩ := @mvFlashSecErase_spec _ mem _ chip hvalid hsec
    rw [eraseLoop]
    by_cases hable : Erasable chip info mem sec
    · rw [if_neg (not_not.mpr (hok.mpr hable))]
      obtain ⟨k, hk⟩ := ih hnodup (fun s hs => hsecs s (List.mem_cons_of_mem _ hs))
        (mvFlashSecErase chip info mem sec).2
      have hothers : ∀ s ∈ secs, ∀ x, info.inSector s x = true →
          (mvFlashSecErase chip info mem sec).2 x = mem x := by
        intro s hs x hx
        apply houtside
        exact inSector_unique hvalid (hsecs s (List.mem_cons_of_mem _ hs)) hsec
          (fun heq => hnot (heq ▸ hs)) hx
      refine ⟨k + 1, Nat.succ_le_succ hk.le, ?_, ?_, ?_, ?_, ?_⟩
      · rw [hk.ok_iff, List.length_cons, Nat.add_right_cancel_iff]
      · intro s hs
        rw [List.take_succ_cons, List.mem_cons] at hs
        rcases hs with rfl | hs
        · exact hable
        · exact (erasable_congr (hothers s (List.mem_of_mem_take hs))).mp (hk.erasable s hs)
      · intro s hs x hx
        rw [List.take_succ_cons, List.mem_cons] at hs
        rcases hs with rfl | hs
        · rw [hk.kept x fun s' hs' => inSector_unique hvalid hsec
            (hsecs s' (List.mem_cons_of_mem _ (List.mem_of_mem_take hs')))
            (fun heq => hnot (heq ▸ List.mem_of_mem_take hs')) hx]
          exact herased hable x hx
        · exact hk.erased s hs x hx
      · intro s hs
        rw [List.getElem?_cons_succ] at hs
        have hmem : s ∈ secs := List.mem_of_getElem? hs
        obtain ⟨hrefused, hkept⟩ := hk.refused s hs
        refine ⟨fun h => hrefused ((erasable_congr (hothers s hmem)).mpr h), ?_⟩
        intro hprotect x hx
        rw [hkept hprotect x hx, hothers s hmem x hx]
      · intro x hx
        rw [List.take_succ_cons, List.forall_mem_cons] at hx
        rw [hk.kept x hx.2, houtside x hx.1]
    · rw [if_pos (fun h => hable (hok.mp h))]
      refine ⟨0, Nat.zero_le _, ?_, ?_, ?_, ?_, ?_⟩
      · constructor
        · intro h
          cases h
        · intro h
          cases h
      · intro s hs
        cases hs
      · intro s hs
        cases hs
      · intro s hs
        rw [List.getElem?_cons_zero, Option.some.injEq] at hs
        subst hs
        refine ⟨hable, fun hprotect x _ => ?_⟩
        dsimp only
        rw [hlocked hprotect]
      · intro x hx
        exact houtside x (hx sec List.mem_cons_self)

/-- An erase of the flash goes up to the first sector that cannot be erased. -/
theorem mvFlashErase_erasedUpto (chip : FlashChip) (hvalid : info.Valid) (mem : ℕ → BitVec 8) :
    ∃ k, ErasedUpto chip info mem (List.range info.sectorNum) (mvFlashErase chip info mem) k :=
  eraseLoop_erasedUpto chip hvalid List.nodup_range (fun _ hmem => List.mem_range.mp hmem) mem

/-- An erase of the flash succeeds exactly when each sector can be erased. -/
theorem mvFlashErase_ok_iff (chip : FlashChip) (hvalid : info.Valid) (mem : ℕ → BitVec 8) :
    (mvFlashErase chip info mem).1 = .ok ↔
      ∀ sec < info.sectorNum, Erasable chip info mem sec := by
  obtain ⟨k, hk⟩ := mvFlashErase_erasedUpto chip hvalid mem
  rw [hk.ok_iff]
  constructor
  · intro hall sec hsec
    apply hk.erasable
    rw [hall, List.take_length]
    exact List.mem_range.mpr hsec
  · intro hall
    apply Nat.le_antisymm hk.le
    by_contra hlt
    have hsec : k < info.sectorNum := (Nat.not_le.mp hlt).trans_eq List.length_range
    exact (hk.refused k (List.getElem?_range hsec)).1 (hall k hsec)

/-- An erase of the flash goes up to the first sector that cannot be erased, and succeeds exactly
when there is none. -/
theorem mvFlashErase_spec (chip : FlashChip) (hvalid : info.Valid) (mem : ℕ → BitVec 8) :
    (∃ k, ErasedUpto chip info mem (List.range info.sectorNum) (mvFlashErase chip info mem) k) ∧
      ((mvFlashErase chip info mem).1 = .ok ↔
        ∀ sec < info.sectorNum, Erasable chip info mem sec) :=
  ⟨mvFlashErase_erasedUpto chip hvalid mem, mvFlashErase_ok_iff chip hvalid mem⟩

/-- A device that carries out every command. -/
def FlashChip.perfect : FlashChip :=
  ⟨fun _ => .ok, fun _ mem => mem, fun _ _ => .ok, fun _ _ bits => bits⟩

/-- A flash whose only sector is not protected is erased. -/
theorem mvFlashErase_small :
    (mvFlashErase .perfect (smallFlash 2) fun _ => 0x5a).1 = .ok :=
  (mvFlashErase_spec .perfect (smallFlash_valid (.inr (.inl rfl))) _).2.mpr
    fun _ _ => ⟨rfl, .inr rfl⟩

/-- Whatever is then written to the erased flash is read back up to the number of bytes that the
write returns, and the rest of the flash stays erased. -/
theorem mvFlashErase_write (hvalid : info.Valid) (hwide : info.devWidth ≤ info.busWidth)
    (herase : (mvFlashErase chip info mem).1 = .ok) (dev : FlashDevice) (copied : Bool)
    {offset fuel : ℕ} {block : List (BitVec 8)} (hblock : 0 < block.length)
    (hrange : ∀ i < block.length, ∃ sec, info.InSector (offset + i) sec)
    (hfuel : info.sectorNum < fuel) :
    ∃ result, mvFlashBlockWr dev info copied fuel (mvFlashErase chip info mem).2 offset block =
        some result ∧
      RoundTrips (mvFlashErase chip info mem).2 offset block result ∧
      ∀ sec x, info.InSector x sec → x < offset ∨ offset + block.length ≤ x →
        result.2 x = 0xff := by
  obtain ⟨k, hk⟩ := mvFlashErase_erasedUpto chip hvalid mem
  have hall : (List.range info.sectorNum).take k = List.range info.sectorNum := by
    rw [hk.ok_iff.mp herase, List.take_length]
  have hones : ∀ sec x, info.InSector x sec → (mvFlashErase chip info mem).2 x = 0xff := by
    intro sec x hin
    apply hk.erased sec
    · rw [hall]
      exact List.mem_range.mpr hin.1
    · exact inSector_iff.mpr hin.2
  have hunlocked : info.Unlocked offset block.length := by
    intro i hi
    obtain ⟨sec, hin⟩ := hrange i hi
    refine ⟨sec, hin, (hk.erasable sec ?_).1⟩
    rw [hall]
    exact List.mem_range.mpr hin.1
  have hfits : Fits (mvFlashErase chip info mem).2 offset block := by
    intro i b hi
    obtain ⟨sec, hin⟩ := hrange i (List.getElem?_eq_some_iff.mp hi).1
    rw [hones sec _ hin]
    exact BitVec.allOnes_and
  obtain ⟨result, hresult, hwritten⟩ : ∃ result,
      mvFlashBlockWr dev info copied fuel (mvFlashErase chip info mem).2 offset block =
        some result ∧ WrittenUpto (mvFlashErase chip info mem).2 offset block result :=
    mvFlashBlockWr_written hvalid hunlocked hblock hfuel (restStored_wide hvalid hwide)
  have hround := hwritten.roundTrips hfits
  refine ⟨result, hresult, hround, fun sec x hin hx => ?_⟩
  rw [hround.outside x hx]
  exact hones sec x hin

/-- Thirty-two bytes behind the first sixteen of a flash that has been erased. -/
theorem mvFlashErase_write_small :
    ∃ result, mvFlashBlockWr .perfect (smallFlash 2) true 2
        (mvFlashErase .perfect (smallFlash 2) fun _ => 0x5a).2 16 (List.replicate 32 0) =
          some result ∧
      RoundTrips (mvFlashErase .perfect (smallFlash 2) fun _ => 0x5a).2 16 (List.replicate 32 0)
        result ∧
      ∀ sec x, (smallFlash 2).InSector x sec →
        x < 16 ∨ 16 + (List.replicate 32 (0 : BitVec 8)).length ≤ x → result.2 x = 0xff := by
  have hvalid : (smallFlash 2).Valid := smallFlash_valid (.inr (.inl rfl))
  refine mvFlashErase_write hvalid (by decide) ?_ .perfect true (by decide) ?_ (by decide)
  · exact (mvFlashErase_ok_iff .perfect hvalid _).mpr fun _ _ => ⟨rfl, .inr rfl⟩
  · intro i hi
    rw [List.length_replicate] at hi
    refine ⟨0, by decide, Nat.zero_le _, ?_⟩
    simp only [smallFlash]
    omega

/-! ### Lock bits -/

/-- A lock command that succeeds sets the bit of its sector. -/
theorem lockCommand_true (hok : chip.locks sec true = .ok) :
    lockCommand chip sec true bits = Function.update bits sec true := by
  rw [lockCommand, if_pos hok, if_pos rfl]

/-- The loop sets the bits of the other sectors that the table has as protected. -/
theorem relockLoop_ok {secs : List ℕ} (hok : (relockLoop chip info secNum secs bits).1 = .ok)
    (i : ℕ) : (relockLoop chip info secNum secs bits).2 i = true ↔
      bits i = true ∨ i ∈ secs ∧ i ≠ secNum ∧ info.mvFlashSecLockGet i = true := by
  induction secs generalizing bits with
  | nil => simp only [relockLoop, List.not_mem_nil, false_and, or_false]
  | cons sec secs ih =>
    rw [relockLoop] at hok ⊢
    by_cases hlocked : sec ≠ secNum ∧ info.mvFlashSecLockGet sec = true
    · rw [if_pos hlocked] at hok ⊢
      by_cases hlock : chip.locks sec true = .ok
      · rw [if_neg (not_not.mpr hlock)] at hok ⊢
        rw [ih hok, lockCommand_true hlock, List.mem_cons]
        by_cases hi : i = sec
        · subst hi
          simp [hlocked]
        · rw [Function.update_of_ne hi]
          simp only [hi, false_or]
      · rw [if_pos hlock] at hok
        cases hok
    · rw [if_neg hlocked] at hok ⊢
      rw [ih hok, List.mem_cons]
      constructor
      · rintro (h | ⟨hmem, h⟩)
        · exact .inl h
        · exact .inr ⟨.inr hmem, h⟩
      · rintro (h | ⟨rfl | hmem, h⟩)
        · exact .inl h
        · exact absurd h hlocked
        · exact .inr ⟨hmem, h⟩

/-- A lock that succeeds sets the bit of the sector; an unlock that succeeds leaves the bits of the
other sectors that the table has as protected, whatever the bits were. -/
theorem intelFlashSecLock_ok (hok : (intelFlashSecLock chip info secNum enable bits).1 = .ok) :
    (enable = true ∧ (intelFlashSecLock chip info secNum enable bits).2 =
        Function.update bits secNum true) ∨
      (enable = false ∧ ∀ i < info.sectorNum,
        (intelFlashSecLock chip info secNum enable bits).2 i =
          Function.update info.mvFlashSecLockGet secNum false i) := by
  cases hlock : chip.locks secNum enable with
  | ok =>
    cases enable with
    | true =>
      left
      refine ⟨rfl, ?_⟩
      rw [intelFlashSecLock, hlock]
      exact lockCommand_true hlock
    | false =>
      right
      refine ⟨rfl, fun i hi => ?_⟩
      have hunlock : intelFlashSecLock chip info secNum false bits =
          relockLoop chip info secNum (List.range info.sectorNum) fun _ => false := by
        rw [intelFlashSecLock, lockCommand, hlock, if_pos rfl]
        rfl
      rw [hunlock] at hok ⊢
      rw [Bool.eq_iff_iff, relockLoop_ok hok]
      by_cases hsec : i = secNum
      · subst hsec
        simp
      · simp [hsec, hi]
  | _ =>
    rw [intelFlashSecLock, hlock] at hok
    cases hok

/-! ### Runs of lock calls -/

/-- A call of `mvFlashSecLockSet`, with what the device does during it. -/
structure LockCall where
  chip : FlashChip
  secNum : ℕ
  enable : Bool

/-- The table of the driver and the lock bits of the device. -/
structure LockState where
  info : FlashInfo
  bits : ℕ → Bool

/-- A call of `mvFlashSecLockSet` and the status that it returns. -/
def lockStep (hwProtect : Bool) (s : LockState) (call : LockCall) : Option (Status × LockState) :=
  let set := mvFlashSecLockSet call.chip s.info hwProtect s.bits call.secNum call.enable
  some (set.1, ⟨set.2.1, set.2.2⟩)

/-- The table with other flags. -/
def FlashInfo.withProtect (info : FlashInfo) (flags : ℕ → Bool) : FlashInfo :=
  { info with sector := fun i => { info.sector i with protect := flags i } }

/-- What a caller knows from the calls and the statuses alone: the flags of the sectors, and
whether the lock bits agree with them. -/
structure LockView where
  flags : ℕ → Bool
  agrees : Prop

/-- A call that succeeds is remembered, and an unlock that succeeds sets all bits right. After a
call that fails the bits are not known. -/
def LockView.next (view : LockView) (call : LockCall) (status : Status) : LockView :=
  if status = .ok then
    { flags := Function.update view.flags call.secNum call.enable
      agrees := view.agrees ∨ call.enable = false ∧ view.flags call.secNum = true }
  else { view with agrees := False }

/-- What a caller knows after some calls. -/
def LockView.after (view : LockView) (trace : List (LockCall × Status)) : LockView :=
  trace.foldl (fun view answer => view.next answer.1 answer.2) view

/-- A view is right about the table, and about the lock bits where it claims to know them. -/
structure LockView.Right (view : LockView) (info : FlashInfo) (s : LockState) : Prop where
  table : s.info = info.withProtect view.flags
  bits : view.agrees → ∀ i < info.sectorNum, s.bits i = view.flags i

theorem withProtect_lockGet {flags : ℕ → Bool} (hsec : sec < info.sectorNum) :
    (info.withProtect flags).mvFlashSecLockGet sec = flags sec :=
  if_neg (Nat.not_lt.mpr hsec.le)

theorem withProtect_setProtect (info : FlashInfo) (flags : ℕ → Bool) :
    (info.withProtect flags).setProtect secNum enable =
      info.withProtect (Function.update flags secNum enable) := by
  simp only [FlashInfo.setProtect, FlashInfo.withProtect, FlashInfo.mk.injEq, true_and, and_true]
  funext i
  by_cases hi : i = secNum
  · subst hi
    rw [Function.update_self, Function.update_self]
  · rw [Function.update_of_ne hi, Function.update_of_ne hi]

/-- What a call does to a device with lock bits: nothing where the sector has the flag already; a
call that fails leaves the table as it is. -/
theorem mvFlashSecLockSet_cases (hsec : secNum < info.sectorNum)
    {set : Status × FlashInfo × (ℕ → Bool)}
    (hset : mvFlashSecLockSet chip info true bits secNum enable = set) :
    (enable = info.mvFlashSecLockGet secNum ∧ set = (.ok, info, bits)) ∨
      (set.1 ≠ .ok ∧ set.2.1 = info) ∨
      (enable ≠ info.mvFlashSecLockGet secNum ∧
        (intelFlashSecLock chip info secNum enable bits).1 = .ok ∧
        set = (.ok, info.setProtect secNum enable,
          (intelFlashSecLock chip info secNum enable bits).2)) := by
  subst hset
  unfold mvFlashSecLockSet
  rw [if_neg (Nat.not_lt.mpr hsec.le)]
  by_cases hsame : enable = info.mvFlashSecLockGet secNum
  · rw [if_pos hsame]
    exact .inl ⟨hsame, rfl⟩
  · rw [if_neg hsame, if_neg (by decide)]
    right
    cases info.flashVen with
    | intel =>
      dsimp only
      by_cases hok : (intelFlashSecLock chip info secNum enable bits).1 = .ok
      · rw [if_pos hok]
        exact .inr ⟨hsame, hok, rfl⟩
      · rw [if_neg hok]
        exact .inl ⟨hok, rfl⟩
    | _ =>
      refine .inl ⟨fun h => ?_, rfl⟩
      cases h

/-- A call for a sector of a device with lock bits keeps the view right. -/
theorem LockView.Right.next {view : LockView} {s s' : LockState} {call : LockCall} {status : Status}
    (hright : view.Right info s) (hsec : call.secNum < info.sectorNum)
    (hstep : lockStep true s call = some (status, s')) :
    (view.next call status).Right info s' := by
  obtain ⟨table, bits⟩ := s
  obtain ⟨htable, hbits⟩ := hright
  dsimp only at htable hbits
  subst htable
  have hget : ∀ i < info.sectorNum,
      (info.withProtect view.flags).mvFlashSecLockGet i = view.flags i := fun _ hi =>
    withProtect_lockGet hi
  rw [lockStep, Option.some.injEq, Prod.mk.injEq] at hstep
  obtain ⟨rfl, rfl⟩ := hstep
  dsimp only
  generalize hset : mvFlashSecLockSet call.chip (info.withProtect view.flags) true bits call.secNum
    call.enable = set
  obtain ⟨hsame, rfl⟩ | ⟨hfail, htable⟩ | ⟨-, hok, rfl⟩ :=
    @mvFlashSecLockSet_cases _ (info.withProtect view.flags) _ _ _ hsec _ hset
  · -- the flag is there already, so no lock bit is set right by the call
    rw [hget _ hsec] at hsame
    rw [LockView.next, if_pos rfl, hsame, Function.update_eq_self]
    refine ⟨rfl, ?_⟩
    rintro (hagrees | ⟨hfalse, htrue⟩)
    · exact hbits hagrees
    · rw [hfalse] at htrue
      cases htrue
  · rw [LockView.next, if_neg hfail]
    exact ⟨htable, fun h => h.elim⟩
  · rw [LockView.next, if_pos rfl]
    refine ⟨withProtect_setProtect info view.flags, ?_⟩
    intro hagrees i hi
    dsimp only
    rcases intelFlashSecLock_ok hok with ⟨henable, hlocked⟩ | ⟨henable, hunlocked⟩
    · rw [hlocked, henable]
      rcases hagrees with hagrees | ⟨hfalse, -⟩
      · by_cases hsame : i = call.secNum
        · rw [hsame, Function.update_self, Function.update_self]
        · rw [Function.update_of_ne hsame, Function.update_of_ne hsame, hbits hagrees i hi]
      · rw [henable] at hfalse
        cases hfalse
    · rw [hunlocked i hi, henable]
      by_cases hsame : i = call.secNum
      · rw [hsame, Function.update_self, Function.update_self]
      · rw [Function.update_of_ne hsame, Function.update_of_ne hsame, hget i hi]

/-- Along every run of calls the table has the flags of the calls that succeeded. The lock bits
agree with it as long as no call fails, and again after the next unlock that succeeds. -/
theorem lockRun_right {flags : ℕ → Bool} {trace : List (LockCall × Status)} {s : LockState}
    (hrun : Run (lockStep true) (fun _ call => call.secNum < info.sectorNum)
      ⟨info.withProtect flags, bits⟩ trace s) :
    ((LockView.mk flags (∀ i < info.sectorNum, bits i = flags i)).after trace).Right info s := by
  refine hrun.invariant (I := fun trace s =>
    ((LockView.mk flags (∀ i < info.sectorNum, bits i = flags i)).after trace).Right info s)
    ⟨rfl, id⟩ ?_
  intro trace s call status s' hright hsec hstep
  rw [LockView.after, List.foldl_append]
  exact hright.next hsec hstep

/-- Two sectors are locked and the first is unlocked again: the second is still locked. -/
theorem lockRun_right_pair :
    ∃ s, Run (lockStep true) (fun _ call => call.secNum < 2)
        ⟨FlashInfo.withProtect { smallFlash 2 with sectorNum := 2 } fun _ => false, fun _ => false⟩
        [(⟨.perfect, 0, true⟩, .ok), (⟨.perfect, 1, true⟩, .ok), (⟨.perfect, 0, false⟩, .ok)] s ∧
      s.bits 0 = false ∧ s.bits 1 = true := by
  have hrun : Run (lockStep true) (fun _ call => call.secNum < 2)
      ⟨FlashInfo.withProtect { smallFlash 2 with sectorNum := 2 } fun _ => false, fun _ => false⟩
      [(⟨.perfect, 0, true⟩, .ok), (⟨.perfect, 1, true⟩, .ok), (⟨.perfect, 0, false⟩, .ok)] _ :=
    .next (.next (.next .start (by decide) rfl) (by decide) rfl) (by decide) rfl
  have hright := @lockRun_right { smallFlash 2 with sectorNum := 2 } _ _ _ _ hrun
  refine ⟨_, hrun, ?_, ?_⟩
  · exact hright.bits (.inl (.inl (.inl fun _ _ => rfl))) 0 (by decide)
  · exact hright.bits (.inl (.inl (.inl fun _ _ => rfl))) 1 (by decide)

end Mv88fxx81.Flash
