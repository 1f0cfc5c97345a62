import Mathlib.Algebra.Group.Nat.Defs
import Mv88fxx81.Lib.MemoryCopy

/-!
# Address mapping and IDMA engine

The address translation that `LSP/dma.c` looks up, the operations that it performs, and
what the CPU and the two copy channels of the IDMA engine of `Soc/idma/mvIdma.c` do to
the memory. A transfer moves its bytes at any time between its start and the moment when
the channel is found idle. Caches are not modelled; each transfer keeps the virtual
addresses that its cache flush and invalidation get.
-/

namespace Mv88fxx81.Idma

/-- `PAGE_SIZE`. -/
def PAGE_SIZE : ℕ := 4096

/-- `PAGE_SHIFT`. -/
def PAGE_SHIFT : ℕ := 12

/-- `PAGE_OFFSET`, the first linearly mapped kernel address. -/
def PAGE_OFFSET : ℕ := 0xc0000000

/-- `TASK_SIZE`, the end of the user addresses. -/
def TASK_SIZE : ℕ := 0xbf000000

/-- `ICBCR_BYTECNT_MASK_16M`, the byte count field of a channel in 16M mode. -/
def ICBCR_BYTECNT_MASK_16M : ℕ := 0xFFFFFF

/-- Addition of 32-bit words. -/
def add32 (a b : ℕ) : ℕ := (a + b) % 2 ^ 32

/-- Subtraction of 32-bit words. -/
def sub32 (a b : ℕ) : ℕ := (a + 2 ^ 32 - b) % 2 ^ 32

/-- The mapping of virtual to physical addresses. -/
structure Mapping where
  /-- `high_memory`, the end of the linearly mapped kernel addresses. -/
  highMemory : ℕ
  /-- The page frame number of each virtual page that is not linearly mapped. -/
  pageFrame : ℕ → ℕ
  /-- `pfn_valid`. -/
  pfnValid : ℕ → Bool
  /-- Mapped pages have a page frame. -/
  pageFrame_valid : ∀ page, pfnValid (pageFrame page) = true

/-- `is_kernel_static`: the address is linearly mapped. -/
def isKernelStatic (m : Mapping) (virt : ℕ) : Bool :=
  decide (PAGE_OFFSET ≤ virt ∧ virt < m.highMemory)

/-- `is_kernel_space`. -/
def isKernelSpace (virt : ℕ) : Bool :=
  decide (TASK_SIZE ≤ virt)

/-- `page_remainder`: the bytes up to the end of the page. -/
def pageRemainder (virt : ℕ) : ℕ :=
  PAGE_SIZE - (virt &&& (PAGE_SIZE - 1))

/-- `page_offset_to_phys`; the second branch is a `BUG()`. -/
def pageOffsetToPhys (m : Mapping) (pfn offset : ℕ) : ℕ :=
  if m.pfnValid pfn then pfn <<< PAGE_SHIFT ||| offset else 0

/-- `physical_address`, for an address whose page table entry is there. -/
def physicalAddress (m : Mapping) (virt : ℕ) : ℕ :=
  if isKernelStatic m virt then virt - PAGE_OFFSET
  else m.pageFrame (virt >>> PAGE_SHIFT) <<< PAGE_SHIFT ||| (virt &&& (PAGE_SIZE - 1))

/-- The physical address of a virtual address. -/
def Mapping.translate (m : Mapping) (virt : ℕ) : ℕ :=
  if isKernelStatic m virt then virt - PAGE_OFFSET
  else m.pageFrame (virt / 4096) * 4096 + virt % 4096

/-- The channels that copies use, `CPY_CHAN1` and `CPY_CHAN2`. -/
inductive Channel where
  | cpyChan1
  | cpyChan2
  deriving DecidableEq

/-- `NEXT_CHANNEL`, which is also `PREV_CHANNEL`. -/
def Channel.next : Channel → Channel
  | .cpyChan1 => .cpyChan2
  | .cpyChan2 => .cpyChan1

/-- What `dma_copy` asks the hardware to do. -/
inductive Op where
  /-- `__arch_copy_to_user` or `__arch_copy_from_user`. -/
  | cpu (to_ from_ len : ℕ)
  /-- Cache flush of the source, invalidation of the destination and `mvDmaTransfer`. -/
  | dma (chan : Channel) (to_ from_ physTo physFrom len : ℕ)
  /-- `wait_for_idma`. -/
  | wait (chan : Channel)
  deriving DecidableEq

/-- The bytes that a channel moves when its byte count register is set to a length. -/
def byteCount (len : ℕ) : ℕ :=
  len &&& ICBCR_BYTECNT_MASK_16M

/-- The registers of an active channel. -/
structure Transfer where
  /-- Destination address register. -/
  physTo : ℕ
  /-- Source address register. -/
  physFrom : ℕ
  /-- Byte count register. -/
  len : ℕ

/-- The memory by physical address, and what each channel is doing. -/
structure Machine (β : Type*) where
  /-- The bytes of the memory. -/
  mem : ℕ → β
  /-- The transfer of each channel that is not idle. -/
  active : Channel → Option Transfer

variable {β : Type*}

/-- The CPU copies bytes through its memory management unit. -/
def Machine.cpuCopy (m : Mapping) (to_ from_ len : ℕ) (s : Machine β) : Machine β :=
  { s with
    mem := MemoryCopy.copy (fun i => m.translate (to_ + i))
      (fun i => m.translate (from_ + i)) len s.mem }

/-- `mvDmaTransfer` sets the registers of a channel and enables it. -/
def Machine.mvDmaTransfer (chan : Channel) (t : Transfer) (s : Machine β) : Machine β :=
  { s with active := Function.update s.active chan (some t) }

/-- A channel has moved its bytes and becomes idle. -/
def Machine.complete (chan : Channel) (t : Transfer) (s : Machine β) : Machine β :=
  { mem := MemoryCopy.copy (fun i => t.physTo + i) (fun i => t.physFrom + i)
      (byteCount t.len) s.mem
    active := Function.update s.active chan none }

/-- The operations are performed in their order, and the channels complete their transfers
at any time; a wait goes on when its channel is idle. -/
inductive Execution (m : Mapping) : List Op → Machine β → Machine β → Prop
  | done {s : Machine β} : Execution m [] s s
  | complete {ops : List Op} {s s' : Machine β} {chan : Channel} {t : Transfer}
      (hactive : s.active chan = some t) (hrest : Execution m ops (s.complete chan t) s') :
      Execution m ops s s'
  | cpu {ops : List Op} {s s' : Machine β} {to_ from_ len : ℕ}
      (hrest : Execution m ops (s.cpuCopy m to_ from_ len) s') :
      Execution m (.cpu to_ from_ len :: ops) s s'
  | dma {ops : List Op} {s s' : Machine β} {chan : Channel}
      {to_ from_ physTo physFrom len : ℕ}
      (hrest : Execution m ops (s.mvDmaTransfer chan ⟨physTo, physFrom, len⟩) s') :
      Execution m (.dma chan to_ from_ physTo physFrom len :: ops) s s'
  | wait {ops : List Op} {s s' : Machine β} {chan : Channel}
      (hidle : s.active chan = none) (hrest : Execution m ops s s') :
      Execution m (.wait chan :: ops) s s'

/-- The channels that may still be active after the operations. -/
def busyAfter : List Op → (Channel → Bool) → Channel → Bool
  | [], busy => busy
  | .cpu _ _ _ :: ops, busy => busyAfter ops busy
  | .dma chan _ _ _ _ _ :: ops, busy => busyAfter ops (Function.update busy chan true)
  | .wait chan :: ops, busy => busyAfter ops (Function.update busy chan false)

/-- Every transfer is started on a channel that is known to be idle. -/
def StartsIdle : List Op → (Channel → Bool) → Prop
  | [], _ => True
  | .cpu _ _ _ :: ops, busy => StartsIdle ops busy
  | .dma chan _ _ _ _ _ :: ops, busy =>
    busy chan = false ∧ StartsIdle ops (Function.update busy chan true)
  | .wait chan :: ops, busy => StartsIdle ops (Function.update busy chan false)

/-- An active channel is busy, and stays so until it is waited for. -/
theorem Execution.active_busy {m : Mapping} {ops : List Op} {s s' : Machine β}
    (hexec : Execution m ops s s') {busy : Channel → Bool}
    (hbusy : ∀ chan, busy chan = false → s.active chan = none) (chan : Channel)
    (hidle : busyAfter ops busy chan = false) : s'.active chan = none := by
  induction hexec generalizing busy with
  | done => exact hbusy chan hidle
  | @complete ops s s' c t hactive hrest ih =>
    refine ih (fun d hd => ?_) hidle
    by_cases heq : d = c
    · subst heq
      exact Function.update_self ..
    · simp only [Machine.complete, Function.update_of_ne heq]
      exact hbusy d hd
  | cpu hrest ih => exact ih hbusy hidle
  | @dma ops s s' c to_ from_ physTo physFrom len hrest ih =>
    refine ih (fun d hd => ?_) hidle
    by_cases heq : d = c
    · subst heq
      rw [Function.update_self] at hd
      cases hd
    · rw [Function.update_of_ne heq] at hd
      simp only [Machine.mvDmaTransfer, Function.update_of_ne heq]
      exact hbusy d hd
  | @wait ops s s' c hactive hrest ih =>
    refine ih (fun d hd => ?_) hidle
    by_cases heq : d = c
    · rw [heq]
      exact hactive
    · rw [Function.update_of_ne heq] at hd
      exact hbusy d hd

end Mv88fxx81.Idma
