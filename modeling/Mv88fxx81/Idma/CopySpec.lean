import Mv88fxx81.Idma.DmaCopy

/-!
# What a user copy has to do

The calls that the copy is made for, what its operations have to achieve, and the calls
for which they do. The part of the destination that consists of whole cache lines is
copied in pieces, cut where a side that is not linearly mapped goes on to another page.
-/

namespace Mv88fxx81.Idma

variable {m : Mapping} {c : Call}

/-- A range is of one kind: linearly mapped, other kernel addresses, or user addresses. -/
def OneKind (m : Mapping) (addr n : ℕ) : Prop :=
  ∀ i < n, isKernelStatic m (addr + i) = isKernelStatic m addr ∧
    isKernelSpace (addr + i) = isKernelSpace addr

/-- The calls of a copy: the two ranges are in the address space and do not overlap, in
the physical memory either. -/
structure Call.Valid (m : Mapping) (c : Call) : Prop where
  /-- The length that the source demands. -/
  n_ge : 64 ≤ c.n
  to_range : c.to_ + c.n ≤ 2 ^ 32
  from_range : c.from_ + c.n ≤ 2 ^ 32
  to_kind : OneKind m c.to_ c.n
  from_kind : OneKind m c.from_ c.n
  disjoint : ∀ i < c.n, ∀ j < c.n, m.translate (c.to_ + i) ≠ m.translate (c.from_ + j)
  injective : ∀ i < c.n, ∀ j < c.n, m.translate (c.to_ + i) = m.translate (c.to_ + j) → i = j

/-- What is known of the two ranges alone: they are in the address space, and each is of one
kind. -/
structure Call.InRange (m : Mapping) (c : Call) : Prop where
  n_ge : 64 ≤ c.n
  n_lt : c.n < 2 ^ 32
  to_range : c.to_ + c.n ≤ 2 ^ 32
  from_range : c.from_ + c.n ≤ 2 ^ 32
  to_kind : OneKind m c.to_ c.n
  from_kind : OneKind m c.from_ c.n

/-- The destination address of a copying operation. -/
def Op.destination : Op → ℕ
  | .cpu to_ _ _ => to_
  | .dma _ to_ _ _ _ _ => to_
  | .wait _ => 0

/-- The number of bytes that an operation moves. -/
def Op.moved : Op → ℕ
  | .cpu _ _ len => len
  | .dma _ _ _ _ _ len => byteCount len
  | .wait _ => 0

/-- An operation moves byte `i` of a call. -/
def Op.Covers (c : Call) (i : ℕ) (op : Op) : Prop :=
  op.destination ≤ c.to_ + i ∧ c.to_ + i < op.destination + op.moved

instance (c : Call) (i : ℕ) (op : Op) : Decidable (op.Covers c i) :=
  inferInstanceAs (Decidable (_ ∧ _))

/-- The source of an operation is as far into the source range as its destination is into
the destination range. -/
def Op.InStep (c : Call) : Op → Prop
  | .cpu to_ from_ _ => to_ + c.from_ = from_ + c.to_
  | .dma _ to_ from_ _ _ _ => to_ + c.from_ = from_ + c.to_
  | .wait _ => True

/-- The bytes from an address on are in one page, if the side is not linearly mapped. -/
def InsidePage (m : Mapping) (addr len : ℕ) : Prop :=
  isKernelStatic m addr = false → addr % 4096 + len ≤ 4096

/-- A transfer lies inside one page on each side that is not linearly mapped. -/
def Op.InPages (m : Mapping) : Op → Prop
  | .dma _ to_ from_ _ _ len => InsidePage m to_ len ∧ InsidePage m from_ len
  | _ => True

/-- A transfer uses the physical addresses of the mapping. -/
def Op.Translated (m : Mapping) : Op → Prop
  | .dma _ to_ from_ physTo physFrom _ => physTo = m.translate to_ ∧ physFrom = m.translate from_
  | _ => True

/-- A transfer covers whole cache lines of the destination. -/
def Op.WholeLines : Op → Prop
  | .dma _ to_ _ _ _ len => 32 ∣ to_ ∧ 32 ∣ len
  | _ => True

/-- The destination of a call holds its source, whatever the memory holds before the call
and whenever the channels complete their transfers. -/
def Copied (m : Mapping) (c : Call) (past ops : List Op) : Prop :=
  ∀ s₀ s s' : Machine (BitVec 8), (∀ chan, s₀.active chan = none) →
    Execution m past s₀ s → Execution m ops s s' →
      (∀ i < c.n, s'.mem (m.translate (c.to_ + i)) = s.mem (m.translate (c.from_ + i))) ∧
        ∀ chan, s'.active chan = none

/-- What the operations of a call have to achieve after those of the calls before it. -/
structure CopiesRight (m : Mapping) (c : Call) (past ops : List Op) : Prop where
  /-- Every byte of the call is moved by exactly one operation, and no other byte by any. -/
  partition : ∀ i, ops.countP (fun op => decide (op.Covers c i)) = if i < c.n then 1 else 0
  inStep : ∀ op ∈ ops, op.InStep c
  inPages : ∀ op ∈ ops, op.InPages m
  translated : ∀ op ∈ ops, op.Translated m
  wholeLines : ∀ op ∈ ops, op.WholeLines
  startsIdle : StartsIdle ops (busyAfter past fun _ => false)
  idle : ∀ chan, busyAfter ops (busyAfter past fun _ => false) chan = false
  copied : Copied m c past ops

/-- The offset of the first whole cache line of the destination. -/
def Call.midStart (c : Call) : ℕ :=
  (32 - c.to_ % 32) % 32

/-- The offset of the end of the last whole cache line of the destination. -/
def Call.midEnd (c : Call) : ℕ :=
  c.n - (c.to_ + c.n) % 32

/-- The user side of a call. -/
def Call.uaddr (c : Call) : ℕ :=
  if c.toUser then c.to_ else c.from_

/-- A side that is not linearly mapped begins a page at an offset. -/
def PageCut (m : Mapping) (addr x : ℕ) : Prop :=
  isKernelStatic m addr = false ∧ (addr + x) % 4096 = 0

/-- The user pages cannot be had, and the whole copy is left to the CPU. -/
def PagesRefused (m : Mapping) (c : Call) : Prop :=
  isKernelStatic m c.uaddr = false ∧ isKernelSpace c.uaddr = false ∧
    (c.kmalloc = false ∨ c.res < nrPages (c.uaddr + c.midStart) (c.midEnd - c.midStart))

/-- A source page that begins inside a cache line of the destination has fewer than
`IDMA_MIN_COPY_CHUNK` bytes on each side of its begin, up to an end of the whole lines or
to a page begin of the destination. -/
def CutsAreShort (m : Mapping) (c : Call) : Prop :=
  ∀ x, c.midStart < x → x < c.midEnd → PageCut m c.from_ x → (c.to_ + x) % 32 ≠ 0 →
    (x < c.midStart + 128 ∨ ∃ y, y < x ∧ x < y + 128 ∧ PageCut m c.to_ y) ∧
      (c.midEnd < x + 128 ∨ ∃ y, x < y ∧ y < x + 128 ∧ PageCut m c.to_ y)

/-- A copy between linearly mapped addresses, which is one transfer, fits the byte count
field of a channel. -/
def FitsByteCount (m : Mapping) (c : Call) : Prop :=
  isKernelStatic m c.to_ = true → isKernelStatic m c.from_ = true →
    c.midEnd - c.midStart < 2 ^ 24

/-- The calls that are copied right. -/
def CopyCondition (m : Mapping) (c : Call) : Prop :=
  PagesRefused m c ∨ (CutsAreShort m c ∧ FitsByteCount m c)

end Mv88fxx81.Idma
