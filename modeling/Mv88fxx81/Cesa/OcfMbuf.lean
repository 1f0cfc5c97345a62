import Mathlib.Data.List.Range
import Mv88fxx81.Cesa.IdmaCopy

/-!
# The buffers of a cryptop

`cesa_ocf_process` describes the data of a cryptop by entries of the array `cesa_bufs`, which
the command points to. The data is a socket buffer, a list of I/O vectors or one flat buffer.
The first two entries are reserved for an IV and a digest, which the checks of the number of
fragments do not count.
-/

namespace Mv88fxx81.Cesa

/-- `skb_frag_t`, with the address of its page. -/
structure SkbFrag where
  page : ℕ
  pageOffset : UInt16
  size : UInt16
  deriving DecidableEq

/-- `MAX_SKB_FRAGS`, for pages of 4096 bytes. -/
def maxSkbFrags : ℕ := 65536 / 4096 + 2

/-- `struct sk_buff` without a `frag_list`. The length of the data counts the head and the
fragments. -/
structure SkBuff where
  data : ℕ
  len : ℕ
  dataLen : ℕ
  frags : List SkbFrag
  nrFrags_le : frags.length ≤ maxSkbFrags
  dataLen_eq : dataLen = (frags.map fun frag => frag.size.toNat).sum
  dataLen_le : dataLen ≤ len

/-- `skb_headlen`. -/
def skbHeadlen (skb : SkBuff) : ℕ := skb.len - skb.dataLen

/-- `struct iovec`. -/
structure Iovec where
  iovBase : ℕ
  iovLen : ℕ
  deriving DecidableEq

/-- The data of a cryptop, by its flags: `CRYPTO_F_SKBUF`, `CRYPTO_F_IOV` or none of them. -/
inductive CrpBuf
  | skb (skb : SkBuff)
  | iov (uioIov : List Iovec)
  | contig (addr : ℕ)

/-- The fields of `struct cryptop` that describe its data. -/
structure CryptopData where
  crpIlen : Int32
  crpBuf : CrpBuf

/-- The array `cesa_bufs` with the memory behind it, the entry that `p_buf_info` points to, the
entries that were written, and the fields of `cesa_mbuf`. -/
structure OcfMbuf where
  cesaBufs : ℕ → BufInfo
  pBufInfo : ℕ
  written : List ℕ
  pFrags : ℕ
  numFrags : UInt16
  mbufSize : UInt16

/-- The structure after it was allocated and set to zero, with the first two entries skipped. -/
def ocfMbufInit : OcfMbuf :=
  { cesaBufs := fun _ => ⟨0, 0⟩
    pBufInfo := 2
    written := []
    pFrags := 2
    numFrags := 0
    mbufSize := 0 }

/-- Write the entry that `p_buf_info` points to and advance it. -/
def OcfMbuf.put (m : OcfMbuf) (buf : BufInfo) : OcfMbuf :=
  { m with
    cesaBufs := Function.update m.cesaBufs m.pBufInfo buf
    pBufInfo := m.pBufInfo + 1
    written := m.written ++ [m.pBufInfo] }

/-- The loops over the fragments of a socket buffer and over the I/O vectors, with one entry for
each of them. -/
def fillLoop {α : Type*} (entry : α → BufInfo) : List α → OcfMbuf → OcfMbuf
  | [], m => m
  | frag :: frags, m => fillLoop entry frags (m.put (entry frag))

/-- The entry of a fragment of a socket buffer. -/
def SkbFrag.entry (frag : SkbFrag) : BufInfo :=
  ⟨frag.page + frag.pageOffset.toNat, frag.size.toNat⟩

/-- The entry of an I/O vector. -/
def Iovec.entry (iov : Iovec) : BufInfo := ⟨iov.iovBase, iov.iovLen⟩

/-- The branch of `cesa_ocf_process` for the kind of the data. -/
def ocfMbufFill (crp : CryptopData) (m : OcfMbuf) : Option OcfMbuf :=
  match crp.crpBuf with
  | .skb skb =>
    if skb.frags.length ≥ maxMbufFrags - 1 then none
    else
      let m := { m with mbufSize := UInt16.ofNat skb.len }
      let m := fillLoop SkbFrag.entry skb.frags (m.put ⟨skb.data, skbHeadlen skb⟩)
      some { m with numFrags := UInt16.ofNat (skb.frags.length + 1) }
  | .iov uioIov =>
    if uioIov.length > maxMbufFrags - 1 then none
    else
      let m := { m with
        mbufSize := UInt16.ofInt crp.crpIlen.toInt
        numFrags := UInt16.ofNat uioIov.length }
      some (fillLoop Iovec.entry uioIov m)
  | .contig addr =>
    let m := { m with
      numFrags := 1
      mbufSize := UInt16.ofInt crp.crpIlen.toInt }
    some (m.put ⟨addr, (UInt32.ofInt crp.crpIlen.toInt).toNat⟩)

/-- The part of `cesa_ocf_process` that describes the data of a cryptop, or `none` if it
refuses the cryptop with `EINVAL`. A difference between the length in the cryptop and the length
of the data is only printed. -/
def ocfMbufBuild (crp : CryptopData) : Option OcfMbuf :=
  match ocfMbufFill crp ocfMbufInit with
  | none => none
  | some m => if crp.crpIlen.toInt > 64 * 1024 then none else some m

/-- The entries that the multi-buffer names. -/
def OcfMbuf.frags (m : OcfMbuf) : List BufInfo :=
  (List.range m.numFrags.toNat).map fun i => m.cesaBufs (m.pFrags + i)

/-- The addresses of the bytes of the data, in their order. -/
def CryptopData.bytes (crp : CryptopData) : List ℕ :=
  match crp.crpBuf with
  | .skb skb => List.range' skb.data (skbHeadlen skb) ++
      skb.frags.flatMap fun frag => List.range' (frag.page + frag.pageOffset.toNat) frag.size.toNat
  | .iov uioIov => uioIov.flatMap fun iov => List.range' iov.iovBase iov.iovLen
  | .contig addr => List.range' addr crp.crpIlen.toInt.toNat

/-- The multi-buffer describes the data: it lists its bytes in their order and has their number as
its size, and the entries written for it are those of the array. -/
structure OcfMbuf.Describes (m : OcfMbuf) (crp : CryptopData) : Prop where
  bytes : mbufBytes m.frags = crp.bytes
  inside : ∀ i ∈ m.written, i < maxMbufFrags
  size : m.mbufSize.toNat = crp.bytes.length

/-- The entries that were written, from the first one that is not reserved on. -/
structure OcfMbuf.Filled (m : OcfMbuf) (entries : List BufInfo) : Prop where
  pBufInfo : m.pBufInfo = 2 + entries.length
  written : m.written = List.range' 2 entries.length
  listed : (List.range' 2 entries.length).map m.cesaBufs = entries
  pFrags : m.pFrags = 2

section Fill

variable {α : Type*} {m m' : OcfMbuf} {entries : List BufInfo} {crp : CryptopData}

/-- No entry at the beginning. -/
theorem ocfMbufInit_filled : ocfMbufInit.Filled [] := ⟨rfl, rfl, rfl, rfl⟩

/-- Other fields do not matter. -/
theorem OcfMbuf.Filled.congr (hfilled : m.Filled entries) (hbufs : m'.cesaBufs = m.cesaBufs)
    (hnext : m'.pBufInfo = m.pBufInfo) (hwritten : m'.written = m.written)
    (hfrags : m'.pFrags = m.pFrags) : m'.Filled entries :=
  ⟨hnext.trans hfilled.pBufInfo, hwritten.trans hfilled.written, by rw [hbufs, hfilled.listed],
    hfrags.trans hfilled.pFrags⟩

/-- One more entry. -/
theorem OcfMbuf.Filled.put (hfilled : m.Filled entries) (buf : BufInfo) :
    (m.put buf).Filled (entries ++ [buf]) := by
  have hlength : (entries ++ [buf]).length = entries.length + 1 := by simp
  have hlast : List.range' 2 (entries.length + 1) =
      List.range' 2 entries.length ++ [m.pBufInfo] := by
    rw [hfilled.pBufInfo, List.range'_concat, Nat.one_mul]
  refine ⟨?_, ?_, ?_, hfilled.pFrags⟩
  · rw [hlength, ← Nat.add_assoc, ← hfilled.pBufInfo]
    rfl
  · rw [hlength, hlast, ← hfilled.written]
    rfl
  · have hkept : (List.range' 2 entries.length).map (m.put buf).cesaBufs = entries := by
      rw [← hfilled.listed, List.length_map, List.length_range']
      refine List.map_congr_left fun i hmem => ?_
      have hlt := (List.mem_range'_1.mp hmem).2
      have hne : i ≠ m.pBufInfo := by
        rw [hfilled.pBufInfo]
        omega
      exact Function.update_of_ne hne _ _
    have hself : (m.put buf).cesaBufs m.pBufInfo = buf := Function.update_self _ _ _
    rw [hlength, hlast, List.map_append, hkept, List.map_singleton, hself]

/-- An entry for each fragment. -/
theorem OcfMbuf.Filled.fillLoop (entry : α → BufInfo) (frags : List α)
    (hfilled : m.Filled entries) :
    (Cesa.fillLoop entry frags m).Filled (entries ++ frags.map entry) := by
  induction frags generalizing m entries with
  | nil => rwa [List.map_nil, List.append_nil]
  | cons frag frags ih =>
    have hnext := ih (hfilled.put (entry frag))
    rw [List.append_assoc] at hnext
    exact hnext

/-- The loops do not change the fields of the multi-buffer. -/
theorem fillLoop_sizes (entry : α → BufInfo) (frags : List α) (m : OcfMbuf) :
    (fillLoop entry frags m).numFrags = m.numFrags ∧
      (fillLoop entry frags m).mbufSize = m.mbufSize := by
  induction frags generalizing m with
  | nil => exact ⟨rfl, rfl⟩
  | cons frag frags ih => exact ih (m.put (entry frag))

/-- The multi-buffer lists what was written. -/
theorem OcfMbuf.Filled.frags_eq (hfilled : m.Filled entries)
    (hcount : m.numFrags.toNat = entries.length) : m.frags = entries := by
  rw [← hfilled.listed]
  unfold OcfMbuf.frags
  rw [hcount, hfilled.pFrags, List.range'_eq_map_range, List.map_map]
  rfl

/-- The entries lie in the array if there are no more than 18. -/
theorem OcfMbuf.Filled.inside_iff (hfilled : m.Filled entries) :
    (∀ i ∈ m.written, i < maxMbufFrags) ↔ entries.length ≤ 18 := by
  rw [hfilled.written]
  simp only [List.mem_range'_1, maxMbufFrags]
  constructor
  · intro hall
    by_contra hmany
    have := hall 20 ⟨by omega, by omega⟩
    omega
  · intro hfew i hmem
    omega

/-- What it means that a filled multi-buffer describes the data. -/
theorem OcfMbuf.Filled.describes_iff (hfilled : m.Filled entries)
    (hcount : m.numFrags.toNat = entries.length) :
    m.Describes crp ↔ mbufBytes entries = crp.bytes ∧ entries.length ≤ 18 ∧
      m.mbufSize.toNat = crp.bytes.length := by
  constructor
  · rintro ⟨hbytes, hinside, hsize⟩
    exact ⟨hfilled.frags_eq hcount ▸ hbytes, hfilled.inside_iff.mp hinside, hsize⟩
  · rintro ⟨hbytes, hfew, hsize⟩
    exact ⟨(hfilled.frags_eq hcount).symm ▸ hbytes, hfilled.inside_iff.mpr hfew, hsize⟩

end Fill

section Data

variable {m : OcfMbuf} {crpIlen : Int32}

/-- The length of a socket buffer. -/
theorem skb_bytes_length (skb : SkBuff) :
    (CryptopData.bytes ⟨crpIlen, .skb skb⟩).length = skb.len := by
  have hle := skb.dataLen_le
  have heq := skb.dataLen_eq
  unfold CryptopData.bytes skbHeadlen
  simp only [List.length_append, List.length_range', List.length_flatMap]
  omega

/-- The length of a list of I/O vectors. -/
theorem iov_bytes_length (uioIov : List Iovec) :
    (CryptopData.bytes ⟨crpIlen, .iov uioIov⟩).length = (uioIov.map Iovec.iovLen).sum := by
  unfold CryptopData.bytes
  simp only [List.length_flatMap, List.length_range']

/-- The bytes of the entries of a socket buffer. -/
theorem skb_entries_bytes (skb : SkBuff) :
    mbufBytes (⟨skb.data, skbHeadlen skb⟩ :: skb.frags.map SkbFrag.entry) =
      CryptopData.bytes ⟨crpIlen, .skb skb⟩ := by
  unfold mbufBytes CryptopData.bytes
  rw [List.flatMap_cons, List.flatMap_map]
  rfl

/-- The bytes of the entries of a list of I/O vectors. -/
theorem iov_entries_bytes (uioIov : List Iovec) :
    mbufBytes (uioIov.map Iovec.entry) = CryptopData.bytes ⟨crpIlen, .iov uioIov⟩ := by
  unfold mbufBytes CryptopData.bytes
  rw [List.flatMap_map]
  rfl

/-- The entries for the data of a cryptop. -/
def CryptopData.entries (crp : CryptopData) : List BufInfo :=
  match crp.crpBuf with
  | .skb skb => ⟨skb.data, skbHeadlen skb⟩ :: skb.frags.map SkbFrag.entry
  | .iov uioIov => uioIov.map Iovec.entry
  | .contig addr => [⟨addr, (UInt32.ofInt crp.crpIlen.toInt).toNat⟩]

/-- The length that is stored for the data of a cryptop. -/
def CryptopData.storedSize (crp : CryptopData) : UInt16 :=
  match crp.crpBuf with
  | .skb skb => UInt16.ofNat skb.len
  | .iov _ => UInt16.ofInt crp.crpIlen.toInt
  | .contig _ => UInt16.ofInt crp.crpIlen.toInt

/-- What is built for a cryptop. There are at most 19 entries. -/
theorem ocfMbufFill_spec {crp : CryptopData} {m : OcfMbuf}
    (hfill : ocfMbufFill crp ocfMbufInit = some m) :
    m.Filled crp.entries ∧ crp.entries.length ≤ 19 ∧
      m.numFrags = UInt16.ofNat crp.entries.length ∧ m.mbufSize = crp.storedSize := by
  obtain ⟨crpIlen, crpBuf⟩ := crp
  unfold ocfMbufFill at hfill
  unfold CryptopData.entries CryptopData.storedSize
  cases crpBuf with
  | skb skb =>
    dsimp only at hfill ⊢
    split_ifs at hfill with hmany
    obtain rfl := Option.some.inj hfill
    have hstart : OcfMbuf.Filled { ocfMbufInit with mbufSize := UInt16.ofNat skb.len } [] :=
      ocfMbufInit_filled.congr rfl rfl rfl rfl
    have hfilled := (hstart.put ⟨skb.data, skbHeadlen skb⟩).fillLoop SkbFrag.entry skb.frags
    simp only [maxMbufFrags] at hmany
    refine ⟨hfilled.congr rfl rfl rfl rfl, ?_, ?_, (fillLoop_sizes _ _ _).2⟩
    · rw [List.length_cons, List.length_map]
      omega
    · rw [List.length_cons, List.length_map]
  | iov uioIov =>
    dsimp only at hfill ⊢
    split_ifs at hfill with hmany
    obtain rfl := Option.some.inj hfill
    have hstart : OcfMbuf.Filled
        { ocfMbufInit with
          mbufSize := UInt16.ofInt crpIlen.toInt
          numFrags := UInt16.ofNat uioIov.length } [] :=
      ocfMbufInit_filled.congr rfl rfl rfl rfl
    simp only [maxMbufFrags] at hmany
    refine ⟨hstart.fillLoop Iovec.entry uioIov, ?_, ?_, (fillLoop_sizes _ _ _).2⟩
    · rw [List.length_map]
      omega
    · rw [List.length_map]
      exact (fillLoop_sizes _ _ _).1
  | contig addr =>
    dsimp only at hfill ⊢
    obtain rfl := Option.some.inj hfill
    have hstart : OcfMbuf.Filled
        { ocfMbufInit with
          numFrags := 1
          mbufSize := UInt16.ofInt crpIlen.toInt } [] :=
      ocfMbufInit_filled.congr rfl rfl rfl rfl
    exact ⟨hstart.put _, by simp, rfl, rfl⟩

end Data

/-- The data of a cryptop fits the array behind the reserved entries, and its length fits 16
bits. For a list of I/O vectors, the lower 16 bits of the length in the cryptop are that
length. -/
def DataFits (crp : CryptopData) : Prop :=
  match crp.crpBuf with
  | .skb skb => skb.frags.length < maxSkbFrags ∧ skb.len < 2 ^ 16
  | .iov uioIov => uioIov.length + 2 ≤ maxMbufFrags ∧
      ((uioIov.map Iovec.iovLen).sum : ℤ) = crp.crpIlen.toInt % 2 ^ 16
  | .contig _ => 0 ≤ crp.crpIlen.toInt ∧ crp.crpIlen.toInt < 2 ^ 16

/-- A socket buffer with an empty head and as many fragments as it can have, of one byte each. -/
def fullSkb : SkBuff :=
  { data := 0
    len := 18
    dataLen := 18
    frags := List.replicate 18 ⟨0, 0, 1⟩
    nrFrags_le := by decide
    dataLen_eq := by decide
    dataLen_le := by decide }

/-- The last fragment of a full socket buffer is written behind the array. -/
theorem ocfMbufBuild_outside :
    ∃ m, ocfMbufBuild ⟨18, .skb fullSkb⟩ = some m ∧ 20 ∈ m.written ∧
      ¬ m.Describes ⟨18, .skb fullSkb⟩ := by
  have hwritten : (ocfMbufBuild ⟨18, .skb fullSkb⟩).map OcfMbuf.written =
      some (List.range' 2 19) := by decide
  cases hbuild : ocfMbufBuild ⟨18, .skb fullSkb⟩ with
  | none => simp [hbuild] at hwritten
  | some m =>
    rw [hbuild, Option.map_some, Option.some.injEq] at hwritten
    have hlast : 20 ∈ m.written := by
      rw [hwritten]
      decide
    exact ⟨m, rfl, hlast, fun hdescribes => absurd (hdescribes.inside 20 hlast) (by decide)⟩

/-- The multi-buffer that is built for a cryptop describes its data exactly if the data fits. -/
theorem ocfMbufBuild_describes_iff {crp : CryptopData} {m : OcfMbuf}
    (hbuild : ocfMbufBuild crp = some m) : m.Describes crp ↔ DataFits crp := by
  obtain ⟨hfill, hlen⟩ : ocfMbufFill crp ocfMbufInit = some m ∧ crp.crpIlen.toInt ≤ 65536 := by
    unfold ocfMbufBuild at hbuild
    cases hfill : ocfMbufFill crp ocfMbufInit with
    | none => simp [hfill] at hbuild
    | some m' =>
      rw [hfill] at hbuild
      dsimp only at hbuild
      split_ifs at hbuild with hlarge
      obtain rfl := Option.some.inj hbuild
      exact ⟨rfl, by omega⟩
  obtain ⟨hfilled, hmany, hcount, hsize⟩ := ocfMbufFill_spec hfill
  have hcount' : m.numFrags.toNat = crp.entries.length := by
    rw [hcount, UInt16.toNat_ofNat']
    omega
  rw [hfilled.describes_iff hcount', hsize]
  obtain ⟨crpIlen, crpBuf⟩ := crp
  have hword : ((UInt16.ofInt crpIlen.toInt).toNat : ℤ) = crpIlen.toInt % 2 ^ 16 := by
    unfold UInt16.ofInt
    rw [UInt16.toNat_ofNat']
    omega
  unfold DataFits CryptopData.storedSize CryptopData.entries at *
  cases crpBuf with
  | skb skb =>
    dsimp only at hmany ⊢
    have hle := skb.nrFrags_le
    rw [skb_bytes_length, skb_entries_bytes, List.length_cons, List.length_map,
      UInt16.toNat_ofNat']
    simp only [maxSkbFrags] at hle ⊢
    constructor
    · rintro ⟨-, hfew, hlength⟩
      omega
    · rintro ⟨hfew, hlength⟩
      exact ⟨rfl, by omega, by omega⟩
  | iov uioIov =>
    dsimp only at hmany ⊢
    rw [iov_bytes_length, iov_entries_bytes, List.length_map]
    simp only [maxMbufFrags]
    constructor
    · rintro ⟨-, hfew, hlength⟩
      omega
    · rintro ⟨hfew, hlength⟩
      exact ⟨rfl, by omega, by omega⟩
  | contig addr =>
    have hlow := crpIlen.le_toInt
    have hbytes : mbufBytes [⟨addr, (UInt32.ofInt crpIlen.toInt).toNat⟩] =
        List.range' addr (UInt32.ofInt crpIlen.toInt).toNat := List.append_nil _
    have hlong : ((UInt32.ofInt crpIlen.toInt).toNat : ℤ) = crpIlen.toInt % 2 ^ 32 := by
      unfold UInt32.ofInt
      rw [UInt32.toNat_ofNat']
      omega
    dsimp only [CryptopData.bytes] at hmany hlen ⊢
    rw [hbytes, List.length_range', List.length_singleton]
    constructor
    · rintro ⟨hsame, -, hlength⟩
      have hcounts := congrArg List.length hsame
      rw [List.length_range', List.length_range'] at hcounts
      omega
    · rintro ⟨hnonneg, hlt⟩
      refine ⟨?_, by decide, by omega⟩
      congr 1
      omega

/-- A flat buffer of 100 bytes. -/
theorem ocfMbufBuild_describes_iff_flat :
    ∃ m, ocfMbufBuild ⟨100, .contig 0⟩ = some m ∧ m.Describes ⟨100, .contig 0⟩ := by
  refine ⟨_, rfl, (ocfMbufBuild_describes_iff rfl).mpr ?_⟩
  exact ⟨by decide, by decide⟩

end Mv88fxx81.Cesa
