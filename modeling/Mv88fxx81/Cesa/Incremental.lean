import Mathlib.Data.List.Basic
import Mv88fxx81.Cesa.Hmac

/-!
# Hashing in chunks

A string may be hashed chunk by chunk. Two updates, one after the other, leave the context that one
update with both chunks leaves. The MD5 code copies every block into its context; the SHA-1 code
transforms whole blocks where they lie, so that the bytes of its buffer that no longer belong to
the data depend on the chunks. They are never read.
-/

namespace Mv88fxx81.Cesa

open BlockHash

variable {garbage a b : List UInt8} {chunks : List (List UInt8)}

/-- A chunk lies beside a context of 92 bytes in the address space of 32 bits. -/
def InMemory (chunk : List UInt8) : Prop := chunk.length + 92 ≤ 2 ^ 32

instance (chunk : List UInt8) : Decidable (InMemory chunk) :=
  inferInstanceAs (Decidable (_ ≤ _))

/-- The bytes of the buffer that belong to the data. -/
def Sha1Context.pending (ctx : Sha1Context) : List UInt8 :=
  ctx.buffer.take ((ctx.count0 >>> 3) &&& 63).toNat

/-- Two contexts that differ at most in bytes of the buffer that are not read again. -/
structure Sha1Context.Agrees (ctx ctx' : Sha1Context) : Prop where
  state : ctx.state = ctx'.state
  count0 : ctx.count0 = ctx'.count0
  count1 : ctx.count1 = ctx'.count1
  pending : ctx.pending = ctx'.pending

/-- The counter of a context counts whole bytes. -/
def CountsBytes (count0 : UInt32) : Prop := count0.toNat % 8 = 0

/-- The two words of a bit counter are determined by the count. -/
theorem counter_inj {count0 count1 count0' count1' : UInt32}
    (heq : count0.toNat + 2 ^ 32 * count1.toNat = count0'.toNat + 2 ^ 32 * count1'.toNat) :
    count0 = count0' ∧ count1 = count1' := by
  have hlt := count0.toNat_lt
  have hlt' := count0'.toNat_lt
  exact ⟨UInt32.toNat_inj.1 (by omega), UInt32.toNat_inj.1 (by omega)⟩

/-- A count of bytes as whole blocks and pending bytes. -/
theorem counter_split {count0 : UInt32} (count1 : UInt32) (hbytes : CountsBytes count0) :
    ∃ blocks, count0.toNat + 2 ^ 32 * count1.toNat =
      8 * (64 * blocks + ((count0 >>> 3) &&& 63).toNat) % 2 ^ 64 := by
  unfold CountsBytes at hbytes
  have hlt := count0.toNat_lt
  have hlt' := count1.toNat_lt
  obtain ⟨n, hn⟩ : ∃ n, n = (count0.toNat + 2 ^ 32 * count1.toNat) / 8 := ⟨_, rfl⟩
  have hcount : count0.toNat + 2 ^ 32 * count1.toNat = 8 * (64 * (n / 64) + n % 64) % 2 ^ 64 := by
    omega
  have hpending := pendingBytes_eq (Nat.dvd_mul_right 64 (n / 64)) hcount
  rw [Nat.mod_mod] at hpending
  exact ⟨n / 64, by rw [hpending]; exact hcount⟩

theorem pending_lt (count0 : UInt32) : ((count0 >>> 3) &&& 63).toNat < 64 := by
  have hle := Nat.and_le_right (n := (count0 >>> 3).toNat) (m := 63)
  rw [UInt32.toNat_and]
  exact Nat.lt_succ_of_le hle

/-! ### SHA-1 -/

/-- A context of any chaining value and any count of bytes stands for the bytes in its buffer. -/
theorem Sha1Context.holds_pending {ctx : Sha1Context} (hsize : ctx.buffer.length = 64)
    (hbytes : CountsBytes ctx.count0) :
    ∃ blocks, ctx.Holds ctx.state (64 * blocks) ctx.pending := by
  obtain ⟨blocks, hcount⟩ := counter_split ctx.count1 hbytes
  have hlt := pending_lt ctx.count0
  have hlength : ctx.pending.length = ((ctx.count0 >>> 3) &&& 63).toNat := by
    unfold Sha1Context.pending
    rw [List.length_take]
    omega
  refine ⟨blocks, Nat.dvd_mul_right _ _, by rw [hlength]; exact hcount, ?_, hsize, ?_⟩
  · rw [absorb_of_lt (by omega)]
  · rw [rest_of_lt (by omega), hlength, Nat.mod_eq_of_lt hlt]
    rfl

/-- Two contexts that hold the same data. -/
theorem Sha1Context.Holds.agrees {ctx ctx' : Sha1Context} {s₀ : Sha1State} {done : ℕ}
    {data : List UInt8} (hholds : ctx.Holds s₀ done data) (hholds' : ctx'.Holds s₀ done data) :
    ctx.Agrees ctx' := by
  obtain ⟨hcount0, hcount1⟩ := counter_inj (hholds.count.trans hholds'.count.symm)
  refine ⟨hholds.stream.state.trans hholds'.stream.state.symm, hcount0, hcount1, ?_⟩
  have hpending := pendingBytes_eq hholds.whole hholds.count
  have hpending' := pendingBytes_eq hholds'.whole hholds'.count
  unfold Sha1Context.pending
  rw [hpending, hpending', hholds.stream.pending, hholds'.stream.pending]

/-- Two updates agree with one. -/
theorem mvSHA1Update_append {ctx : Sha1Context} (hsize : ctx.buffer.length = 64)
    (hbytes : CountsBytes ctx.count0) (hlen : (a ++ b).length < 2 ^ 32) :
    (mvSHA1Update (mvSHA1Update ctx a) b).Agrees (mvSHA1Update ctx (a ++ b)) := by
  obtain ⟨blocks, hholds⟩ := Sha1Context.holds_pending hsize hbytes
  have hlength := hlen
  rw [List.length_append] at hlength
  have hfirst : (mvSHA1Update ctx a).Holds ctx.state (64 * blocks) (ctx.pending ++ a) :=
    mvSHA1Update_holds hholds (by omega)
  have hboth := mvSHA1Update_holds hfirst (show b.length < 2 ^ 32 by omega)
  rw [List.append_assoc] at hboth
  exact hboth.agrees (mvSHA1Update_holds hholds hlen)

/-! ### MD5 -/

/-- The bytes that the buffer of a context holds. -/
def Md5Context.pending (ctx : Md5Context) : List UInt8 :=
  ctx.input.take ((ctx.bits0 >>> 3) &&& 63).toNat

theorem Md5Context.holds_pending {ctx : Md5Context} (hsize : ctx.input.length = 64)
    (hbytes : CountsBytes ctx.bits0) :
    ∃ blocks, ctx.Holds ctx.buf (64 * blocks) ctx.pending ∧
      Buffered ctx.input ctx.pending ctx.input := by
  obtain ⟨blocks, hcount⟩ := counter_split ctx.bits1 hbytes
  have hlt := pending_lt ctx.bits0
  have hlength : ctx.pending.length = ((ctx.bits0 >>> 3) &&& 63).toNat := by
    unfold Md5Context.pending
    rw [List.length_take]
    omega
  refine ⟨blocks, ⟨Nat.dvd_mul_right _ _, by rw [hlength]; exact hcount, ?_, hsize, ?_⟩, hsize, ?_⟩
  · rw [absorb_of_lt (by omega)]
  · rw [rest_of_lt (by omega), hlength, Nat.mod_eq_of_lt hlt]
    rfl
  · unfold lastBlock
    rw [if_pos (by omega), rest_of_lt (by omega), overwrite, hlength]
    simp [Md5Context.pending]

/-- The chunk loop leaves the last block in the buffer. -/
theorem md5Chunks_buffered {ctx : Md5Context} {buffer₀ data more : List UInt8}
    (hbuffered : Buffered buffer₀ data ctx.input) (hzero : data.length % 64 = 0) :
    Buffered buffer₀ (data ++ more) (md5Chunks ctx more).input := by
  induction ctx, more using md5Chunks.induct generalizing data with
  | case1 ctx more hlong ih =>
    rw [md5Chunks, if_pos hlong]
    have hfull : data.length % 64 + (more.take 64).length = 64 := by
      rw [List.length_take]
      omega
    have hlength : (data ++ more.take 64).length % 64 = 0 := by
      rw [List.length_append]
      omega
    have hcomplete := hbuffered.complete hfull
    rw [hzero] at hcomplete
    have hrest := ih hcomplete hlength
    rw [List.append_assoc, List.take_append_drop] at hrest
    exact hrest
  | case2 ctx more hshort =>
    rw [md5Chunks, if_neg hshort]
    have hfill := hbuffered.fill (show data.length % 64 + more.length < 64 by omega)
    rw [hzero] at hfill
    exact hfill

theorem mvMD5Update_buffered {ctx : Md5Context} {s₀ : Md5State} {done : ℕ}
    {buffer₀ data more : List UInt8} (hholds : ctx.Holds s₀ done data)
    (hbuffered : Buffered buffer₀ data ctx.input) :
    Buffered buffer₀ (data ++ more) (mvMD5Update ctx more).input := by
  have hpending := pendingBytes_eq hholds.whole hholds.bits
  unfold mvMD5Update
  simp only [hpending]
  by_cases hzero : data.length % 64 = 0
  · rw [if_neg (by simpa using hzero)]
    exact md5Chunks_buffered hbuffered hzero
  · rw [if_pos hzero]
    split
    next hshort => exact hbuffered.fill (by omega)
    next hlong =>
      have hfull : data.length % 64 + (more.take (64 - data.length % 64)).length = 64 := by
        rw [List.length_take]
        omega
      have hlength : (data ++ more.take (64 - data.length % 64)).length % 64 = 0 := by
        rw [List.length_append]
        omega
      rw [← List.take_append_drop (64 - data.length % 64) more, ← List.append_assoc]
      rw [List.take_append_drop]
      exact md5Chunks_buffered (hbuffered.complete hfull) hlength

/-- Two contexts that hold the same data, with the last block of it in the buffer, are equal. -/
theorem Md5Context.Holds.unique {ctx ctx' : Md5Context} {s₀ : Md5State} {done : ℕ}
    {buffer₀ data : List UInt8} (hholds : ctx.Holds s₀ done data)
    (hholds' : ctx'.Holds s₀ done data) (hbuffered : Buffered buffer₀ data ctx.input)
    (hbuffered' : Buffered buffer₀ data ctx'.input) : ctx = ctx' := by
  obtain ⟨hbits0, hbits1⟩ := counter_inj (hholds.bits.trans hholds'.bits.symm)
  have hbuf := hholds.stream.state.trans hholds'.stream.state.symm
  have hinput := hbuffered.eq.trans hbuffered'.eq.symm
  cases ctx
  cases ctx'
  simp only at hbits0 hbits1 hbuf hinput
  rw [hbits0, hbits1, hbuf, hinput]

/-- Two updates are one. -/
theorem mvMD5Update_append {ctx : Md5Context} (hsize : ctx.input.length = 64)
    (hbytes : CountsBytes ctx.bits0) (hlen : (a ++ b).length < 2 ^ 32) :
    mvMD5Update (mvMD5Update ctx a) b = mvMD5Update ctx (a ++ b) := by
  obtain ⟨blocks, hholds, hbuffered⟩ := Md5Context.holds_pending hsize hbytes
  have hlength := hlen
  rw [List.length_append] at hlength
  have hfirst : (mvMD5Update ctx a).Holds ctx.buf (64 * blocks) (ctx.pending ++ a) :=
    mvMD5Update_holds hholds (by omega)
  have hboth := mvMD5Update_holds hfirst (show b.length < 2 ^ 32 by omega)
  have hfirst' : Buffered ctx.input (ctx.pending ++ a) (mvMD5Update ctx a).input :=
    mvMD5Update_buffered hholds hbuffered
  have hboth' : Buffered ctx.input (ctx.pending ++ a ++ b)
      (mvMD5Update (mvMD5Update ctx a) b).input := mvMD5Update_buffered hfirst hfirst'
  rw [List.append_assoc] at hboth hboth'
  exact hboth.unique (mvMD5Update_holds hholds hlen) hboth'
    (mvMD5Update_buffered hholds hbuffered)

/-! ### Every way of cutting a string -/

/-- The digest of the SHA-1 code over chunks, in a context whose buffer holds `garbage`. -/
def sha1Chunked (garbage : List UInt8) (chunks : List (List UInt8)) : List UInt8 :=
  (mvSHA1Final (chunks.foldl mvSHA1Update (mvSHA1Init ⟨sha1InitState, 0, 0, garbage⟩))).1

/-- The digest of the MD5 code over chunks, in a context whose buffer holds `garbage`. -/
def md5Chunked (garbage : List UInt8) (chunks : List (List UInt8)) : List UInt8 :=
  (mvMD5Final (chunks.foldl mvMD5Update (mvMD5Init ⟨md5InitState, 0, 0, garbage⟩))).1

/-- A chunk in memory has a length of 32 bits. -/
theorem InMemory.length_lt {chunk : List UInt8} (hmemory : InMemory chunk) :
    chunk.length < 2 ^ 32 := by
  unfold InMemory at hmemory
  omega

theorem sha1Chunked_eq (hgarbage : garbage.length = 64)
    (hmemory : ∀ chunk ∈ chunks, InMemory chunk) :
    sha1Chunked garbage chunks = sha1 chunks.flatten := by
  have hstart : (mvSHA1Init ⟨sha1InitState, 0, 0, garbage⟩).Holds sha1InitState 0 [] :=
    mvSHA1Init_holds hgarbage
  have hholds := update_pieces mvSHA1Update_holds hstart fun chunk hmem => (hmemory chunk hmem).length_lt
  exact mvSHA1Final_digest hholds

theorem md5Chunked_eq (hgarbage : garbage.length = 64)
    (hmemory : ∀ chunk ∈ chunks, InMemory chunk) :
    md5Chunked garbage chunks = md5 chunks.flatten := by
  have hstart : (mvMD5Init ⟨md5InitState, 0, 0, garbage⟩).Holds md5InitState 0 [] :=
    mvMD5Init_holds hgarbage
  have hholds := update_pieces mvMD5Update_holds hstart fun chunk hmem => (hmemory chunk hmem).length_lt
  exact (mvMD5Final_digest hholds).1

/-- However a string is cut, the digest is the one of the string. Two updates leave the MD5
context of one update with both chunks, and a SHA-1 context that agrees with it. -/
theorem updates_hash_whole (hgarbage : garbage.length = 64) :
    (∀ chunks, (∀ chunk ∈ chunks, InMemory chunk) →
      sha1Chunked garbage chunks = sha1 chunks.flatten ∧
        md5Chunked garbage chunks = md5 chunks.flatten) ∧
      ∀ a b, InMemory (a ++ b) →
        (∀ ctx : Sha1Context, ctx.buffer.length = 64 → CountsBytes ctx.count0 →
          (mvSHA1Update (mvSHA1Update ctx a) b).Agrees (mvSHA1Update ctx (a ++ b))) ∧
          ∀ ctx : Md5Context, ctx.input.length = 64 → CountsBytes ctx.bits0 →
            mvMD5Update (mvMD5Update ctx a) b = mvMD5Update ctx (a ++ b) := by
  refine ⟨fun chunks hmemory => ?_, fun a b hmemory => ⟨fun ctx hsize hbytes => ?_,
    fun ctx hsize hbytes => ?_⟩⟩
  · exact ⟨sha1Chunked_eq hgarbage hmemory, md5Chunked_eq hgarbage hmemory⟩
  · exact mvSHA1Update_append hsize hbytes hmemory.length_lt
  · exact mvMD5Update_append hsize hbytes hmemory.length_lt

/-- A string in three chunks, one of them empty. -/
theorem updates_hash_whole_three :
    sha1Chunked (List.replicate 64 0xaa) [[1, 2], [], [3]] = sha1 [1, 2, 3] ∧
      md5Chunked (List.replicate 64 0xaa) [[1, 2], [], [3]] = md5 [1, 2, 3] :=
  (updates_hash_whole (by decide)).1 [[1, 2], [], [3]] (by decide)

/-- A block of zeros and a block of ones: the buffer of the SHA-1 context holds the ones only if
they came in an update of their own. -/
theorem mvSHA1Update_append_ne :
    mvSHA1Update (mvSHA1Update (mvSHA1Init ⟨sha1InitState, 0, 0, List.replicate 64 0⟩)
        (List.replicate 64 0)) (List.replicate 64 1) ≠
      mvSHA1Update (mvSHA1Init ⟨sha1InitState, 0, 0, List.replicate 64 0⟩)
        (List.replicate 64 0 ++ List.replicate 64 1) := by
  intro heq
  have hbuffer := congrArg Sha1Context.buffer heq
  simp only [mvSHA1Update, sha1Chunks_eq] at hbuffer
  revert hbuffer
  decide

end Mv88fxx81.Cesa
