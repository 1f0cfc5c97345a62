import Mathlib.Data.List.Basic
import Mathlib.Order.Nat

/-!
# Iterated hash functions

A hash function that iterates a compression function over blocks of 64 bytes.
The first part is the iteration over a byte string; the second is the streaming
implementation, which keeps the bytes of an unfinished block in a buffer; the
third is the padding with a one bit, zeros and the bit length, and the keyed
construction over a hash.
-/

namespace BlockHash

section Iteration

variable {σ β : Type*} (compress : σ → List β → σ)

/-- Compress the first `n` blocks of a string. -/
def absorbBlocks : ℕ → σ → List β → σ
  | 0, s, _ => s
  | n + 1, s, data => absorbBlocks n (compress s (data.take 64)) (data.drop 64)

/-- Compress all whole blocks of a string; a shorter rest has no effect. -/
def absorb (s : σ) (data : List β) : σ := absorbBlocks compress (data.length / 64) s data

/-- The bytes after the last whole block. -/
def rest (data : List β) : List β := data.drop (data.length / 64 * 64)

/-- Copy `data` over a buffer from position `j` on. -/
def overwrite (buffer : List β) (j : ℕ) (data : List β) : List β :=
  buffer.take j ++ data ++ buffer.drop (j + data.length)

variable {compress} {s s₀ : σ} {data more buffer : List β}

theorem absorb_of_lt (hshort : data.length < 64) : absorb compress s data = s := by
  simp [absorb, Nat.div_eq_of_lt hshort, absorbBlocks]

theorem absorb_of_le (hlong : 64 ≤ data.length) :
    absorb compress s data = absorb compress (compress s (data.take 64)) (data.drop 64) := by
  have hblocks : data.length / 64 = (data.drop 64).length / 64 + 1 := by
    simp only [List.length_drop]
    omega
  rw [absorb, hblocks, absorbBlocks, absorb]

theorem absorb_block (hblock : data.length = 64) : absorb compress s data = compress s data := by
  rw [absorb_of_le hblock.symm.le, absorb_of_lt (by simp [hblock]),
    List.take_of_length_le hblock.le]

/-- Whole blocks can be absorbed first. -/
theorem absorb_append (hwhole : 64 ∣ data.length) :
    absorb compress s (data ++ more) = absorb compress (absorb compress s data) more := by
  obtain ⟨n, hn⟩ := hwhole
  induction n generalizing s data with
  | zero =>
    obtain rfl : data = [] := List.length_eq_zero_iff.mp (by omega)
    simp [absorb_of_lt]
  | succ n ih =>
    have hlong : 64 ≤ data.length := by omega
    have hlong' : 64 ≤ (data ++ more).length := by
      rw [List.length_append]
      omega
    rw [absorb_of_le hlong, absorb_of_le hlong', List.take_append_of_le_length hlong,
      List.drop_append_of_le_length hlong]
    exact ih (by simp only [List.length_drop]; omega)

@[simp] theorem rest_length : (rest data).length = data.length % 64 := by
  simp only [rest, List.length_drop]
  omega

/-- A string is its whole blocks followed by its rest. -/
theorem exists_whole_append_rest (data : List β) :
    ∃ whole, data = whole ++ rest data ∧ 64 ∣ whole.length :=
  ⟨data.take (data.length / 64 * 64), (List.take_append_drop _ _).symm,
    by simp only [List.length_take]; omega⟩

theorem rest_append_of_dvd (hwhole : 64 ∣ data.length) : rest (data ++ more) = rest more := by
  obtain ⟨n, hn⟩ := hwhole
  have hcut : (data ++ more).length / 64 * 64 = data.length + more.length / 64 * 64 := by
    simp only [List.length_append]
    omega
  rw [rest, hcut, List.drop_append, rest]
  simp

theorem rest_of_lt (hshort : data.length < 64) : rest data = data := by
  simp [rest, Nat.div_eq_of_lt hshort]

/-- What is left of a string and its continuation depends only on the rest of the string. -/
theorem rest_append : rest (data ++ more) = rest (rest data ++ more) := by
  obtain ⟨whole, hdata, hwhole⟩ := exists_whole_append_rest data
  conv_lhs => rw [hdata, List.append_assoc]
  exact rest_append_of_dvd hwhole

/-- A continuation is absorbed together with the rest of the string. -/
theorem absorb_append_rest :
    absorb compress s (data ++ more) =
      absorb compress (absorb compress s data) (rest data ++ more) := by
  obtain ⟨whole, hdata, hwhole⟩ := exists_whole_append_rest data
  have hrest : (rest data).length < 64 := by
    rw [rest_length]
    omega
  conv_lhs => rw [hdata, List.append_assoc, absorb_append hwhole]
  conv_rhs => rw [hdata, absorb_append hwhole, absorb_of_lt hrest, ← hdata]

theorem overwrite_length {j : ℕ} (hfit : j + data.length ≤ buffer.length) :
    (overwrite buffer j data).length = buffer.length := by
  simp only [overwrite, List.length_append, List.length_take, List.length_drop]
  omega

theorem overwrite_take {j : ℕ} (hfit : j + data.length ≤ buffer.length) :
    (overwrite buffer j data).take (j + data.length) = buffer.take j ++ data := by
  have hlength : (buffer.take j ++ data).length = j + data.length := by
    simp only [List.length_append, List.length_take]
    omega
  rw [overwrite, List.take_append_of_le_length hlength.symm.le, List.take_of_length_le hlength.le]

theorem overwrite_all {j : ℕ} (hfit : j + data.length = buffer.length) :
    overwrite buffer j data = buffer.take j ++ data := by
  simp [overwrite, hfit]

/-- Two copies one behind the other are one copy. -/
theorem overwrite_overwrite {j : ℕ} (hfit : j + data.length ≤ buffer.length) :
    overwrite (overwrite buffer j data) (j + data.length) more =
      overwrite buffer j (data ++ more) := by
  have hlength : (buffer.take j ++ data).length = j + data.length := by
    simp only [List.length_append, List.length_take]
    omega
  have hdrop : (overwrite buffer j data).drop (j + data.length + more.length) =
      buffer.drop (j + (data ++ more).length) := by
    rw [overwrite, List.drop_append, List.drop_eq_nil_of_le (by omega), hlength,
      List.drop_drop, List.length_append, List.nil_append]
    congr 1
    omega
  conv_lhs => rw [overwrite, overwrite_take hfit, hdrop]
  simp [overwrite]

/-- A streaming state: the chaining value after the whole blocks of `data`, and a
buffer that starts with the rest of it. -/
structure Holds (compress : σ → List β → σ) (s₀ : σ) (data : List β) (s : σ)
    (buffer : List β) : Prop where
  state : s = absorb compress s₀ data
  size : buffer.length = 64
  pending : buffer.take (data.length % 64) = rest data

/-- The streaming state before any data. -/
theorem Holds.start (hsize : buffer.length = 64) : Holds compress s₀ [] s₀ buffer :=
  { state := by simp [absorb_of_lt]
    size := hsize
    pending := by simp [rest] }

/-- Data that does not complete the block is put into the buffer. -/
theorem Holds.fill (hholds : Holds compress s₀ data s buffer)
    (hshort : data.length % 64 + more.length < 64) :
    Holds compress s₀ (data ++ more) s (overwrite buffer (data.length % 64) more) := by
  have hsize := hholds.size
  have hrest : (rest data ++ more).length < 64 := by simpa using hshort
  refine ⟨?_, ?_, ?_⟩
  · rw [absorb_append_rest, absorb_of_lt hrest]
    exact hholds.state
  · rw [overwrite_length (by omega), hsize]
  · have hlength : (data ++ more).length % 64 = data.length % 64 + more.length := by
      simp only [List.length_append]
      omega
    rw [hlength, overwrite_take (by omega), hholds.pending, rest_append, rest_of_lt hrest]

/-- Data that completes the block makes the buffer a block to compress. -/
theorem Holds.complete (hholds : Holds compress s₀ data s buffer)
    (hfull : data.length % 64 + more.length = 64) {buffer' : List β}
    (hsize' : buffer'.length = 64) :
    Holds compress s₀ (data ++ more)
      (compress s (overwrite buffer (data.length % 64) more)) buffer' := by
  have hsize := hholds.size
  have hrest : (rest data ++ more).length = 64 := by simpa using hfull
  refine ⟨?_, hsize', ?_⟩
  · rw [absorb_append_rest, absorb_block hrest, ← hholds.state, overwrite_all (by omega),
      hholds.pending]
  · have hlength : (data ++ more).length % 64 = 0 := by
      simp only [List.length_append]
      omega
    have hnone : rest (data ++ more) = [] := List.length_eq_zero_iff.mp (by simpa using hlength)
    rw [hlength, hnone, List.take_zero]

/-- Whole blocks are absorbed, and their rest is buffered, when no byte is pending. -/
theorem Holds.chunks (hholds : Holds compress s₀ data s buffer) (hwhole : data.length % 64 = 0)
    (more : List β) :
    Holds compress s₀ (data ++ more) (absorb compress s more)
      (overwrite buffer 0 (rest more)) := by
  have hfit : 0 + (rest more).length ≤ buffer.length := by
    rw [rest_length, hholds.size]
    omega
  have hdvd : 64 ∣ data.length := Nat.dvd_of_mod_eq_zero hwhole
  refine ⟨?_, ?_, ?_⟩
  · rw [absorb_append hdvd, ← hholds.state]
  · rw [overwrite_length hfit, hholds.size]
  · have hlength : (data ++ more).length % 64 = 0 + (rest more).length := by
      rw [List.length_append, rest_length]
      omega
    rw [hlength, overwrite_take hfit, rest_append_of_dvd hdvd]
    simp

/-- The block that was compressed last out of a buffer that at first held `buffer`. -/
def lastBlock (buffer data : List β) : List β :=
  if data.length < 64 then buffer else (data.drop ((data.length / 64 - 1) * 64)).take 64

/-- A streaming state whose buffer holds the last block with the rest of the data over it. -/
structure Buffered (buffer₀ data buffer : List β) : Prop where
  size : buffer₀.length = 64
  eq : buffer = overwrite (lastBlock buffer₀ data) 0 (rest data)

variable {buffer₀ : List β}

theorem lastBlock_length (data : List β) (hsize : buffer₀.length = 64) :
    (lastBlock buffer₀ data).length = 64 := by
  unfold lastBlock
  split
  · exact hsize
  · rw [List.length_take, List.length_drop]
    omega

/-- Data that does not complete the block leaves the last block. -/
theorem lastBlock_append_of_lt (hshort : data.length % 64 + more.length < 64) :
    lastBlock buffer₀ (data ++ more) = lastBlock buffer₀ data := by
  unfold lastBlock
  rw [List.length_append]
  by_cases hfew : data.length < 64
  · rw [if_pos (by omega), if_pos hfew]
  · rw [if_neg (by omega), if_neg hfew, show (data.length + more.length) / 64 = data.length / 64 by
      omega, List.drop_append_of_le_length (by omega), List.take_append_of_le_length]
    rw [List.length_drop]
    omega

/-- Data that completes the block makes it the last one. -/
theorem lastBlock_append_of_eq (hfull : data.length % 64 + more.length = 64) :
    lastBlock buffer₀ (data ++ more) = rest data ++ more := by
  unfold lastBlock rest
  rw [List.length_append, if_neg (by omega),
    show ((data.length + more.length) / 64 - 1) * 64 = data.length / 64 * 64 by omega,
    List.drop_append_of_le_length (by omega), List.take_of_length_le]
  rw [List.length_append, List.length_drop]
  omega

/-- Data is put over the rest that the buffer holds. -/
theorem Buffered.overwrite_eq (hbuffered : Buffered buffer₀ data buffer) :
    overwrite buffer (data.length % 64) more =
      overwrite (lastBlock buffer₀ data) 0 (rest data ++ more) := by
  have hlast := lastBlock_length data hbuffered.size
  have hmerge : overwrite (overwrite (lastBlock buffer₀ data) 0 (rest data))
      (0 + (rest data).length) more = overwrite (lastBlock buffer₀ data) 0 (rest data ++ more) :=
    overwrite_overwrite (by rw [hlast, rest_length]; omega)
  rw [Nat.zero_add, rest_length, ← hbuffered.eq] at hmerge
  exact hmerge

theorem Buffered.fill (hbuffered : Buffered buffer₀ data buffer)
    (hshort : data.length % 64 + more.length < 64) :
    Buffered buffer₀ (data ++ more) (overwrite buffer (data.length % 64) more) := by
  have hrest : (rest data ++ more).length < 64 := by simpa using hshort
  refine ⟨hbuffered.size, ?_⟩
  rw [hbuffered.overwrite_eq, lastBlock_append_of_lt hshort, rest_append,
    rest_of_lt hrest]

theorem Buffered.complete (hbuffered : Buffered buffer₀ data buffer)
    (hfull : data.length % 64 + more.length = 64) :
    Buffered buffer₀ (data ++ more) (overwrite buffer (data.length % 64) more) := by
  have hlast := lastBlock_length data hbuffered.size
  have hlength : (rest data ++ more).length = 64 := by simpa using hfull
  have hnone : rest (data ++ more) = [] := by
    rw [← List.length_eq_zero_iff, rest_length, List.length_append]
    omega
  refine ⟨hbuffered.size, ?_⟩
  rw [hbuffered.overwrite_eq, lastBlock_append_of_eq hfull, hnone,
    overwrite_all (by rw [hlast]; omega)]
  simp [overwrite]

end Iteration

section Padding

variable {σ : Type*} (compress : σ → List UInt8 → σ)

/-- The padding of a message of `n` bytes: a one bit, zeros up to eight bytes
before a block boundary, and the encoded bit length. -/
def padding (encode : ℕ → List UInt8) (n : ℕ) : List UInt8 :=
  0x80 :: List.replicate ((119 - n % 64) % 64) 0 ++ encode (8 * n)

/-- The chaining value after a message whose first `done` bytes led to `s`. -/
def finish (encode : ℕ → List UInt8) (s : σ) (done : ℕ) (data : List UInt8) : σ :=
  absorb compress s (data ++ padding encode (done + data.length))

/-- Bytes hashed before can be counted as done or as data. -/
theorem finish_absorb {encode : ℕ → List UInt8} {s : σ} {done : ℕ} {head tail : List UInt8}
    (hwhole : 64 ∣ head.length) :
    finish compress encode (absorb compress s head) (done + head.length) tail =
      finish compress encode s done (head ++ tail) := by
  rw [finish, finish, List.append_assoc, absorb_append hwhole, List.length_append, Nat.add_assoc]

/-- A key filled up with zeros to one block and combined with a constant byte. -/
def keyBlock (byte : UInt8) (key : List UInt8) : List UInt8 :=
  (key ++ List.replicate (64 - key.length) 0).map (byte ^^^ ·)

/-- The keyed construction: the hash of the outer key block and the hash of the
inner key block and the message. -/
def hmac (hash : List UInt8 → List UInt8) (key message : List UInt8) : List UInt8 :=
  hash (keyBlock 0x5c key ++ hash (keyBlock 0x36 key ++ message))

theorem keyBlock_length (byte : UInt8) {key : List UInt8} (hkey : key.length ≤ 64) :
    (keyBlock byte key).length = 64 := by
  simp only [keyBlock, List.length_map, List.length_append, List.length_replicate]
  omega

end Padding

end BlockHash
