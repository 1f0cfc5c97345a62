import Mv88fxx81.Cesa.AesCipher

/-!
# The key schedule

`rijndaelKeySched` expands a key of 128, 192 or 256 bits into the round keys, a key length of
columns at a time, and `aesMakeKey` stores the last columns of them for decryption. The columns
follow the recurrence of the standard, so the stored ones tell the key.
-/

namespace Mv88fxx81.Cesa.Aes

open ByteField (Byte)

/-- The error codes of the cipher. -/
inductive AesError
  /-- `AES_BAD_KEY_MAT`. -/
  | badKeyMat
  /-- `AES_BAD_CIPHER_STATE`. -/
  | badCipherState
  deriving DecidableEq, Repr

/-- `KC`, the columns of a key. -/
def keyColumns : ℕ → Option ℕ
  | 128 => some 4
  | 192 => some 6
  | 256 => some 8
  | _ => none

/-- `ROUNDS` for blocks of 128 bits. -/
def roundsOf (KC : ℕ) : ℕ := KC + 6

/-- `tk[i][j] ^= tk[i][j-1]` in every row. -/
def xorPrevious (tk : List Column) (j : ℕ) : List Column :=
  tk.set j ((tk.getD j .zero).xor (tk.getD (j - 1) .zero))

/-- The change of the first column, with the substitution of the turned last one. -/
def firstColumn (KC : ℕ) (rc : Byte) (tk : List Column) : List Column :=
  let first := tk.getD 0 .zero
  let prev := tk.getD (KC - 1) .zero
  tk.set 0 ⟨first.b0 ^^^ box s prev.b1 ^^^ rc, first.b1 ^^^ box s prev.b2,
    first.b2 ^^^ box s prev.b3, first.b3 ^^^ box s prev.b0⟩

/-- The change of the middle column of a long key. -/
def middleColumn (KC : ℕ) (tk : List Column) : List Column :=
  tk.set (KC / 2) ((tk.getD (KC / 2) .zero).xor ((tk.getD (KC / 2 - 1) .zero).map (box s)))

/-- The new values of a pass of the loop. -/
def nextColumns (KC : ℕ) (rc : Byte) (tk : List Column) : List Column :=
  if KC ≠ 8 then (List.range' 1 (KC - 1)).foldl xorPrevious (firstColumn KC rc tk)
  else
    (List.range' (KC / 2 + 1) (KC - (KC / 2 + 1))).foldl xorPrevious
      (middleColumn KC ((List.range' 1 (KC / 2 - 1)).foldl xorPrevious (firstColumn KC rc tk)))

/-- The loop that copies the values into the round keys, of which `W.length` are there. -/
def copyColumns (limit : ℕ) : List Column → List Column → List Column
  | [], W => W
  | c :: tk, W => if W.length < limit then copyColumns limit tk (W ++ [c]) else W

/-- The loop of `rijndaelKeySched`, with a bound for its passes. -/
def scheduleLoop (KC limit : ℕ) : ℕ → ℕ → List Column → List Column → List Column
  | 0, _, _, W => W
  | passes + 1, rconpointer, tk, W =>
    if W.length < limit then
      let tk := nextColumns KC (entry rcon rconpointer) tk
      scheduleLoop KC limit passes (rconpointer + 1) tk (copyColumns limit tk W)
    else W

/-- `rijndaelKeySched` for a key of `KC` columns. -/
def rijndaelKeySched (k : List Column) (KC : ℕ) : List Column :=
  scheduleLoop KC ((roundsOf KC + 1) * 4) ((roundsOf KC + 1) * 4) 0 k
    (copyColumns ((roundsOf KC + 1) * 4) k [])

/-- `k[i % 4][i / 4] = keyMaterial[i]`. -/
def keyState (keyMaterial : ℕ → Byte) (KC : ℕ) : List Column :=
  (List.range KC).map fun j =>
    ⟨keyMaterial (4 * j), keyMaterial (4 * j + 1), keyMaterial (4 * j + 2),
      keyMaterial (4 * j + 3)⟩

/-- The columns of `expandedKey`: the last round key, and for a long key columns of the one
before. -/
def storedColumn (W : List Column) (KC i : ℕ) : Column :=
  if i < 4 then W.getD (4 * roundsOf KC + i) .zero
  else W.getD (4 * (roundsOf KC - 1) + (i + 4 - KC)) .zero

/-- `aesMakeKey`, with the columns of `expandedKey`. -/
def aesMakeKey (keyMaterial : ℕ → Byte) (keyLen : ℕ) : Except AesError (List Column) :=
  match keyColumns keyLen with
  | none => .error .badKeyMat
  | some KC =>
    .ok ((List.range KC).map (storedColumn (rijndaelKeySched (keyState keyMaterial KC) KC) KC))

variable {KC limit m : ℕ} {rc : Byte} {k tk tk' W : List Column}

/-! ### A pass -/

theorem copyColumns_eq (limit : ℕ) (tk W : List Column) :
    copyColumns limit tk W = W ++ tk.take (limit - W.length) := by
  induction tk generalizing W with
  | nil => rw [copyColumns, List.take_nil, List.append_nil]
  | cons c tk ih =>
    rw [copyColumns]
    by_cases hroom : W.length < limit
    · obtain ⟨n, hn⟩ : ∃ n, limit - W.length = n + 1 := ⟨limit - W.length - 1, by omega⟩
      have hrest : limit - (W ++ [c]).length = n := by
        rw [List.length_append, List.length_singleton]
        omega
      rw [if_pos hroom, ih, hrest, hn, List.take_succ_cons, List.append_assoc]
      rfl
    · rw [if_neg hroom, Nat.sub_eq_zero_of_le (by omega), List.take_zero, List.append_nil]

theorem getD_set (tk : List Column) (i j : ℕ) (c : Column) :
    (tk.set i c).getD j .zero = if i = j ∧ i < tk.length then c else tk.getD j .zero := by
  simp only [List.getD_eq_getElem?_getD, List.getElem?_set]
  by_cases heq : i = j
  · by_cases hlen : i < tk.length
    · rw [if_pos heq, if_pos hlen, if_pos ⟨heq, hlen⟩]
      rfl
    · subst heq
      rw [if_pos rfl, if_neg hlen, if_neg fun h => hlen h.2, List.getElem?_eq_none (by omega)]
  · rw [if_neg heq, if_neg fun h => heq h.1]

/-- A run of the inner loop: every column of it takes up the new one before it. -/
theorem foldl_xorPrevious {a n : ℕ} (ha : 1 ≤ a) (han : a + n ≤ tk.length) :
    ((List.range' a n).foldl xorPrevious tk).length = tk.length ∧
      (∀ j, j < a ∨ a + n ≤ j →
        ((List.range' a n).foldl xorPrevious tk).getD j .zero = tk.getD j .zero) ∧
      ∀ j, a ≤ j → j < a + n → ((List.range' a n).foldl xorPrevious tk).getD j .zero =
        (tk.getD j .zero).xor (((List.range' a n).foldl xorPrevious tk).getD (j - 1) .zero) := by
  induction n with
  | zero => exact ⟨rfl, fun _ _ => rfl, fun _ _ _ => by omega⟩
  | succ n ih =>
    obtain ⟨hlen, hother, hrun⟩ := ih (by omega)
    rw [List.range'_1_concat, List.foldl_append]
    generalize (List.range' a n).foldl xorPrevious tk = run at hlen hother hrun ⊢
    have hget : ∀ j, (xorPrevious run (a + n)).getD j .zero =
        if a + n = j then (run.getD (a + n) .zero).xor (run.getD (a + n - 1) .zero)
        else run.getD j .zero := by
      intro j
      rw [xorPrevious, getD_set]
      simp only [show a + n < run.length by omega, and_true]
    refine ⟨by rw [List.foldl_cons, List.foldl_nil, xorPrevious, List.length_set, hlen], ?_, ?_⟩
    · intro j hj
      rw [List.foldl_cons, List.foldl_nil, hget, if_neg (by omega), hother j (by omega)]
    · intro j hle hlt
      rw [List.foldl_cons, List.foldl_nil, hget, hget, if_neg (show ¬ a + n = j - 1 by omega)]
      by_cases heq : a + n = j
      · rw [if_pos heq, hother (a + n) (by omega), heq]
      · rw [if_neg heq, hrun j hle (by omega)]

/-- What a pass makes of the columns. -/
structure Pass (KC : ℕ) (rc : Byte) (tk tk' : List Column) : Prop where
  length_eq : tk'.length = KC
  first : tk'.getD 0 .zero = (firstColumn KC rc tk).getD 0 .zero
  next : ∀ j, 1 ≤ j → j < KC → tk'.getD j .zero = (tk.getD j .zero).xor
    (if KC = 8 ∧ j = 4 then (tk'.getD (j - 1) .zero).map (box s) else tk'.getD (j - 1) .zero)

theorem firstColumn_getD {j : ℕ} (hj : 1 ≤ j) :
    (firstColumn KC rc tk).getD j .zero = tk.getD j .zero := by
  unfold firstColumn
  rw [getD_set, if_neg (by omega)]

theorem firstColumn_length : (firstColumn KC rc tk).length = tk.length := List.length_set

/-- The lengths of a key in columns. -/
def IsKeySize (KC : ℕ) : Prop := KC = 4 ∨ KC = 6 ∨ KC = 8

theorem nextColumns_pass (hKC : IsKeySize KC) (htk : tk.length = KC) :
    Pass KC rc tk (nextColumns KC rc tk) := by
  have hfirst : (firstColumn KC rc tk).length = KC := firstColumn_length.trans htk
  have hpos : 4 ≤ KC := by
    unfold IsKeySize at hKC
    omega
  unfold nextColumns
  by_cases hlong : KC = 8
  · rw [if_neg (not_not.mpr hlong)]
    obtain ⟨hlen, hother, hrun⟩ := @foldl_xorPrevious (firstColumn KC rc tk) 1 (KC / 2 - 1) le_rfl
      (by omega)
    generalize (List.range' 1 (KC / 2 - 1)).foldl xorPrevious (firstColumn KC rc tk) = low
      at hlen hother hrun ⊢
    have hmid : ∀ j, (middleColumn KC low).getD j .zero =
        if KC / 2 = j then (low.getD (KC / 2) .zero).xor
          ((low.getD (KC / 2 - 1) .zero).map (box s))
        else low.getD j .zero := by
      intro j
      rw [middleColumn, getD_set]
      simp only [show KC / 2 < low.length by omega, and_true]
    have hmidlen : (middleColumn KC low).length = KC :=
      List.length_set.trans (hlen.trans hfirst)
    obtain ⟨hlen', hother', hrun'⟩ := @foldl_xorPrevious (middleColumn KC low) (KC / 2 + 1)
      (KC - (KC / 2 + 1)) (by omega) (by omega)
    generalize (List.range' (KC / 2 + 1) (KC - (KC / 2 + 1))).foldl xorPrevious
      (middleColumn KC low) = high at hlen' hother' hrun' ⊢
    have hlow : ∀ j, j < KC / 2 → high.getD j .zero = low.getD j .zero := by
      intro j hj
      rw [hother' j (by omega), hmid, if_neg (by omega)]
    refine ⟨hlen'.trans hmidlen, ?_, ?_⟩
    · rw [hlow 0 (by omega), hother 0 (by omega)]
    · intro j hj1 hjK
      by_cases hbelow : j < KC / 2
      · rw [hlow j hbelow, hlow (j - 1) (by omega), hrun j hj1 (by omega), firstColumn_getD hj1,
          if_neg (by omega)]
      · by_cases hmiddle : j = 4
        · rw [if_pos ⟨hlong, hmiddle⟩, hlow (j - 1) (by omega), hother' j (by omega), hmid,
            if_pos (by omega), hother (KC / 2) (by omega), firstColumn_getD (by omega),
            show KC / 2 = j by omega]
        · rw [if_neg (by omega), hrun' j (by omega) (by omega), hmid, if_neg (by omega),
            hother j (by omega), firstColumn_getD hj1]
  · rw [if_pos hlong]
    obtain ⟨hlen, hother, hrun⟩ := @foldl_xorPrevious (firstColumn KC rc tk) 1 (KC - 1) le_rfl
      (by omega)
    refine ⟨hlen.trans hfirst, hother 0 (by omega), ?_⟩
    intro j hj1 hjK
    rw [hrun j hj1 (by omega), firstColumn_getD hj1, if_neg (by omega)]

/-! ### The recurrence -/

theorem firstColumn_word (hpos : 1 ≤ KC) (htk : tk.length = KC) (hm : m < 30) :
    ((firstColumn KC (entry rcon m) tk).getD 0 .zero).word =
      Rijndael.nextWord KC (KC * (m + 1)) (tk.getD 0 .zero).word
        (tk.getD (KC - 1) .zero).word := by
  funext r
  have hmod : KC * (m + 1) % KC = 0 := Nat.mul_mod_right KC (m + 1)
  have hdiv : KC * (m + 1) / KC = m + 1 := Nat.mul_div_cancel_left _ hpos
  have hrcon : entry rcon m = ByteField.pow 2 (m + 1 - 1) := entry_rcon hm
  unfold firstColumn
  rw [getD_set, if_pos ⟨rfl, by omega⟩, Rijndael.nextWord, Rijndael.temp, if_pos hmod, hdiv, hrcon]
  simp only [box_s]
  match r with
  | 0 => exact BitVec.xor_assoc ..
  | 1 | 2 | 3 => exact congrArg (_ ^^^ ·) BitVec.xor_zero.symm

/-- The columns so far follow the recurrence, and `tk` holds the last of them. -/
structure Scheduled (KC limit : ℕ) (k : List Column) (m : ℕ) (tk W : List Column) : Prop where
  length_eq : tk.length = KC
  expansion : Rijndael.IsExpansion KC W.length (fun i => (k.getD i .zero).word)
    (fun i => (W.getD i .zero).word)
  length_le : W.length ≤ limit
  room : W.length < limit → W.length = KC * (m + 1) ∧
    ∀ j < KC, tk.getD j .zero = W.getD (W.length - KC + j) .zero

theorem IsKeySize.four_le (hKC : IsKeySize KC) : 4 ≤ KC := by
  unfold IsKeySize at hKC
  omega

theorem getD_append_left {i : ℕ} (hi : i < W.length) :
    (W ++ tk).getD i .zero = W.getD i .zero := by
  rw [List.getD_eq_getElem?_getD, List.getElem?_append_left hi, List.getD_eq_getElem?_getD]

theorem getD_append_right {i : ℕ} (hi : W.length ≤ i) :
    (W ++ tk).getD i .zero = tk.getD (i - W.length) .zero := by
  rw [List.getD_eq_getElem?_getD, List.getElem?_append_right hi, List.getD_eq_getElem?_getD]

theorem getD_take {i n : ℕ} (hi : i < n) : (tk.take n).getD i .zero = tk.getD i .zero := by
  rw [List.getD_eq_getElem?_getD, List.getElem?_take_of_lt hi, List.getD_eq_getElem?_getD]

/-- A column of a pass is the next one of the recurrence. -/
theorem Pass.word_eq (hpass : Pass KC (entry rcon m) tk tk') (hKC : IsKeySize KC)
    (htk : tk.length = KC) (hm : m < 30) {j : ℕ} (hj : j < KC) :
    (tk'.getD j .zero).word = Rijndael.nextWord KC (KC * (m + 1) + j) (tk.getD j .zero).word
      (if j = 0 then tk.getD (KC - 1) .zero else tk'.getD (j - 1) .zero).word := by
  by_cases hzero : j = 0
  · subst hzero
    rw [if_pos rfl, hpass.first]
    exact firstColumn_word (by have h := hKC.four_le; omega) htk hm
  · have hmod : (KC * (m + 1) + j) % KC = j := by
      rw [Nat.mul_add_mod, Nat.mod_eq_of_lt hj]
    funext r
    rw [if_neg hzero, hpass.next j (by omega) hj, Column.word_xor, Rijndael.nextWord,
      Rijndael.temp, hmod, if_neg hzero]
    by_cases hlong : KC = 8 ∧ j = 4
    · rw [if_pos hlong, if_pos ⟨by omega, hlong.2⟩, Column.word_map, box_s, Rijndael.subWord]
    · have hshort : ¬ (6 < KC ∧ j = 4) := fun h => hlong ⟨by unfold IsKeySize at hKC; omega, h.2⟩
      rw [if_neg hlong, if_neg hshort]

/-- A pass keeps the recurrence. -/
theorem Scheduled.pass (hKC : IsKeySize KC) (h : Scheduled KC limit k m tk W) (hm : m < 30)
    (hroom : W.length < limit) :
    Scheduled KC limit k (m + 1) (nextColumns KC (entry rcon m) tk)
      (copyColumns limit (nextColumns KC (entry rcon m) tk) W) := by
  have hpass := @nextColumns_pass KC (entry rcon m) _ hKC h.length_eq
  have hpos := hKC.four_le
  obtain ⟨hlenW, hlast⟩ := h.room hroom
  have hle : KC ≤ W.length := by
    rw [hlenW]
    exact Nat.le_mul_of_pos_right KC (Nat.succ_pos m)
  generalize nextColumns KC (entry rcon m) tk = tk' at hpass ⊢
  rw [copyColumns_eq]
  obtain ⟨n, hn⟩ : ∃ n, limit - W.length = n := ⟨_, rfl⟩
  rw [hn]
  have hlen' : (W ++ tk'.take n).length = W.length + min n KC := by
    rw [List.length_append, List.length_take, hpass.length_eq]
  have hnew : ∀ j < KC, j < n → (W ++ tk'.take n).getD (W.length + j) .zero =
      tk'.getD j .zero := by
    intro j hj hjn
    rw [getD_append_right (Nat.le_add_right _ _), Nat.add_sub_cancel_left, getD_take hjn]
  refine ⟨hpass.length_eq, ⟨?_, ?_⟩, by omega, ?_⟩
  · intro i hi
    rw [getD_append_left (by omega)]
    exact h.expansion.start i hi
  · intro i hKCi hi
    dsimp only
    by_cases hold : i < W.length
    · rw [getD_append_left hold, getD_append_left (by omega), getD_append_left (by omega)]
      exact h.expansion.next i hKCi hold
    · obtain ⟨j, rfl⟩ : ∃ j, i = W.length + j := ⟨i - W.length, by omega⟩
      have hjK : j < KC := by omega
      have hback : (W ++ tk'.take n).getD (W.length + j - KC) .zero = tk.getD j .zero := by
        rw [getD_append_left (by omega), hlast j hjK]
        congr 1
        omega
      have hbefore : (W ++ tk'.take n).getD (W.length + j - 1) .zero =
          if j = 0 then tk.getD (KC - 1) .zero else tk'.getD (j - 1) .zero := by
        by_cases hzero : j = 0
        · rw [if_pos hzero, getD_append_left (by omega), hlast (KC - 1) (by omega)]
          congr 1
          omega
        · rw [if_neg hzero, ← hnew (j - 1) (by omega) (by omega)]
          congr 1
          omega
      rw [hnew j hjK (by omega), hback, hbefore, hpass.word_eq hKC h.length_eq hm hjK,
        ← hlenW]
  · intro hroom'
    have hall : min n KC = KC := by omega
    refine ⟨by rw [hlen', hall, hlenW, Nat.mul_succ KC (m + 1)], fun j hj => ?_⟩
    rw [hlen', hall, Nat.add_sub_cancel, hnew j hj (by omega)]

/-- The loop ends with all round keys, and they follow the recurrence. -/
theorem Scheduled.loop (hKC : IsKeySize KC) (hlimit : limit ≤ 4 * 15) (passes : ℕ)
    (hpasses : limit ≤ W.length + passes) (h : Scheduled KC limit k m tk W) :
    (scheduleLoop KC limit passes m tk W).length = limit ∧
      Rijndael.IsExpansion KC limit (fun i => (k.getD i .zero).word)
        (fun i => ((scheduleLoop KC limit passes m tk W).getD i .zero).word) := by
  induction passes generalizing m tk W with
  | zero =>
    have hlen : W.length = limit := le_antisymm h.length_le (by omega)
    rw [scheduleLoop, ← hlen]
    exact ⟨rfl, h.expansion⟩
  | succ passes ih =>
    rw [scheduleLoop]
    by_cases hroom : W.length < limit
    · rw [if_pos hroom]
      have hpos := hKC.four_le
      have hm : m < 30 := by
        have hlenW := (h.room hroom).1
        have hmul : 4 * (m + 1) ≤ KC * (m + 1) := Nat.mul_le_mul_right _ hpos
        omega
      refine ih ?_ (h.pass hKC hm hroom)
      rw [copyColumns_eq, List.length_append, List.length_take,
        (nextColumns_pass hKC h.length_eq).length_eq]
      omega
    · have hlen : W.length = limit := le_antisymm h.length_le (by omega)
      rw [if_neg hroom, ← hlen]
      exact ⟨rfl, h.expansion⟩

theorem limit_eq (KC : ℕ) : (roundsOf KC + 1) * 4 = 4 * (KC + 7) := by
  unfold roundsOf
  omega

theorem scheduled_start (hk : k.length = KC) :
    Scheduled KC (4 * (KC + 7)) k 0 k (copyColumns (4 * (KC + 7)) k []) := by
  have hall : copyColumns (4 * (KC + 7)) k [] = k := by
    rw [copyColumns_eq, List.nil_append,
      List.take_of_length_le (by simp only [List.length_nil]; omega)]
  rw [hall]
  refine ⟨hk, ⟨fun _ _ => rfl, fun i hle hlt => by omega⟩, by omega, fun _ => ⟨by omega, ?_⟩⟩
  intro j hj
  rw [hk, Nat.sub_self, Nat.zero_add]

theorem IsKeySize.le_eight (hKC : IsKeySize KC) : KC ≤ 8 := by
  unfold IsKeySize at hKC
  omega

theorem rijndaelKeySched_length (hKC : IsKeySize KC) (hk : k.length = KC) :
    (rijndaelKeySched k KC).length = 4 * (KC + 7) := by
  have hsize := hKC.le_eight
  rw [rijndaelKeySched, limit_eq]
  exact ((scheduled_start hk).loop hKC (by omega) _ (by omega)).1

theorem rijndaelKeySched_follows (hKC : IsKeySize KC) (hk : k.length = KC) :
    Rijndael.IsExpansion KC (4 * (KC + 7)) (fun i => (k.getD i .zero).word)
      (fun i => ((rijndaelKeySched k KC).getD i .zero).word) := by
  have hsize := hKC.le_eight
  rw [rijndaelKeySched, limit_eq]
  exact ((scheduled_start hk).loop hKC (by omega) _ (by omega)).2

/-- The round keys of `rijndaelKeySched` are all there and follow the recurrence of the standard. -/
theorem rijndaelKeySched_isExpansion (hKC : IsKeySize KC) (hk : k.length = KC) :
    (rijndaelKeySched k KC).length = 4 * (KC + 7) ∧
      Rijndael.IsExpansion KC (4 * (KC + 7)) (fun i => (k.getD i .zero).word)
        (fun i => ((rijndaelKeySched k KC).getD i .zero).word) :=
  ⟨rijndaelKeySched_length hKC hk, rijndaelKeySched_follows hKC hk⟩

/-- The schedule of a key of zeros. -/
theorem rijndaelKeySched_isExpansion_zero :
    (rijndaelKeySched [.zero, .zero, .zero, .zero] 4).length = 4 * (4 + 7) ∧
      Rijndael.IsExpansion 4 (4 * (4 + 7))
        (fun i => ([.zero, .zero, .zero, .zero] : List Column).getD i .zero |>.word)
        (fun i => ((rijndaelKeySched [.zero, .zero, .zero, .zero] 4).getD i .zero).word) :=
  rijndaelKeySched_isExpansion (.inl rfl) rfl

/-! ### The stored columns tell the key -/

theorem storedColumn_last (hKC : IsKeySize KC) {p : ℕ} (hlow : 4 * (KC + 7) ≤ p + KC)
    (hp : p < 4 * (KC + 7)) :
    ∃ i < KC, ∀ W : List Column, storedColumn W KC i = W.getD p .zero := by
  have hpos := hKC.four_le
  by_cases hlast : 4 * roundsOf KC ≤ p
  · refine ⟨p - 4 * roundsOf KC, ?_, fun W => ?_⟩
    · unfold roundsOf
      omega
    · unfold roundsOf at hlast
      rw [storedColumn, roundsOf, if_pos (by omega), Nat.add_sub_cancel' hlast]
  · unfold roundsOf at hlast
    refine ⟨p + KC - (4 * (KC + 5) + 4), by omega, fun W => ?_⟩
    have hsize : KC ≤ 8 := by
      unfold IsKeySize at hKC
      omega
    rw [storedColumn, roundsOf, if_neg (by omega)]
    congr 1
    omega

theorem keyState_getD (key : ℕ → Byte) {j : ℕ} (hj : j < KC) :
    (keyState key KC).getD j .zero =
      ⟨key (4 * j), key (4 * j + 1), key (4 * j + 2), key (4 * j + 3)⟩ := by
  rw [keyState, List.getD_eq_getElem?_getD, List.getElem?_map, List.getElem?_range hj]
  rfl

theorem keyColumns_size {keyLen : ℕ} (h : keyColumns keyLen = some KC) :
    IsKeySize KC ∧ keyLen = 32 * KC := by
  unfold keyColumns at h
  split at h
  all_goals cases h
  · exact ⟨.inl rfl, rfl⟩
  · exact ⟨.inr (.inl rfl), rfl⟩
  · exact ⟨.inr (.inr rfl), rfl⟩

/-- The key that is stored for decryption tells the key it was made of. -/
theorem aesMakeKey_injective {key key' : ℕ → Byte} {keyLen : ℕ} {expandedKey : List Column}
    (h : aesMakeKey key keyLen = .ok expandedKey)
    (h' : aesMakeKey key' keyLen = .ok expandedKey) : ∀ i < keyLen / 8, key i = key' i := by
  unfold aesMakeKey at h h'
  cases hsize : keyColumns keyLen with
  | none =>
    rw [hsize] at h
    cases h
  | some KC =>
    obtain ⟨hKC, hlen⟩ := keyColumns_size hsize
    rw [hsize] at h h'
    simp only [Except.ok.injEq] at h h'
    have hpos := hKC.four_le
    have hstate : ∀ key : ℕ → Byte, (keyState key KC).length = KC := fun key => by
      rw [keyState, List.length_map, List.length_range]
    have hw := rijndaelKeySched_follows hKC (hstate key)
    have hv := rijndaelKeySched_follows hKC (hstate key')
    have hend : ∀ p, 4 * (KC + 7) ≤ p + KC → p < 4 * (KC + 7) →
        ((rijndaelKeySched (keyState key KC) KC).getD p .zero).word =
          ((rijndaelKeySched (keyState key' KC) KC).getD p .zero).word := by
      intro p hlow hp
      obtain ⟨i, hi, hstored⟩ := storedColumn_last hKC hlow hp
      rw [← hstored, ← hstored]
      exact congrArg Column.word (List.map_inj_left.mp (h.trans h'.symm) i (List.mem_range.mpr hi))
    intro i hi
    have hj : i / 4 < KC := by omega
    have hword := hw.key_eq (by omega) hv hend hj (by omega)
    have hcol := Column.word_injective hword
    rw [keyState_getD key hj, keyState_getD key' hj, Column.mk.injEq] at hcol
    obtain ⟨h0, h1, h2, h3⟩ := hcol
    have hsplit : i = 4 * (i / 4) + i % 4 := (Nat.div_add_mod i 4).symm
    obtain hr | hr | hr | hr : i % 4 = 0 ∨ i % 4 = 1 ∨ i % 4 = 2 ∨ i % 4 = 3 := by omega
    all_goals rw [hsplit, hr]
    · exact h0
    · exact h1
    · exact h2
    · exact h3

/-- A key of 256 bits and what is stored for it. -/
theorem aesMakeKey_injective_counting :
    ∃ expandedKey, aesMakeKey (fun i => BitVec.ofNat 8 i) 256 = .ok expandedKey ∧
      ∀ i < 256 / 8, BitVec.ofNat 8 i = BitVec.ofNat 8 i :=
  ⟨_, rfl, aesMakeKey_injective rfl rfl⟩

end Mv88fxx81.Cesa.Aes
