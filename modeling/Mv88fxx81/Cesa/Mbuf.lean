import Mathlib.Algebra.BigOperators.Group.List.Basic
import Mathlib.Algebra.GroupWithZero.Nat
import Mathlib.Data.List.Basic

/-!
# Multi-buffer data

Packet data is a sequence of fragments. A position in the data is located by a
fragment number and an offset in that fragment, and the walks over the data
continue from there to the end of the fragment and then through the following
ones.
-/

namespace Mv88fxx81.Cesa

/-- The loop of `mvCesaMbufOffset` from fragment number `frag` on, over the sizes
of the fragments from there. `none` stands for `MV_INVALID`. -/
def mbufOffsetLoop : List ℕ → ℕ → ℕ → Option (ℕ × ℕ)
  | _, frag, 0 => some (frag, 0)
  | [], _, _ + 1 => none
  | bufSize :: sizes, frag, offset + 1 =>
    if offset + 1 < bufSize then some (frag, offset + 1)
    else mbufOffsetLoop sizes (frag + 1) (offset + 1 - bufSize)

/-- `mvCesaMbufOffset`: the fragment and the offset in it of a position. A
position at the end of the data gives the number of fragments. -/
def mvCesaMbufOffset (frags : List (List UInt8)) (offset : ℕ) : Option (ℕ × ℕ) :=
  mbufOffsetLoop (frags.map List.length) 0 offset

/-- The data that follows a located position. -/
def dataFrom (frags : List (List UInt8)) (frag fragOffset : ℕ) : List UInt8 :=
  match frags.drop frag with
  | [] => []
  | cur :: rest => cur.drop fragOffset ++ rest.flatten

/-- The loop finds exactly the positions of the data, its end included, and what
follows the position found is what follows the position asked for. -/
theorem mbufOffsetLoop_spec (frags : List (List UInt8)) (frag offset : ℕ)
    (hrange : offset ≤ frags.flatten.length) :
    ∃ k fragOffset, mbufOffsetLoop (frags.map List.length) frag offset =
        some (frag + k, fragOffset) ∧
      dataFrom frags k fragOffset = frags.flatten.drop offset := by
  induction frags generalizing frag offset with
  | nil =>
    obtain rfl : offset = 0 := by simpa using hrange
    exact ⟨0, 0, by simp [mbufOffsetLoop], by simp [dataFrom]⟩
  | cons cur rest ih =>
    cases offset with
    | zero => exact ⟨0, 0, by simp [mbufOffsetLoop], by simp [dataFrom]⟩
    | succ offset =>
      simp only [List.map_cons, mbufOffsetLoop]
      by_cases hinside : offset + 1 < cur.length
      · rw [if_pos hinside]
        refine ⟨0, offset + 1, rfl, ?_⟩
        rw [List.flatten_cons, List.drop_append_of_le_length (by omega)]
        rfl
      · rw [if_neg hinside]
        have hrest : offset + 1 - cur.length ≤ rest.flatten.length := by
          rw [List.flatten_cons, List.length_append] at hrange
          omega
        obtain ⟨k, fragOffset, hloop, hdata⟩ := ih (frag + 1) _ hrest
        refine ⟨k + 1, fragOffset, by rw [hloop]; congr 2; omega, ?_⟩
        rw [List.flatten_cons, List.drop_append, List.drop_eq_nil_of_le (by omega), List.nil_append,
          ← hdata]
        rfl

/-- `mvCesaMbufOffset` finds every position of the data, its end included. -/
theorem mvCesaMbufOffset_spec {frags : List (List UInt8)} {offset : ℕ}
    (hrange : offset ≤ frags.flatten.length) :
    ∃ frag fragOffset, mvCesaMbufOffset frags offset = some (frag, fragOffset) ∧
      dataFrom frags frag fragOffset = frags.flatten.drop offset := by
  obtain ⟨k, fragOffset, hloop, hdata⟩ := mbufOffsetLoop_spec frags 0 offset hrange
  exact ⟨k, fragOffset, by rw [mvCesaMbufOffset, hloop, Nat.zero_add], hdata⟩

section Tail

variable {γ : Type*} (update : γ → List UInt8 → γ)

/-- The loop `while(macLeftSize > 0)` of the two completion functions: `left` bytes
are passed on, from the current fragment and then from the following ones. It is
`none` when the walk leaves the fragments. -/
def tailLoop : γ → List UInt8 → List (List UInt8) → ℕ → Option γ
  | ctx, _, _, 0 => some ctx
  | ctx, cur, [], left + 1 =>
    if left + 1 ≤ cur.length then some (update ctx (cur.take (left + 1))) else none
  | ctx, cur, next :: rest, left + 1 =>
    if left + 1 ≤ cur.length then some (update ctx (cur.take (left + 1)))
    else tailLoop (update ctx cur) next rest (left + 1 - cur.length)

/-- The part of the completion functions that hashes the tail of the data: it
starts at `offset` of the multi-buffer and takes `left` bytes. -/
def updateTail (ctx : γ) (frags : List (List UInt8)) (offset left : ℕ) : Option γ :=
  match mvCesaMbufOffset frags offset with
  | none => none
  | some (frag, fragOffset) =>
    match frags.drop frag with
    -- the entry behind the last fragment is read, but used only if data is left
    | [] => if left = 0 then some ctx else none
    | cur :: rest => tailLoop update ctx (cur.drop fragOffset) rest left

variable {update}

/-- The loop passes on pieces that make up the bytes asked for. -/
theorem tailLoop_spec (ctx : γ) (cur : List UInt8) (rest : List (List UInt8)) (left : ℕ)
    (hrange : left ≤ (cur ++ rest.flatten).length) :
    ∃ pieces : List (List UInt8),
      tailLoop update ctx cur rest left = some (pieces.foldl update ctx) ∧
      pieces.flatten = (cur ++ rest.flatten).take left := by
  induction rest generalizing ctx cur left with
  | nil =>
    cases left with
    | zero => exact ⟨[], by simp [tailLoop], by simp⟩
    | succ left =>
      have hcur : left + 1 ≤ cur.length := by simpa using hrange
      exact ⟨[cur.take (left + 1)], by simp [tailLoop, hcur], by simp⟩
  | cons next rest ih =>
    cases left with
    | zero => exact ⟨[], by simp [tailLoop], by simp⟩
    | succ left =>
      by_cases hcur : left + 1 ≤ cur.length
      · refine ⟨[cur.take (left + 1)], by simp [tailLoop, hcur], ?_⟩
        rw [List.take_append_of_le_length hcur]
        simp
      · have hrest : left + 1 - cur.length ≤ (next ++ rest.flatten).length := by
          simp only [List.flatten_cons, List.length_append] at hrange ⊢
          omega
        obtain ⟨pieces, hloop, hpieces⟩ := ih (update ctx cur) next _ hrest
        refine ⟨cur :: pieces, by simp only [tailLoop, if_neg hcur, hloop, List.foldl_cons], ?_⟩
        have hsplit : (cur ++ (next ++ rest.flatten)).take (left + 1) =
            cur ++ (next ++ rest.flatten).take (left + 1 - cur.length) := by
          rw [List.take_append, List.take_of_length_le (by omega)]
        rw [List.flatten_cons, hpieces, List.flatten_cons, hsplit]

/-- The tail is passed on in pieces that make up its bytes. -/
theorem updateTail_spec {frags : List (List UInt8)} {offset left : ℕ} (ctx : γ)
    (hrange : offset + left ≤ frags.flatten.length) :
    ∃ pieces : List (List UInt8), updateTail update ctx frags offset left =
        some (pieces.foldl update ctx) ∧
      pieces.flatten = (frags.flatten.drop offset).take left := by
  obtain ⟨frag, fragOffset, hoffset, hdata⟩ :=
    mvCesaMbufOffset_spec (show offset ≤ frags.flatten.length by omega)
  have hleft : left ≤ (frags.flatten.drop offset).length := by
    rw [List.length_drop]
    omega
  rw [← hdata] at hleft ⊢
  simp only [updateTail, hoffset]
  unfold dataFrom at hleft ⊢
  cases hdrop : frags.drop frag with
  | nil =>
    obtain rfl : left = 0 := by simpa [hdrop] using hleft
    exact ⟨[], by simp, by simp⟩
  | cons cur rest =>
    rw [hdrop] at hleft
    exact tailLoop_spec ctx (cur.drop fragOffset) rest left hleft

end Tail

end Mv88fxx81.Cesa
