import Mathlib.Data.List.Nodup
import Mathlib.Data.Nat.Basic
import Mathlib.Logic.Function.Basic

/-!
# Copying bytes through address functions

A copy reads and writes one byte after the other, at addresses that two functions give for
the position of the byte. When no byte is read from an address that the copy writes, and
no address is written twice, the destination holds the source afterwards.

The writes of a program may also be kept in a log and put into a memory afterwards.
-/

namespace MemoryCopy

variable {β : Type*} {toAt fromAt : ℕ → ℕ} {mem : ℕ → β} {len : ℕ}

/-- Copy `len` bytes, the byte at position `i` from `fromAt i` to `toAt i`. -/
def copy (toAt fromAt : ℕ → ℕ) : ℕ → (ℕ → β) → ℕ → β
  | 0, mem => mem
  | len + 1, mem =>
    Function.update (copy toAt fromAt len mem) (toAt len) (copy toAt fromAt len mem (fromAt len))

/-- A copy leaves the other addresses alone. -/
theorem copy_apply_of_ne (addr : ℕ) (hne : ∀ i < len, toAt i ≠ addr) :
    copy toAt fromAt len mem addr = mem addr := by
  induction len with
  | zero => rfl
  | succ len ih =>
    have hlast : addr ≠ toAt len := (hne len (Nat.lt_succ_self len)).symm
    simp only [copy, Function.update_of_ne hlast]
    exact ih (fun i hi => hne i (Nat.lt_succ_of_lt hi))

/-- The destination of a copy holds its source. -/
theorem copy_apply (hdisjoint : ∀ i < len, ∀ j < len, toAt i ≠ fromAt j)
    (hinjective : ∀ i < len, ∀ j < len, toAt i = toAt j → i = j) {i : ℕ} (hi : i < len) :
    copy toAt fromAt len mem (toAt i) = mem (fromAt i) := by
  induction len with
  | zero => omega
  | succ len ih =>
    have hlast : copy toAt fromAt len mem (fromAt len) = mem (fromAt len) :=
      copy_apply_of_ne _ (fun j hj => hdisjoint j (by omega) len (by omega))
    simp only [copy]
    by_cases heq : i = len
    · subst heq
      rw [Function.update_self, hlast]
    · have hne : toAt i ≠ toAt len := fun h => heq (hinjective i hi len (by omega) h)
      rw [Function.update_of_ne hne]
      exact ih (fun i hi j hj => hdisjoint i (by omega) j (by omega))
        (fun i hi j hj => hinjective i (by omega) j (by omega)) (by omega)

/-- A memory after the writes of a log. -/
def store (mem : ℕ → β) : List (ℕ × β) → ℕ → β
  | [] => mem
  | entry :: log => store (Function.update mem entry.1 entry.2) log

/-- The writes that put `bytes` at the addresses from `dst` on. -/
def writesAt (dst : ℕ) (bytes : List β) : List (ℕ × β) := (List.range' dst bytes.length).zip bytes

/-- Pairs with the two parts of a list. -/
theorem zip_append_left (head tail : List ℕ) (bytes : List β) :
    (head ++ tail).zip bytes = head.zip bytes ++ tail.zip (bytes.drop head.length) := by
  induction head generalizing bytes with
  | nil => rfl
  | cons addr head ih =>
    cases bytes with
    | nil => simp
    | cons byte bytes => simp [ih]

/-- The first `size` bytes are put at a range of `size` addresses. -/
theorem writesAt_take (dst size : ℕ) (bytes : List β) :
    writesAt dst (bytes.take size) = (List.range' dst size).zip bytes := by
  induction size generalizing dst bytes with
  | zero => simp [writesAt]
  | succ size ih =>
    cases bytes with
    | nil => simp [writesAt]
    | cons byte bytes =>
      have hrest := ih (dst + 1) bytes
      unfold writesAt at hrest ⊢
      rw [List.take_succ_cons, List.length_cons, List.range'_succ, List.range'_succ,
        List.zip_cons_cons, List.zip_cons_cons, hrest]

/-- An address that is not in the log keeps its byte. -/
theorem store_of_not_mem {log : List (ℕ × β)} {addr : ℕ} (hout : addr ∉ log.map Prod.fst) :
    store mem log addr = mem addr := by
  induction log generalizing mem with
  | nil => rfl
  | cons entry log ih =>
    obtain ⟨hne, hrest⟩ := not_or.1 (mt List.mem_cons.2 hout)
    rw [store, ih hrest, Function.update_of_ne hne]

/-- Writes to different addresses are found at them afterwards. -/
theorem map_store_zip {addrs : List ℕ} {bytes : List β} (hnodup : addrs.Nodup)
    (hlength : addrs.length = bytes.length) : addrs.map (store mem (addrs.zip bytes)) = bytes := by
  induction addrs generalizing mem bytes with
  | nil => exact (List.length_eq_zero_iff.1 hlength.symm).symm
  | cons addr addrs ih =>
    cases bytes with
    | nil => simp at hlength
    | cons byte bytes =>
      obtain ⟨hout, hnodup'⟩ := List.nodup_cons.1 hnodup
      have hlength' : addrs.length = bytes.length := Nat.succ.inj hlength
      have hfirst : addr ∉ (addrs.zip bytes).map Prod.fst := by
        rw [List.map_fst_zip (Nat.le_of_eq hlength')]
        exact hout
      rw [List.zip_cons_cons, List.map_cons]
      refine congrArg₂ List.cons ?_ (ih hnodup' hlength')
      rw [store, store_of_not_mem hfirst]
      exact Function.update_self _ _ _

end MemoryCopy
