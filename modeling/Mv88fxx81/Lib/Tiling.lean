import Mathlib.Data.Int.Notation
import Mathlib.Data.List.Basic

/-!
# Consecutive ranges

A range of integers is given by its start and its size. The ranges of a list tile an interval
if the first one begins at its start, each other one where the one before it ends, and the
last one ends at its end.
-/

namespace Tiling

/-- The ranges tile the interval from `start` to `stop`, in their order. -/
def Tiles : List (ℤ × ℤ) → ℤ → ℤ → Prop
  | [], start, stop => start = stop
  | range :: ranges, start, stop =>
    range.1 = start ∧ 0 ≤ range.2 ∧ Tiles ranges (start + range.2) stop

instance decidableTiles : (ranges : List (ℤ × ℤ)) → (start stop : ℤ) →
    Decidable (Tiles ranges start stop)
  | [], start, stop => inferInstanceAs (Decidable (start = stop))
  | range :: ranges, start, _ =>
    have := decidableTiles ranges (start + range.2)
    inferInstanceAs (Decidable (_ ∧ _ ∧ _))

variable {ranges : List (ℤ × ℤ)} {range : ℤ × ℤ} {start stop stop' : ℤ}

/-- One range alone. -/
theorem tiles_singleton : Tiles [range] start stop ↔
    range.1 = start ∧ 0 ≤ range.2 ∧ start + range.2 = stop := Iff.rfl

/-- Ranges tile one interval from a start on. -/
theorem Tiles.stop_eq (htiles : Tiles ranges start stop) (htiles' : Tiles ranges start stop') :
    stop = stop' := by
  induction ranges generalizing start with
  | nil => exact htiles.symm.trans htiles'
  | cons range ranges ih => exact ih htiles.2.2 htiles'.2.2

end Tiling
