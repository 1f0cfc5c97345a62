import Mathlib.Algebra.GroupWithZero.Nat

/-!
# Numerals of bounded numbers

A numeral of `Fin n` rests on a proof that `n` is not zero. The bounds of the models have one
named proof each, so that a numeral means the same term wherever it is written.
-/

namespace Literals

instance neZero_one : NeZero 1 := ⟨by decide⟩

instance neZero_two : NeZero 2 := ⟨by decide⟩

instance neZero_three : NeZero 3 := ⟨by decide⟩

instance neZero_four : NeZero 4 := ⟨by decide⟩

instance neZero_eight : NeZero 8 := ⟨by decide⟩

instance neZero_eleven : NeZero 11 := ⟨by decide⟩

instance neZero_sixteen : NeZero 16 := ⟨by decide⟩

instance neZero_oneHundredTwentyEight : NeZero 128 := ⟨by decide⟩

end Literals
