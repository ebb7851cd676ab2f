import Mathlib.Tactic

/-!
# Sizes of fixed arrays

A fixed array of the source is a function from `Fin n`, and its constant
indices are numerals.  Those need `n` not to be 0, which is said once for each
size here.
-/

namespace EntropyOS.Foundation

instance neZero_three : NeZero 3 := ⟨by decide⟩

instance neZero_eleven : NeZero 11 := ⟨by decide⟩

instance neZero_sixteen : NeZero 16 := ⟨by decide⟩

instance neZero_thirtySix : NeZero 36 := ⟨by decide⟩

instance neZero_seventyThree : NeZero 73 := ⟨by decide⟩

instance neZero_hundredTwentyEight : NeZero 128 := ⟨by decide⟩

instance neZero_fiveHundredTwelve : NeZero 512 := ⟨by decide⟩

end EntropyOS.Foundation
