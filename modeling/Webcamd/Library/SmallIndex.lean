import Mathlib

/-!
# Numerals of small index types

A numeral of `Fin n` comes with the fact that `n` is not 0.  For the sizes that several modules
number things with, the fact is stated here, so that their definitions use one.
-/

namespace Webcamd.Library

instance neZeroTwo : NeZero 2 := ⟨two_ne_zero⟩

instance neZeroThree : NeZero 3 := ⟨three_ne_zero⟩

end Webcamd.Library
