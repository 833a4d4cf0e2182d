import Narrowing.Number.Half

/-
This file holds complex numbers in double and in single precision.
-/

namespace Narrowing

/-- A complex number keeps the bits of both parts. -/
structure ComplexDouble where
  real : Float
  imaginary : Float
deriving DecidableEq

structure ComplexSingle where
  real : Float32
  imaginary : Float32
deriving DecidableEq

def ComplexDouble.ofReal (value : Float) : ComplexDouble := ⟨value, 0.0⟩

/-- The conversion rounds each part once. -/
def ComplexSingle.ofDouble (value : ComplexDouble) : ComplexSingle :=
  ⟨Single.ofDouble value.real, Single.ofDouble value.imaginary⟩

/-- The conversion is exact. -/
def ComplexSingle.toDouble (value : ComplexSingle) : ComplexDouble :=
  ⟨Single.toDouble value.real, Single.toDouble value.imaginary⟩

end Narrowing
