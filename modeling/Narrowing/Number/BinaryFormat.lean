/-
This file describes binary floating formats and rounds quotients of naturals to them.
-/

namespace Narrowing

/-- A binary interchange format is fixed by its significant bits and its exponent bits. -/
structure BinaryFormat where
  precision : Nat
  exponentBits : Nat
deriving DecidableEq, Repr

namespace BinaryFormat

def half : BinaryFormat := ⟨11, 5⟩
def single : BinaryFormat := ⟨24, 8⟩
def double : BinaryFormat := ⟨53, 11⟩

/-- The last place of the least positive number is two to this exponent. -/
def lowest (format : BinaryFormat) : Int :=
  3 - Nat.pow 2 (format.exponentBits - 1) - format.precision

/-- The field of the significand starts at this bit. -/
def binade (format : BinaryFormat) : Nat := Nat.pow 2 (format.precision - 1)

/-- The magnitude code of infinity exceeds every finite magnitude code. -/
def infinity (format : BinaryFormat) : Nat :=
  (Nat.pow 2 format.exponentBits - 1) * format.binade

def signBit (format : BinaryFormat) : Nat := Nat.pow 2 format.exponentBits * format.binade

/-- A finite magnitude code names `significand * 2 ^ exponent`. -/
def decode (format : BinaryFormat) (code : Nat) : Nat × Int :=
  let field := code / format.binade
  if field = 0 then (code, format.lowest)
  else (code % format.binade + format.binade, format.lowest + (field - 1 : Nat))

end BinaryFormat

/-- The quotient rounds to the nearest natural and a half goes to the even neighbour. -/
def roundedQuotient (numerator denominator : Nat) : Nat :=
  let quotient := numerator / denominator
  let double := 2 * (numerator % denominator)
  if double < denominator then quotient
  else if denominator < double then quotient + 1
  else quotient + quotient % 2

theorem roundedQuotient_one (numerator : Nat) : roundedQuotient numerator 1 = numerator := by
  simp [roundedQuotient, Nat.mod_one]

/-- A power of two with a signed exponent is a quotient of two powers. -/
def scaledQuotient (numerator denominator : Nat) (exponent : Int) : Nat × Nat :=
  if 0 ≤ exponent then (numerator * Nat.pow 2 exponent.toNat, denominator)
  else (numerator, denominator * Nat.pow 2 (-exponent).toNat)

/-- The exponent of the largest power of two that does not exceed the quotient. -/
def binaryLogarithm (numerator denominator : Nat) : Int :=
  let guess : Int := (Nat.log2 numerator : Int) - (Nat.log2 denominator : Int)
  let scaled := scaledQuotient numerator denominator (-guess)
  if scaled.2 ≤ scaled.1 then guess else guess - 1

namespace BinaryFormat

/-- The magnitude code nearest to the quotient, where a tie goes to the even code. -/
def nearest (format : BinaryFormat) (numerator denominator : Nat) : Nat :=
  if numerator = 0 then 0
  else
    let place := max (binaryLogarithm numerator denominator - (format.precision - 1 : Nat))
      format.lowest
    let scaled := scaledQuotient numerator denominator (-place)
    let code := (place - format.lowest).toNat * format.binade +
      roundedQuotient scaled.1 scaled.2
    min code format.infinity

@[simp] theorem nearest_zero (format : BinaryFormat) (denominator : Nat) :
    format.nearest 0 denominator = 0 := rfl

theorem nearest_le_infinity (format : BinaryFormat) (numerator denominator : Nat) :
    format.nearest numerator denominator ≤ format.infinity := by
  unfold nearest
  split
  · exact Nat.zero_le _
  · exact Nat.min_le_right _ _

end BinaryFormat

end Narrowing
