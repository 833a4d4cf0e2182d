import Narrowing.Number.Double

/-
This file reads decimal numbers into doubles and chooses the shortest decimal that reads back.
-/

namespace Narrowing

/-- A decimal number is an integer of digits times a power of ten. -/
structure Decimal where
  digits : Nat
  exponent : Int
deriving DecidableEq, Repr

namespace Decimal

/-- The number of digits, where zero has one digit. -/
def width (digits : Nat) : Nat := (Nat.toDigits 10 digits).length

/-- The quotient of two naturals that equals the decimal. -/
def quotient (value : Decimal) : Nat × Nat :=
  if 0 ≤ value.exponent then (value.digits * Nat.pow 10 value.exponent.toNat, 1)
  else (value.digits, Nat.pow 10 (-value.exponent).toNat)

/-- The double nearest to the decimal; exponents beyond all doubles need no large powers. -/
def toDouble (negative : Bool) (value : Decimal) : Float :=
  let leading := value.exponent + width value.digits
  if value.digits = 0 ∨ leading < -400 then Double.zero negative
  else if 400 < leading then Double.infinity negative
  else
    let quotient := value.quotient
    Double.ofQuotient negative quotient.1 quotient.2

/-- The power of ten with the exponent of the leading digit of the quotient. -/
def leadingExponent (numerator denominator : Nat) : Int :=
  if denominator ≤ numerator then ((width (numerator / denominator) - 1 : Nat) : Int)
  else
    let guess : Int := -(width (denominator / numerator) : Int)
    if denominator ≤ numerator * Nat.pow 10 (guess + 1).natAbs then guess + 1 else guess

end Decimal

namespace BinaryFormat

/-- The interval of numbers that round to a finite positive code, as naturals over one
denominator: the lower end, the value, the upper end and the denominator. -/
def roundingInterval (format : BinaryFormat) (code : Nat) : Nat × Nat × Nat × Nat :=
  let parts := format.decode code
  let lowerGap := if parts.1 = format.binade ∧ format.lowest < parts.2 then 1 else 2
  let exponent := parts.2 - 2
  let unit := scaledQuotient 1 1 exponent
  let value := 4 * parts.1
  ((value - lowerGap) * unit.1, value * unit.1, (value + 2) * unit.1, unit.2)

/-- A decimal reads back when it lies in the interval, whose ends belong to even codes. -/
def readsBack (format : BinaryFormat) (code : Nat) (candidate : Decimal) : Bool :=
  let interval := format.roundingInterval code
  let quotient := candidate.quotient
  let point := quotient.1 * interval.2.2.2
  let low := interval.1 * quotient.2
  let high := interval.2.2.1 * quotient.2
  if code % 2 = 0 then low ≤ point && point ≤ high else low < point && point < high

/-- The nearest decimal with this many digits that reads back, if there is one. -/
def decimalOfWidth? (format : BinaryFormat) (code width : Nat) : Option Decimal :=
  let interval := format.roundingInterval code
  let leading := Decimal.leadingExponent interval.2.1 interval.2.2.2
  let exponent := leading + 1 - width
  let scaled : Nat × Nat :=
    if 0 ≤ exponent then (interval.2.1, interval.2.2.2 * Nat.pow 10 exponent.toNat)
    else (interval.2.1 * Nat.pow 10 (-exponent).toNat, interval.2.2.2)
  let below := scaled.1 / scaled.2
  let rest := scaled.1 % scaled.2
  let nearBelow := 2 * rest < scaled.2 || (2 * rest == scaled.2 && below % 2 == 0)
  let first := if nearBelow then below else below + 1
  let second := if nearBelow then below + 1 else below
  [(⟨first, exponent⟩ : Decimal), ⟨second, exponent⟩].find? (format.readsBack code)

/-- The shortest decimal that reads back as a finite positive code. -/
def shortest (format : BinaryFormat) (code : Nat) : Decimal :=
  ((List.range 17).findSome? fun index => format.decimalOfWidth? code (index + 1)).getD
    (let parts := format.decode code
     ⟨parts.1, parts.2⟩)

end BinaryFormat

/-- A layout of decimal digits says where positional writing ends and whether a whole number
keeps a point. -/
structure DecimalLayout where
  pointed : Bool

namespace DecimalLayout

def paddedExponent (exponent : Int) : String :=
  let digits := toString exponent.natAbs
  (if exponent < 0 then "-" else "+") ++ (if digits.length < 2 then "0" ++ digits else digits)

/-- Numbers from one ten thousandth to ten to the sixteenth are written positionally. -/
def write (layout : DecimalLayout) (value : Decimal) : String :=
  let trimmed := (Nat.toDigits 10 value.digits).reverse.dropWhile (· == '0') |>.reverse
  let leading : Int := value.exponent + Decimal.width value.digits - 1
  let size : Int := trimmed.length
  if -4 ≤ leading ∧ leading < 16 then
    if leading < 0 then
      "0." ++ String.ofList (List.replicate (-leading - 1).toNat '0' ++ trimmed)
    else if size ≤ leading + 1 then
      String.ofList (trimmed ++ List.replicate (leading + 1 - size).toNat '0') ++
        (if layout.pointed then ".0" else "")
    else
      String.ofList (trimmed.take (leading + 1).toNat) ++ "." ++
        String.ofList (trimmed.drop (leading + 1).toNat)
  else
    let mantissa := match trimmed with
      | [] => "0"
      | [digit] => String.singleton digit
      | digit :: rest => String.singleton digit ++ "." ++ String.ofList rest
    mantissa ++ "e" ++ paddedExponent leading

/-- The text of a floating number given by its sign and its magnitude code. -/
def text (layout : DecimalLayout) (format : BinaryFormat) (negative : Bool) (code : Nat) :
    String :=
  if format.infinity < code then "nan"
  else (if negative then "-" else "") ++
    if code = format.infinity then "inf"
    else if code = 0 then (if layout.pointed then "0.0" else "0")
    else layout.write (format.shortest code)

end DecimalLayout

/-- A real number always shows a point or an exponent. -/
def realLayout : DecimalLayout := ⟨true⟩

/-- The parts of a complex number drop a point that says nothing. -/
def partLayout : DecimalLayout := ⟨false⟩

end Narrowing
