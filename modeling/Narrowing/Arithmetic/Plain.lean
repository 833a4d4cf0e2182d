import Narrowing.Fault
import Narrowing.Number.ComplexFunction

/-
This file computes with the plain numbers: integers, fractions, doubles and complex numbers.
-/

namespace Narrowing

/-- A plain number belongs to no array. -/
inductive PlainNumber where
  | integer (value : Int)
  | ratio (value : Rat)
  | double (value : Float)
  | complex (value : ComplexDouble)

namespace Double

/-- The integer is odd, which no fraction and no infinity is. -/
def isOdd (value : Float) : Bool :=
  match toRat? value with
  | some exact => exact.den == 1 && exact.num % 2 != 0
  | none => false

/-- The real power; a negative base has integral powers only. -/
def pow (base exponent : Float) : Float :=
  let size := Elementary.power base.abs exponent
  if base.isNaN then if exponent == 0.0 then 1.0 else base
  else if exponent.isNaN then if base == 1.0 then 1.0 else exponent
  else if !negative base || exponent == 0.0 then size
  else if base != 0.0 && base.isFinite && exponent.isFinite && !isIntegral exponent then nan
  else if isOdd exponent then -size
  else size

end Double

namespace PlainNumber

def toValue : PlainNumber → Value
  | integer value => .integer value
  | ratio value => .ratio value
  | double value => .double value
  | complex value => .complex value

/-- The double of a real number; a number that is too large overflows. -/
def toDouble : PlainNumber → Except Fault Float
  | integer value => orFault (Double.ofInt? value) .overflow
  | ratio value => orFault (Double.ofRat? value) .overflow
  | double value => .ok value
  | complex _ => .error .operand

def toComplex : PlainNumber → Except Fault ComplexDouble
  | complex value => .ok value
  | number => number.toDouble.map .ofReal

/-- One operation, given for each kind of number. -/
structure Rule where
  integers : Int → Int → Except Fault PlainNumber
  ratios : Rat → Rat → Except Fault PlainNumber
  doubles : Float → Float → Except Fault PlainNumber
  complexes : ComplexDouble → ComplexDouble → Except Fault PlainNumber

/-- The later of the kinds of the two operands chooses the operation. -/
def Rule.apply (rule : Rule) (first second : PlainNumber) : Except Fault PlainNumber :=
  match first, second with
  | integer left, integer right => rule.integers left right
  | integer left, ratio right => rule.ratios left right
  | ratio left, integer right => rule.ratios left right
  | ratio left, ratio right => rule.ratios left right
  | complex _, _ | _, complex _ => do rule.complexes (← first.toComplex) (← second.toComplex)
  | _, _ => do rule.doubles (← first.toDouble) (← second.toDouble)

/-- An operation that is defined everywhere. -/
def Rule.total (integers : Int → Int → Int) (ratios : Rat → Rat → Rat)
    (doubles : Float → Float → Float)
    (complexes : ComplexDouble → ComplexDouble → ComplexDouble) : Rule where
  integers first second := .ok (.integer (integers first second))
  ratios first second := .ok (.ratio (ratios first second))
  doubles first second := .ok (.double (doubles first second))
  complexes first second := .ok (.complex (complexes first second))

def addition : Rule := .total (· + ·) (· + ·) (· + ·) ComplexDouble.add

def subtraction : Rule := .total (· - ·) (· - ·) (· - ·) ComplexDouble.sub

def multiplication : Rule := .total (· * ·) (· * ·) (· * ·) ComplexDouble.mul

/-- The quotient of two integers as a double; a zero keeps the sign of the quotient. -/
def integerQuotient (first second : Int) : Except Fault Float :=
  if second = 0 then .error .zeroDivision
  else if first = 0 then .ok (Double.zero (second < 0))
  else orFault (Double.ofRat? (first / second)) .overflow

def division : Rule where
  integers first second := (integerQuotient first second).map .double
  ratios first second :=
    if second = 0 then .error .zeroDivision else .ok (.ratio (first / second))
  doubles first second :=
    if second == 0.0 then .error .zeroDivision else .ok (.double (first / second))
  complexes first second := (orFault (first.div? second) .zeroDivision).map .complex

def neg : PlainNumber → PlainNumber
  | integer value => .integer (-value)
  | ratio value => .ratio (-value)
  | double value => .double (-value)
  | complex value => .complex value.neg

/-- The size of a finite complex number may overflow. -/
def complexSize (value : ComplexDouble) : Except Fault Float :=
  let size := value.abs
  if size.isInf && value.isFinite then .error .overflow else .ok size

def abs : PlainNumber → Except Fault PlainNumber
  | integer value => .ok (.integer value.natAbs)
  | ratio value => .ok (.ratio value.abs)
  | double value => .ok (.double value.abs)
  | complex value => (complexSize value).map .double

/-- The complex power; an infinite part is an overflow. -/
def complexPower (base exponent : ComplexDouble) : Except Fault PlainNumber := do
  let power ← orFault (base.pow exponent) .zeroDivision
  if power.real.isInf || power.imaginary.isInf then .error .overflow
  else .ok (.complex power)

/-- A negative base has a complex power when the exponent is not integral. -/
def doublePower (base exponent : Float) : Except Fault PlainNumber :=
  if base == 0.0 && exponent.isFinite && exponent < 0.0 then .error .zeroDivision
  else if base.isFinite && base < 0.0 && exponent.isFinite && !Double.isIntegral exponent then
    complexPower (.ofReal base) (.ofReal exponent)
  else
    let power := Double.pow base exponent
    if power.isInf && base.isFinite && exponent.isFinite then .error .overflow
    else .ok (.double power)

/-- A natural power; the powers of zero and of the units need no multiplication. -/
def wholePower (base : Int) (exponent : Nat) : Int :=
  if base = 0 then if exponent = 0 then 1 else 0
  else if base = 1 then 1
  else if base = -1 then if exponent % 2 = 0 then 1 else -1
  else base.pow exponent

/-- A power of a fraction with a natural exponent. -/
def naturalPower (base : Rat) (exponent : Nat) : Rat :=
  mkRat (wholePower base.num exponent) (wholePower base.den exponent).natAbs

/-- Zero has no negative power. -/
def ratioPower (base : Rat) (exponent : Int) : Except Fault Rat :=
  if base = 0 ∧ exponent < 0 then .error .zeroDivision
  else if exponent < 0 then .ok (naturalPower base exponent.natAbs)⁻¹
  else .ok (naturalPower base exponent.natAbs)

/-- A negative exponent leaves the integers for the doubles. -/
def integerPower (base exponent : Int) : Except Fault PlainNumber :=
  if 0 ≤ exponent then .ok (.integer (wholePower base exponent.toNat))
  else do
    doublePower (← (PlainNumber.integer base).toDouble)
      (← (PlainNumber.integer exponent).toDouble)

/-- Integral exponents keep exact bases exact. -/
def pow (base exponent : PlainNumber) : Except Fault PlainNumber :=
  match base, exponent with
  | integer left, integer right => integerPower left right
  | ratio left, integer right => (ratioPower left right).map .ratio
  | integer left, ratio right =>
      if right.den = 1 then
        if 0 ≤ right.num then .ok (.integer (wholePower left right.num.toNat))
        else (ratioPower left right.num).map .ratio
      else do doublePower (← base.toDouble) (← exponent.toDouble)
  | ratio left, ratio right =>
      if right.den = 1 then (ratioPower left right.num).map .ratio
      else do doublePower (← base.toDouble) (← exponent.toDouble)
  | complex _, _ | _, complex _ => do complexPower (← base.toComplex) (← exponent.toComplex)
  | _, _ => do doublePower (← base.toDouble) (← exponent.toDouble)

/-- The place of a real number on the extended line. -/
def extended? : PlainNumber → Option Extended
  | integer value => some (.finite value)
  | ratio value => some (.finite value)
  | double value => some (Double.toExtended value)
  | complex _ => none

/-- The order compares exact values; complex numbers have none. -/
def less (first second : PlainNumber) : Except Fault Bool :=
  match first.extended?, second.extended? with
  | some left, some right => .ok (left.less right)
  | _, _ => .error .operand

/-- The real and the imaginary part on the extended line. -/
def places : PlainNumber → Extended × Extended
  | complex value => (Double.toExtended value.real, Double.toExtended value.imaginary)
  | integer value => (.finite value, .finite 0)
  | ratio value => (.finite value, .finite 0)
  | double value => (Double.toExtended value, .finite 0)

def equals (first second : PlainNumber) : Bool :=
  first.places.1.agrees second.places.1 && first.places.2.agrees second.places.2

end PlainNumber

/-- The plain number behind a value; a truth value counts as zero or one. -/
def Value.plain? : Value → Option PlainNumber
  | .boolean value => some (.integer (if value then 1 else 0))
  | .integer value => some (.integer value)
  | .ratio value => some (.ratio value)
  | .double value => some (.double value)
  | .complex value => some (.complex value)
  | _ => none

end Narrowing
