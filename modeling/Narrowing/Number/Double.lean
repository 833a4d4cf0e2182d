import Narrowing.Number.BinaryFormat

/-
This file relates double precision numbers to exact rationals.
-/

namespace Narrowing

/-- A number of the extended line forgets the sign of zero. -/
inductive Extended where
  | finite (value : Rat)
  | infinite (negative : Bool)
  | undefined
deriving DecidableEq, Repr

namespace Extended

/-- A comparison with an undefined number fails. -/
def less : Extended → Extended → Bool
  | .finite first, .finite second => first < second
  | .infinite true, .finite _ => true
  | .finite _, .infinite false => true
  | .infinite true, .infinite false => true
  | _, _ => false

def agrees : Extended → Extended → Bool
  | .finite first, .finite second => first == second
  | .infinite first, .infinite second => first == second
  | _, _ => false

end Extended

/-- The dyadic rational with this significand and this exponent. -/
def dyadic (negative : Bool) (significand : Nat) (exponent : Int) : Rat :=
  let scaled := scaledQuotient significand 1 exponent
  mkRat (if negative then -scaled.1 else scaled.1) scaled.2

namespace Double

def ofMagnitude (negative : Bool) (code : Nat) : Float :=
  Float.ofBits (UInt64.ofNat
    (code + if negative then BinaryFormat.double.signBit else 0))

def nan : Float := Float.ofBits 0x7ff8000000000000

def infinity (negative : Bool) : Float := ofMagnitude negative BinaryFormat.double.infinity

def zero (negative : Bool) : Float := ofMagnitude negative 0

/-- The sign bit, which zeros and infinities carry too. -/
def negative (value : Float) : Bool := 0x8000000000000000 ≤ value.toBits

/-- The magnitude code drops the sign bit. -/
def magnitude (value : Float) : Nat := value.toBits.toNat % BinaryFormat.double.signBit

/-- The significand and the exponent of a finite number. -/
def parts (value : Float) : Nat × Int := BinaryFormat.double.decode (magnitude value)

def ofQuotient (negative : Bool) (numerator denominator : Nat) : Float :=
  ofMagnitude negative (BinaryFormat.double.nearest numerator denominator)

def ofRat (value : Rat) : Float :=
  ofQuotient (value.num < 0) value.num.natAbs value.den

def ofInt (value : Int) : Float := ofQuotient (value < 0) value.natAbs 1

/-- A conversion that leaves the finite numbers has no result. -/
def ofRat? (value : Rat) : Option Float :=
  let result := ofRat value
  if result.isFinite then some result else none

def ofInt? (value : Int) : Option Float :=
  let result := ofInt value
  if result.isFinite then some result else none

def toExtended (value : Float) : Extended :=
  if value.isNaN then .undefined
  else if value.isFinite then
    let parts := parts value
    .finite (dyadic (negative value) parts.1 parts.2)
  else .infinite (negative value)

/-- The exact value of a finite number. -/
def toRat? (value : Float) : Option Rat :=
  match toExtended value with
  | .finite exact => some exact
  | _ => none

/-- The magnitude of the first number with the sign of the second. -/
def copySign (size sign : Float) : Float :=
  if negative size == negative sign then size else -size

/-- The largest integer that does not exceed a finite number. -/
def floor? (value : Float) : Option Int := (toRat? value).map Rat.floor

/-- The integer part of a finite number. -/
def truncate? (value : Float) : Option Int :=
  (toRat? value).map fun exact => exact.num.tdiv exact.den

def isIntegral (value : Float) : Bool :=
  match toRat? value with
  | some exact => exact.den == 1
  | none => false

/-- Multiplication by a power of two rounds once. -/
def scale (value : Float) (exponent : Int) : Float :=
  if value.isNaN || value.isInf then value
  else
    let parts := parts value
    let scaled := scaledQuotient parts.1 1 (parts.2 + exponent)
    ofQuotient (negative value) scaled.1 scaled.2

end Double

end Narrowing
