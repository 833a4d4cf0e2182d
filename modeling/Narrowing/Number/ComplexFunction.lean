import Narrowing.Number.Complex
import Narrowing.Number.Elementary

/-
This file defines functions of complex numbers by correctly rounded real functions.
-/

namespace Narrowing

/-- A function may leave its domain or the finite numbers and still have a limit. -/
inductive Trouble where
  | domain
  | overflow
deriving DecidableEq, Repr

/-- The value of a function and the trouble that it came with. -/
structure ComplexOutcome where
  value : ComplexDouble
  trouble : Option Trouble

namespace ComplexDouble

open Elementary

def add (first second : ComplexDouble) : ComplexDouble :=
  ⟨first.real + second.real, first.imaginary + second.imaginary⟩

def sub (first second : ComplexDouble) : ComplexDouble :=
  ⟨first.real - second.real, first.imaginary - second.imaginary⟩

def neg (value : ComplexDouble) : ComplexDouble := ⟨-value.real, -value.imaginary⟩

/-- The product by its four partial products. -/
def mul (first second : ComplexDouble) : ComplexDouble :=
  ⟨first.real * second.real - first.imaginary * second.imaginary,
    first.real * second.imaginary + first.imaginary * second.real⟩

/-- The quotient scales by the larger part of the divisor; a zero divisor has none. -/
def div? (first second : ComplexDouble) : Option ComplexDouble :=
  let realSize := second.real.abs
  let imaginarySize := second.imaginary.abs
  if imaginarySize ≤ realSize then
    if realSize == 0.0 then none
    else
      let ratio := second.imaginary / second.real
      let divisor := second.real + second.imaginary * ratio
      some ⟨(first.real + first.imaginary * ratio) / divisor,
        (first.imaginary - first.real * ratio) / divisor⟩
  else if realSize ≤ imaginarySize then
    let ratio := second.real / second.imaginary
    let divisor := second.real * ratio + second.imaginary
    some ⟨(first.real * ratio + first.imaginary) / divisor,
      (first.imaginary * ratio - first.real) / divisor⟩
  else some ⟨Double.nan, Double.nan⟩

def abs (value : ComplexDouble) : Float := hypot value.real value.imaginary

def isFinite (value : ComplexDouble) : Bool := value.real.isFinite && value.imaginary.isFinite

def equals (first second : ComplexDouble) : Bool :=
  first.real == second.real && first.imaginary == second.imaginary

def isZero (value : ComplexDouble) : Bool := value.real == 0.0 && value.imaginary == 0.0

/-- The least positive number with a full significand. -/
def leastNormal : Float := Float.ofBits 0x0010000000000000

/-- A quarter of the largest finite number. -/
def large : Float := Float.ofBits 0x7fcfffffffffffff

/-- The logarithm of `large`. -/
def logLarge : Float := Float.ofBits 0x4086232bdd7abcd2

/-- The base of the natural logarithm. -/
def naturalBase : Float := Float.ofBits 0x4005bf0a8b145769

def logTwo : Float := Float.ofBits 0x3fe62e42fefa39ef

def fine (real imaginary : Float) : ComplexOutcome := ⟨⟨real, imaginary⟩, none⟩

def signedInfinity (sign : Float) : Float := Double.copySign (Double.infinity false) sign

def signedZero (sign : Float) : Float := Double.copySign 0.0 sign

/-- An infinite part of a result of finite arguments is an overflow. -/
def bounded (value : ComplexDouble) : ComplexOutcome :=
  ⟨value, if value.real.isInf || value.imaginary.isInf then some .overflow else none⟩

def sqrtSpecial (value : ComplexDouble) : ComplexOutcome :=
  let ⟨x, y⟩ := value
  if y.isInf then fine (Double.infinity false) y
  else if x.isNaN then fine Double.nan Double.nan
  else if x.isInf then
    if x < 0.0 then
      if y.isNaN then fine Double.nan (Double.infinity false) else fine 0.0 (signedInfinity y)
    else fine x (if y.isNaN then Double.nan else signedZero y)
  else fine Double.nan Double.nan

/-- The square root with a nonnegative real part. -/
def sqrt (value : ComplexDouble) : ComplexOutcome :=
  let ⟨x, y⟩ := value
  if !value.isFinite then sqrtSpecial value
  else if value.isZero then fine 0.0 y
  else
    let width := x.abs
    let height := y.abs
    let side :=
      if width < leastNormal && height < leastNormal then
        let scaled := Double.scale width 53
        Double.scale (scaled + hypot scaled (Double.scale height 53)).sqrt (-27)
      else
        let eighth := width / 8.0
        2.0 * (eighth + hypot eighth (height / 8.0)).sqrt
    let other := height / (2.0 * side)
    if 0.0 ≤ x then fine side (Double.copySign other y)
    else fine other (Double.copySign side y)

def expSpecial (value : ComplexDouble) : ComplexOutcome :=
  let ⟨x, y⟩ := value
  if x.isInf then
    if x < 0.0 then
      if y.isFinite then
        if y == 0.0 then fine 0.0 y else fine (signedZero (cos y)) (signedZero (sin y))
      else fine 0.0 0.0
    else if y == 0.0 then fine x y
    else if y.isFinite then fine (signedInfinity (cos y)) (signedInfinity (sin y))
    else ⟨⟨x, Double.nan⟩, if y.isInf then some .domain else none⟩
  else if x.isNaN then fine x (if y == 0.0 then y else Double.nan)
  else ⟨⟨Double.nan, Double.nan⟩, if y.isInf then some .domain else none⟩

def exp (value : ComplexDouble) : ComplexOutcome :=
  let ⟨x, y⟩ := value
  if !value.isFinite then expSpecial value
  else if logLarge < x then
    let size := Elementary.exp (x - 1.0)
    bounded ⟨size * cos y * naturalBase, size * sin y * naturalBase⟩
  else
    let size := Elementary.exp x
    bounded ⟨size * cos y, size * sin y⟩

def logSpecial (value : ComplexDouble) : ComplexOutcome :=
  let ⟨x, y⟩ := value
  fine (if x.isInf || y.isInf then Double.infinity false else Double.nan)
    (if x.isNaN || y.isNaN then Double.nan else angle y x)

/-- The logarithm with the principal angle; sizes near one use the logarithm of one more. -/
def log (value : ComplexDouble) : ComplexOutcome :=
  let ⟨x, y⟩ := value
  if !value.isFinite then logSpecial value
  else
    let width := x.abs
    let height := y.abs
    let direction := angle y x
    if large < width || large < height then
      fine (Elementary.log (hypot (width / 2.0) (height / 2.0)) + logTwo) direction
    else if width < leastNormal && height < leastNormal then
      if 0.0 < width || 0.0 < height then
        fine
          (Elementary.log (hypot (Double.scale width 53) (Double.scale height 53)) -
            53.0 * logTwo)
          direction
      else ⟨⟨Double.infinity true, direction⟩, some .domain⟩
    else
      let size := hypot width height
      if 0.71 ≤ size && size ≤ 1.73 then
        let most := if height < width then width else height
        let least := if height < width then height else width
        fine (logOnePlus ((most - 1.0) * (most + 1.0) + least * least) / 2.0) direction
      else fine (Elementary.log size) direction

def coshSpecial (value : ComplexDouble) : ComplexOutcome :=
  let ⟨x, y⟩ := value
  if y.isInf then
    ⟨⟨if x.isInf then Double.infinity false else Double.nan,
      if x == 0.0 then 0.0 else Double.nan⟩, if x.isNaN then none else some .domain⟩
  else if x.isInf then
    if y.isNaN then fine (Double.infinity false) y
    else if y == 0.0 then fine (Double.infinity false) (if x < 0.0 then -y else y)
    else
      fine (signedInfinity (cos y))
        (if x < 0.0 then -(signedInfinity (sin y)) else signedInfinity (sin y))
  else if x.isNaN then fine x (if y == 0.0 then 0.0 else Double.nan)
  else fine Double.nan (if x == 0.0 then 0.0 else Double.nan)

def cosh (value : ComplexDouble) : ComplexOutcome :=
  let ⟨x, y⟩ := value
  if !value.isFinite then coshSpecial value
  else if logLarge < x.abs then
    let nearer := x - Double.copySign 1.0 x
    bounded ⟨cos y * Elementary.cosh nearer * naturalBase,
      sin y * Elementary.sinh nearer * naturalBase⟩
  else bounded ⟨cos y * Elementary.cosh x, sin y * Elementary.sinh x⟩

def sinhSpecial (value : ComplexDouble) : ComplexOutcome :=
  let ⟨x, y⟩ := value
  if y.isInf then
    ⟨⟨if x.isInf then Double.infinity false else if x == 0.0 then 0.0 else Double.nan,
      Double.nan⟩, if x.isNaN then none else some .domain⟩
  else if x.isInf then
    if y.isNaN then fine (Double.infinity false) y
    else if y == 0.0 then fine x y
    else
      fine (if x < 0.0 then -(signedInfinity (cos y)) else signedInfinity (cos y))
        (signedInfinity (sin y))
  else if x.isNaN then fine x (if y == 0.0 then y else Double.nan)
  else fine (if x == 0.0 then 0.0 else Double.nan) Double.nan

def sinh (value : ComplexDouble) : ComplexOutcome :=
  let ⟨x, y⟩ := value
  if !value.isFinite then sinhSpecial value
  else if logLarge < x.abs then
    let nearer := x - Double.copySign 1.0 x
    bounded ⟨cos y * Elementary.sinh nearer * naturalBase,
      sin y * Elementary.cosh nearer * naturalBase⟩
  else bounded ⟨cos y * Elementary.sinh x, sin y * Elementary.cosh x⟩

def tanhSpecial (value : ComplexDouble) : ComplexOutcome :=
  let ⟨x, y⟩ := value
  if x.isInf then
    let limit := Double.copySign 1.0 x
    if !y.isFinite then fine limit 0.0
    else if y == 0.0 then fine limit y
    else fine limit (signedZero (2.0 * sin y * cos y))
  else if x.isNaN then fine x (if y == 0.0 then y else Double.nan)
  else ⟨⟨Double.nan, Double.nan⟩, if y.isInf then some .domain else none⟩

def tanh (value : ComplexDouble) : ComplexOutcome :=
  let ⟨x, y⟩ := value
  if !value.isFinite then tanhSpecial value
  else if logLarge < x.abs then
    fine (Double.copySign 1.0 x) (4.0 * sin y * cos y * Elementary.exp (-2.0 * x.abs))
  else
    let tangent := Elementary.tan y
    let slope := Elementary.tanh x
    let inverse := 1.0 / Elementary.cosh x
    let product := slope * tangent
    let divisor := 1.0 + product * product
    fine (slope * (1.0 + tangent * tangent) / divisor) (((tangent / divisor) * inverse) * inverse)

/-- A quarter turn to the left. -/
def turned (value : ComplexDouble) : ComplexDouble := ⟨-value.imaginary, value.real⟩

/-- The outcome after a quarter turn to the right. -/
def turnedBack (outcome : ComplexOutcome) : ComplexOutcome :=
  { outcome with value := ⟨outcome.value.imaginary, -outcome.value.real⟩ }

def sin (value : ComplexDouble) : ComplexOutcome := turnedBack (sinh value.turned)

def cos (value : ComplexDouble) : ComplexOutcome := cosh value.turned

def tan (value : ComplexDouble) : ComplexOutcome := turnedBack (tanh value.turned)

/-- The power by repeated squaring, from the low bits of the exponent up. -/
def powerBySquaring (base : ComplexDouble) (exponent : Nat) : ComplexDouble :=
  let rec go : Nat → Nat → ComplexDouble → ComplexDouble → ComplexDouble
    | 0, _, _, result => result
    | fuel + 1, rest, square, result =>
        if rest = 0 then result
        else
          go fuel (rest / 2) (mul square square)
            (if rest % 2 = 1 then mul result square else result)
  go (exponent + 1) exponent base ⟨1.0, 0.0⟩

/-- The number with a length and an angle; no number has an infinite angle. -/
def polar? (length direction : Float) : Option ComplexDouble :=
  if direction.isInf then none
  else some ⟨length * Elementary.cos direction, length * Elementary.sin direction⟩

/-- The power by size and angle; a zero base has only powers with positive real exponents. -/
def polarPower (base exponent : ComplexDouble) : Option ComplexDouble :=
  if exponent.isZero then some ⟨1.0, 0.0⟩
  else if base.isZero then
    if exponent.imaginary != 0.0 || exponent.real < 0.0 then none else some ⟨0.0, 0.0⟩
  else
    let size := hypot base.real base.imaginary
    let direction := angle base.imaginary base.real
    let length := power size exponent.real
    let phase := direction * exponent.real
    if exponent.imaginary != 0.0 then
      polar? (length / Elementary.exp (direction * exponent.imaginary))
        (phase + exponent.imaginary * Elementary.log size)
    else polar? length phase

/-- A small integer exponent, if the exponent is one. -/
def smallExponent? (exponent : ComplexDouble) : Option Int :=
  if exponent.imaginary == 0.0 && exponent.real.abs ≤ 100.0 && Double.isIntegral exponent.real then
    Double.truncate? exponent.real
  else none

/-- Small integer exponents multiply repeatedly; zero has no negative or complex power. -/
def pow (base exponent : ComplexDouble) : Option ComplexDouble :=
  match smallExponent? exponent with
  | some count =>
      if 0 < count then some (powerBySquaring base count.toNat)
      else div? ⟨1.0, 0.0⟩ (powerBySquaring base count.natAbs)
  | none => polarPower base exponent

end ComplexDouble

end Narrowing
