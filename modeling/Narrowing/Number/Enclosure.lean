import Narrowing.Number.Double

/-
This file computes with intervals of reals whose ends are dyadic.
-/

namespace Narrowing

/-- The enclosed number lies within `radius` of `center`, both in units of two to the exponent. -/
structure Enclosure where
  center : Int
  radius : Nat
  exponent : Int
deriving Repr

namespace Enclosure

/-- The unit of a fixed point number with this many binary places. -/
def place (precision : Nat) : Int := -(precision : Int)

def ofInt (value : Int) : Enclosure := ⟨value, 0, 0⟩

def ofQuotient (precision : Nat) (numerator : Int) (denominator : Nat) : Enclosure :=
  ⟨numerator * Nat.pow 2 precision / denominator, 1, place precision⟩

/-- The same number in another unit; a coarser unit widens the radius. -/
def inUnit (value : Enclosure) (exponent : Int) : Enclosure :=
  if exponent ≤ value.exponent then
    let factor := Nat.pow 2 (value.exponent - exponent).toNat
    ⟨value.center * factor, value.radius * factor, exponent⟩
  else
    let divisor := Nat.pow 2 (exponent - value.exponent).toNat
    ⟨value.center / divisor, value.radius / divisor + 2, exponent⟩

def neg (value : Enclosure) : Enclosure := { value with center := -value.center }

def add (precision : Nat) (first second : Enclosure) : Enclosure :=
  let left := first.inUnit (place precision)
  let right := second.inUnit (place precision)
  ⟨left.center + right.center, left.radius + right.radius, place precision⟩

def sub (precision : Nat) (first second : Enclosure) : Enclosure :=
  add precision first second.neg

def mul (precision : Nat) (first second : Enclosure) : Enclosure :=
  inUnit ⟨first.center * second.center,
    first.center.natAbs * second.radius + second.center.natAbs * first.radius +
      first.radius * second.radius,
    first.exponent + second.exponent⟩ (place precision)

/-- A product with an integer is exact. -/
def times (value : Enclosure) (factor : Int) : Enclosure :=
  { value with center := value.center * factor, radius := value.radius * factor.natAbs }

def quotient (value : Enclosure) (divisor : Nat) : Enclosure :=
  { value with center := value.center / divisor, radius := value.radius / divisor + 2 }

/-- A product with a power of two is exact. -/
def shift (value : Enclosure) (exponent : Int) : Enclosure :=
  { value with exponent := value.exponent + exponent }

/-- A quotient exists when the divisor stays away from zero. -/
def div? (precision : Nat) (first second : Enclosure) : Option Enclosure :=
  let size := second.center.natAbs
  if second.radius < size then
    let scaled := scaledQuotient 1 1 (first.exponent - second.exponent + precision)
    some ⟨first.center * scaled.1 / (second.center * scaled.2),
      (first.radius * size + first.center.natAbs * second.radius) * scaled.1 /
        (size * (size - second.radius) * scaled.2) + 2,
      place precision⟩
  else none

/-- The sum of weighted powers stops at a power that vanishes; the rest is at most twice it. -/
def series (precision : Nat) (weight next : Nat → Enclosure → Enclosure) :
    Nat → Nat → Enclosure → Enclosure
  | 0, _, power => { power with radius := 4 * (power.center.natAbs + power.radius) + 4 }
  | fuel + 1, index, power =>
      if power.center.natAbs ≤ power.radius then
        ⟨0, 4 * (power.center.natAbs + power.radius) + 4, power.exponent⟩
      else
        add precision (weight index power)
          (series precision weight next fuel (index + 1) (next index power))

/-- The series of the exponential function for small arguments. -/
def expSeries (precision : Nat) (argument : Enclosure) : Enclosure :=
  series precision (fun _ power => power)
    (fun index power => (mul precision power argument).quotient (index + 1))
    precision 0 ((ofInt 1).inUnit (place precision))

/-- The odd powers divided by their exponents; `sign` alternates the inverse tangent. -/
def oddSeries (precision : Nat) (sign : Int) (argument : Enclosure) : Enclosure :=
  let square := (mul precision argument argument).times sign
  series precision (fun index power => power.quotient (2 * index + 1))
    (fun _ power => mul precision power square) precision 0 argument

def sinSeries (precision : Nat) (argument : Enclosure) : Enclosure :=
  let square := (mul precision argument argument).neg
  series precision (fun _ power => power)
    (fun index power => (mul precision power square).quotient ((2 * index + 2) * (2 * index + 3)))
    precision 0 argument

def cosSeries (precision : Nat) (argument : Enclosure) : Enclosure :=
  let square := (mul precision argument argument).neg
  series precision (fun _ power => power)
    (fun index power => (mul precision power square).quotient ((2 * index + 1) * (2 * index + 2)))
    precision 0 ((ofInt 1).inUnit (place precision))

/-- The natural logarithm of two. -/
def logTwo (precision : Nat) : Enclosure :=
  (oddSeries precision 1 (ofQuotient precision 1 3)).times 2

/-- The circle number by the arctangents of one fifth and of one part in 239. -/
def pi (precision : Nat) : Enclosure :=
  sub precision ((oddSeries precision (-1) (ofQuotient precision 1 5)).times 16)
    ((oddSeries precision (-1) (ofQuotient precision 1 239)).times 4)

/-- The integer nearest to a quotient of two centers in one unit. -/
def nearestMultiple (value unit : Enclosure) : Int :=
  (2 * value.center + unit.center) / (2 * unit.center)

/-- The exponential of a number below the power of two that the precision covers. -/
def exp (precision : Nat) (argument : Enclosure) : Enclosure :=
  let unit := logTwo precision
  let value := argument.inUnit (place precision)
  let count := nearestMultiple value unit
  (expSeries precision (sub precision value (unit.times count))).shift count

/-- The natural logarithm of a positive quotient. -/
def log (precision numerator denominator : Nat) : Enclosure :=
  let guess := binaryLogarithm numerator denominator
  let scaled := scaledQuotient numerator denominator (-guess)
  let large := 4 * scaled.2 < 3 * scaled.1
  let count := if large then guess + 1 else guess
  let bottom := if large then 2 * scaled.2 else scaled.2
  let ratio := ofQuotient precision ((scaled.1 : Int) - bottom) (scaled.1 + bottom)
  add precision ((oddSeries precision 1 ratio).times 2) ((logTwo precision).times count)

/-- The sine and the cosine of an integer times a power of two. -/
def sinCos (precision : Nat) (significand exponent : Int) : Enclosure × Enclosure :=
  let wide := precision + (exponent + (Nat.log2 significand.natAbs : Int)).toNat + 8
  let quarter := (pi wide).shift (-1) |>.inUnit (place wide)
  let value := (⟨significand, 0, exponent⟩ : Enclosure).inUnit (place wide)
  let count := nearestMultiple value quarter
  let rest := (sub wide value (quarter.times count)).inUnit (place precision)
  let sine := sinSeries precision rest
  let cosine := cosSeries precision rest
  match count % 4 with
  | 0 => (sine, cosine)
  | 1 => (cosine, sine.neg)
  | 2 => (sine.neg, cosine.neg)
  | _ => (cosine.neg, sine)

/-- The inverse tangent of a quotient of naturals. -/
def arctan (precision numerator denominator : Nat) : Enclosure :=
  let small (top bottom : Nat) : Enclosure :=
    if 2 * bottom < 5 * top then
      sub precision ((pi precision).shift (-2))
        (oddSeries precision (-1)
          (ofQuotient precision ((bottom : Int) - top) (bottom + top)))
    else oddSeries precision (-1) (ofQuotient precision top bottom)
  if denominator < numerator then
    sub precision ((pi precision).shift (-1)) (small denominator numerator)
  else small numerator denominator

/-- The double to which every number of the interval rounds, if there is one. -/
def settle? (value : Enclosure) : Option Float :=
  let lower := value.center - value.radius
  let upper := value.center + value.radius
  if lower < 0 ∧ 0 < upper then none
  else
    let rounded (bound : Int) : Nat :=
      let scaled := scaledQuotient bound.natAbs 1 value.exponent
      BinaryFormat.double.nearest scaled.1 scaled.2
    let code := rounded lower
    if code = rounded upper then some (Double.ofMagnitude (upper ≤ 0) code) else none

def precisions : List Nat := [128, 256, 512, 1024, 2048, 4096, 8192]

/-- The first precision that settles the rounding decides the result. -/
def settled (enclosures : Nat → Option Enclosure) : Float :=
  (precisions.findSome? fun precision => (enclosures precision).bind settle?).getD Double.nan

end Enclosure

end Narrowing
