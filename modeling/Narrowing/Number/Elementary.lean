import Narrowing.Number.Enclosure

/-
This file defines correctly rounded elementary functions of doubles.
-/

namespace Narrowing.Elementary

open Narrowing

/-- The signed significand and the exponent of a finite double. -/
def signedParts (value : Float) : Int × Int :=
  let parts := Double.parts value
  (if Double.negative value then -parts.1 else parts.1, parts.2)

def enclose (value : Float) : Enclosure :=
  let parts := signedParts value
  ⟨parts.1, 0, parts.2⟩

/-- A finite nonnegative double as a quotient of naturals. -/
def quotient (value : Float) : Nat × Nat :=
  let parts := Double.parts value
  scaledQuotient parts.1 1 parts.2

def exp (value : Float) : Float :=
  if value.isNaN then value
  else if 710.0 < value then Double.infinity false
  else if value < -746.0 then 0.0
  else if value == 0.0 then 1.0
  else Enclosure.settled fun precision => some (Enclosure.exp precision (enclose value))

def log (value : Float) : Float :=
  if value.isNaN then value
  else if value == 0.0 then Double.infinity true
  else if value < 0.0 then Double.nan
  else if value.isInf then value
  else if value == 1.0 then 0.0
  else
    let parts := quotient value
    Enclosure.settled fun precision => some (Enclosure.log precision parts.1 parts.2)

/-- The logarithm of one more than the argument. -/
def logOnePlus (value : Float) : Float :=
  if value.isNaN || value == 0.0 then value
  else if value == -1.0 then Double.infinity true
  else if value < -1.0 then Double.nan
  else if value.isInf then value
  else
    let parts := quotient value.abs
    let top := if value < 0.0 then parts.2 - parts.1 else parts.2 + parts.1
    Enclosure.settled fun precision => some (Enclosure.log precision top parts.2)

def sin (value : Float) : Float :=
  if value.isNaN || value == 0.0 then value
  else if value.isInf then Double.nan
  else
    let parts := signedParts value
    Enclosure.settled fun precision => some (Enclosure.sinCos precision parts.1 parts.2).1

def cos (value : Float) : Float :=
  if value.isNaN then value
  else if value == 0.0 then 1.0
  else if value.isInf then Double.nan
  else
    let parts := signedParts value
    Enclosure.settled fun precision => some (Enclosure.sinCos precision parts.1 parts.2).2

def tan (value : Float) : Float :=
  if value.isNaN || value == 0.0 then value
  else if value.isInf then Double.nan
  else
    let parts := signedParts value
    Enclosure.settled fun precision =>
      let pair := Enclosure.sinCos precision parts.1 parts.2
      Enclosure.div? precision pair.1 pair.2

/-- The exponentials of a number and of its opposite. -/
def exponentials (precision : Nat) (value : Float) : Enclosure × Enclosure :=
  let argument := enclose value
  (Enclosure.exp precision argument, Enclosure.exp precision argument.neg)

def sinh (value : Float) : Float :=
  if value.isNaN || value.isInf || value == 0.0 then value
  else if 712.0 < value.abs then Double.infinity (value < 0.0)
  else Enclosure.settled fun precision =>
    let pair := exponentials precision value
    some ((Enclosure.sub precision pair.1 pair.2).shift (-1))

def cosh (value : Float) : Float :=
  if value.isNaN then value
  else if 712.0 < value.abs then Double.infinity false
  else if value == 0.0 then 1.0
  else Enclosure.settled fun precision =>
    let pair := exponentials precision value
    some ((Enclosure.add precision pair.1 pair.2).shift (-1))

def tanh (value : Float) : Float :=
  if value.isNaN || value == 0.0 then value
  else if 64.0 < value.abs then (if value < 0.0 then -1.0 else 1.0)
  else Enclosure.settled fun precision =>
    let pair := exponentials precision value
    Enclosure.div? precision (Enclosure.sub precision pair.1 pair.2)
      (Enclosure.add precision pair.1 pair.2)

/-- A multiple of an eighth of the circle. -/
def eighths (count : Int) : Float :=
  Enclosure.settled fun precision => some (((Enclosure.pi precision).times count).shift (-2))

/-- The angle of the point with these coordinates, the ordinate first. -/
def angle (ordinate abscissa : Float) : Float :=
  let signed (size : Float) : Float := if Double.negative ordinate then -size else size
  if ordinate.isNaN || abscissa.isNaN then Double.nan
  else if ordinate.isInf then
    signed (eighths (if !abscissa.isInf then 2 else if abscissa < 0.0 then 3 else 1))
  else if ordinate == 0.0 || abscissa.isInf then
    if Double.negative abscissa then signed (eighths 4) else signed 0.0
  else if abscissa == 0.0 then signed (eighths 2)
  else
    let top := quotient ordinate.abs
    let bottom := quotient abscissa.abs
    let numerator := top.1 * bottom.2
    let denominator := top.2 * bottom.1
    signed (Enclosure.settled fun precision =>
      let base := Enclosure.arctan precision numerator denominator
      some (if abscissa < 0.0 then Enclosure.sub precision (Enclosure.pi precision) base else base))

/-- The integer square root by Newton steps from above. -/
def squareRoot (value : Nat) : Nat :=
  let rec improve : Nat → Nat → Nat
    | 0, guess => guess
    | fuel + 1, guess =>
        let next := (guess + value / guess) / 2
        if next < guess then improve fuel next else guess
  if value = 0 then 0 else improve (Nat.log2 value + 2) (Nat.pow 2 (Nat.log2 value / 2 + 1))

/-- The nearest double to the root of a quotient; a remainder shows in an extra last bit. -/
def rootOfQuotient (numerator denominator : Nat) : Float :=
  let shift := 2 * (Nat.log2 denominator + 1200)
  let scaled := numerator * Nat.pow 2 shift / denominator
  let root := squareRoot scaled
  let exact := root * root = scaled ∧ numerator * Nat.pow 2 shift % denominator = 0
  Double.ofQuotient false (2 * root + if exact then 0 else 1) (2 * Nat.pow 2 (shift / 2))

def hypot (first second : Float) : Float :=
  if first.isInf || second.isInf then Double.infinity false
  else if first.isNaN || second.isNaN then Double.nan
  else if first == 0.0 then second.abs
  else if second == 0.0 then first.abs
  else
    let left := quotient first.abs
    let right := quotient second.abs
    let top := left.1 * right.2
    let bottom := right.1 * left.2
    let scale := left.2 * right.2
    rootOfQuotient (top * top + bottom * bottom) (scale * scale)

/-- The odd part of a positive natural and the exponent of two that it leaves. -/
def oddPart : Nat → Nat → Nat × Nat
  | 0, value => (value, 0)
  | fuel + 1, value =>
      if value % 2 = 0 then
        let rest := oddPart fuel (value / 2)
        (rest.1, rest.2 + 1)
      else (value, 0)

/-- An exact power of two parts, an odd significand and an exponent, when the exponent of the
power is an integer over a power of two and the result has few bits. -/
def exactPower? (significand : Nat) (exponent power : Int) : Nat → Option (Nat × Int)
  | 0 =>
      if power < 0 ∧ significand ≠ 1 then none
      else if significand ≠ 1 ∧ 120 < Nat.log2 significand * power.natAbs then none
      else some (significand.pow power.natAbs, exponent * power)
  | halvings + 1 =>
      let root := squareRoot significand
      if root * root = significand ∧ exponent % 2 = 0 then
        exactPower? root (exponent / 2) power halvings
      else none

/-- The power of a positive finite base to a finite exponent other than zero. -/
def finitePower (base exponent : Float) : Float :=
  let parts := Double.parts base
  let odd := oddPart 1100 parts.1
  let power := signedParts exponent
  let oddPower := oddPart 1100 power.1.natAbs
  let place := power.2 + oddPower.2
  let signed : Int := if power.1 < 0 then -oddPower.1 else oddPower.1
  let exact := if place < 64 ∧ -64 < place then
      exactPower? odd.1 (parts.2 + odd.2) (signed * Nat.pow 2 place.toNat) (-place).toNat
    else none
  match exact with
  | some (significand, exponent) =>
      if 2000 < exponent then Double.infinity false
      else if exponent < -2000 then 0.0
      else
        let scaled := scaledQuotient significand 1 exponent
        Double.ofQuotient false scaled.1 scaled.2
  | none =>
      let top := quotient base
      let product (precision : Nat) : Enclosure :=
        let wide := precision + (power.2 + (Nat.log2 power.1.natAbs : Int)).toNat + 16
        let logarithm := Enclosure.log wide top.1 top.2
        ((logarithm.times power.1).shift power.2).inUnit (Enclosure.place precision)
      let size := (product 128).center / Nat.pow 2 128
      if 800 < size then Double.infinity false
      else if size < -800 then 0.0
      else Enclosure.settled fun precision =>
        some (Enclosure.exp precision (product precision))

/-- The power of a base that is not negative. -/
def power (base exponent : Float) : Float :=
  if exponent == 0.0 || base == 1.0 then 1.0
  else if base.isNaN || exponent.isNaN then Double.nan
  else if exponent.isInf then
    if (0.0 < exponent) == (1.0 < base) then Double.infinity false else 0.0
  else if base == 0.0 then (if exponent < 0.0 then Double.infinity false else 0.0)
  else if base.isInf then (if exponent < 0.0 then 0.0 else base)
  else finitePower base exponent

end Narrowing.Elementary
