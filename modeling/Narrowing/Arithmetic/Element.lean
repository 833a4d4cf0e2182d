import Narrowing.Arithmetic.Plain

/-
This file computes with array elements in double precision and rounds each result once.
-/

namespace Narrowing

namespace Scalar

/-- The plain number that a scalar holds. -/
def plain : Scalar → PlainNumber
  | boolean value => .integer (if value then 1 else 0)
  | word value => .integer value.value
  | half value => .double value.toDouble
  | single value => .double (Single.toDouble value)
  | double value => .double value
  | complexSingle value => .complex value.toDouble
  | complexDouble value => .complex value

/-- The real part as a double. -/
def real (scalar : Scalar) : Float :=
  match scalar.plain with
  | .integer value => Double.ofInt value
  | .ratio value => Double.ofRat value
  | .double value => value
  | .complex value => value.real

def complex (scalar : Scalar) : ComplexDouble :=
  match scalar.plain with
  | .complex value => value
  | _ => .ofReal scalar.real

/-- The integer part of the real part. -/
def whole (scalar : Scalar) : Int :=
  match scalar.plain with
  | .integer value => value
  | _ => (Double.truncate? scalar.real).getD 0

def isZero (scalar : Scalar) : Bool := scalar.complex.isZero

/-- The scalar with real storage that is nearest to a double. -/
def ofReal (storage : Storage) (value : Float) : Scalar :=
  match storage with
  | .half => .half (Half.ofDouble value)
  | .single => .single (Single.ofDouble value)
  | _ => .double value

def ofComplex (storage : Storage) (value : ComplexDouble) : Scalar :=
  match storage with
  | .complexSingle => .complexSingle (.ofDouble value)
  | _ => .complexDouble value

/-- The scalar in another storage class; words wrap and a complex number keeps its real part. -/
def convert (scalar : Scalar) : Storage → Scalar
  | .boolean => .boolean !scalar.isZero
  | .word kind => .word (Word.wrap kind scalar.whole)
  | .half => ofReal .half scalar.real
  | .single => ofReal .single scalar.real
  | .double => ofReal .double scalar.real
  | .complexSingle => ofComplex .complexSingle scalar.complex
  | .complexDouble => ofComplex .complexDouble scalar.complex
  | .object => scalar

end Scalar

/-- An operation on two elements of one storage class. -/
structure ElementRule where
  truths : Option (Bool → Bool → Bool)
  words : Int → Int → Int
  reals : Float → Float → Float
  complexes : ComplexDouble → ComplexDouble → ComplexDouble

namespace ElementRule

/-- Words wrap and floats round; an operation may leave truth values out. -/
def apply (rule : ElementRule) (storage : Storage) (first second : Scalar) :
    Except Fault Scalar :=
  match storage with
  | .boolean =>
      match rule.truths with
      | some operation => .ok (.boolean (operation (!first.isZero) (!second.isZero)))
      | none => .error .operand
  | .word kind => .ok (.word (Word.wrap kind (rule.words first.whole second.whole)))
  | .half | .single | .double => .ok (Scalar.ofReal storage (rule.reals first.real second.real))
  | .complexSingle | .complexDouble =>
      .ok (Scalar.ofComplex storage (rule.complexes first.complex second.complex))
  | .object => .error .operand

def addition : ElementRule := ⟨some (· || ·), (· + ·), (· + ·), ComplexDouble.add⟩

def subtraction : ElementRule := ⟨none, (· - ·), (· - ·), ComplexDouble.sub⟩

def multiplication : ElementRule := ⟨some (· && ·), (· * ·), (· * ·), ComplexDouble.mul⟩

/-- A complex quotient by zero divides each part. -/
def complexQuotient (first second : ComplexDouble) : ComplexDouble :=
  match first.div? second with
  | some quotient => quotient
  | none =>
      let size := second.real.abs
      ⟨first.real / size, first.imaginary / size⟩

/-- Division leaves the words for the floats before it computes. -/
def division : ElementRule := ⟨none, Int.tdiv, (· / ·), complexQuotient⟩

/-- A complex power that does not exist is undefined in both parts. -/
def complexPower (base exponent : ComplexDouble) : ComplexDouble :=
  (base.pow exponent).getD ⟨Double.nan, Double.nan⟩

/-- A word power with a negative exponent is not computed. -/
def power : ElementRule :=
  ⟨none, fun base exponent => Word.power base exponent.toNat, Double.pow, complexPower⟩

end ElementRule

/-- A function of one element that computes with floats. -/
structure ElementFunction where
  reals : Float → Float
  complexes : ComplexDouble → ComplexDouble

namespace ElementFunction

/-- The function on an element with float storage. -/
def apply (function : ElementFunction) (storage : Storage) (value : Scalar) : Scalar :=
  match storage with
  | .complexSingle | .complexDouble =>
      .ofComplex storage (function.complexes value.complex)
  | _ => .ofReal storage (function.reals value.real)

/-- An array element keeps the value of a complex function and no trouble. -/
def ofComplex (reals : Float → Float) (complexes : ComplexDouble → ComplexOutcome) :
    ElementFunction :=
  ⟨reals, fun value => (complexes value).value⟩

/-- The logarithm of a negative number is undefined. -/
def realLog (value : Float) : Float :=
  if value < 0.0 then Double.nan else Elementary.log value

def sqrt : ElementFunction := ofComplex Float.sqrt ComplexDouble.sqrt
def exp : ElementFunction := ofComplex Elementary.exp ComplexDouble.exp
def log : ElementFunction := ofComplex realLog ComplexDouble.log
def sin : ElementFunction := ofComplex Elementary.sin ComplexDouble.sin
def cos : ElementFunction := ofComplex Elementary.cos ComplexDouble.cos
def tan : ElementFunction := ofComplex Elementary.tan ComplexDouble.tan

end ElementFunction

namespace Scalar

/-- The negation of a number; a truth value has none. -/
def neg : Scalar → Except Fault Scalar
  | boolean _ => .error .operand
  | word value => .ok (.word (Word.wrap value.kind (-value.value)))
  | half value => .ok (ofReal .half (-value.toDouble))
  | single value => .ok (.single (-value))
  | double value => .ok (.double (-value))
  | complexSingle value => .ok (.complexSingle ⟨-value.real, -value.imaginary⟩)
  | complexDouble value => .ok (.complexDouble value.neg)

/-- The size of a number; a complex number has a real size. -/
def abs : Scalar → Scalar
  | boolean value => .boolean value
  | word value => .word (Word.wrap value.kind value.value.natAbs)
  | half value => ofReal .half value.toDouble.abs
  | single value => .single value.abs
  | double value => .double value.abs
  | complexSingle value => ofReal .single value.toDouble.abs
  | complexDouble value => .double value.abs

/-- Real parts are compared first and imaginary parts decide a tie. -/
def less (first second : Scalar) : Bool :=
  let left := first.plain.places
  let right := second.plain.places
  if left.1.agrees right.1 then left.2.less right.2 else left.1.less right.1

def equals (first second : Scalar) : Bool := first.plain.equals second.plain

end Scalar

end Narrowing
