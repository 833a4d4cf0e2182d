import Narrowing.Arithmetic.Host
import Narrowing.Numeral
import Narrowing.Text.Blank

/-
This file converts numbers to the representations of the tiers.
-/

namespace Narrowing

namespace Numeral

/-- A text without the blanks around it. -/
def trimmed (source : String) : List Char :=
  let front := source.toList.dropWhile Text.isBlank
  (front.reverse.dropWhile Text.isBlank).reverse

/-- The characters in numbers that only literals know. -/
def literalMarks : List Char := ['d', 'D', 'f', 'F', 's', 'S', '/']

def unsignedNames : List (String × Float) := [
  ("inf", Double.infinity false), ("infinity", Double.infinity false), ("nan", Double.nan)]

/-- The double that a text names. -/
def doubleOfText? (source : String) : Option Float :=
  let characters := trimmed source
  let split := signed characters
  match unsignedNames.lookup (String.ofList (split.2.map Char.toLower)) with
  | some size => some (if split.1 then -size else size)
  | none =>
      if characters.any literalMarks.contains then none
      else
        match real? characters with
        | some (.integer value) => some (Double.ofInt value)
        | some (.double value) => some value
        | _ => none

/-- The integer that a text names. -/
def integerOfText? (source : String) : Option Int :=
  let characters := trimmed source
  if characters.getLast? = some '.' then none else integer? characters

/-- The fraction that a text names. -/
def ratioOfText? (source : String) : Option Rat :=
  match integerOfText? source with
  | some value => some value
  | none =>
      match quotient? (trimmed source) with
      | some (_, 0) => none
      | some (top, bottom) => some (mkRat top bottom)
      | none => (doubleOfText? source).bind Double.toRat?

end Numeral

namespace Value

/-- The fault of a text that names no number. -/
def unreadable {α : Type} (result : Option α) : Except Fault α := orFault result .domain

/-- The integer part of a double. -/
def truncated (value : Float) : Except Fault Int :=
  if value.isNaN then .error .domain
  else orFault (Double.truncate? value) .overflow

/-- The integer part of a plain number. -/
def truncatedPlain : PlainNumber → Except Fault Int
  | .integer value => .ok value
  | .ratio value => .ok (value.num.tdiv value.den)
  | .double value => truncated value
  | .complex _ => .error .operand

/-- The number in an array of one element. -/
def item : Value → Except Fault PlainNumber
  | .scalar value => .ok value.plain
  | .array grid =>
      match grid.items with
      | [value] => .ok value.plain
      | _ => .error .domain
  | value => orFault value.plain? .operand

/-- The integer part of a number, or the integer that a text names. -/
def toInteger : Value → Except Fault Int
  | .text source => unreadable (Numeral.integerOfText? source)
  | value => value.item >>= truncatedPlain

/-- An exact number in normal form; other numbers keep their integer part. -/
def toRational (value : Value) : Except Fault Value :=
  match value with
  | .ratio exact => .ok (.ofRat exact)
  | value => value.toInteger.map .integer

/-- The double of a real number; a complex scalar keeps its real part. -/
def toDouble : Value → Except Fault Float
  | .text source => unreadable (Numeral.doubleOfText? source)
  | .scalar value => .ok value.real
  | value => value.item >>= PlainNumber.toDouble

def toComplex : Value → Except Fault ComplexDouble
  | .text source => (unreadable (Numeral.doubleOfText? source)).map .ofReal
  | value => value.item >>= PlainNumber.toComplex

/-- A number in a narrow storage class; the missing value is undefined there. -/
def toNarrow (storage : Storage) : Value → Except Fault Value
  | .missing => .ok (.scalar ((Scalar.double Double.nan).convert storage))
  | .complex value =>
      if storage.group = 3 then .ok (.scalar ((Scalar.complexDouble value).convert storage))
      else .error .operand
  | .scalar value => .ok (.scalar (value.convert storage))
  | .array grid =>
      match grid.scalar? with
      | some value => .ok (.scalar (value.convert storage))
      | none =>
          .ok (.array ⟨false, .stored storage, false, grid.shape,
            grid.items.map (·.convert storage)⟩)
  | value => do .ok (.scalar ((Scalar.double (← value.toDouble)).convert storage))

/-- A number in the representation of a tier. -/
def toTier (value : Value) : Tier → Except Fault Value
  | .integer => value.toInteger.map .integer
  | .rational => value.toRational
  | .float16 => value.toNarrow .half
  | .float32 => value.toNarrow .single
  | .float64 => value.toDouble.map .double
  | .complex64 => value.toNarrow .complexSingle
  | .complex128 => value.toComplex.map .complex

/-- The exact fraction of a number; words count as integers. -/
def toRat : Value → Except Fault Rat
  | .text source => unreadable (Numeral.ratioOfText? source)
  | .integer value => .ok value
  | .boolean value => .ok (if value then 1 else 0)
  | .ratio value => .ok value
  | .double value | .scalar (.double value) =>
      if value.isNaN then .error .domain else orFault (Double.toRat? value) .overflow
  | .scalar (.word value) => .ok value.value
  | _ => .error .operand

theorem toTier_integer (value : Int) :
    (Value.integer value).toTier .integer = .ok (.integer value) := rfl

theorem toTier_rational (value : Rat) :
    (Value.ratio value).toTier .rational = .ok (.ofRat value) := rfl

end Value

end Narrowing
