import Narrowing.Number.Decimal
import Narrowing.Text.Quoted
import Narrowing.Primitive.Descriptor

/-
This file writes values as messages show them.
-/

namespace Narrowing

namespace Double

def text (value : Float) : String :=
  realLayout.text .double (negative value) (magnitude value)

end Double

/-- A real part that is a positive zero is left out; the imaginary part then needs no sign. -/
def complexText (realCode imaginaryCode : Nat) (realNegative imaginaryNegative : Bool)
    (format : BinaryFormat) : String :=
  let imaginary := partLayout.text format imaginaryNegative imaginaryCode
  if realCode = 0 && !realNegative then imaginary ++ "j"
  else
    let sign := if imaginary.startsWith "-" then "" else "+"
    "(" ++ partLayout.text format realNegative realCode ++ sign ++ imaginary ++ "j)"

namespace ComplexDouble

def text (value : ComplexDouble) : String :=
  complexText (Double.magnitude value.real) (Double.magnitude value.imaginary)
    (Double.negative value.real) (Double.negative value.imaginary) .double

end ComplexDouble

namespace ComplexSingle

def text (value : ComplexSingle) : String :=
  complexText (Single.magnitude value.real) (Single.magnitude value.imaginary)
    (Single.negative value.real) (Single.negative value.imaginary) .single

end ComplexSingle

namespace Scalar

def numberText : Scalar → String
  | boolean value => if value then "True" else "False"
  | word value => toString value.value
  | half value => realLayout.text .half value.negative value.magnitude
  | single value => realLayout.text .single (Single.negative value) (Single.magnitude value)
  | double value => Double.text value
  | complexSingle value => value.text
  | complexDouble value => value.text

/-- A scalar names its storage class around its number. -/
def text (value : Scalar) : String :=
  match value with
  | boolean value => if value then "np.True_" else "np.False_"
  | _ =>
      let number := value.numberText
      let inner := if number.startsWith "(" then number else "(" ++ number ++ ")"
      "np." ++ value.storage.name ++ inner

end Scalar

namespace NumberArray

/-- The text of a number without the zero after its point. -/
def shortText (value : Scalar) : String :=
  let number := value.numberText
  if number.endsWith ".0" then (number.dropEnd 1).toString else number

/-- A complex element of an array always shows both of its parts. -/
def partsText (real imaginary : Scalar) : String :=
  let second := shortText imaginary
  shortText real ++ (if second.startsWith "-" then "" else "+") ++ second ++ "j"

def elementText : Scalar → String
  | .complexSingle value => partsText (.single value.real) (.single value.imaginary)
  | .complexDouble value => partsText (.double value.real) (.double value.imaginary)
  | value => shortText value

def blanks (count : Nat) : String := String.ofList (List.replicate count ' ')

/-- Texts of one width with their points below each other; a text without a point ends last. -/
def aligned (texts : List String) : List String :=
  let tail (text : String) : Nat := (text.toList.dropWhile (· != '.')).length
  let after := (texts.map tail).foldl max 0
  let room (text : String) : Nat := text.length - (if tail text = 0 then after else tail text)
  let before := (texts.map room).foldl max 0
  texts.map fun text =>
    let right := if tail text = 0 then 0 else after - tail text
    blanks (before + after - right - text.length) ++ text ++ blanks right

/-- The element has a text with one number in it, or none. -/
def isAlignable : Scalar → Bool
  | .boolean _ | .complexSingle _ | .complexDouble _ => false
  | _ => true

/-- The texts of all elements; a truth value has the width of the longer one. -/
def elementTexts (items : List Scalar) : List String :=
  if items.all isAlignable then aligned (items.map elementText)
  else items.map fun item =>
    match item with
    | .boolean true => " True"
    | _ => elementText item

/-- Rows of the last axis stand on one line, other axes start a line for each row. -/
def rows (indent : Nat) : List Nat → List String → String
  | [], items => items.headD "0"
  | [_], items => "[" ++ String.intercalate ", " items ++ "]"
  | size :: shape, items =>
      let step := shape.foldl (· * ·) 1
      let parts := (List.range size).map fun index =>
        rows (indent + 1) shape ((items.drop (index * step)).take step)
      let gap := String.ofList (List.replicate shape.length '\n') ++ blanks indent
      "[" ++ String.intercalate ("," ++ gap) parts ++ "]"

/-- The lengths of the axes, where one axis keeps a comma. -/
def shapeText (shape : List Nat) : String :=
  match shape with
  | [size] => "(" ++ toString size ++ ",)"
  | _ => "(" ++ String.intercalate ", " (shape.map toString) ++ ")"

/-- The elements, zeros when they are objects; an array without any shows its shape instead. -/
def bodyText (value : NumberArray) : String :=
  if value.shape.contains 0 then
    if value.shape = [0] && !value.onDevice then "[]" else "[], shape=" ++ shapeText value.shape
  else
    match value.shape with
    | [] => (value.items.map elementText).headD "0"
    | shape =>
        let count := shape.foldl (· * ·) 1
        rows 7 shape
          (if value.items.isEmpty then List.replicate count "0" else elementTexts value.items)

/-- The storage class of a full array of the host that no name has to tell. -/
def isPlain (value : NumberArray) : Bool :=
  !value.onDevice && !value.shape.contains 0 &&
    (value.element == .stored .double || value.element == .stored .boolean ||
      value.element == .stored (.word .int64) || value.element == .stored .complexDouble)

def text (value : NumberArray) : String :=
  (if value.onDevice then "Array" else "array") ++ "(" ++ value.bodyText ++
    (if value.isPlain then "" else ", dtype=" ++ value.element.name) ++
    (if value.weak then ", weak_type=True" else "") ++ ")"

end NumberArray

namespace HostClass

def written (host : HostClass) : String :=
  "<class '" ++ (if host = fraction then "fractions.Fraction" else host.name) ++ "'>"

end HostClass

/-- The texts of items, parted by commas. -/
def listing (items : List String) : String := String.intercalate ", " items

/-- A tuple of one item keeps a comma. -/
def tupleText (items : List String) : String :=
  match items with
  | [item] => "(" ++ item ++ ",)"
  | _ => "(" ++ listing items ++ ")"

/-- A table pairs quoted keys with values. -/
def dictionaryText (keys items : List String) : String :=
  "\x7b" ++ listing (List.zipWith (fun key item => Text.quoted key ++ ": " ++ item) keys items) ++
    "\x7d"

/-- The abstract scalar types have names outside the device library. -/
def abstractScalarTypes : List String := [
  "generic", "number", "integer", "signedinteger", "unsignedinteger", "inexact", "floating",
  "complexfloating", "character", "flexible"]

mutual

/-- The text of a value in a message. -/
def Value.written : Value → String
  | .missing => "None"
  | .boolean value => if value then "True" else "False"
  | .integer value => toString value
  | .ratio value => "Fraction(" ++ toString value.num ++ ", " ++ toString value.den ++ ")"
  | .double value => Double.text value
  | .complex value => value.text
  | .text value => Text.quoted value
  | .scalar value => value.text
  | .array value => value.text
  | .tuple items => tupleText (Value.writtenItems items)
  | .list items => "[" ++ listing (Value.writtenItems items) ++ "]"
  | .dictionary keys items => dictionaryText keys (Value.writtenItems items)
  | .hostClass value => value.written
  | .dtype name => "dtype('" ++ (if name == "object" then "O" else name) ++ "')"
  | .scalarType name =>
      "<class '" ++ (if abstractScalarTypes.contains name then "numpy." else "jax.numpy.") ++
        name ++ "'>"
  | .function name => "<built-in function " ++ name ++ ">"
  | .primitive value => "<ntype " ++ value.label ++ ">"
  | .singleton value => "<ntype (eql " ++ value.written ++ ")>"

def Value.writtenItems : List Value → List String
  | [] => []
  | item :: rest => item.written :: Value.writtenItems rest

end

end Narrowing
