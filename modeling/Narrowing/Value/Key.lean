import Narrowing.Value

/-
This file says which values one singleton type holds together.
-/

namespace Narrowing

/-- Two values are identical when their keys agree. -/
inductive Key where
  | missing
  | boolean (value : Bool)
  | integer (value : Int)
  | ratio (value : Rat)
  | double (value : Float)
  | complex (value : ComplexDouble)
  | text (value : String)
  | scalar (value : Scalar)
  | number (real imaginary : Extended)
  | hostClass (value : HostClass)
  | dtype (name : String)
  | scalarType (name : String)
  | function (name : String)
  | primitive (value : Primitive)
  | singleton (value : Key)
  | emptyTuple
  | tuple (head tail : Key)
deriving DecidableEq

namespace Extended

def ofInt (value : Int) : Extended := .finite value

def ofBool (value : Bool) : Extended := .finite (if value then 1 else 0)

end Extended

namespace Key

def ofReal (real : Extended) : Key := .number real (.finite 0)

def ofComplex (value : ComplexDouble) : Key :=
  .number (Double.toExtended value.real) (Double.toExtended value.imaginary)

/-- The numeric content of a scalar. -/
def ofScalar : Scalar → Key
  | .boolean value => ofReal (.ofBool value)
  | .word value => ofReal (.ofInt value.value)
  | .half value => ofReal (Double.toExtended value.toDouble)
  | .single value => ofReal (Double.toExtended (Single.toDouble value))
  | .double value => ofReal (Double.toExtended value)
  | .complexSingle value => ofComplex value.toDouble
  | .complexDouble value => ofComplex value

end Key

namespace Value

/-- The numeric content of a number, a boolean counting as one. -/
def content? : Value → Option Key
  | .boolean value => some (.ofReal (.ofBool value))
  | .integer value => some (.ofReal (.ofInt value))
  | .ratio value => some (.ofReal (.finite value))
  | .double value => some (.ofReal (Double.toExtended value))
  | .complex value => some (.ofComplex value)
  | .scalar value => some (.ofScalar value)
  | _ => none

mutual

/-- The key of a value keeps its type and its bits; arrays, lists and tables have none. -/
def key? : Value → Option Key
  | .missing => some .missing
  | .boolean value => some (.boolean value)
  | .integer value => some (.integer value)
  | .ratio value => some (.ratio value)
  | .double value => some (.double value)
  | .complex value => some (.complex value)
  | .text value => some (.text value)
  | .scalar value => some (.scalar value)
  | .array _ => none
  | .tuple items => tupleKey? items
  | .list _ => none
  | .dictionary _ _ => none
  | .hostClass value => some (.hostClass value)
  | .dtype name => some (.dtype name)
  | .scalarType name => some (.scalarType name)
  | .function name => some (.function name)
  | .primitive value => some (.primitive value)
  | .singleton value => (key? value).map .singleton

/-- A tuple has a key when all its items have one, and a number in it keeps only its content. -/
def tupleKey? : List Value → Option Key
  | [] => some .emptyTuple
  | item :: rest =>
      match item.content? <|> key? item, tupleKey? rest with
      | some head, some tail => some (.tuple head tail)
      | _, _ => none

end

/-- Two values that have keys are identical when the keys agree. -/
def identical (first second : Value) : Bool :=
  match first.key?, second.key? with
  | some left, some right => left == right
  | _, _ => false

end Value

end Narrowing
