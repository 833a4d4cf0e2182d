import Narrowing.Value

/-
This file finds the tier and the atom of every value.
-/

namespace Narrowing

namespace Storage

/-- The tier of a scalar with this storage. -/
def tier? : Storage → Option Tier
  | boolean => none
  | word _ => some .integer
  | half => some .float16
  | single => some .float32
  | double => some .float64
  | complexSingle => some .complex64
  | complexDouble => some .complex128
  | object => none

end Storage

namespace ElementType

/-- The storage class that keeps the elements of an element type. Integers narrower than a byte are
kept as bytes. -/
def keeper? : ElementType → Option Storage
  | stored storage => some storage
  | foreign "int4" | foreign "int2" => some (.word .int8)
  | foreign "uint4" | foreign "uint2" => some (.word .uint8)
  | foreign _ => none

end ElementType

namespace NumberArray

/-- An array of the host, filled with zeros. -/
def zeros (element : ElementType) (shape : List Nat) : NumberArray where
  onDevice := false
  element := element
  weak := false
  shape := shape
  items :=
    (element.keeper?.bind Scalar.zero?).elim [] (List.replicate (shape.foldl (· * ·) 1))

/-- An array without axes holds one scalar. -/
def scalar? (array : NumberArray) : Option Scalar :=
  if array.shape.isEmpty then array.items.head? else none

end NumberArray

namespace Value

/-- A scalar, or the only element of an array without axes. -/
def scalar? : Value → Option Scalar
  | .scalar value => some value
  | .array grid => grid.scalar?
  | _ => none

/-- The tier of a number; other values have none. -/
def tier? : Value → Option Tier
  | .integer _ => some .integer
  | .ratio value => some (if value.den = 1 then .integer else .rational)
  | .double _ => some .float64
  | .complex _ => some .complex128
  | .scalar value => value.storage.tier?
  | .array grid => grid.scalar?.bind (·.storage.tier?)
  | _ => none

/-- The integer of a value in the integer tier. -/
def whole? : Value → Option Int
  | .integer value => some value
  | .ratio value => if value.den = 1 then some value.num else none
  | value =>
      match value.scalar? with
      | some (.word word) => some word.value
      | _ => none

/-- The atom of a number of some tier. -/
def numberAtom (value : Value) : Tier → Atom
  | .integer => Atom.ofInt (value.whole?.getD 0)
  | .rational => .ratio
  | .float16 => .half
  | .float32 => .single
  | .float64 => .double
  | .complex64 => .complexSingle
  | .complex128 => .complexDouble

/-- The atom of an array; without axes it counts as its element. -/
def arrayAtom (grid : NumberArray) : Atom :=
  if grid.shape.isEmpty then
    if grid.element = .stored .boolean then .boolean else .other
  else
    match grid.element with
    | .stored storage => .array storage
    | .foreign _ => .array .object

/-- The unique atom of a value. -/
def atom (value : Value) : Atom :=
  match value.tier? with
  | some tier => value.numberAtom tier
  | none =>
      match value with
      | .missing => .null
      | .boolean _ | .scalar _ => .boolean
      | .text name => if name.length = 1 then .character else .string
      | .tuple items => if items.isEmpty then .other else .cons
      | .list _ => .array .object
      | .array grid => arrayAtom grid
      | .function _ => .function
      | _ => .other

/-- The least primitive class that holds a value. -/
def primitiveClass (value : Value) : Primitive := Primitive.ofAtom value.atom

end Value

end Narrowing
