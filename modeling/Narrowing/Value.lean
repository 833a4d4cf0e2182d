import Narrowing.Primitive

/-
This file holds the values that descriptors and forms speak about.
-/

namespace Narrowing

/-- The classes of host values that may stand as descriptors. -/
inductive HostClass where
  | boolean
  | integer
  | fraction
  | float
  | complex
  | text
  | missing
  | list
  | dictionary
  | tuple
  | bytes
deriving DecidableEq, Repr

namespace HostClass

def all : List HostClass := [
  .boolean, .integer, .fraction, .float, .complex, .text, .missing, .list, .dictionary, .tuple,
  .bytes]

def name : HostClass → String
  | boolean => "bool"
  | integer => "int"
  | fraction => "Fraction"
  | float => "float"
  | complex => "complex"
  | text => "str"
  | missing => "NoneType"
  | list => "list"
  | dictionary => "dict"
  | tuple => "tuple"
  | bytes => "bytes"

def ofName? (name : String) : Option HostClass := all.find? fun host => host.name == name

end HostClass

/-- The element type of an array is a storage class or a type that only has a name. -/
inductive ElementType where
  | stored (storage : Storage)
  | foreign (name : String)
deriving DecidableEq, Repr

namespace ElementType

def ofName (name : String) : ElementType :=
  match Storage.ofName? name with
  | some storage => .stored storage
  | none => .foreign name

def name : ElementType → String
  | stored storage => storage.name
  | foreign name => name

end ElementType

/-- An array of scalars on the host or on the device; a weak array came from a host number. -/
structure NumberArray where
  onDevice : Bool
  element : ElementType
  weak : Bool
  shape : List Nat
  items : List Scalar
deriving DecidableEq

/-- A value of the host language of descriptors and forms. -/
inductive Value where
  | missing
  | boolean (value : Bool)
  | integer (value : Int)
  | ratio (value : Rat)
  | double (value : Float)
  | complex (value : ComplexDouble)
  | text (value : String)
  | scalar (value : Scalar)
  | array (value : NumberArray)
  | tuple (items : List Value)
  | list (items : List Value)
  | dictionary (keys : List String) (items : List Value)
  | hostClass (value : HostClass)
  | dtype (name : String)
  | scalarType (name : String)
  | function (name : String)
  | primitive (value : Primitive)
  | singleton (value : Value)

namespace Value

instance : Inhabited Value := ⟨.missing⟩

/-- The wildcard of descriptors. -/
def star : Value := .text "*"

def isStar : Value → Bool
  | .text name => name == "*"
  | _ => false

/-- A fraction with denominator one becomes an integer. -/
def ofRat (value : Rat) : Value :=
  if value.den = 1 then .integer value.num else .ratio value

/-- The integer behind an integer object, which a boolean is not. -/
def integer? : Value → Option Int
  | .integer value => some value
  | _ => none

/-- The items of a tuple or of a list. -/
def items? : Value → Option (List Value)
  | .tuple items | .list items => some items
  | _ => none

end Value

end Narrowing
