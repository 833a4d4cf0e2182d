import Narrowing.Value

/-
This file names the primitive classes by descriptors.
-/

namespace Narrowing

namespace IntegerClass

/-- The name of a class of integers is a symbol or a symbol with a width. -/
def symbol : IntegerClass → String × Option Nat
  | bit => ("bit", none)
  | unsigned7 => ("unsigned-byte", some 7)
  | unsigned8 => ("unsigned-byte", some 8)
  | signed8 => ("signed-byte", some 8)
  | unsigned15 => ("unsigned-byte", some 15)
  | unsigned16 => ("unsigned-byte", some 16)
  | signed16 => ("signed-byte", some 16)
  | unsigned31 => ("unsigned-byte", some 31)
  | unsigned32 => ("unsigned-byte", some 32)
  | signed32 => ("signed-byte", some 32)
  | unsigned63 => ("unsigned-byte", some 63)
  | unsigned64 => ("unsigned-byte", some 64)
  | signed64 => ("signed-byte", some 64)
  | integer => ("integer", none)

end IntegerClass

namespace WordKind

def integers : WordKind → IntegerClass
  | uint8 => .unsigned8
  | int8 => .signed8
  | uint16 => .unsigned16
  | int16 => .signed16
  | uint32 => .unsigned32
  | int32 => .signed32
  | uint64 => .unsigned64
  | int64 => .signed64

end WordKind

namespace Storage

/-- The class of the elements that a storage class keeps. -/
def element : Storage → Primitive
  | boolean => .boolean
  | word kind => .integers kind.integers
  | half => .shortFloat
  | single => .singleFloat
  | double => .doubleFloat
  | complexSingle => .complexSingle
  | complexDouble => .complexDouble
  | object => .universal

end Storage

namespace Primitive

/-- The descriptor of a class that is not an array class. -/
def plainDescriptor : Primitive → Value
  | empty => .text "nil"
  | integers narrowed =>
      match narrowed.symbol with
      | (name, none) => .text name
      | (name, some width) => .tuple [.text name, .integer width]
  | ratio => .text "ratio"
  | rational => .text "rational"
  | shortFloat => .text "short-float"
  | singleFloat => .text "single-float"
  | doubleFloat => .text "double-float"
  | float => .text "float"
  | real => .text "real"
  | complexSingle => .tuple [.text "complex", .text "single-float"]
  | complexDouble => .tuple [.text "complex", .text "double-float"]
  | complex => .text "complex"
  | number => .text "number"
  | character => .text "character"
  | string => .text "string"
  | boolean => .text "boolean"
  | null => .text "null"
  | cons => .text "cons"
  | list => .text "list"
  | function => .text "function"
  | arrayOf _ | array => .text "array"
  | universal => .text "t"

/-- The descriptor that names a class. -/
def descriptor : Primitive → Value
  | arrayOf storage => .tuple [.text "array", storage.element.plainDescriptor, .star]
  | primitive => primitive.plainDescriptor

end Primitive

mutual

/-- Symbols and integers stand bare, and the items of a tuple stand in parentheses. -/
def Value.bare : Value → String
  | .text name => name
  | .integer value => toString value
  | .tuple items => "(" ++ String.intercalate " " (Value.bareItems items) ++ ")"
  | _ => ""

def Value.bareItems : List Value → List String
  | [] => []
  | item :: rest => item.bare :: Value.bareItems rest

end

/-- The text of the descriptor of a class. -/
def Primitive.label (primitive : Primitive) : String := primitive.descriptor.bare

end Narrowing
