import Narrowing.Datum
import Narrowing.Value.Text

/-
This file lists the ways in which a description of a type is malformed.
-/

namespace Narrowing

namespace Descriptor

/-- The reasons for which a value describes no type. -/
inductive Cause where
  | literal
  | unhashable
  | invalidName
  | notDescriptor
  | emptyCompound
  | headlessCompound
  | parameterCount (head : String) (least most : Nat)
  | unhashableSingleton
  | unhashableMember
  | integerBound
  | byteSize
  | modulus
  | realBound
  | dimensions
  | vectorSize
  | functionParameters
  | misplacedKeyword (name : String)
  | restCount
deriving DecidableEq, Repr

def Cause.message : Cause → String
  | literal => "Literal value is not a type descriptor"
  | unhashable => "Unhashable descriptor component"
  | invalidName => "Invalid type name"
  | notDescriptor => "Not a type descriptor"
  | emptyCompound => "Empty compound descriptor"
  | headlessCompound => "Compound descriptor head must be a symbol"
  | parameterCount head least most =>
      Text.quoted head ++ " takes " ++ toString least ++ " to " ++ toString most ++ " parameters"
  | unhashableSingleton => "eql value must be hashable"
  | unhashableMember => "member values must be hashable"
  | integerBound => "Integer bound must be an integer, (integer) or *"
  | byteSize => "Byte size must be a positive integer"
  | modulus => "mod needs a positive integer"
  | realBound => "Real bound must be a real number, (real) or *"
  | dimensions => "Array dimensions must be *, a rank, or a list of sizes"
  | vectorSize => "Vector size must be a non-negative integer or *"
  | functionParameters => "function parameter types must be a list or *"
  | misplacedKeyword name => "Misplaced lambda-list keyword " ++ Text.quoted name
  | restCount => "&rest must be followed by exactly one descriptor"

/-- A description fails as a value or already as a text. -/
inductive Fault where
  | malformed (cause : Cause) (source : Value)
  | unreadable (fault : Datum.Fault)

/-- The message names the value at fault. -/
def malformedMessage (cause : Cause) (source : Value) : String :=
  cause.message ++ ": " ++ source.written

end Descriptor

end Narrowing
