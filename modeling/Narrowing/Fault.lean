import Narrowing.Descriptor.Fault
import Narrowing.Tier

/-
This file lists the ways in which an operation on numbers or forms fails.
-/

namespace Narrowing

/-- The causes of failure; the ones that a leaf operation finds carry no message. -/
inductive Fault where
  | zeroDivision
  | overflow
  | domain
  | operand
  | position
  | missingPart
  | raised (kind : String)
  | notNumber (value : Value)
  | undefinedOn (operation : String) (tier : Tier)
  | complexFloor
  | complexCoercion (value : Value) (tier : Tier)
  | negativeExponent
  | argumentNumber (operation : String) (count : Int) (least : Int) (most : Option Int)
  | argumentIndex (operation : String) (index : Int) (count : Nat)
  | notDifferentiable (operation : String)
  | depth (operation : String) (ceiling : Int)
  | noImplementation (operation : String)
  | noLowering (operation : String)
  | unbound (name : String)
  | parameterCount (names : List String) (count : Nat)
  | notConstant (wrapper : String)
  | frozen (name : String)
  | unknownProperties (name : String) (properties : List String)
  | argumentBounds (name : String) (least : Int) (most : Option Int)
  | descriptor (fault : Descriptor.Fault)
  | form (fault : Datum.Fault)

namespace Fault

/-- Kinds of faults that a constant operand may cause in a sound operation. -/
def foldableKinds : List String := [
  "ArithmeticError", "ZeroDivisionError", "OverflowError", "FloatingPointError", "ValueError",
  "UnicodeError", "TypeError"]

/-- A fault of arithmetic leaves a call as it stands when constants are folded. -/
def isFoldable : Fault → Bool
  | zeroDivision | overflow | domain | operand | notNumber _ | undefinedOn _ _ | complexFloor
  | complexCoercion _ _ | negativeExponent => true
  | raised kind => foldableKinds.contains kind
  | _ => false

def boundText (unbounded : String) : Option Int → String
  | none => unbounded
  | some bound => toString bound

/-- The message of a fault that the library itself finds. -/
def message : Fault → Option String
  | notNumber value => some ("Not a number: " ++ value.written)
  | undefinedOn operation tier =>
      some (operation ++ " is not defined on " ++ tier.name ++ " operands")
  | complexFloor => some "floor is only defined on real numbers"
  | complexCoercion value tier =>
      some ("Cannot coerce complex " ++ value.written ++ " to " ++ tier.name)
  | negativeExponent => some "integer.expt needs a non-negative exponent"
  | argumentNumber operation count least most =>
      some (Text.quoted operation ++ " called with " ++ toString count ++
        " argument(s); accepts [" ++ toString least ++ ", " ++ boundText "*" most ++ "]")
  | argumentIndex operation index count =>
      some (Text.quoted operation ++ " has no argument " ++ toString index ++ " (called with " ++
        toString count ++ ")")
  | notDifferentiable operation =>
      some ("No differentiation rule for " ++ Text.quoted operation)
  | depth operation ceiling =>
      some ("Specialization of " ++ Text.quoted operation ++ " exceeded depth " ++
        toString ceiling ++ "; raise TYPO_JAX_MAX_SPECIALIZATION_DEPTH for deeper expressions")
  | noImplementation operation =>
      some ("No implementation registered for " ++ Text.quoted operation)
  | noLowering operation => some ("No JAX lowering for " ++ Text.quoted operation)
  | unbound name => some ("Unbound variable " ++ Text.quoted name)
  | parameterCount names count =>
      some ("Expected " ++ toString names.length ++ " argument(s) (" ++
        String.intercalate ", " names ++ "), got " ++ toString count)
  | notConstant wrapper => some ("Wrapper " ++ wrapper ++ " is not a constant")
  | frozen name =>
      some ("Cannot register " ++ Text.quoted name ++ ": function database is frozen")
  | unknownProperties name properties =>
      some ("Unknown function properties for " ++ Text.quoted name ++ ": [" ++
        listing (properties.map Text.quoted) ++ "]")
  | argumentBounds name least most =>
      some ("Invalid arity bounds for " ++ Text.quoted name ++ ": [" ++ toString least ++ ", " ++
        boundText "None" most ++ "]")
  | zeroDivision | overflow | domain | operand | position | missingPart | raised _
  | descriptor _ | form _ => none

end Fault

/-- An absent result is a fault. -/
def orFault {α : Type} (result : Option α) (fault : Fault) : Except Fault α :=
  match result with
  | some value => .ok value
  | none => .error fault

end Narrowing
