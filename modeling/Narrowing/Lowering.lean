import Narrowing.Arithmetic.Device
import Narrowing.Evaluation
import Narrowing.Library.Rule

/-
This file computes graphs on the device, where every number keeps at most 32 bits.
-/

namespace Narrowing

namespace Lowering

/-- The operation of the device with this name. -/
def unary : Operation → Value → Except Fault Value
  | .neg, value => Device.neg value
  | .abs, value => Device.abs value
  | .sqrt, value => Device.float .sqrt value
  | .exp, value => Device.float .exp value
  | .log, value => Device.float .log value
  | .sin, value => Device.float .sin value
  | .cos, value => Device.float .cos value
  | .tan, value => Device.float .tan value
  | _, _ => .error .operand

def binary : Operation → Value → Value → Except Fault Value
  | .add, first, second => Device.add first second
  | .sub, first, second => Device.sub first second
  | .mul, first, second => Device.mul first second
  | .div, first, second => Device.div first second
  | .expt, first, second => Device.pow first second
  | .lt, first, second => Device.less first second
  | .eq, first, second => Device.equal first second
  | _, _, _ => .error .operand

def apply (operation : Operation) : List Value → Except Fault Value
  | [value] => if operation.isUnary then unary operation value else .error .operand
  | [first, second] => if operation.isUnary then .error .operand else binary operation first second
  | _ => .error .operand

/-- The operands combine from the left; without operands there is no first one. -/
def chain (operation : Operation) : List Value → Except Fault Value
  | [] => .error .position
  | first :: rest => rest.foldlM (binary operation) first

def floor : List Value → Except Fault Value
  | [value] => Device.floor value
  | [first, second] => Device.floorQuotient first second
  | _ => .error .operand

/-- A conversion takes its first operand. -/
def coerce (tier : Tier) : List Value → Except Fault Value
  | [] => .error .position
  | value :: _ => Device.ofTier tier value

/-- The operation behind a generic name, where a difference may also be a negation. -/
def generic? (name : String) : Option Operation :=
  Operation.all.find? fun operation => operation != .neg && operation.symbol == name

/-- A generic operation on the device. -/
def applyGeneric (operation : Operation) (values : List Value) : Except Fault Value :=
  match operation, values with
  | .add, values => chain .add (.integer 0 :: values)
  | .mul, values => chain .mul (.integer 1 :: values)
  | .sub, [value] => Device.neg value
  | .div, [value] => Device.div (.integer 1) value
  | .sub, values => chain .sub values
  | .div, values => chain .div values
  | operation, values => apply operation values

/-- What follows the first point of a name that starts with the name of a tier and this point. -/
def tierPart? (name : String) : Option String :=
  match name.toList.dropWhile (· != '.') with
  | [] => none
  | _ :: part =>
      if (Tier.ofName? (.ofList (name.toList.takeWhile (· != '.')))).isSome then
        some (.ofList part)
      else none

/-- A call on the device. -/
def call (name : String) (values : List Value) : Except Fault Value :=
  match tierPart? name with
  | some part => do apply (← orFault (Operation.ofName? part) (.noLowering name)) values
  | none =>
      if name = "floor" then floor values
      else
        match Tier.ofName? name with
        | some tier =>
            if tier.isExact then .error (.noLowering name) else coerce tier values
        | none => do applyGeneric (← orFault (generic? name) (.noLowering name)) values

/-- A fraction is lowered to a double. -/
def constant : Value → Except Fault Value
  | .ratio value => (orFault (Double.ofRat? value) .overflow).map .double
  | value => .ok value

def leaf (environment : Environment) : Node → Except Fault Value
  | .constant value => constant value
  | .parameter name => environment.bound name
  | .call operation _ => .error (.noLowering operation)

end Lowering

namespace Graph

/-- The values of the parameters; of two parameters with one name the later one counts. -/
def bindParameters (names : List String) (arguments : List Value) : Except Fault Environment :=
  if arguments.length = names.length then .ok (names.zip arguments).reverse
  else .error (.parameterCount names arguments.length)

/-- The value of the graph on the device, as a function of named parameters. -/
def lower (graph : Graph) (names : List String) (arguments : List Value) : Except Fault Value := do
  graph.fold (Lowering.leaf (← bindParameters names arguments)) Lowering.call

end Graph

end Narrowing
