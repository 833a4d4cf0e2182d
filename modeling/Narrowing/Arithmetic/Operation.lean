import Narrowing.Arithmetic.RealFunction

/-
This file gives the operations that each tier offers on operands of that tier.
-/

namespace Narrowing

/-- The operations that tiers offer. -/
inductive Operation where
  | add
  | sub
  | mul
  | div
  | neg
  | abs
  | sqrt
  | exp
  | log
  | sin
  | cos
  | tan
  | expt
  | lt
  | eq
deriving DecidableEq, Repr

namespace Operation

def name : Operation → String
  | add => "add"
  | sub => "sub"
  | mul => "mul"
  | div => "div"
  | neg => "neg"
  | abs => "abs"
  | sqrt => "sqrt"
  | exp => "exp"
  | log => "log"
  | sin => "sin"
  | cos => "cos"
  | tan => "tan"
  | expt => "expt"
  | lt => "lt"
  | eq => "eq"

def all : List Operation :=
  [.add, .sub, .mul, .div, .neg, .abs, .sqrt, .exp, .log, .sin, .cos, .tan, .expt, .lt, .eq]

def ofName? (name : String) : Option Operation := all.find? fun operation => operation.name == name

/-- Some operations take one operand and the others take two. -/
def isUnary : Operation → Bool
  | neg | abs | sqrt | exp | log | sin | cos | tan => true
  | add | sub | mul | div | expt | lt | eq => false

def isComparison : Operation → Bool
  | lt | eq => true
  | _ => false

theorem mem_all (operation : Operation) : operation ∈ all := by cases operation <;> decide

end Operation

namespace Value

/-- A fraction that is whole turns into an integer. -/
def normalized : Value → Value
  | .ratio value => .ofRat value
  | value => value

/-- The elements of a device array, back on the host. -/
def toHost : Value → Value
  | .array grid =>
      match grid.scalar? with
      | some element => .scalar element
      | none => .array { grid with onDevice := false, weak := false }
  | value => value

end Value

namespace Tier

/-- The operations that a tier offers, in their order. -/
def operations : Tier → List Operation
  | integer => [.add, .sub, .mul, .neg, .abs, .lt, .eq, .expt]
  | rational => [.add, .sub, .mul, .neg, .abs, .div, .expt, .lt, .eq]
  | float16 | float32 | float64 => Operation.all
  | complex64 | complex128 =>
      [.add, .sub, .mul, .div, .neg, .abs, .sqrt, .exp, .log, .sin, .cos, .tan, .expt, .eq]

def offers (tier : Tier) (operation : Operation) : Bool := tier.operations.contains operation

/-- The name of an operation of a tier. -/
def operationName (tier : Tier) (operation : Operation) : String :=
  tier.name ++ "." ++ operation.name

namespace Exact

/-- Integers and fractions have their arithmetic from the host. -/
def unary : Operation → Value → Except Fault Value
  | .neg, value => value.neg
  | .abs, value => value.abs
  | _, _ => .error .operand

def integerPower (base exponent : Value) : Except Fault Value := do
  if ← exponent.isNegative then .error .negativeExponent
  else Operator.power.apply base exponent

def binary : Operation → Value → Value → Except Fault Value
  | .add, first, second => Operator.addition.apply first second
  | .sub, first, second => Operator.subtraction.apply first second
  | .mul, first, second => Operator.multiplication.apply first second
  | .expt, first, second => integerPower first second
  | .lt, first, second => (first.less second).map .boolean
  | .eq, first, second => (first.equal second).map .boolean
  | _, _, _ => .error .operand

end Exact

namespace Rational

/-- The quotient of two exact numbers in normal form. -/
def quotient (first second : Value) : Except Fault Value := do
  let top ← first.toRat
  let bottom ← second.toRat
  if bottom = 0 then .error .zeroDivision else .ok (.ofRat (top / bottom))

/-- The power with an integral exponent in normal form. -/
def power (base exponent : Value) : Except Fault Value := do
  let exact ← base.toRat
  let count ← exponent.toInteger
  .ofRat <$> PlainNumber.ratioPower exact count

def binary : Operation → Value → Value → Except Fault Value
  | .div, first, second => quotient first second
  | .expt, first, second => power first second
  | operation, first, second => (Exact.binary operation first second).map Value.normalized

end Rational

namespace Wide

/-- Double precision has its functions from the reals. -/
def unary : Operation → Value → Except Fault Value
  | .neg, value => value.neg
  | .abs, value => value.abs
  | .sqrt, value => RealFunction.sqrt value
  | .exp, value => RealFunction.exp value
  | .log, value => RealFunction.log value
  | .sin, value => RealFunction.sin value
  | .cos, value => RealFunction.cos value
  | .tan, value => RealFunction.tan value
  | _, _ => .error .operand

def binary : Operation → Value → Value → Except Fault Value
  | .div, first, second => Operator.division.apply first second
  | .expt, first, second => Operator.power.apply first second
  | operation, first, second => Exact.binary operation first second

def complexUnary : Operation → Value → Except Fault Value
  | .neg, value => value.neg
  | .abs, value => value.abs
  | .sqrt, value => ComplexFunction.apply ComplexDouble.sqrt value
  | .exp, value => ComplexFunction.apply ComplexDouble.exp value
  | .log, value => ComplexFunction.apply ComplexDouble.log value
  | .sin, value => ComplexFunction.apply ComplexDouble.sin value
  | .cos, value => ComplexFunction.apply ComplexDouble.cos value
  | .tan, value => ComplexFunction.apply ComplexDouble.tan value
  | _, _ => .error .operand

end Wide

namespace Narrow

/-- Narrow numbers compute on the device and their results return to the host. -/
def complexUnary (operation : Operation) (value : Value) : Except Fault Value :=
  Value.toHost <$>
    match operation with
    | .neg => Device.neg value
    | .abs => Device.abs value
    | .sqrt => Device.float .sqrt value
    | .exp => Device.float .exp value
    | .log => Device.float .log value
    | .sin => Device.float .sin value
    | .cos => Device.float .cos value
    | .tan => Device.float .tan value
    | _ => .error .operand

/-- Roots and logarithms of negative numbers leave the reals. -/
def leavesReals : Operation → Bool
  | .sqrt | .log => true
  | _ => false

def unary (operation : Operation) (value : Value) : Except Fault Value := do
  if leavesReals operation then
    if ← value.isNegative then
      return ← complexUnary operation (← Device.ofTier .complex64 value)
  complexUnary operation value

/-- Powers of negative numbers with other than integral exponents leave the reals. -/
def realPower (base exponent : Value) : Except Fault Value := do
  if ← base.isNegative then
    if !Double.isIntegral (← exponent.toDouble) then
      let left ← Device.ofTier .complex64 base
      let right ← Device.ofTier .complex64 exponent
      return (← Device.pow left right).toHost
  Value.toHost <$> Device.pow base exponent

def complexBinary (operation : Operation) (first second : Value) : Except Fault Value :=
  match operation with
  | .add => Value.toHost <$> Device.add first second
  | .sub => Value.toHost <$> Device.sub first second
  | .mul => Value.toHost <$> Device.mul first second
  | .div => Value.toHost <$> Device.div first second
  | .expt => Value.toHost <$> Device.pow first second
  | operation => Exact.binary operation first second

def binary (operation : Operation) (first second : Value) : Except Fault Value :=
  match operation with
  | .expt => realPower first second
  | operation => complexBinary operation first second

end Narrow

/-- An operation of a tier on one operand. -/
def unary (tier : Tier) (operation : Operation) (value : Value) : Except Fault Value :=
  match tier with
  | integer => Exact.unary operation value
  | rational => (Exact.unary operation value).map Value.normalized
  | float16 | float32 => Narrow.unary operation value
  | float64 => Wide.unary operation value
  | complex64 => Narrow.complexUnary operation value
  | complex128 => Wide.complexUnary operation value

/-- An operation of a tier on two operands. -/
def binary (tier : Tier) (operation : Operation) (first second : Value) : Except Fault Value :=
  match tier with
  | integer => Exact.binary operation first second
  | rational => Rational.binary operation first second
  | float16 | float32 => Narrow.binary operation first second
  | float64 | complex128 => Wide.binary operation first second
  | complex64 => Narrow.complexBinary operation first second

/-- An operation of a tier on a list of operands. -/
def compute (tier : Tier) (operation : Operation) (operands : List Value) : Except Fault Value :=
  match operation.isUnary, operands with
  | true, [value] => tier.unary operation value
  | false, [first, second] => tier.binary operation first second
  | _, _ => .error .operand

end Tier

end Narrowing
