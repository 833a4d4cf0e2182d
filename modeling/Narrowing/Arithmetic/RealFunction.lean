import Narrowing.Arithmetic.Conversion

/-
This file computes functions of one double precision number and reports where they have no value.
-/

namespace Narrowing

namespace Value

/-- The double that a function takes; no text is a number here. -/
def realArgument : Value → Except Fault Float
  | .text _ => .error .operand
  | value => value.toDouble

def complexArgument : Value → Except Fault ComplexDouble
  | .text _ => .error .operand
  | value => value.toComplex

def isNegative (value : Value) : Except Fault Bool := value.less (.integer 0)

end Value

namespace RealFunction

/-- An undefined result lies outside the domain; an infinite result leaves the finite numbers. -/
def checked (infinite : Fault) (argument result : Float) : Except Fault Value :=
  if result.isNaN && !argument.isNaN then .error .domain
  else if result.isInf && argument.isFinite then .error infinite
  else .ok (.double result)

/-- A function without poles that overflows. -/
def exp (value : Value) : Except Fault Value := do
  let argument ← value.realArgument
  checked .overflow argument (Elementary.exp argument)

def apply (function : Float → Float) (value : Value) : Except Fault Value := do
  let argument ← value.realArgument
  checked .domain argument (function argument)

def sin : Value → Except Fault Value := apply Elementary.sin

def cos : Value → Except Fault Value := apply Elementary.cos

def tan : Value → Except Fault Value := apply Elementary.tan

/-- The logarithm of a positive integer beyond the doubles. -/
def wideLog (value : Nat) : Float :=
  let width := Nat.log2 value + 1
  let fraction := Double.ofQuotient false value (Nat.pow 2 width)
  let rounded := if fraction == 1.0 then (0.5, width + 1) else (fraction, width)
  Elementary.log rounded.1 + Elementary.log 2.0 * Double.ofInt rounded.2

/-- The logarithm of a number that is not negative. -/
def positiveLog (value : Value) : Except Fault Value :=
  match value with
  | .integer whole =>
      if whole ≤ 0 then .error .domain
      else
        match Double.ofInt? whole with
        | some argument => .ok (.double (Elementary.log argument))
        | none => .ok (.double (wideLog whole.natAbs))
  | value => apply ElementFunction.realLog value

end RealFunction

namespace ComplexFunction

/-- A complex result, unless the function reports trouble. -/
def checked (outcome : ComplexOutcome) : Except Fault Value :=
  match outcome.trouble with
  | none => .ok (.complex outcome.value)
  | some .domain => .error .domain
  | some .overflow => .error .overflow

def apply (function : ComplexDouble → ComplexOutcome) (value : Value) : Except Fault Value := do
  checked (function (← value.complexArgument))

end ComplexFunction

namespace RealFunction

/-- Negative numbers have complex roots. -/
def sqrt (value : Value) : Except Fault Value := do
  if ← value.isNegative then ComplexFunction.apply ComplexDouble.sqrt value
  else apply Float.sqrt value

/-- Negative numbers have complex logarithms. -/
def log (value : Value) : Except Fault Value := do
  if ← value.isNegative then ComplexFunction.apply ComplexDouble.log value
  else positiveLog value

end RealFunction

end Narrowing
