import Narrowing.Library.Rule

/-
This file holds the rules for the derivative of an operation in one of its operands.
-/

namespace Narrowing

namespace Derivative

open Plan

/-- The derivative is one integer everywhere. -/
def constantly (value : Int) : Plan (Option Handle) := some <$> ofConstant (.integer value)

def sum : DerivativeRule := fun _ _ => constantly 1

def difference : DerivativeRule := fun index operands =>
  if operands.length = 1 ∨ 0 < index then constantly (-1) else constantly 1

/-- The derivative of a product is the product of the other factors. -/
def product : DerivativeRule := fun index operands =>
  match operands.eraseIdx index with
  | [] => constantly 1
  | others => some <$> ofCall "*" others

/-- The derivative of a quotient in its dividend or in one of its divisors. -/
def quotient : DerivativeRule := fun index operands =>
  match operands with
  | [operand] => do
      let negative ← ofConstant (.integer (-1))
      let square ← ofCall "*" [operand, operand]
      some <$> ofCall "/" [negative, square]
  | operands =>
      if index = 0 then do
        let one ← ofConstant (.integer 1)
        some <$> ofCall "/" (one :: operands.drop 1)
      else
        match operands[index]? with
        | none => fail .position
        | some divisor => do
            let whole ← ofCall "/" operands
            let divided ← ofCall "/" [whole, divisor]
            some <$> ofCall "-" [divided]

/-- A rule for a function of one operand. -/
def ofFunction (plan : Handle → Plan Handle) : DerivativeRule := fun _ operands =>
  match operands with
  | [operand] => some <$> plan operand
  | _ => fail .operand

def neg : DerivativeRule := ofFunction fun _ => ofConstant (.integer (-1))

def abs : DerivativeRule := ofFunction fun operand => do
  let size ← ofCall "abs" [operand]
  ofCall "/" [operand, size]

def sqrt : DerivativeRule := ofFunction fun operand => do
  let one ← ofConstant (.integer 1)
  let two ← ofConstant (.integer 2)
  let root ← ofCall "sqrt" [operand]
  let double ← ofCall "*" [two, root]
  ofCall "/" [one, double]

def exp : DerivativeRule := ofFunction fun operand => ofCall "exp" [operand]

def log : DerivativeRule := ofFunction fun operand => do
  let one ← ofConstant (.integer 1)
  ofCall "/" [one, operand]

def sin : DerivativeRule := ofFunction fun operand => ofCall "cos" [operand]

def cos : DerivativeRule := ofFunction fun operand => do
  let sine ← ofCall "sin" [operand]
  ofCall "-" [sine]

def tan : DerivativeRule := ofFunction fun operand => do
  let tangent ← ofCall "tan" [operand]
  let one ← ofConstant (.integer 1)
  let square ← ofCall "*" [tangent, tangent]
  ofCall "+" [one, square]

/-- The derivative of a power in its base or in its exponent. -/
def power : DerivativeRule := fun index operands =>
  match operands with
  | [base, exponent] =>
      if index = 0 then do
        let one ← ofConstant (.integer 1)
        let lowered ← ofCall "-" [exponent, one]
        let lower ← ofCall "expt" [base, lowered]
        some <$> ofCall "*" [exponent, lower]
      else do
        let logarithm ← ofCall "log" [base]
        let same ← ofCall "expt" [base, exponent]
        some <$> ofCall "*" [logarithm, same]
  | _ => fail .operand

/-- A conversion changes no number. -/
def coercion : DerivativeRule := ofFunction fun _ => ofConstant (.integer 1)

/-- The rule of an operation; comparisons have none. -/
def rule? : Operation → Option DerivativeRule
  | .add => some sum
  | .sub => some difference
  | .mul => some product
  | .div => some quotient
  | .neg => some neg
  | .abs => some abs
  | .sqrt => some sqrt
  | .exp => some exp
  | .log => some log
  | .sin => some sin
  | .cos => some cos
  | .tan => some tan
  | .expt => some power
  | .lt | .eq => none

end Derivative

end Narrowing
