import Narrowing.Arithmetic.Operation
import Narrowing.Plan

/-
This file holds the rules that replace generic calls by the operations of one tier.
-/

namespace Narrowing

namespace Operation

/-- The symbol of the generic operation. -/
def symbol : Operation → String
  | add => "+"
  | sub | neg => "-"
  | mul => "*"
  | div => "/"
  | lt => "<"
  | eq => "="
  | operation => operation.name

/-- The result of a sum or a product without operands. -/
def identity? : Operation → Option Int
  | add => some 0
  | mul => some 1
  | _ => none

end Operation

namespace Tier

/-- The type of all numbers of a tier. -/
def ntype (tier : Tier) : Ntype := .primitive (.ofTier tier)

/-- Only inexact tiers have an operation that converts to them. -/
def coercion? (tier : Tier) : Option String := if tier.isExact then none else some tier.name

end Tier

namespace Ntype

/-- The narrowest tier that is proven to hold all numbers of a type. -/
def tier? (ntype : Ntype) : Option Tier := Tier.all.find? fun tier => ntype.proves tier.ntype

end Ntype

namespace Plan

/-- An operand as a number of a tier; exact tiers need no conversion. -/
def toTier (operand : Handle) (tier : Tier) : Plan Handle :=
  match tier.coercion? with
  | none => done operand
  | some operation => coerce operand tier.ntype operation

/-- Some operand is not proven to be a number. -/
def anyUnproven : List Handle → Plan Bool
  | [] => done false
  | operand :: rest => do
      if ← proves operand .number then anyUnproven rest else return true

/-- The call of an operation of a tier, unless the tier does not offer it. -/
def tierCall (tier : Tier) (operation : Operation) (first second : Handle) :
    Plan (Option Handle) :=
  registered (tier.operationName operation) fun present => do
    if present then
      let left ← toTier first tier
      let right ← toTier second tier
      some <$> ofCall (tier.operationName operation) [left, right]
    else return none

/-- Integers divide as fractions, and an inexact result needs an inexact tier. -/
def binaryTier (operation : Operation) (inexact : Bool) (tier : Tier) : Tier :=
  let divided := if operation = .div ∧ tier = .integer then .rational else tier
  if inexact && divided.isExact then .float64 else divided

/-- The call of the narrowest tier that holds both operands. -/
def binaryCall (operation : Operation) (inexact : Bool) (first second : Handle) :
    Plan (Option Handle) := do
  let left ← typeOf first
  let right ← typeOf second
  match (left.contagion right).ntype.tier? with
  | none => return none
  | some tier => tierCall (binaryTier operation inexact tier) operation first second

/-- The tier in which an operation of one operand computes. -/
def unaryTier (operation : Operation) (tier : Tier) : Tier :=
  if operation = .abs ∨ operation = .neg then tier else tier.floatFor

/-- The call of the narrowest tier that holds the operand. -/
def unaryCall (operation : Operation) (operand : Handle) : Plan (Option Handle) := do
  let type ← typeOf operand
  match type.tier? with
  | none => return none
  | some tier =>
      let chosen := unaryTier operation tier
      let argument ← toTier operand chosen
      some <$> ofCall (chosen.operationName operation) [argument]

end Plan

namespace Rule

open Plan

/-- Adding zero changes nothing. -/
def simplifySum (first second : Handle) : Plan (Option Handle) := do
  if ← isInteger 0 second then return some first
  if ← isInteger 0 first then return some second
  return none

/-- Subtracting zero changes nothing. -/
def simplifyDifference (first second : Handle) : Plan (Option Handle) := do
  if ← isInteger 0 second then return some first
  return none

/-- An exact zero swallows an exact factor and no other. -/
def isSwallowed (factor other : Handle) : Plan Bool := do
  if ← isInteger 0 other then proves factor Tier.rational.ntype
  else return false

/-- Multiplying by one changes nothing. -/
def simplifyProduct (first second : Handle) : Plan (Option Handle) := do
  if ← isInteger 1 second then return some first
  if ← isInteger 1 first then return some second
  if ← isSwallowed first second then return some second
  if ← isSwallowed second first then return some first
  return none

/-- Dividing by one changes nothing. -/
def simplifyQuotient (first second : Handle) : Plan (Option Handle) := do
  if ← isInteger 1 second then return some first
  return none

def simplify (operation : Operation) (first second : Handle) : Plan (Option Handle) :=
  match operation with
  | .add => simplifySum first second
  | .sub => simplifyDifference first second
  | .mul => simplifyProduct first second
  | .div => simplifyQuotient first second
  | _ => done none

/-- Calls with two operands replace a call with more. -/
def chain (operation : Operation) (first : Handle) : List Handle → Plan Handle
  | [] => done first
  | second :: rest => do
      let result ← ofCall operation.symbol [first, second]
      chain operation result rest

/-- One operand is negated, inverted or left as it is. -/
def single (operation : Operation) (operand : Handle) : Plan (Option Handle) :=
  match operation with
  | .sub => unaryCall .neg operand
  | .div => do
      let one ← ofConstant (.integer 1)
      some <$> ofCall operation.symbol [one, operand]
  | _ => done (some operand)

/-- The rule of a sum, difference, product or quotient. -/
def arithmetic (operation : Operation) : SpecializationRule
  | [] =>
      match operation.identity? with
      | some identity => some <$> ofConstant (.integer identity)
      | none => fail (.raised "KeyError")
  | [operand] => do
      if ← anyUnproven [operand] then return none
      single operation operand
  | [first, second] => do
      if ← anyUnproven [first, second] then return none
      match ← simplify operation first second with
      | some simplified => return some simplified
      | none => binaryCall operation false first second
  | first :: rest => some <$> chain operation first rest

/-- The rule of a comparison. -/
def comparison (operation : Operation) : SpecializationRule
  | [first, second] => do
      if ← anyUnproven [first, second] then return none
      binaryCall operation false first second
  | _ => fail .operand

/-- The rule of a function of one number. -/
def function (operation : Operation) : SpecializationRule
  | [operand] => do
      if ← anyUnproven [operand] then return none
      unaryCall operation operand
  | _ => fail .operand

/-- The type of exponents for which integers keep integral powers. -/
def naturalExponent : Ntype := .primitive (.integers .unsigned64)

/-- Exact bases with integral exponents keep exact powers. -/
def exactPower (base exponent : Handle) : Plan (Option Handle) := do
  let integral ← proves base Tier.integer.ntype
  let natural ← if integral then proves exponent naturalExponent else done false
  let tier : Tier := if natural then .integer else .rational
  some <$> ofCall (tier.operationName .expt) [base, exponent]

/-- The rule of a power; a square is a product. -/
def power : SpecializationRule
  | [base, exponent] => do
      if ← anyUnproven [base, exponent] then return none
      if ← isInteger 2 exponent then
        return some (← ofCall Operation.mul.symbol [base, base])
      if ← isInteger 1 exponent then return some base
      let integral ← proves exponent Tier.integer.ntype
      let exact ← if integral then proves base Tier.rational.ntype else done false
      if exact then exactPower base exponent
      else binaryCall .expt true base exponent
  | _ => fail .operand

/-- A number of the tier needs no conversion to it. -/
def coercion (tier : Tier) : SpecializationRule
  | [operand] => do
      if ← proves operand tier.ntype then return some operand
      return none
  | _ => fail .operand

end Rule

end Narrowing
