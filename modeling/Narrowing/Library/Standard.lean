import Narrowing.Arithmetic.Generic
import Narrowing.Library.Derivative
import Narrowing.Registry

/-
This file registers the generic operations, the conversions and the operations of every tier.
-/

namespace Narrowing

namespace Library

/-- An operation that is known in full; it may run early and it may be moved. -/
def pureRecord (name : String) (least : Int) (most : Option Int) (values : ValuesNtype)
    (implementation : Implementation) (specializer : Option SpecializationRule)
    (differentiator : Option DerivativeRule) : Record :=
  ⟨name, none, least, most, ["foldable", "movable"], values, some implementation, specializer,
    differentiator⟩

def ofPrimitive (primitive : Primitive) : ValuesNtype := .single (.primitive primitive)

def arithmeticRecord (operation : Operation) (least : Int) (implementation : Implementation) :
    Record :=
  pureRecord operation.symbol least none (ofPrimitive .number) implementation
    (some (Rule.arithmetic operation)) (Derivative.rule? operation)

def arithmeticRecords : List Record := [
  arithmeticRecord .add 0 Generic.add,
  arithmeticRecord .mul 0 Generic.mul,
  arithmeticRecord .sub 1 Generic.sub,
  arithmeticRecord .div 1 Generic.div]

/-- Sizes are real; other functions may leave the reals. -/
def functionRecord (operation : Operation) : Record :=
  pureRecord operation.symbol 1 (some 1)
    (ofPrimitive (if operation = .abs then .real else .number)) (Generic.ofUnary operation)
    (some (Rule.function operation)) (Derivative.rule? operation)

def functions : List Operation := [.sqrt, .exp, .log, .sin, .cos, .tan, .abs]

def powerRecord : Record :=
  pureRecord "expt" 2 (some 2) (ofPrimitive .number) Generic.expt (some Rule.power)
    (some Derivative.power)

/-- The floor of a quotient comes with the rest. -/
def floorRecord : Record :=
  pureRecord "floor" 1 (some 2)
    ⟨[.primitive (.integers .integer), .primitive .real], [], none⟩ Generic.floor none none

def comparisonRecord (operation : Operation) : Record :=
  pureRecord operation.symbol 2 (some 2) (ofPrimitive .boolean) (Generic.ofBinary operation)
    (some (Rule.comparison operation)) none

def inexactTiers : List Tier := [.float16, .float32, .float64, .complex64, .complex128]

def coercionRecord (tier : Tier) : Record :=
  pureRecord tier.name 1 (some 1) (.single tier.ntype) (Generic.coerce tier)
    (some (Rule.coercion tier)) (some Derivative.coercion)

/-- Roots, logarithms and powers of real floats may leave the reals. -/
def mayLeaveReals (tier : Tier) (operation : Operation) : Bool :=
  (operation = .sqrt || operation = .log || operation = .expt) && !tier.isExact && !tier.isComplex

/-- The values of an operation of a tier. -/
def tierValues (tier : Tier) (operation : Operation) : ValuesNtype :=
  if operation.isComparison then ofPrimitive .boolean
  else if operation = .abs then .single tier.part.ntype
  else if mayLeaveReals tier operation then
    .single (tier.ntype.union tier.complexFor.ntype).ntype
  else .single tier.ntype

def tierRecord (tier : Tier) (operation : Operation) : Record :=
  let count : Int := if operation.isUnary then 1 else 2
  pureRecord (tier.operationName operation) count (some count) (tierValues tier operation)
    (tier.compute operation) none (Derivative.rule? operation)

/-- All records of the library, in order. -/
def records : List Record :=
  arithmeticRecords ++ functions.map functionRecord ++ [powerRecord, floorRecord] ++
    [Operation.lt, .eq].map comparisonRecord ++ inexactTiers.map coercionRecord ++
    Tier.all.flatMap fun tier => tier.operations.map (tierRecord tier)

end Library

namespace Registry

/-- The standard library, which accepts no more records. -/
def standard : Registry :=
  ⟨Library.records.zipIdx.map fun entry => { entry.1 with serial := some entry.2 }, true⟩

/-- The library holds 110 records. -/
theorem standard_size : standard.size = 110 := by decide

theorem standard_frozen : standard.frozen = true := rfl

end Registry

end Narrowing
