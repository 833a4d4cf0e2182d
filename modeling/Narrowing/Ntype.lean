import Narrowing.Classification
import Narrowing.Value.Key

/-
This file holds the approximate numeric types: primitive classes and singletons of one value.
-/

namespace Narrowing

/-- A type is a primitive class or holds one value alone. -/
inductive Ntype where
  | primitive (value : Primitive)
  | singleton (value : Value)

/-- A type and whether it describes the set it stands for exactly. -/
structure Estimate where
  ntype : Ntype
  precise : Bool

/-- An answer and whether it is definite. -/
structure Decision where
  value : Bool
  precise : Bool
deriving DecidableEq, Repr

namespace Ntype

instance : Inhabited Ntype := ⟨.primitive .universal⟩

def empty : Ntype := .primitive .empty

def universal : Ntype := .primitive .universal

def null : Ntype := .primitive .null

def number : Ntype := .primitive .number

/-- Two types are the same when they name one class or hold one value. -/
def same : Ntype → Ntype → Bool
  | .primitive first, .primitive second => first == second
  | .singleton first, .singleton second => first.identical second
  | _, _ => false

def isEmpty : Ntype → Bool
  | .primitive value => value == .empty
  | .singleton _ => false

/-- The least class around a type. -/
def cover : Ntype → Primitive
  | .primitive value => value
  | .singleton value => value.primitiveClass

/-- A type is constant when it holds one known value. -/
def constant? : Ntype → Option Value
  | .primitive _ => none
  | .singleton value => some value

def isConstant (ntype : Ntype) : Bool := ntype.constant?.isSome

/-- The singleton of a value with a key; the missing value fills a class of its own. -/
def eql? (value : Value) : Option Ntype :=
  match value with
  | .missing => some null
  | value => value.key?.map fun _ => .singleton value

/-- The class that holds a value. -/
def ofValue (value : Value) : Ntype := .primitive value.primitiveClass

/-- Literals have singletons, other values have classes. -/
def ofConstant (value : Value) : Ntype :=
  match value with
  | .missing => null
  | .boolean _ | .integer _ | .ratio _ | .double _ | .complex _ | .text _ | .scalar _ =>
      .singleton value
  | value => ofValue value

/-- Membership of a value in a type. -/
def contains (ntype : Ntype) (value : Value) : Bool :=
  match ntype with
  | .primitive member => member.atoms.contains value.atom
  | .singleton member => value.identical member

/-- A singleton lies in a class when its value does. -/
def holds (primitive : Primitive) (value : Value) : Bool :=
  primitive.atoms.contains value.atom

def ofEnclosing (result : Primitive.Enclosing) : Estimate :=
  ⟨.primitive result.primitive, result.exact⟩

def union (first second : Ntype) : Estimate :=
  if first.same second || second.isEmpty then ⟨first, true⟩
  else if first.isEmpty then ⟨second, true⟩
  else
    match first, second with
    | .singleton value, .primitive other =>
        if holds other value then ⟨second, true⟩
        else ⟨.primitive (first.cover.union other).primitive, false⟩
    | .primitive other, .singleton value =>
        if holds other value then ⟨first, true⟩
        else ⟨.primitive (other.union second.cover).primitive, false⟩
    | .singleton _, .singleton _ => ⟨.primitive (first.cover.union second.cover).primitive, false⟩
    | .primitive left, .primitive right => ofEnclosing (left.union right)

def intersection (first second : Ntype) : Estimate :=
  if first.same second then ⟨first, true⟩
  else
    match first, second with
    | .singleton _, .singleton _ => ⟨empty, true⟩
    | .singleton value, .primitive other => ⟨if holds other value then first else empty, true⟩
    | .primitive other, .singleton value => ⟨if holds other value then second else empty, true⟩
    | .primitive left, .primitive right => ofEnclosing (left.intersection right)

/-- The class of the results of binary arithmetic. -/
def contagion (first second : Ntype) : Estimate :=
  ofEnclosing (first.cover.contagion second.cover)

def subtype (first second : Ntype) : Decision :=
  if first.same second then ⟨true, true⟩
  else
    match first, second with
    | .singleton _, .singleton _ => ⟨false, true⟩
    | .singleton value, .primitive other => ⟨holds other value, true⟩
    | .primitive _, .singleton _ => ⟨first.isEmpty, true⟩
    | .primitive left, .primitive right => ⟨left.subtype right, true⟩

/-- The first type is proven to lie in the second. -/
def proves (first second : Ntype) : Bool := (first.subtype second).value

/-- The subtype answer of the classes alone. -/
def subtypeByClass (first second : Ntype) : Decision :=
  if first.same second then ⟨true, true⟩
  else
    match second with
    | .singleton _ => ⟨false, false⟩
    | .primitive other =>
        if first.cover.subtype other then ⟨true, true⟩
        else if first.isConstant then ⟨false, false⟩
        else ⟨false, true⟩

def unionAll (ntypes : List Ntype) : Estimate :=
  ntypes.foldl
    (fun result ntype =>
      let next := result.ntype.union ntype
      ⟨next.ntype, result.precise && next.precise⟩)
    ⟨empty, true⟩

def intersectAll (ntypes : List Ntype) : Estimate :=
  ntypes.foldl
    (fun result ntype =>
      let next := result.ntype.intersection ntype
      ⟨next.ntype, result.precise && next.precise⟩)
    ⟨universal, true⟩

end Ntype

end Narrowing
