import Narrowing.Ntype.Text

/-
This file describes the sequences of values that an operation may return.
-/

namespace Narrowing

/-- Required values come first, then optional ones, then any number of values of one type. -/
structure ValuesNtype where
  required : List Ntype
  optional : List Ntype
  rest : Option Ntype

namespace ValuesNtype

def any : ValuesNtype := ⟨[], [], some .universal⟩

def none : ValuesNtype := ⟨[], [], Option.none⟩

/-- Exactly one value. -/
def single (ntype : Ntype) : ValuesNtype := ⟨[ntype], [], Option.none⟩

def minimum (values : ValuesNtype) : Nat := values.required.length

/-- The number of positions before the repeating ones. -/
def fixedCount (values : ValuesNtype) : Nat := values.required.length + values.optional.length

def isSingle (values : ValuesNtype) : Bool := values.fixedCount ≤ 1 && values.rest.isNone

/-- The type at a position; a position past the end holds the missing value. -/
def nth (values : ValuesNtype) (position : Nat) : Ntype :=
  match (values.required ++ values.optional)[position]? with
  | some ntype => ntype
  | Option.none => values.rest.getD .null

/-- The type at a position, which no negative number names. -/
def at? (values : ValuesNtype) (position : Int) : Option Ntype :=
  if position < 0 then Option.none else some (values.nth position.toNat)

def positionMessage (position : Int) : String :=
  "value index must be non-negative, got " ++ toString position

def emptyUnionMessage : String := "union_values_ntypes requires at least one values-ntype"

/-- The type of the first value. -/
def primary (values : ValuesNtype) : Ntype := values.nth 0

def sameList : List Ntype → List Ntype → Bool
  | [], [] => true
  | first :: left, second :: right => first.same second && sameList left right
  | _, _ => false

def sameRest : Option Ntype → Option Ntype → Bool
  | Option.none, Option.none => true
  | some first, some second => first.same second
  | _, _ => false

def same (first second : ValuesNtype) : Bool :=
  sameList first.required second.required && sameList first.optional second.optional &&
    sameRest first.rest second.rest

/-- The union of the types of all members at one position. -/
def unionAt (first : ValuesNtype) (others : List ValuesNtype) (position : Nat) : Ntype :=
  others.foldl (fun result values => (result.union (values.nth position)).ntype)
    (first.nth position)

/-- The pointwise union of one or more descriptions. -/
def unionOf (first : ValuesNtype) (others : List ValuesNtype) : ValuesNtype :=
  if others.isEmpty then first
  else
    let shortest := others.foldl (fun count values => min count values.minimum) first.minimum
    let longest := others.foldl (fun count values => max count values.fixedCount) first.fixedCount
    let types := (List.range longest).map (unionAt first others)
    ⟨types.take shortest, types.drop shortest,
      if (first :: others).any (·.rest.isSome) then some (unionAt first others longest)
      else Option.none⟩

/-- The union of no descriptions does not exist. -/
def unionAll? : List ValuesNtype → Option ValuesNtype
  | [] => Option.none
  | first :: others => some (unionOf first others)

/-- The positions are compared in order until one is not proven. -/
def subtypeFrom (first second : ValuesNtype) (precise : Bool) : List Nat → Decision
  | [] => ⟨true, precise⟩
  | position :: positions =>
      let decision := (first.nth position).subtype (second.nth position)
      let precise := precise && decision.precise
      if decision.value then subtypeFrom first second precise positions else ⟨false, precise⟩

def subtype (first second : ValuesNtype) : Decision :=
  if first.same second then ⟨true, true⟩
  else subtypeFrom first second true
    (List.range (max first.fixedCount second.fixedCount + 1))

/-- A descriptor that describes the sequences. -/
def descriptor (values : ValuesNtype) : Value :=
  if values.same any then .star
  else
    let optional := if values.optional.isEmpty then []
      else .text "&optional" :: values.optional.map Ntype.descriptor
    let rest := match values.rest with
      | Option.none => []
      | some ntype => [.text "&rest", ntype.descriptor]
    .tuple (.text "values" :: values.required.map Ntype.descriptor ++ optional ++ rest)

def written (values : ValuesNtype) : String :=
  "<values-ntype " ++ values.descriptor.written ++ ">"

end ValuesNtype

end Narrowing
