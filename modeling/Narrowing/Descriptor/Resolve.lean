import Narrowing.Descriptor
import Narrowing.Descriptor.Tables

/-
This file finds the types that descriptions denote.
-/

namespace Narrowing

namespace Ntype

/-- The class of complex numbers around a part type. -/
def complexOfPart (part : Ntype) : Primitive :=
  if part.proves (.primitive .shortFloat) || part.proves (.primitive .singleFloat) then
    .complexSingle
  else if part.proves (.primitive .doubleFloat) || part.proves (.primitive .rational) then
    .complexDouble
  else .complex

/-- The least class around the integers of an interval. -/
def ofWideInterval (interval : Interval) : Estimate :=
  match IntegerClass.ofInterval? interval with
  | some integers => ⟨.primitive (.integers integers), true⟩
  | none =>
      ⟨.primitive (Primitive.enclosing (AtomSet.ofInterval interval)).primitive, false⟩

/-- The one integer of an interval that holds one. -/
def onlyInteger? (interval : Interval) : Option Int :=
  match interval.lower, interval.upper with
  | some lower, some upper => if lower = upper then some lower else none
  | _, _ => none

def isVoid (interval : Interval) : Bool :=
  match interval.lower, interval.upper with
  | some lower, some upper => upper < lower
  | _, _ => false

/-- The type of the integers of an interval. -/
def ofInterval (interval : Interval) : Estimate :=
  if isVoid interval then ⟨empty, true⟩
  else
    match onlyInteger? interval with
    | some value => ⟨.singleton (.integer value), true⟩
    | none => ofWideInterval interval

end Ntype

namespace Descriptor

/-- The storage classes in the order in which elements are tried. -/
def storageOrder : List Storage := Storage.all.filter (· ≠ .object)

/-- A look-up of a class by its own descriptor. -/
def lookupPrimitive (primitive : Primitive) : Lookup Estimate :=
  Lookup.ntype primitive.descriptor
    (match primitive with
     | .complexSingle => do
         let part ← Lookup.ntype (.text "single-float") (pure ⟨.primitive .singleFloat, true⟩)
         pure ⟨.primitive part.ntype.complexOfPart, part.precise⟩
     | .complexDouble => do
         let part ← Lookup.ntype (.text "double-float") (pure ⟨.primitive .doubleFloat, true⟩)
         pure ⟨.primitive part.ntype.complexOfPart, part.precise⟩
     | primitive => pure ⟨.primitive primitive, true⟩)

/-- The first storage class whose elements include a type; objects store everything. -/
def storageFor (element : Ntype) : List Storage → Lookup Storage
  | [] => pure .object
  | storage :: rest => do
      let candidate ← lookupPrimitive storage.element
      if element.proves candidate.ntype then pure storage else storageFor element rest

/-- The singletons of some values, united in order. -/
def memberUnion (source : Value) : List Value → Estimate → Lookup Estimate
  | [], result => pure result
  | value :: rest, result => do
      match ← Lookup.singleton? value with
      | none => Lookup.malformed .unhashableMember source
      | some ntype =>
          let next := result.ntype.union ntype
          memberUnion source rest ⟨next.ntype, result.precise && next.precise⟩

/-- The sections of a list of values, in their order. -/
inductive Section where
  | required
  | optional
  | rest
deriving DecidableEq, Repr

namespace Section

def rank : Section → Nat
  | required => 0
  | optional => 1
  | rest => 2

def ofKeyword? : String → Option Section
  | "&optional" => some optional
  | "&rest" => some rest
  | _ => none

end Section

/-- The types of the sections so far, each in reverse. -/
structure Sections where
  current : Section
  required : List Ntype
  optional : List Ntype
  rest : List Ntype
  precise : Bool

namespace Sections

def start : Sections := ⟨.required, [], [], [], true⟩

def add (sections : Sections) (estimate : Estimate) : Sections :=
  let sections := { sections with precise := sections.precise && estimate.precise }
  match sections.current with
  | .required => { sections with required := estimate.ntype :: sections.required }
  | .optional => { sections with optional := estimate.ntype :: sections.optional }
  | .rest => { sections with rest := estimate.ntype :: sections.rest }

/-- A keyword opens its section when that section comes later. -/
def enter? (sections : Sections) (name : String) : Option Sections :=
  match Section.ofKeyword? name with
  | some target =>
      if sections.current.rank < target.rank then some { sections with current := target }
      else none
  | none => none

/-- One required type is the canonical single value; other results carry a serial number. -/
def finish (source : Value) (sections : Sections) : Lookup ValuesEstimate := do
  if sections.current = .rest ∧ sections.rest.length ≠ 1 then
    Lookup.malformed .restCount source
  else
    let values : ValuesNtype :=
      ⟨sections.required.reverse, sections.optional.reverse, sections.rest.head?⟩
    if values.required.length = 1 ∧ values.optional.isEmpty ∧ values.rest.isNone then
      pure ⟨values, sections.precise, none⟩
    else
      pure ⟨values, sections.precise, some (← Lookup.fresh)⟩

end Sections

/-- The conservative type of the first of some values. -/
def primaryEstimate (result : ValuesEstimate) : Estimate :=
  if result.values.required.isEmpty then
    ⟨(result.values.primary.union .null).ntype, false⟩
  else ⟨result.values.primary, result.precise⟩

/-- The complement of a class; nothing is known of the complement of an inexact type. -/
def complementOf (inner : Estimate) : Estimate :=
  match inner.precise, inner.ntype with
  | true, .primitive primitive => Ntype.ofEnclosing primitive.complement
  | _, _ => ⟨.universal, false⟩

def isUniversal : Ntype → Bool
  | .primitive primitive => primitive == .universal
  | .singleton _ => false

mutual

/-- The type that a description denotes. -/
def resolve : Descriptor → Lookup Estimate
  | .lookup source body => Lookup.ntype source (resolve body)
  | .known ntype => pure ⟨ntype, true⟩
  | .unknown => pure ⟨.universal, false⟩
  | .malformed cause source => Lookup.malformed cause source
  | .eql source value => do
      match ← Lookup.singleton? value with
      | some ntype => pure ⟨ntype, true⟩
      | none => Lookup.malformed .unhashableSingleton source
  | .member source values => memberUnion source values ⟨.empty, true⟩
  | .integers interval => pure (Ntype.ofInterval interval)
  | .realRange primitive bounded => pure ⟨.primitive primitive, !bounded⟩
  | .complexOf part => do
      let part ← resolve part
      pure ⟨.primitive part.ntype.complexOfPart, part.precise⟩
  | .arrayOf element sized => do
      let element ← resolve element
      let storage ← storageFor element.ntype storageOrder
      pure ⟨.primitive (.arrayOf storage), element.precise && !sized⟩
  | .arrays sized => pure ⟨.primitive .array, !sized⟩
  | .cons parts => do
      let parts ← resolveAll parts
      pure ⟨.primitive .cons,
        parts.all fun part => part.precise && isUniversal part.ntype⟩
  | .function parameters constrained => do
      let _ ← resolveAll parameters
      pure ⟨.primitive .function, !constrained⟩
  | .functionTo parameters result => do
      let _ ← resolveAll parameters
      let _ ← resolveValues result
      pure ⟨.primitive .function, false⟩
  | .sections source items => do
      let values ← Lookup.values source (resolveSections source items .start)
      pure (primaryEstimate values)
  | .both parts => do
      let parts ← resolveAll parts
      let result := Ntype.intersectAll (parts.map Estimate.ntype)
      pure ⟨result.ntype, result.precise && parts.all Estimate.precise⟩
  | .either parts => do
      let parts ← resolveAll parts
      let result := Ntype.unionAll (parts.map Estimate.ntype)
      pure ⟨result.ntype, result.precise && parts.all Estimate.precise⟩
  | .complement part => do
      let inner ← resolve part
      pure (complementOf inner)

/-- The types that some descriptions denote, looked up in order. -/
def resolveAll : List Descriptor → Lookup (List Estimate)
  | [] => pure []
  | part :: rest => do
      let first ← resolve part
      let others ← resolveAll rest
      pure (first :: others)

/-- The values that a description denotes. -/
def resolveValues : Descriptor → Lookup ValuesEstimate
  | .lookup source (.sections _ items) =>
      Lookup.values source (resolveSections source items .start)
  | .lookup source body =>
      Lookup.values source do
        let estimate ← Lookup.ntype source (resolve body)
        pure ⟨.single estimate.ntype, estimate.precise, none⟩
  | body => do
      let estimate ← resolve body
      pure ⟨.single estimate.ntype, estimate.precise, none⟩

/-- The sections that the items of a list of values describe. -/
def resolveSections (source : Value) : List Descriptor → Sections → Lookup ValuesEstimate
  | [], state => state.finish source
  | item :: rest, state => do
      match item.source? with
      | some (.text name) =>
          if name.startsWith "&" then
            match state.enter? name with
            | some entered => resolveSections source rest entered
            | none => Lookup.malformed (.misplacedKeyword name) source
          else
            let estimate ← resolve item
            resolveSections source rest (state.add estimate)
      | _ =>
          let estimate ← resolve item
          resolveSections source rest (state.add estimate)

end

/-- The type that a value describes. -/
def ntypeOf (value : Value) : Lookup Estimate := resolve (ofValue value)

/-- The values that a value describes; the wildcard describes any values. -/
def valuesOf (value : Value) : Lookup ValuesEstimate :=
  if value.isStar then Lookup.values value (pure ⟨.any, true, none⟩)
  else resolveValues (ofValue value)

/-- The outcome of a look-up in empty tables. -/
def run {Result : Type} (lookup : Lookup Result) : Except Fault Result :=
  (lookup.run Tables.empty).1

/-- The type that a value describes when nothing was looked up before. -/
def ntype (value : Value) : Except Fault Estimate := run (ntypeOf value)

/-- The values that a value describes when nothing was looked up before. -/
def valuesNtype (value : Value) : Except Fault ValuesNtype := (run (valuesOf value)).map (·.values)

/-- The description that a source text gives. -/
def read (source : String) : Except Fault Value :=
  (Datum.read source).mapError Fault.unreadable

end Descriptor

end Narrowing
