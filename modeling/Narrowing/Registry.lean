import Narrowing.Descriptor.Resolve
import Narrowing.Plan

/-
This file keeps what is known about operations: their records by name, in the order they came.
-/

namespace Narrowing

/-- An operation on a list of values. -/
abbrev Implementation := List Value → Except Fault Value

/-- All that is known about one operation; the serial number tells registrations apart. -/
structure Record where
  name : String
  serial : Option Nat
  least : Int
  most : Option Int
  properties : List String
  values : ValuesNtype
  implementation : Option Implementation
  specializer : Option SpecializationRule
  differentiator : Option DerivativeRule

namespace Record

/-- An unknown operation takes any operands and returns any values. -/
def unknown (name : String) : Record :=
  ⟨name, none, 0, none, [], .any, none, none, none⟩

def knownProperties : List String := ["foldable", "movable"]

/-- A foldable operation may run on constants before any evaluation. -/
def isFoldable (record : Record) : Bool := record.properties.contains "foldable"

/-- A movable call may be moved or repeated. -/
def isMovable (record : Record) : Bool := record.properties.contains "movable"

def accepts (record : Record) (count : Int) : Bool :=
  decide (record.least ≤ count) &&
    match record.most with
    | none => true
    | some most => decide (count ≤ most)

end Record

/-- The values of an operation are described or given as they are. -/
inductive ValuesSource where
  | described (descriptor : Value)
  | given (values : ValuesNtype)

namespace ValuesSource

def resolve : ValuesSource → Except Fault ValuesNtype
  | described descriptor => (Descriptor.valuesNtype descriptor).mapError .descriptor
  | given values => .ok values

end ValuesSource

/-- The parts of a record that a registration or an update names. -/
structure Changes where
  least : Option Int
  most : Option (Option Int)
  properties : Option (List String)
  values : Option ValuesSource
  implementation : Option (Option Implementation)
  specializer : Option (Option SpecializationRule)
  differentiator : Option (Option DerivativeRule)

namespace Changes

def nothing : Changes := ⟨none, none, none, none, none, none, none⟩

end Changes

/-- The insertion of a text into an ordered list without repetition. -/
def insertProperty (property : String) : List String → List String
  | [] => [property]
  | first :: rest =>
      if property < first then property :: first :: rest
      else if property = first then first :: rest
      else first :: insertProperty property rest

/-- The properties in order and without repetition. -/
def orderedProperties (properties : List String) : List String :=
  properties.foldr insertProperty []

/-- A frozen registry accepts no more records. -/
structure Registry where
  records : List Record
  frozen : Bool

namespace Registry

def empty : Registry := ⟨[], false⟩

def names (registry : Registry) : List String := registry.records.map (·.name)

def size (registry : Registry) : Nat := registry.records.length

def lookup? (registry : Registry) (name : String) : Option Record :=
  registry.records.find? fun record => record.name == name

def contains (registry : Registry) (name : String) : Bool := (registry.lookup? name).isSome

/-- The record of an operation; an operation without a record is unknown. -/
def ensure (registry : Registry) (name : String) : Record :=
  (registry.lookup? name).getD (.unknown name)

/-- The record of an operation that accepts this number of operands. -/
def check (registry : Registry) (name : String) (count : Int) : Except Fault Record :=
  let record := registry.ensure name
  if record.accepts count then .ok record
  else .error (.argumentNumber name count record.least record.most)

/-- A record replaces the one with its name or comes last. -/
def insert (record : Record) : List Record → List Record
  | [] => [record]
  | first :: rest =>
      if first.name = record.name then record :: rest else first :: insert record rest

def store (registry : Registry) (record : Record) : Except Fault Registry :=
  if registry.frozen then .error (.frozen record.name)
  else .ok { registry with records := insert record registry.records }

/-- The properties of a registration are known ones. -/
def checkProperties (name : String) (properties : List String) : Except Fault (List String) :=
  let ordered := orderedProperties properties
  let unknown := ordered.filter fun property => !Record.knownProperties.contains property
  if unknown.isEmpty then .ok ordered else .error (.unknownProperties name unknown)

/-- The bounds of a registration are in order. -/
def checkBounds (name : String) (least : Int) (most : Option Int) : Except Fault Unit :=
  if least < 0 ∨ (∃ bound ∈ most, bound < least) then .error (.argumentBounds name least most)
  else .ok ()

/-- A new record from the parts that a registration names. -/
def recordOf (serial : Nat) (name : String) (changes : Changes) : Except Fault Record := do
  let properties ← checkProperties name (changes.properties.getD [])
  let least := changes.least.getD 0
  let most := changes.most.getD none
  checkBounds name least most
  let values ← (changes.values.getD (.given .any)).resolve
  .ok ⟨name, some serial, least, most, properties, values, changes.implementation.getD none,
    changes.specializer.getD none, changes.differentiator.getD none⟩

/-- A registration stores a new record. -/
def register (registry : Registry) (serial : Nat) (name : String) (changes : Changes) :
    Except Fault (Registry × Record) := do
  let record ← recordOf serial name changes
  .ok (← registry.store record, record)

/-- An update replaces the parts that it names and checks none of them against the others. -/
def update (registry : Registry) (serial : Nat) (name : String) (changes : Changes) :
    Except Fault (Registry × Record) := do
  let values ← changes.values.mapM ValuesSource.resolve
  let record := registry.ensure name
  let changed : Record :=
    ⟨name, some serial, changes.least.getD record.least, changes.most.getD record.most,
      (changes.properties.map orderedProperties).getD record.properties,
      values.getD record.values, changes.implementation.getD record.implementation,
      changes.specializer.getD record.specializer,
      changes.differentiator.getD record.differentiator⟩
  .ok (← registry.store changed, changed)

def freeze (registry : Registry) : Registry := { registry with frozen := true }

/-- A copy shares all records and accepts new ones. -/
def copy (registry : Registry) : Registry := { registry with frozen := false }

/-- Two registries hold the same record of an operation, or neither holds one. -/
def sharesRecord (first second : Registry) (name : String) : Bool :=
  match first.lookup? name, second.lookup? name with
  | none, none => true
  | some left, some right => left.serial == right.serial
  | _, _ => false

theorem insert_names_of_mem {record : Record} {records : List Record}
    (present : record.name ∈ records.map (·.name)) :
    (insert record records).map (·.name) = records.map (·.name) := by
  induction records with
  | nil => simp at present
  | cons first rest inductionHypothesis =>
      simp only [insert]
      split
      · rename_i same
        simp [same]
      · rename_i different
        simp only [List.map_cons, List.mem_cons] at present ⊢
        rcases present with same | later
        · exact absurd same.symm different
        · rw [inductionHypothesis later]

theorem insert_of_not_mem {record : Record} {records : List Record}
    (absent : record.name ∉ records.map (·.name)) :
    insert record records = records ++ [record] := by
  induction records with
  | nil => rfl
  | cons first rest inductionHypothesis =>
      simp only [List.map_cons, List.mem_cons, not_or] at absent
      simp only [insert]
      rw [if_neg (fun same => absent.1 same.symm), inductionHypothesis absent.2]
      rfl

end Registry

end Narrowing
