import Narrowing.Descriptor.Fault
import Narrowing.Value.Key
import Narrowing.ValuesNtype

/-
This file keeps the results of earlier look-ups, so that equal descriptions share one result.
-/

namespace Narrowing

namespace Value

mutual

/-- The key of a description keeps types and bits at every depth; lists and tuples share keys.
A part without a key is the failure. -/
def descriptorKey : Value → Except Value Key
  | .missing => .ok .missing
  | .boolean value => .ok (.boolean value)
  | .integer value => .ok (.integer value)
  | .ratio value => .ok (.ratio value)
  | .double value => .ok (.double value)
  | .complex value => .ok (.complex value)
  | .text value => .ok (.text value)
  | .scalar value =>
      match value with
      | .boolean value => .ok (.boolean value)
      | value => .ok (.scalar value)
  | .array value => .error (.array value)
  | .tuple items => descriptorKeys items
  | .list items => descriptorKeys items
  | .dictionary keys items => .error (.dictionary keys items)
  | .hostClass value => .ok (.hostClass value)
  | .dtype name => .ok (.dtype name)
  | .scalarType name => .ok (.scalarType name)
  | .function name => .ok (.function name)
  | .primitive value => .ok (.primitive value)
  | .singleton value =>
      match value.key? with
      | some key => .ok (.singleton key)
      | none => .error (.singleton value)

def descriptorKeys : List Value → Except Value Key
  | [] => .ok .emptyTuple
  | item :: rest =>
      match descriptorKey item with
      | .error part => .error part
      | .ok head =>
          match descriptorKeys rest with
          | .error part => .error part
          | .ok tail => .ok (.tuple head tail)

end

end Value

/-- The values of an operation and whether they are exact. Results that only equal descriptions
share carry the serial number of their look-up. -/
structure ValuesEstimate where
  values : ValuesNtype
  precise : Bool
  serial : Option Nat

namespace Descriptor

/-- The results of earlier look-ups, the number of look-ups that found and missed a result, and
the values that singletons were first made of. -/
structure Tables where
  ntypes : List (Key × Estimate)
  values : List (Key × ValuesEstimate)
  hits : Nat
  misses : Nat
  singletons : List (Key × Value)
  serial : Nat

namespace Tables

def empty : Tables := ⟨[], [], 0, 0, [], 0⟩

def size (tables : Tables) : Nat := tables.ntypes.length + tables.values.length

/-- The share of look-ups that found a result. -/
def hitRate (tables : Tables) : Float :=
  let total := tables.hits + tables.misses
  if total = 0 then 0.0 else Double.ofQuotient false tables.hits total

/-- A reset forgets the results but keeps the singletons. -/
def reset (tables : Tables) : Tables :=
  { tables with ntypes := [], values := [], hits := 0, misses := 0 }

def find? {Result : Type} (key : Key) (entries : List (Key × Result)) : Option Result :=
  (entries.find? fun entry => entry.1 == key).map (·.2)

end Tables

/-- A computation that looks descriptions up; what it stored before a failure stays. -/
abbrev Lookup (Result : Type) := ExceptT Fault (StateM Tables) Result

namespace Lookup

def malformed {Result : Type} (cause : Cause) (source : Value) : Lookup Result :=
  throw (.malformed cause source)

def keyOf (source : Value) : Lookup Key :=
  match source.descriptorKey with
  | .ok key => pure key
  | .error part => malformed .unhashable part

def recordHit : Lookup Unit :=
  modify fun tables => { tables with hits := tables.hits + 1 }

def recordMiss : Lookup Unit :=
  modify fun tables => { tables with misses := tables.misses + 1 }

/-- The stored type of a description; a first look-up computes it. -/
def ntype (source : Value) (compute : Lookup Estimate) : Lookup Estimate := do
  let key ← keyOf source
  match Tables.find? key (← get).ntypes with
  | some result =>
      recordHit
      pure result
  | none =>
      recordMiss
      let result ← compute
      modify fun tables => { tables with ntypes := tables.ntypes ++ [(key, result)] }
      pure result

/-- The stored values of a description; a first look-up computes them. -/
def values (source : Value) (compute : Lookup ValuesEstimate) : Lookup ValuesEstimate := do
  let key ← keyOf source
  match Tables.find? key (← get).values with
  | some result =>
      recordHit
      pure result
  | none =>
      recordMiss
      let result ← compute
      modify fun tables => { tables with values := tables.values ++ [(key, result)] }
      pure result

/-- The singleton of a value, made of the first value with its key. -/
def singleton? (value : Value) : Lookup (Option Ntype) := do
  match value, value.key? with
  | .missing, _ => pure (some .null)
  | _, none => pure none
  | value, some key =>
      match Tables.find? key (← get).singletons with
      | some first => pure (some (.singleton first))
      | none =>
          modify fun tables => { tables with singletons := tables.singletons ++ [(key, value)] }
          pure (some (.singleton value))

/-- A fresh serial number. -/
def fresh : Lookup Nat := do
  let serial := (← get).serial
  modify fun tables => { tables with serial := serial + 1 }
  pure serial

end Lookup

end Descriptor

end Narrowing
