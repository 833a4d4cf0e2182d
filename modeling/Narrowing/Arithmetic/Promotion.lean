import Narrowing.Arithmetic.Element

/-
This file finds the storage class in which two array elements meet, on the host and on the device.
-/

namespace Narrowing

namespace WordKind

/-- The least kind that holds both; no kind holds all values of the widest kinds of both signs. -/
def join? (first second : WordKind) : Option WordKind :=
  let wider (left right : WordKind) : WordKind := if left.width < right.width then right else left
  let mixed (unsigned signed : WordKind) : Option WordKind :=
    if unsigned.width < signed.width then some signed
    else if unsigned.width < 64 then some (ofShape true (2 * unsigned.width))
    else none
  if first.signed = second.signed then some (wider first second)
  else if first.signed then mixed second first
  else mixed first second

end WordKind

namespace Storage

/-- Truth values come first, then words, floats and complex numbers. -/
def group : Storage → Nat
  | boolean => 0
  | word _ => 1
  | half | single | double => 2
  | complexSingle | complexDouble => 3
  | object => 4

/-- The least float that holds all values: half, single or double precision. -/
def precisionDemand : Storage → Nat
  | boolean | half => 0
  | word kind => if kind.width = 8 then 0 else if kind.width = 16 then 1 else 2
  | single | complexSingle => 1
  | double | complexDouble | object => 2

/-- The storage class with this precision in a group of floats. -/
def ofPrecision (group precision : Nat) : Storage :=
  match group, precision with
  | 2, 0 => half
  | 2, 1 => single
  | 2, _ => double
  | _, 0 | _, 1 => complexSingle
  | _, _ => complexDouble

/-- The storage class in which two scalars of the host compute. -/
def join (first second : Storage) : Storage :=
  match first, second with
  | boolean, other => other
  | other, boolean => other
  | word left, word right =>
      match left.join? right with
      | some kind => word kind
      | none => double
  | _, _ =>
      ofPrecision (max first.group second.group)
        (max first.precisionDemand second.precisionDemand)

theorem join_comm_boolean (storage : Storage) : join storage boolean = join boolean storage := by
  cases storage <;> rfl

/-- Division and irrational functions of words compute with floats. -/
def inexact (storage float : Storage) : Storage :=
  match storage with
  | boolean | word _ => float
  | _ => storage

end Storage

/-- The type of a device array; a weak type came from a plain number. -/
structure DeviceType where
  storage : Storage
  weak : Bool
deriving DecidableEq, Repr

namespace DeviceType

/-- The type of the later group; a weak complex type takes the precision of a real type. -/
def raise (lower higher : DeviceType) : DeviceType :=
  if higher.storage.group = 3 && higher.weak && lower.storage.group = 2 && !lower.weak then
    ⟨.complexSingle, false⟩
  else higher

/-- The type in which two device arrays compute; a weak type yields to a strong one. -/
def join (first second : DeviceType) : DeviceType :=
  if first.storage.group < second.storage.group then raise first second
  else if second.storage.group < first.storage.group then raise second first
  else if first.weak then second
  else if second.weak then first
  else ⟨(first.storage.join second.storage).onDevice, false⟩

end DeviceType

end Narrowing
