import Narrowing.Number.Complex
import Narrowing.Number.Word

/-
This file names the storage classes of array elements and the scalars they hold.
-/

namespace Narrowing

/-- A storage class is the representation that all elements of an array share. -/
inductive Storage where
  | boolean
  | word (kind : WordKind)
  | half
  | single
  | double
  | complexSingle
  | complexDouble
  | object
deriving DecidableEq, Repr

namespace Storage

/-- All storage classes, narrow before wide. -/
def all : List Storage :=
  [.boolean] ++ WordKind.all.map .word ++
    [.half, .single, .double, .complexSingle, .complexDouble, .object]

def name : Storage → String
  | boolean => "bool"
  | word kind => kind.name
  | half => "float16"
  | single => "float32"
  | double => "float64"
  | complexSingle => "complex64"
  | complexDouble => "complex128"
  | object => "object"

/-- The position of the storage class in the list of all classes. -/
def index : Storage → Nat
  | boolean => 0
  | word .uint8 => 1
  | word .int8 => 2
  | word .uint16 => 3
  | word .int16 => 4
  | word .uint32 => 5
  | word .int32 => 6
  | word .uint64 => 7
  | word .int64 => 8
  | half => 9
  | single => 10
  | double => 11
  | complexSingle => 12
  | complexDouble => 13
  | object => 14

theorem getElem?_all_index (storage : Storage) : all[storage.index]? = some storage := by
  cases storage with
  | word kind => cases kind <;> rfl
  | _ => rfl

def ofName? (name : String) : Option Storage := all.find? fun storage => storage.name == name

/-- The device keeps at most 32 bits for each real number. -/
def onDevice : Storage → Storage
  | word .int64 => word .int32
  | word .uint64 => word .uint32
  | double => single
  | complexDouble => complexSingle
  | storage => storage

theorem mem_all (storage : Storage) : storage ∈ all := by
  cases storage with
  | word kind => cases kind <;> decide
  | _ => decide

end Storage

/-- A scalar is one array element outside its array. -/
inductive Scalar where
  | boolean (value : Bool)
  | word (value : Word)
  | half (value : Half)
  | single (value : Float32)
  | double (value : Float)
  | complexSingle (value : ComplexSingle)
  | complexDouble (value : ComplexDouble)
deriving DecidableEq

namespace Scalar

def storage : Scalar → Storage
  | boolean _ => .boolean
  | word value => .word value.kind
  | half _ => .half
  | single _ => .single
  | double _ => .double
  | complexSingle _ => .complexSingle
  | complexDouble _ => .complexDouble

/-- The element that fills a fresh array. -/
def zero? : Storage → Option Scalar
  | .boolean => some (boolean false)
  | .word kind => some (word (Word.wrap kind 0))
  | .half => some (half (Half.ofBits 0))
  | .single => some (single 0.0)
  | .double => some (double 0.0)
  | .complexSingle => some (complexSingle ⟨0.0, 0.0⟩)
  | .complexDouble => some (complexDouble ⟨0.0, 0.0⟩)
  | .object => none

end Scalar

end Narrowing
