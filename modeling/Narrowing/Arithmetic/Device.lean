import Narrowing.Arithmetic.Promotion
import Narrowing.Classification

/-
This file computes with device arrays, whose real numbers keep at most 32 bits.
-/

namespace Narrowing

namespace NumberArray

/-- A device array without axes. -/
def ofDeviceScalar (scalar : Scalar) (weak : Bool) : NumberArray :=
  ⟨true, .stored scalar.storage, weak, [], [scalar]⟩

/-- The same elements on the device. -/
def toDevice (array : NumberArray) : Except Fault NumberArray :=
  match array.element with
  | .stored .object | .foreign _ => .error .operand
  | .stored storage =>
      .ok { array with
        onDevice := true
        element := .stored storage.onDevice
        items := array.items.map (·.convert storage.onDevice) }

end NumberArray

/-- A number as a device array; plain numbers give weak arrays. -/
def Value.toDevice : Value → Except Fault NumberArray
  | .boolean value => .ok (.ofDeviceScalar (.boolean value) false)
  | .integer value => do
      let word ← orFault (Word.ofInt? .int32 value) .overflow
      .ok (.ofDeviceScalar (.word word) true)
  | .double value => .ok (.ofDeviceScalar (.single (Single.ofDouble value)) true)
  | .complex value => .ok (.ofDeviceScalar (.complexSingle (.ofDouble value)) true)
  | .scalar value => .ok (.ofDeviceScalar (value.convert value.storage.onDevice) false)
  | .array grid => grid.toDevice
  | _ => .error .operand

namespace NumberArray

def deviceType (array : NumberArray) : DeviceType :=
  match array.element with
  | .stored storage => ⟨storage, array.weak⟩
  | .foreign _ => ⟨.object, array.weak⟩

/-- A new array of this type with a result for each element. -/
def mapTo (array : NumberArray) (type : DeviceType)
    (operation : Scalar → Except Fault Scalar) : Except Fault NumberArray := do
  .ok ⟨true, .stored type.storage, type.weak, array.shape, ← array.items.mapM operation⟩

/-- Arrays of one shape meet element by element, and a lone element meets every other. -/
def zipTo (first second : NumberArray) (type : DeviceType)
    (operation : Scalar → Scalar → Except Fault Scalar) : Except Fault NumberArray :=
  if first.shape = second.shape then do
    let items ← (first.items.zip second.items).mapM fun pair => operation pair.1 pair.2
    .ok ⟨true, .stored type.storage, type.weak, first.shape, items⟩
  else
    match first.shape, first.items, second.shape, second.items with
    | [], [lone], _, _ | [1], [lone], [_], _ => second.mapTo type (operation lone)
    | _, _, [], [lone] | [_], _, [1], [lone] => first.mapTo type (operation · lone)
    | _, _, _, _ => .error .operand

end NumberArray

namespace Device

/-- A rule on the elements of two numbers in the type where they meet. -/
def binary (rule : ElementRule) (first second : Value) : Except Fault Value := do
  let left ← first.toDevice
  let right ← second.toDevice
  let type := left.deviceType.join right.deviceType
  .array <$> left.zipTo right type fun head other =>
    rule.apply type.storage (head.convert type.storage) (other.convert type.storage)

def add : Value → Value → Except Fault Value := binary .addition

def sub : Value → Value → Except Fault Value := binary .subtraction

def mul : Value → Value → Except Fault Value := binary .multiplication

/-- Words are divided as floats. -/
def div (first second : Value) : Except Fault Value := do
  let left ← first.toDevice
  let right ← second.toDevice
  let joined := left.deviceType.join right.deviceType
  let type := { joined with storage := joined.storage.inexact .single }
  .array <$> left.zipTo right type fun head other =>
    ElementRule.division.apply type.storage (head.convert type.storage)
      (other.convert type.storage)

def neg (value : Value) : Except Fault Value := do
  let array ← value.toDevice
  .array <$> array.mapTo array.deviceType Scalar.neg

/-- The size of a complex number is real. -/
def abs (value : Value) : Except Fault Value := do
  let array ← value.toDevice
  let type := array.deviceType
  let storage := if type.storage = .complexSingle then .single else type.storage
  .array <$> array.mapTo { type with storage := storage } fun item => .ok item.abs

/-- A function that computes with floats on each element. -/
def float (function : ElementFunction) (value : Value) : Except Fault Value := do
  let array ← value.toDevice
  let type := array.deviceType
  let storage := type.storage.inexact .single
  .array <$> array.mapTo { type with storage := storage } fun item =>
    .ok (function.apply storage (item.convert storage))

/-- An exponent that is one known integer. -/
def exponent? : Value → Option Int
  | .boolean value => some (if value then 1 else 0)
  | .integer value => some value
  | value =>
      match value.scalar? with
      | some (.word word) => some word.value
      | _ => none

/-- The power of one element with an integral exponent. -/
def integralPower (storage : Storage) (base : Scalar) (exponent : Int) : Except Fault Scalar :=
  match storage with
  | .word kind =>
      if exponent < 0 then .error .operand
      else .ok (.word (Word.wrap kind (Word.power base.whole exponent.toNat)))
  | .complexSingle | .complexDouble =>
      .ok (.ofComplex storage
        (ElementRule.complexPower base.complex (.ofReal (Double.ofInt exponent))))
  | _ => .ok (.ofReal storage (Double.pow base.real (Double.ofInt exponent)))

/-- The power of one element, where words see the six lowest bits of the exponent. -/
def elementPower (storage : Storage) (base exponent : Scalar) : Except Fault Scalar :=
  match storage with
  | .word kind =>
      if base.whole = 0 && exponent.whole ≠ 0 then .ok (.word (Word.wrap kind 0))
      else .ok (.word (Word.wrap kind (Word.power base.whole (exponent.whole % 64).toNat)))
  | _ => ElementRule.power.apply storage base exponent

/-- Truth values have powers as words. -/
def numeric (type : DeviceType) : DeviceType :=
  if type.storage = .boolean then ⟨.word .int32, type.weak⟩ else type

/-- A known integral exponent keeps the type of the base. -/
def pow (base exponent : Value) : Except Fault Value := do
  let left ← base.toDevice
  match exponent? exponent with
  | some power =>
      let type := numeric left.deviceType
      .array <$> left.mapTo type fun item =>
        integralPower type.storage (item.convert type.storage) power
  | none =>
      let right ← exponent.toDevice
      let type := numeric (left.deviceType.join right.deviceType)
      .array <$> left.zipTo right type fun head other =>
        elementPower type.storage (head.convert type.storage) (other.convert type.storage)

/-- A test on the elements of two numbers in the type where they meet. -/
def compare (test : Scalar → Scalar → Bool) (first second : Value) : Except Fault Value := do
  let left ← first.toDevice
  let right ← second.toDevice
  let storage := (left.deviceType.join right.deviceType).storage
  .array <$> left.zipTo right ⟨.boolean, false⟩ fun head other =>
    .ok (.boolean (test (head.convert storage) (other.convert storage)))

def less : Value → Value → Except Fault Value := compare Scalar.less

def equal : Value → Value → Except Fault Value := compare Scalar.equals

/-- The floor of a real number; words are whole already. -/
def floor (value : Value) : Except Fault Value := do
  let array ← value.toDevice
  let type := array.deviceType
  match type.storage with
  | .word _ => .ok (.array array)
  | .complexSingle | .complexDouble => .error .operand
  | storage =>
      let storage := storage.inexact .single
      .array <$> array.mapTo { type with storage := storage } fun item =>
        .ok (.ofReal storage item.real.floor)

/-- The floor of a quotient of words; a zero divisor gives a quotient of minus one. -/
def floorWords (kind : WordKind) (first second : Int) : Int :=
  if second ≠ 0 then first.fdiv second
  else if first = 0 || !kind.signed then -1
  else -2

/-- The floor of a quotient of doubles; a zero keeps the sign of the divisor. -/
def floorDoubles (first second : Float) : Float :=
  match Double.toRat? first, Double.toRat? second with
  | some top, some bottom =>
      if bottom = 0 then Double.nan
      else
        let quotient := (top / bottom).floor
        if quotient = 0 then Double.zero (Double.negative second) else Double.ofInt quotient
  | some top, none =>
      if second.isNaN then Double.nan
      else if top ≠ 0 && (top < 0) != Double.negative second then -1.0
      else Double.zero (Double.negative second)
  | none, _ => Double.nan

/-- The floor of a quotient in the type where both numbers meet. -/
def floorQuotient (first second : Value) : Except Fault Value := do
  let left ← first.toDevice
  let right ← second.toDevice
  let type := left.deviceType.join right.deviceType
  .array <$> left.zipTo right type fun head other =>
    match type.storage with
    | .word kind => .ok (.word (Word.wrap kind (floorWords kind head.whole other.whole)))
    | .half | .single =>
        .ok (.ofReal type.storage
          (floorDoubles (head.convert type.storage).real (other.convert type.storage).real))
    | _ => .error .operand

/-- The storage of a tier on the device. -/
def tierStorage : Tier → Storage
  | .integer | .rational => .word .int32
  | .float16 => .half
  | .float32 | .float64 => .single
  | .complex64 | .complex128 => .complexSingle

/-- A number in the storage of a tier; no plain complex number turns into a real one. -/
def ofTier (tier : Tier) (value : Value) : Except Fault Value := do
  let storage := tierStorage tier
  let scalar ←
    match value with
    | .integer _ | .ratio _ => do
        .ok (some (Scalar.double (← (value.plain?.getD (.integer 0)).toDouble)))
    | .double number => .ok (some (Scalar.double number))
    | .complex number =>
        if storage = .complexSingle then .ok (some (Scalar.complexDouble number))
        else .error .operand
    | _ => .ok none
  match scalar with
  | some number => .ok (.array (.ofDeviceScalar (number.convert storage) false))
  | none => do
      let array ← value.toDevice
      .array <$> array.mapTo ⟨storage, false⟩ fun item => .ok (item.convert storage)

end Device

end Narrowing
