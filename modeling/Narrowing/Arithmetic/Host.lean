import Narrowing.Arithmetic.Device
import Narrowing.Value.Key

/-
This file gives the operators of the host language on all values.
-/

namespace Narrowing

namespace Value

/-- An array of the device passes each operator to the device. -/
def isOnDevice : Value → Bool
  | .array grid => grid.onDevice
  | _ => false

/-- A host array without axes counts as its element. -/
def lone : Value → Value
  | .array grid => if grid.onDevice then .array grid else grid.scalar?.elim (.array grid) .scalar
  | value => value

end Value

namespace Storage

/-- The storage class in which a scalar meets a plain number. -/
def meet (storage : Storage) : PlainNumber → Storage
  | .integer _ => if storage = .boolean then .word .int64 else storage
  | .ratio _ => storage
  | .double _ => if storage.group < 2 then .double else storage
  | .complex _ =>
      if storage.group < 2 then .complexDouble else ofPrecision 3 storage.precisionDemand

end Storage

namespace PlainNumber

/-- A plain number as a scalar; an integer must fit a word. -/
def toScalar (number : PlainNumber) (storage : Storage) : Except Fault Scalar :=
  match number, storage with
  | .integer value, .word kind => (orFault (Word.ofInt? kind value) .overflow).map .word
  | .complex value, _ => .ok ((Scalar.complexDouble value).convert storage)
  | number, _ => do .ok ((Scalar.double (← number.toDouble)).convert storage)

end PlainNumber

/-- Two scalars in the storage class where they meet. -/
structure ScalarPair where
  storage : Storage
  first : Scalar
  second : Scalar

namespace ScalarPair

def ofScalars (first second : Scalar) : ScalarPair :=
  let storage := first.storage.join second.storage
  ⟨storage, first.convert storage, second.convert storage⟩

/-- Two values with a scalar among them; values that are no numbers do not meet. -/
def ofValues (first second : Value) : Except Fault ScalarPair :=
  match first, second with
  | .scalar left, .scalar right => .ok (ofScalars left right)
  | .scalar left, .boolean right => .ok (ofScalars left (.boolean right))
  | .boolean left, .scalar right => .ok (ofScalars (.boolean left) right)
  | .scalar left, other => do
      let number ← orFault other.plain? .operand
      let storage := left.storage.meet number
      .ok ⟨storage, left.convert storage, ← number.toScalar storage⟩
  | other, .scalar right => do
      let number ← orFault other.plain? .operand
      let storage := right.storage.meet number
      .ok ⟨storage, ← number.toScalar storage, right.convert storage⟩
  | _, _ => .error .operand

end ScalarPair

/-- An operator, given for each kind of operands. -/
structure Operator (Result : Type) where
  plain : PlainNumber → PlainNumber → Except Fault Result
  scalars : ScalarPair → Except Fault Result
  device : Value → Value → Except Fault Result
  other : Value → Value → Except Fault Result

namespace Operator

variable {Result : Type}

/-- A number as a plain number, even when it is a scalar. -/
def bare? : Value → Option PlainNumber
  | .scalar value => some value.plain
  | value => value.plain?

/-- A scalar turns into a plain number beside a fraction. -/
def meetsFraction : Value → Value → Bool
  | .ratio _, .scalar _ | .scalar _, .ratio _ => true
  | _, _ => false

def isScalar : Value → Bool
  | .scalar _ => true
  | _ => false

def apply (operator : Operator Result) (first second : Value) : Except Fault Result :=
  if first.isOnDevice || second.isOnDevice then operator.device first second
  else
    match first.plain?, second.plain? with
    | some left, some right => operator.plain left right
    | _, _ =>
        let left := first.lone
        let right := second.lone
        match bare? left, bare? right with
        | some leftNumber, some rightNumber =>
            if meetsFraction left right then operator.plain leftNumber rightNumber
            else ScalarPair.ofValues left right >>= operator.scalars
        | _, _ => operator.other left right

/-- Plain operands leave out all other kinds. -/
theorem apply_plain (operator : Operator Result) {first second : Value}
    {left right : PlainNumber} (firstPlain : first.plain? = some left)
    (secondPlain : second.plain? = some right) :
    operator.apply first second = operator.plain left right := by
  have firstHost : first.isOnDevice = false := by
    cases first <;> simp_all [Value.plain?, Value.isOnDevice]
  have secondHost : second.isOnDevice = false := by
    cases second <;> simp_all [Value.plain?, Value.isOnDevice]
  simp [apply, firstHost, secondHost, firstPlain, secondPlain]

/-- An arithmetic operator on numbers. -/
def arithmetic (plain : PlainNumber.Rule) (elements : ElementRule)
    (device : Value → Value → Except Fault Value) (other : Value → Value → Except Fault Value) :
    Operator Value where
  plain first second := (plain.apply first second).map PlainNumber.toValue
  scalars pair := (elements.apply pair.storage pair.first pair.second).map .scalar
  device := device
  other := other

def noOther (_ _ : Value) : Except Fault Result := .error .operand

/-- Texts, tuples and lists are joined. -/
def joined : Value → Value → Except Fault Value
  | .text first, .text second => .ok (.text (first ++ second))
  | .tuple first, .tuple second => .ok (.tuple (first ++ second))
  | .list first, .list second => .ok (.list (first ++ second))
  | _, _ => .error .operand

/-- The integer that counts repetitions. -/
def count? : Value → Option Int
  | .boolean value => some (if value then 1 else 0)
  | .integer value => some value
  | .scalar (.word word) => some word.value
  | _ => none

def repeatItems {α : Type} (items : List α) (count : Int) : List α :=
  (List.replicate count.toNat items).flatten

/-- Texts, tuples and lists are repeated. -/
def repeated (first second : Value) : Except Fault Value :=
  match first, second with
  | .text name, other => do
      let count ← orFault (count? other) .operand
      .ok (.text (String.ofList (repeatItems name.toList count)))
  | .tuple items, other => do
      .ok (.tuple (repeatItems items (← orFault (count? other) .operand)))
  | .list items, other => do
      .ok (.list (repeatItems items (← orFault (count? other) .operand)))
  | other, .text name => do
      let count ← orFault (count? other) .operand
      .ok (.text (String.ofList (repeatItems name.toList count)))
  | other, .tuple items => do
      .ok (.tuple (repeatItems items (← orFault (count? other) .operand)))
  | other, .list items => do
      .ok (.list (repeatItems items (← orFault (count? other) .operand)))
  | _, _ => .error .operand

def addition : Operator Value :=
  arithmetic PlainNumber.addition .addition Device.add joined

def subtraction : Operator Value :=
  arithmetic PlainNumber.subtraction .subtraction Device.sub noOther

def multiplication : Operator Value :=
  arithmetic PlainNumber.multiplication .multiplication Device.mul repeated

/-- A quotient of scalars is a float. -/
def scalarQuotient (pair : ScalarPair) : Except Fault Value :=
  let storage := pair.storage.inexact .double
  (ElementRule.division.apply storage pair.first pair.second).map .scalar

def division : Operator Value where
  plain first second := (PlainNumber.division.apply first second).map PlainNumber.toValue
  scalars := scalarQuotient
  device := Device.div
  other := noOther

/-- Words have no powers with negative exponents. -/
def scalarPower (pair : ScalarPair) : Except Fault Value :=
  match pair.storage with
  | .boolean =>
      let power := PlainNumber.wholePower pair.first.whole pair.second.whole.toNat
      .ok (.scalar (.word (Word.wrap .int8 power)))
  | .word _ =>
      if pair.second.whole < 0 then .error .domain
      else (ElementRule.power.apply pair.storage pair.first pair.second).map .scalar
  | storage => (ElementRule.power.apply storage pair.first pair.second).map .scalar

def power : Operator Value where
  plain first second := (first.pow second).map PlainNumber.toValue
  scalars := scalarPower
  device := Device.pow
  other := noOther

end Operator

namespace Value

/-- The negation of a number. -/
def neg (value : Value) : Except Fault Value :=
  if value.isOnDevice then Device.neg value
  else
    match value.lone with
    | .scalar element => element.neg.map .scalar
    | other => do .ok (← orFault other.plain? .operand).neg.toValue

/-- The size of a number. -/
def abs (value : Value) : Except Fault Value :=
  if value.isOnDevice then Device.abs value
  else
    match value.lone with
    | .scalar element => .ok (.scalar element.abs)
    | other => do .ok (← (← orFault other.plain? .operand).abs).toValue

/-- Only a test of one element has a truth value. -/
def truth (value : Value) : Except Fault Bool :=
  match value.scalar? with
  | some element => .ok !element.isZero
  | none =>
      match value with
      | .array grid =>
          match grid.items with
          | [item] => .ok !item.isZero
          | _ => .error .domain
      | _ => .error .operand

mutual

/-- Equality compares numbers by value and containers item by item. -/
def agrees (first second : Value) : Bool :=
  match first, second with
  | .tuple left, .tuple right => agreesAll left right
  | .list left, .list right => agreesAll left right
  | .dictionary keys left, .dictionary otherKeys right =>
      keys == otherKeys && agreesAll left right
  | left, right =>
      match Operator.bare? left, Operator.bare? right with
      | some leftNumber, some rightNumber => leftNumber.equals rightNumber
      | _, _ => left.identical right

def agreesAll : List Value → List Value → Bool
  | [], [] => true
  | first :: left, second :: right => agrees first second && agreesAll left right
  | _, _ => false

end

mutual

/-- The order of texts and of containers is lexicographic. -/
def precedes (first second : Value) : Except Fault Bool :=
  match first, second with
  | .text left, .text right => .ok (left < right)
  | .tuple left, .tuple right => precedesAll left right
  | .list left, .list right => precedesAll left right
  | left, right =>
      match Operator.bare? left, Operator.bare? right with
      | some leftNumber, some rightNumber => leftNumber.less rightNumber
      | _, _ => .error .operand

def precedesAll : List Value → List Value → Except Fault Bool
  | [], [] => .ok false
  | [], _ :: _ => .ok true
  | _ :: _, [] => .ok false
  | first :: left, second :: right =>
      if agrees first second then precedesAll left right else precedes first second

end

end Value

namespace Operator

/-- Integers are compared by value and other scalars where they meet. -/
def scalarTest (exact : PlainNumber → PlainNumber → Except Fault Bool)
    (test : Scalar → Scalar → Bool) (pair : ScalarPair) : Except Fault Bool :=
  match pair.first.plain, pair.second.plain with
  | .integer left, .integer right => exact (.integer left) (.integer right)
  | _, _ => .ok (test pair.first pair.second)

def less : Operator Bool where
  plain first second := first.less second
  scalars := scalarTest PlainNumber.less Scalar.less
  device first second := Device.less first second >>= Value.truth
  other := Value.precedes

def equal : Operator Bool where
  plain first second := .ok (first.equals second)
  scalars := scalarTest (fun first second => .ok (first.equals second)) Scalar.equals
  device first second := Device.equal first second >>= Value.truth
  other first second := .ok (first.agrees second)

end Operator

namespace Value

/-- A word and a plain integer are compared exactly, whatever the width of the word. -/
def compare (operator : Operator Bool) (first second : Value) : Except Fault Bool :=
  match Operator.bare? first, Operator.bare? second with
  | some (.integer left), some (.integer right) =>
      operator.plain (.integer left) (.integer right)
  | _, _ => operator.apply first second

def less : Value → Value → Except Fault Bool := compare .less

def equal : Value → Value → Except Fault Bool := compare .equal

end Value

end Narrowing
