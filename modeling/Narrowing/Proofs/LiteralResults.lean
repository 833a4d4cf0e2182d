import Narrowing.Proofs.LibraryCalls
import Narrowing.Proofs.Membership

/-
This file shows that the operations of the library with one result give literals for literals.
-/

namespace Narrowing

namespace NumberArray

/-- The array has no axes and holds an element. -/
def IsLone (array : NumberArray) : Prop := array.shape = [] ∧ array.items ≠ []

variable {array first second result : NumberArray} {type : DeviceType}

theorem isLone_ofDeviceScalar (scalar : Scalar) (weak : Bool) :
    (ofDeviceScalar scalar weak).IsLone := ⟨rfl, List.cons_ne_nil _ _⟩

theorem IsLone.toDevice (lone : array.IsLone) (moved : array.toDevice = .ok result) :
    result.IsLone := by
  unfold NumberArray.toDevice at moved
  split at moved
  · cases moved
  · cases moved
  · cases moved
    exact ⟨lone.1, by simpa using lone.2⟩

theorem mapM_ne_nil {Item Result : Type} {items : List Item} {results : List Result}
    {run : Item → Except Fault Result} (filled : items ≠ [])
    (computed : items.mapM run = .ok results) : results ≠ [] := by
  rintro rfl
  exact filled (List.forall₂_nil_right_iff.mp (mapM_eq_ok_iff.mp computed))

theorem IsLone.mapTo (lone : array.IsLone) {operation : Scalar → Except Fault Scalar}
    (computed : array.mapTo type operation = .ok result) : result.IsLone := by
  obtain ⟨items, mapped, computed⟩ := exists_of_bind computed
  cases computed
  exact ⟨lone.1, mapM_ne_nil lone.2 mapped⟩

theorem IsLone.zipTo (lone : first.IsLone) (other : second.IsLone)
    {operation : Scalar → Scalar → Except Fault Scalar}
    (computed : first.zipTo second type operation = .ok result) : result.IsLone := by
  unfold NumberArray.zipTo at computed
  rw [if_pos (lone.1.trans other.1.symm)] at computed
  obtain ⟨items, mapped, computed⟩ := exists_of_bind computed
  cases computed
  refine ⟨lone.1, mapM_ne_nil ?_ mapped⟩
  simp [List.zip_eq_nil_iff, lone.2, other.2]

theorem IsLone.exists_scalar (lone : array.IsLone) : ∃ scalar, array.scalar? = some scalar := by
  obtain ⟨scalar, rest, filled⟩ := List.exists_cons_of_ne_nil lone.2
  exact ⟨scalar, by simp [scalar?, lone.1, filled]⟩

end NumberArray

namespace Value

variable {value first second result : Value} {array : NumberArray} {tier : Tier}

/-- A literal, or an array that holds one scalar. -/
def IsLone (value : Value) : Prop :=
  value.isLiteral = true ∨ ∃ array, value = .array array ∧ array.IsLone

theorem IsLone.of_isLiteral (isLiteral : value.isLiteral = true) : value.IsLone := .inl isLiteral

/-- On the device a literal has no axes. -/
theorem IsLone.toDevice (lone : value.IsLone) (moved : value.toDevice = .ok array) :
    array.IsLone := by
  rcases lone with isLiteral | ⟨grid, rfl, lone⟩
  · cases value with
    | boolean | double | complex | scalar =>
        cases moved
        exact NumberArray.isLone_ofDeviceScalar _ _
    | integer =>
        obtain ⟨word, _, moved⟩ := exists_of_bind moved
        cases moved
        exact NumberArray.isLone_ofDeviceScalar _ _
    | ratio | text => cases moved
    | _ => cases isLiteral
  · exact lone.toDevice moved

/-- Back on the host it is a literal again. -/
theorem IsLone.toHost (lone : value.IsLone) : value.toHost.isLiteral = true := by
  rcases lone with isLiteral | ⟨grid, rfl, lone⟩
  · cases value with
    | boolean | double | complex | scalar | integer | ratio | text => rfl
    | _ => cases isLiteral
  · obtain ⟨scalar, found⟩ := lone.exists_scalar
    simp only [Value.toHost, found]
    rfl

end Value

namespace Device

variable {value first second result : Value}

/-- A result is an array whose computation started from lone arrays. -/
theorem isLone_of_map {outcome : Except Fault NumberArray}
    (each : ∀ array, outcome = .ok array → array.IsLone)
    (computed : Value.array <$> outcome = .ok result) : result.IsLone := by
  obtain ⟨array, made, rfl⟩ := exists_of_map computed
  exact .inr ⟨array, rfl, each array made⟩

theorem isLone_binary {rule : ElementRule} (lone : first.IsLone) (other : second.IsLone)
    (computed : binary rule first second = .ok result) : result.IsLone := by
  obtain ⟨left, leftMoved, computed⟩ := exists_of_bind computed
  obtain ⟨right, rightMoved, computed⟩ := exists_of_bind computed
  exact isLone_of_map (fun _ => (lone.toDevice leftMoved).zipTo (other.toDevice rightMoved)) computed

theorem isLone_div (lone : first.IsLone) (other : second.IsLone)
    (computed : div first second = .ok result) : result.IsLone := by
  obtain ⟨left, leftMoved, computed⟩ := exists_of_bind computed
  obtain ⟨right, rightMoved, computed⟩ := exists_of_bind computed
  exact isLone_of_map (fun _ => (lone.toDevice leftMoved).zipTo (other.toDevice rightMoved)) computed

theorem isLone_neg (lone : value.IsLone) (computed : neg value = .ok result) : result.IsLone := by
  obtain ⟨array, moved, computed⟩ := exists_of_bind computed
  exact isLone_of_map (fun _ => (lone.toDevice moved).mapTo) computed

theorem isLone_abs (lone : value.IsLone) (computed : abs value = .ok result) : result.IsLone := by
  obtain ⟨array, moved, computed⟩ := exists_of_bind computed
  exact isLone_of_map (fun _ => (lone.toDevice moved).mapTo) computed

theorem isLone_float {function : ElementFunction} (lone : value.IsLone)
    (computed : float function value = .ok result) : result.IsLone := by
  obtain ⟨array, moved, computed⟩ := exists_of_bind computed
  exact isLone_of_map (fun _ => (lone.toDevice moved).mapTo) computed

theorem isLone_pow (lone : first.IsLone) (other : second.IsLone)
    (computed : pow first second = .ok result) : result.IsLone := by
  obtain ⟨left, leftMoved, computed⟩ := exists_of_bind computed
  split at computed
  · exact isLone_of_map (fun _ => (lone.toDevice leftMoved).mapTo) computed
  · obtain ⟨right, rightMoved, computed⟩ := exists_of_bind computed
    exact isLone_of_map (fun _ => (lone.toDevice leftMoved).zipTo (other.toDevice rightMoved))
      computed

theorem isLone_ofTier {tier : Tier} (lone : value.IsLone)
    (computed : ofTier tier value = .ok result) : result.IsLone := by
  have made (scalar : Scalar) : (Value.array (.ofDeviceScalar scalar false)).IsLone :=
    .inr ⟨_, rfl, NumberArray.isLone_ofDeviceScalar scalar false⟩
  have moved : (do
      let array ← value.toDevice
      Value.array <$> array.mapTo ⟨tierStorage tier, false⟩ fun item =>
        .ok (item.convert (tierStorage tier))) = .ok result → result.IsLone := by
    intro computed
    obtain ⟨array, moved, computed⟩ := exists_of_bind computed
    exact isLone_of_map (fun _ => (lone.toDevice moved).mapTo) computed
  unfold ofTier at computed
  cases value with
  | integer | ratio =>
      obtain ⟨number, _, computed⟩ := exists_of_bind computed
      cases computed
      exact made _
  | double =>
      cases computed
      exact made _
  | complex =>
      dsimp only at computed
      split at computed
      · cases computed
        exact made _
      · cases computed
  | _ => exact moved computed

end Device

namespace Value

variable {value first second result : Value}

theorem isLiteral_toValue (number : PlainNumber) : number.toValue.isLiteral = true := by
  cases number <;> rfl

theorem isOnDevice_of_isLiteral (isLiteral : value.isLiteral = true) :
    value.isOnDevice = false := by
  cases value with
  | array => cases isLiteral
  | _ => rfl

theorem lone_of_isLiteral (isLiteral : value.isLiteral = true) : value.lone = value := by
  cases value with
  | array => cases isLiteral
  | _ => rfl

end Value

namespace Operator

variable {first second result : Value}

/-- An operator gives literals when each of its parts on the host does. -/
theorem isLiteral_apply {operator : Operator Value}
    (plain : ∀ left right result, operator.plain left right = .ok result →
      result.isLiteral = true)
    (scalars : ∀ pair result, operator.scalars pair = .ok result → result.isLiteral = true)
    (other : ∀ first second result, first.isLiteral = true → second.isLiteral = true →
      operator.other first second = .ok result → result.isLiteral = true)
    (firstLiteral : first.isLiteral = true) (secondLiteral : second.isLiteral = true)
    (computed : operator.apply first second = .ok result) : result.isLiteral = true := by
  unfold apply at computed
  rw [Value.isOnDevice_of_isLiteral firstLiteral, Value.isOnDevice_of_isLiteral secondLiteral,
    Value.lone_of_isLiteral firstLiteral, Value.lone_of_isLiteral secondLiteral] at computed
  simp only [Bool.or_self, Bool.false_eq_true, if_false] at computed
  split at computed
  · exact plain _ _ _ computed
  · split at computed
    · split at computed
      · exact plain _ _ _ computed
      · obtain ⟨pair, _, computed⟩ := exists_of_bind computed
        exact scalars _ _ computed
    · exact other _ _ _ firstLiteral secondLiteral computed

theorem isLiteral_map_toValue {outcome : Except Fault PlainNumber}
    (computed : outcome.map PlainNumber.toValue = .ok result) : result.isLiteral = true := by
  obtain ⟨number, _, rfl⟩ := exists_of_map computed
  exact Value.isLiteral_toValue number

theorem isLiteral_map_scalar {outcome : Except Fault Scalar}
    (computed : outcome.map Value.scalar = .ok result) : result.isLiteral = true := by
  obtain ⟨scalar, _, rfl⟩ := exists_of_map computed
  rfl

theorem isLiteral_noOther (first second : Value) (computed : noOther first second = .ok result) :
    result.isLiteral = true := by cases computed

/-- Two texts make a text. -/
theorem isLiteral_joined (firstLiteral : first.isLiteral = true)
    (computed : joined first second = .ok result) : result.isLiteral = true := by
  unfold joined at computed
  split at computed
  · cases computed
    rfl
  · cases firstLiteral
  · cases firstLiteral
  · cases computed

/-- A text that is repeated is a text. -/
theorem isLiteral_repeated (firstLiteral : first.isLiteral = true)
    (secondLiteral : second.isLiteral = true) (computed : repeated first second = .ok result) :
    result.isLiteral = true := by
  unfold repeated at computed
  split at computed
  · obtain ⟨count, _, computed⟩ := exists_of_bind computed
    cases computed
    rfl
  · cases firstLiteral
  · cases firstLiteral
  · obtain ⟨count, _, computed⟩ := exists_of_bind computed
    cases computed
    rfl
  · cases secondLiteral
  · cases secondLiteral
  · cases computed

theorem isLiteral_addition (firstLiteral : first.isLiteral = true)
    (secondLiteral : second.isLiteral = true) (computed : addition.apply first second = .ok result) :
    result.isLiteral = true :=
  isLiteral_apply (fun _ _ _ => isLiteral_map_toValue) (fun _ _ => isLiteral_map_scalar)
    (fun _ _ _ own _ => isLiteral_joined own) firstLiteral secondLiteral computed

theorem isLiteral_subtraction (firstLiteral : first.isLiteral = true)
    (secondLiteral : second.isLiteral = true)
    (computed : subtraction.apply first second = .ok result) : result.isLiteral = true :=
  isLiteral_apply (fun _ _ _ => isLiteral_map_toValue) (fun _ _ => isLiteral_map_scalar)
    (fun left right _ _ _ => isLiteral_noOther left right) firstLiteral secondLiteral computed

theorem isLiteral_multiplication (firstLiteral : first.isLiteral = true)
    (secondLiteral : second.isLiteral = true)
    (computed : multiplication.apply first second = .ok result) : result.isLiteral = true :=
  isLiteral_apply (fun _ _ _ => isLiteral_map_toValue) (fun _ _ => isLiteral_map_scalar)
    (fun _ _ _ => isLiteral_repeated) firstLiteral secondLiteral computed

theorem isLiteral_division (firstLiteral : first.isLiteral = true)
    (secondLiteral : second.isLiteral = true) (computed : division.apply first second = .ok result) :
    result.isLiteral = true :=
  isLiteral_apply (fun _ _ _ => isLiteral_map_toValue) (fun _ _ => isLiteral_map_scalar)
    (fun left right _ _ _ => isLiteral_noOther left right) firstLiteral secondLiteral computed

theorem isLiteral_power (firstLiteral : first.isLiteral = true)
    (secondLiteral : second.isLiteral = true) (computed : power.apply first second = .ok result) :
    result.isLiteral = true := by
  refine isLiteral_apply (fun _ _ _ => isLiteral_map_toValue) (fun pair result computed => ?_)
    (fun left right _ _ _ => isLiteral_noOther left right) firstLiteral secondLiteral computed
  change scalarPower pair = _ at computed
  unfold scalarPower at computed
  split at computed
  · cases computed
    rfl
  · split at computed
    · cases computed
    · exact isLiteral_map_scalar computed
  · exact isLiteral_map_scalar computed

end Operator

namespace Value

variable {value result : Value} {tier : Tier}

theorem isLiteral_neg (isLiteral : value.isLiteral = true) (computed : value.neg = .ok result) :
    result.isLiteral = true := by
  unfold neg at computed
  rw [isOnDevice_of_isLiteral isLiteral, lone_of_isLiteral isLiteral] at computed
  split at computed
  · cases ‹false = true›
  · split at computed
    · exact Operator.isLiteral_map_scalar computed
    · obtain ⟨number, _, computed⟩ := exists_of_bind computed
      cases computed
      exact isLiteral_toValue _

theorem isLiteral_abs (isLiteral : value.isLiteral = true) (computed : value.abs = .ok result) :
    result.isLiteral = true := by
  unfold abs at computed
  rw [isOnDevice_of_isLiteral isLiteral, lone_of_isLiteral isLiteral] at computed
  split at computed
  · cases ‹false = true›
  · split at computed
    · cases computed
      rfl
    · obtain ⟨number, _, computed⟩ := exists_of_bind computed
      obtain ⟨size, _, computed⟩ := exists_of_bind computed
      cases computed
      exact isLiteral_toValue _

theorem isLiteral_ofRat (number : Rat) : (ofRat number).isLiteral = true := by
  unfold ofRat
  split <;> rfl

theorem isLiteral_normalized (isLiteral : value.isLiteral = true) :
    value.normalized.isLiteral = true := by
  cases value with
  | ratio number => exact isLiteral_ofRat number
  | _ => exact isLiteral

theorem isLiteral_toNarrow {storage : Storage} (isLiteral : value.isLiteral = true)
    (computed : value.toNarrow storage = .ok result) : result.isLiteral = true := by
  cases value with
  | complex =>
      simp only [toNarrow] at computed
      split at computed <;> cases computed
      rfl
  | scalar =>
      cases computed
      rfl
  | boolean | integer | ratio | double | text =>
      obtain ⟨number, _, computed⟩ := exists_of_bind computed
      cases computed
      rfl
  | _ => cases isLiteral

/-- A literal in the representation of a tier is a literal. -/
theorem isLiteral_toTier (isLiteral : value.isLiteral = true)
    (computed : value.toTier tier = .ok result) : result.isLiteral = true := by
  cases tier with
  | integer | float64 | complex128 =>
      obtain ⟨number, _, rfl⟩ := exists_of_map computed
      rfl
  | rational =>
      change value.toRational = _ at computed
      unfold toRational at computed
      split at computed
      · cases computed
        exact isLiteral_ofRat _
      · obtain ⟨number, _, rfl⟩ := exists_of_map computed
        rfl
  | float16 | float32 | complex64 => exact isLiteral_toNarrow isLiteral computed

end Value

namespace Tier

variable {value first second result : Value} {tier : Tier} {operation : Operation}

theorem Exact.isLiteral_unary (isLiteral : value.isLiteral = true)
    (computed : Exact.unary operation value = .ok result) : result.isLiteral = true := by
  unfold Exact.unary at computed
  split at computed
  · exact Value.isLiteral_neg isLiteral computed
  · exact Value.isLiteral_abs isLiteral computed
  · cases computed

theorem Exact.isLiteral_integerPower (firstLiteral : first.isLiteral = true)
    (secondLiteral : second.isLiteral = true)
    (computed : Exact.integerPower first second = .ok result) : result.isLiteral = true := by
  obtain ⟨negative, _, computed⟩ := exists_of_bind computed
  split at computed
  · cases computed
  · exact Operator.isLiteral_power firstLiteral secondLiteral computed

theorem Exact.isLiteral_binary (firstLiteral : first.isLiteral = true)
    (secondLiteral : second.isLiteral = true)
    (computed : Exact.binary operation first second = .ok result) : result.isLiteral = true := by
  unfold Exact.binary at computed
  split at computed
  · exact Operator.isLiteral_addition firstLiteral secondLiteral computed
  · exact Operator.isLiteral_subtraction firstLiteral secondLiteral computed
  · exact Operator.isLiteral_multiplication firstLiteral secondLiteral computed
  · exact Exact.isLiteral_integerPower firstLiteral secondLiteral computed
  · obtain ⟨answer, _, rfl⟩ := exists_of_map computed
    rfl
  · obtain ⟨answer, _, rfl⟩ := exists_of_map computed
    rfl
  · cases computed

theorem Rational.isLiteral_quotient (computed : Rational.quotient first second = .ok result) :
    result.isLiteral = true := by
  obtain ⟨top, _, computed⟩ := exists_of_bind computed
  obtain ⟨bottom, _, computed⟩ := exists_of_bind computed
  split at computed <;> cases computed
  exact Value.isLiteral_ofRat _

theorem Rational.isLiteral_power (computed : Rational.power first second = .ok result) :
    result.isLiteral = true := by
  obtain ⟨base, _, computed⟩ := exists_of_bind computed
  obtain ⟨count, _, computed⟩ := exists_of_bind computed
  obtain ⟨number, _, rfl⟩ := exists_of_map computed
  exact Value.isLiteral_ofRat _

theorem Rational.isLiteral_binary (firstLiteral : first.isLiteral = true)
    (secondLiteral : second.isLiteral = true)
    (computed : Rational.binary operation first second = .ok result) : result.isLiteral = true := by
  unfold Rational.binary at computed
  split at computed
  · exact Rational.isLiteral_quotient computed
  · exact Rational.isLiteral_power computed
  · obtain ⟨value, applied, rfl⟩ := exists_of_map computed
    exact Value.isLiteral_normalized (Exact.isLiteral_binary firstLiteral secondLiteral applied)

end Tier

namespace RealFunction

variable {value result : Value}

theorem isLiteral_checked {infinite : Fault} {argument number : Float}
    (computed : checked infinite argument number = .ok result) : result.isLiteral = true := by
  unfold checked at computed
  split at computed
  · cases computed
  · split at computed <;> cases computed
    rfl

theorem isLiteral_apply {function : Float → Float} (computed : apply function value = .ok result) :
    result.isLiteral = true := by
  obtain ⟨argument, _, computed⟩ := exists_of_bind computed
  exact isLiteral_checked computed

theorem isLiteral_exp (computed : exp value = .ok result) : result.isLiteral = true := by
  obtain ⟨argument, _, computed⟩ := exists_of_bind computed
  exact isLiteral_checked computed

theorem isLiteral_complex {function : ComplexDouble → ComplexOutcome}
    (computed : ComplexFunction.apply function value = .ok result) : result.isLiteral = true := by
  obtain ⟨argument, _, computed⟩ := exists_of_bind computed
  unfold ComplexFunction.checked at computed
  split at computed <;> cases computed
  rfl

theorem isLiteral_sqrt (computed : sqrt value = .ok result) : result.isLiteral = true := by
  obtain ⟨negative, _, computed⟩ := exists_of_bind computed
  split at computed
  · exact isLiteral_complex computed
  · exact isLiteral_apply computed

theorem isLiteral_positiveLog (computed : positiveLog value = .ok result) :
    result.isLiteral = true := by
  unfold positiveLog at computed
  split at computed
  · split at computed
    · cases computed
    · split at computed <;> cases computed <;> rfl
  · exact isLiteral_apply computed

theorem isLiteral_log (computed : log value = .ok result) : result.isLiteral = true := by
  obtain ⟨negative, _, computed⟩ := exists_of_bind computed
  split at computed
  · exact isLiteral_complex computed
  · exact isLiteral_positiveLog computed

end RealFunction

namespace Tier

variable {value first second result : Value} {tier : Tier} {operation : Operation}

theorem Wide.isLiteral_unary (isLiteral : value.isLiteral = true)
    (computed : Wide.unary operation value = .ok result) : result.isLiteral = true := by
  cases operation with
  | neg => exact Value.isLiteral_neg isLiteral computed
  | abs => exact Value.isLiteral_abs isLiteral computed
  | sqrt => exact RealFunction.isLiteral_sqrt computed
  | exp => exact RealFunction.isLiteral_exp computed
  | log => exact RealFunction.isLiteral_log computed
  | sin | cos | tan => exact RealFunction.isLiteral_apply computed
  | _ => cases computed

theorem Wide.isLiteral_complexUnary (isLiteral : value.isLiteral = true)
    (computed : Wide.complexUnary operation value = .ok result) : result.isLiteral = true := by
  cases operation with
  | neg => exact Value.isLiteral_neg isLiteral computed
  | abs => exact Value.isLiteral_abs isLiteral computed
  | sqrt | exp | log | sin | cos | tan => exact RealFunction.isLiteral_complex computed
  | _ => cases computed

theorem Wide.isLiteral_binary (firstLiteral : first.isLiteral = true)
    (secondLiteral : second.isLiteral = true)
    (computed : Wide.binary operation first second = .ok result) : result.isLiteral = true := by
  unfold Wide.binary at computed
  split at computed
  · exact Operator.isLiteral_division firstLiteral secondLiteral computed
  · exact Operator.isLiteral_power firstLiteral secondLiteral computed
  · exact Exact.isLiteral_binary firstLiteral secondLiteral computed

/-- What the device computes from lone arrays is a literal on the host. -/
theorem Narrow.isLiteral_toHost {outcome : Except Fault Value}
    (each : ∀ made, outcome = .ok made → made.IsLone)
    (computed : Value.toHost <$> outcome = .ok result) : result.isLiteral = true := by
  obtain ⟨made, finished, rfl⟩ := exists_of_map computed
  exact (each made finished).toHost

theorem Narrow.isLiteral_complexUnary (lone : value.IsLone)
    (computed : Narrow.complexUnary operation value = .ok result) : result.isLiteral = true := by
  refine Narrow.isLiteral_toHost (fun made finished => ?_) computed
  cases operation with
  | neg => exact Device.isLone_neg lone finished
  | abs => exact Device.isLone_abs lone finished
  | sqrt | exp | log | sin | cos | tan => exact Device.isLone_float lone finished
  | _ => cases finished

theorem Narrow.isLiteral_unary (isLiteral : value.isLiteral = true)
    (computed : Narrow.unary operation value = .ok result) : result.isLiteral = true := by
  have lone : value.IsLone := .of_isLiteral isLiteral
  unfold Narrow.unary at computed
  split at computed
  · obtain ⟨negative, _, computed⟩ := exists_of_bind computed
    split at computed
    · obtain ⟨moved, converted, computed⟩ := exists_of_bind computed
      exact Narrow.isLiteral_complexUnary (Device.isLone_ofTier lone converted) computed
    · exact Narrow.isLiteral_complexUnary lone computed
  · exact Narrow.isLiteral_complexUnary lone computed

theorem Narrow.isLiteral_realPower (firstLiteral : first.isLiteral = true)
    (secondLiteral : second.isLiteral = true)
    (computed : Narrow.realPower first second = .ok result) : result.isLiteral = true := by
  have lone : first.IsLone := .of_isLiteral firstLiteral
  have other : second.IsLone := .of_isLiteral secondLiteral
  have direct (computed : Value.toHost <$> Device.pow first second = .ok result) :
      result.isLiteral = true :=
    Narrow.isLiteral_toHost (fun _ => Device.isLone_pow lone other) computed
  obtain ⟨negative, _, computed⟩ := exists_of_bind computed
  split at computed
  · obtain ⟨exponent, _, computed⟩ := exists_of_bind computed
    split at computed
    · obtain ⟨left, leftConverted, computed⟩ := exists_of_bind computed
      obtain ⟨right, rightConverted, computed⟩ := exists_of_bind computed
      obtain ⟨power, raised, computed⟩ := exists_of_bind computed
      cases computed
      exact (Device.isLone_pow (Device.isLone_ofTier lone leftConverted)
        (Device.isLone_ofTier other rightConverted) raised).toHost
    · exact direct computed
  · exact direct computed

theorem Narrow.isLiteral_complexBinary (firstLiteral : first.isLiteral = true)
    (secondLiteral : second.isLiteral = true)
    (computed : Narrow.complexBinary operation first second = .ok result) :
    result.isLiteral = true := by
  have lone : first.IsLone := .of_isLiteral firstLiteral
  have other : second.IsLone := .of_isLiteral secondLiteral
  unfold Narrow.complexBinary at computed
  split at computed
  · exact Narrow.isLiteral_toHost (fun _ => Device.isLone_binary lone other) computed
  · exact Narrow.isLiteral_toHost (fun _ => Device.isLone_binary lone other) computed
  · exact Narrow.isLiteral_toHost (fun _ => Device.isLone_binary lone other) computed
  · exact Narrow.isLiteral_toHost (fun _ => Device.isLone_div lone other) computed
  · exact Narrow.isLiteral_toHost (fun _ => Device.isLone_pow lone other) computed
  · exact Exact.isLiteral_binary firstLiteral secondLiteral computed

theorem Narrow.isLiteral_binary (firstLiteral : first.isLiteral = true)
    (secondLiteral : second.isLiteral = true)
    (computed : Narrow.binary operation first second = .ok result) : result.isLiteral = true := by
  unfold Narrow.binary at computed
  split at computed
  · exact Narrow.isLiteral_realPower firstLiteral secondLiteral computed
  · exact Narrow.isLiteral_complexBinary firstLiteral secondLiteral computed

theorem isLiteral_unary (isLiteral : value.isLiteral = true)
    (computed : tier.unary operation value = .ok result) : result.isLiteral = true := by
  cases tier with
  | integer => exact Exact.isLiteral_unary isLiteral computed
  | rational =>
      obtain ⟨middle, applied, rfl⟩ := exists_of_map computed
      exact Value.isLiteral_normalized (Exact.isLiteral_unary isLiteral applied)
  | float16 | float32 => exact Narrow.isLiteral_unary isLiteral computed
  | float64 => exact Wide.isLiteral_unary isLiteral computed
  | complex64 => exact Narrow.isLiteral_complexUnary (.of_isLiteral isLiteral) computed
  | complex128 => exact Wide.isLiteral_complexUnary isLiteral computed

theorem isLiteral_binary (firstLiteral : first.isLiteral = true)
    (secondLiteral : second.isLiteral = true)
    (computed : tier.binary operation first second = .ok result) : result.isLiteral = true := by
  cases tier with
  | integer => exact Exact.isLiteral_binary firstLiteral secondLiteral computed
  | rational => exact Rational.isLiteral_binary firstLiteral secondLiteral computed
  | float16 | float32 => exact Narrow.isLiteral_binary firstLiteral secondLiteral computed
  | float64 | complex128 => exact Wide.isLiteral_binary firstLiteral secondLiteral computed
  | complex64 => exact Narrow.isLiteral_complexBinary firstLiteral secondLiteral computed

end Tier

namespace Generic

variable {value first second result : Value} {operands : List Value} {operation : Operation}

theorem isLiteral_binary (firstLiteral : first.isLiteral = true)
    (secondLiteral : second.isLiteral = true)
    (computed : binary operation first second = .ok result) : result.isLiteral = true := by
  obtain ⟨left, _, computed⟩ := exists_of_bind computed
  obtain ⟨right, _, computed⟩ := exists_of_bind computed
  dsimp only at computed
  generalize (if operation = .div ∧ left.combine right = .integer then .rational
    else left.combine right : Tier) = chosen at computed
  split at computed
  · cases computed
  · obtain ⟨firstValue, firstConverted, computed⟩ := exists_of_bind computed
    obtain ⟨secondValue, secondConverted, computed⟩ := exists_of_bind computed
    exact Tier.isLiteral_binary (Value.isLiteral_toTier firstLiteral firstConverted)
      (Value.isLiteral_toTier secondLiteral secondConverted) computed

theorem isLiteral_unary (isLiteral : value.isLiteral = true)
    (computed : unary operation value = .ok result) : result.isLiteral = true := by
  obtain ⟨own, _, computed⟩ := exists_of_bind computed
  obtain ⟨argument, converted, computed⟩ := exists_of_bind computed
  exact Tier.isLiteral_unary (Value.isLiteral_toTier isLiteral converted) computed

end Generic

namespace Library

end Library

end Narrowing
