import Narrowing.Proofs.ArithmeticFaults
import Narrowing.Proofs.LibraryCalls

/-
This file shows that the implementations of the library fail only in ways that leave a call as it
stands when constants are folded.
-/

namespace Narrowing

theorem PlainNumber.foldable_toScalar (number : PlainNumber) (storage : Storage) :
    Foldable (number.toScalar storage) := by
  unfold toScalar
  split
  · exact (foldable_orFault rfl _).map
  · exact foldable_ok _
  · exact (foldable_toDouble _).bind fun _ => foldable_ok _

theorem ScalarPair.foldable_ofValues (first second : Value) : Foldable (ofValues first second) := by
  unfold ofValues
  split
  · exact foldable_ok _
  · exact foldable_ok _
  · exact foldable_ok _
  · exact (foldable_orFault rfl _).bind fun number =>
      (number.foldable_toScalar _).bind fun _ => foldable_ok _
  · exact (foldable_orFault rfl _).bind fun number =>
      (number.foldable_toScalar _).bind fun _ => foldable_ok _
  · exact foldable_operand

namespace Operator

variable {Result : Type}

/-- An operator fails in these ways only, for each kind of operands. -/
structure IsFoldable (operator : Operator Result) : Prop where
  plain : ∀ first second, Foldable (operator.plain first second)
  scalars : ∀ pair, Foldable (operator.scalars pair)
  device : ∀ first second, Foldable (operator.device first second)
  other : ∀ first second, Foldable (operator.other first second)

theorem IsFoldable.apply {operator : Operator Result} (foldable : operator.IsFoldable)
    (first second : Value) : Foldable (operator.apply first second) := by
  unfold Operator.apply
  split
  · exact foldable.device first second
  split
  · exact foldable.plain _ _
  · dsimp only
    split
    · split
      · exact foldable.plain _ _
      · exact (ScalarPair.foldable_ofValues _ _).bind foldable.scalars
    · exact foldable.other _ _

theorem isFoldable_arithmetic {plain : PlainNumber.Rule} (elements : ElementRule)
    {device other : Value → Value → Except Fault Value} (plainFoldable : plain.IsFoldable)
    (deviceFoldable : ∀ first second, Foldable (device first second))
    (otherFoldable : ∀ first second, Foldable (other first second)) :
    (arithmetic plain elements device other).IsFoldable :=
  ⟨fun first second => (plainFoldable.apply first second).map,
    fun _ => (elements.foldable_apply _ _ _).map, deviceFoldable, otherFoldable⟩

theorem foldable_joined (first second : Value) : Foldable (joined first second) := by
  unfold joined
  split
  · exact foldable_ok _
  · exact foldable_ok _
  · exact foldable_ok _
  · exact foldable_operand

theorem foldable_repeated (first second : Value) : Foldable (repeated first second) := by
  unfold repeated
  split
  · exact (foldable_orFault rfl _).bind fun _ => foldable_ok _
  · exact (foldable_orFault rfl _).bind fun _ => foldable_ok _
  · exact (foldable_orFault rfl _).bind fun _ => foldable_ok _
  · exact (foldable_orFault rfl _).bind fun _ => foldable_ok _
  · exact (foldable_orFault rfl _).bind fun _ => foldable_ok _
  · exact (foldable_orFault rfl _).bind fun _ => foldable_ok _
  · exact foldable_operand

theorem isFoldable_addition : addition.IsFoldable :=
  isFoldable_arithmetic _ (PlainNumber.isFoldable_total _ _ _ _) (Device.foldable_binary _)
    foldable_joined

theorem isFoldable_subtraction : subtraction.IsFoldable :=
  isFoldable_arithmetic _ (PlainNumber.isFoldable_total _ _ _ _) (Device.foldable_binary _)
    fun _ _ => foldable_operand

theorem isFoldable_multiplication : multiplication.IsFoldable :=
  isFoldable_arithmetic _ (PlainNumber.isFoldable_total _ _ _ _) (Device.foldable_binary _)
    foldable_repeated

theorem isFoldable_division : division.IsFoldable where
  plain first second := (PlainNumber.isFoldable_division.apply first second).map
  scalars _ := (ElementRule.division.foldable_apply _ _ _).map
  device := Device.foldable_div
  other _ _ := foldable_operand

theorem foldable_scalarPower (pair : ScalarPair) : Foldable (scalarPower pair) := by
  unfold scalarPower
  split
  · exact foldable_ok _
  · exact foldable_ite foldable_domain (ElementRule.power.foldable_apply _ _ _).map
  · exact (ElementRule.power.foldable_apply _ _ _).map

theorem isFoldable_power : power.IsFoldable where
  plain first second := (first.foldable_pow second).map
  scalars := foldable_scalarPower
  device := Device.foldable_pow
  other _ _ := foldable_operand

end Operator

namespace Value

theorem foldable_neg (value : Value) : Foldable value.neg := by
  unfold neg
  split
  · exact Device.foldable_neg value
  split
  · exact (Scalar.foldable_neg _).map
  · exact (foldable_orFault rfl _).bind fun _ => foldable_ok _

theorem foldable_abs (value : Value) : Foldable value.abs := by
  unfold abs
  split
  · exact Device.foldable_abs value
  split
  · exact foldable_ok _
  · exact (foldable_orFault rfl _).bind fun number =>
      number.foldable_abs.bind fun _ => foldable_ok _

theorem foldable_truth (value : Value) : Foldable value.truth := by
  unfold truth
  split
  · exact foldable_ok _
  split
  · split
    · exact foldable_ok _
    · exact foldable_domain
  · exact foldable_operand

mutual

theorem foldable_precedes (first second : Value) : Foldable (precedes first second) := by
  unfold precedes
  split
  · exact foldable_ok _
  · exact foldable_precedesAll _ _
  · exact foldable_precedesAll _ _
  · split
    · exact PlainNumber.foldable_less _ _
    · exact foldable_operand

theorem foldable_precedesAll (first second : List Value) :
    Foldable (precedesAll first second) := by
  unfold precedesAll
  split
  · exact foldable_ok _
  · exact foldable_ok _
  · exact foldable_ok _
  · split
    · exact foldable_precedesAll _ _
    · exact foldable_precedes _ _

end

end Value

namespace Operator

theorem foldable_scalarTest {exact : PlainNumber → PlainNumber → Except Fault Bool}
    {test : Scalar → Scalar → Bool} (each : ∀ first second, Foldable (exact first second))
    (pair : ScalarPair) : Foldable (scalarTest exact test pair) := by
  unfold scalarTest
  split
  · exact each _ _
  · exact foldable_ok _

theorem isFoldable_less : less.IsFoldable where
  plain := PlainNumber.foldable_less
  scalars := foldable_scalarTest PlainNumber.foldable_less
  device first second := (Device.foldable_compare _ first second).bind Value.foldable_truth
  other := Value.foldable_precedes

theorem isFoldable_equal : equal.IsFoldable where
  plain _ _ := foldable_ok _
  scalars := foldable_scalarTest fun _ _ => foldable_ok _
  device first second := (Device.foldable_compare _ first second).bind Value.foldable_truth
  other _ _ := foldable_ok _

end Operator

namespace Value

theorem foldable_compare {operator : Operator Bool} (foldable : operator.IsFoldable)
    (first second : Value) : Foldable (compare operator first second) := by
  unfold compare
  split
  · exact foldable.plain _ _
  · exact foldable.apply first second

theorem foldable_less (first second : Value) : Foldable (first.less second) :=
  foldable_compare Operator.isFoldable_less first second

theorem foldable_equal (first second : Value) : Foldable (first.equal second) :=
  foldable_compare Operator.isFoldable_equal first second

theorem foldable_truncatedPlain (number : PlainNumber) : Foldable (truncatedPlain number) := by
  cases number with
  | integer | ratio => exact foldable_ok _
  | double => exact foldable_ite foldable_domain (foldable_orFault rfl _)
  | complex => exact foldable_operand

theorem foldable_item (value : Value) : Foldable value.item := by
  unfold item
  split
  · exact foldable_ok _
  · split
    · exact foldable_ok _
    · exact foldable_domain
  · exact foldable_orFault rfl _

theorem foldable_toInteger (value : Value) : Foldable value.toInteger := by
  unfold toInteger
  split
  · exact foldable_orFault rfl _
  · exact (foldable_item _).bind foldable_truncatedPlain

theorem foldable_toRational (value : Value) : Foldable value.toRational := by
  unfold toRational
  split
  · exact foldable_ok _
  · exact (foldable_toInteger _).map

theorem foldable_toDouble (value : Value) : Foldable value.toDouble := by
  unfold toDouble
  split
  · exact foldable_orFault rfl _
  · exact foldable_ok _
  · exact (foldable_item _).bind PlainNumber.foldable_toDouble

theorem foldable_toComplex (value : Value) : Foldable value.toComplex := by
  unfold toComplex
  split
  · exact (foldable_orFault rfl _).map
  · exact (foldable_item _).bind PlainNumber.foldable_toComplex

theorem foldable_toNarrow (storage : Storage) (value : Value) :
    Foldable (value.toNarrow storage) := by
  unfold toNarrow
  split
  · exact foldable_ok _
  · exact foldable_ite (foldable_ok _) foldable_operand
  · exact foldable_ok _
  · split
    · exact foldable_ok _
    · exact foldable_ok _
  · exact (foldable_toDouble _).bind fun _ => foldable_ok _

theorem foldable_toTier (value : Value) (tier : Tier) : Foldable (value.toTier tier) := by
  cases tier with
  | integer => exact value.foldable_toInteger.map
  | rational => exact value.foldable_toRational
  | float64 => exact value.foldable_toDouble.map
  | complex128 => exact value.foldable_toComplex.map
  | float16 | float32 | complex64 => exact value.foldable_toNarrow _

theorem foldable_toRat (value : Value) : Foldable value.toRat := by
  unfold toRat
  split
  · exact foldable_orFault rfl _
  · exact foldable_ok _
  · exact foldable_ok _
  · exact foldable_ok _
  · exact foldable_ite foldable_domain (foldable_orFault rfl _)
  · exact foldable_ite foldable_domain (foldable_orFault rfl _)
  · exact foldable_ok _
  · exact foldable_operand

theorem foldable_realArgument (value : Value) : Foldable value.realArgument := by
  unfold realArgument
  split
  · exact foldable_operand
  · exact foldable_toDouble _

theorem foldable_complexArgument (value : Value) : Foldable value.complexArgument := by
  unfold complexArgument
  split
  · exact foldable_operand
  · exact foldable_toComplex _

theorem foldable_isNegative (value : Value) : Foldable value.isNegative :=
  value.foldable_less (.integer 0)

end Value

theorem ComplexFunction.foldable_apply (function : ComplexDouble → ComplexOutcome)
    (value : Value) : Foldable (apply function value) := by
  refine value.foldable_complexArgument.bind fun argument => ?_
  unfold checked
  split
  · exact foldable_ok _
  · exact foldable_domain
  · exact foldable_overflow

namespace RealFunction

theorem foldable_checked {infinite : Fault} (holds : infinite.isFoldable = true)
    (argument result : Float) : Foldable (checked infinite argument result) :=
  foldable_ite foldable_domain (foldable_ite (foldable_error holds) (foldable_ok _))

theorem foldable_apply (function : Float → Float) (value : Value) :
    Foldable (apply function value) :=
  value.foldable_realArgument.bind fun argument => foldable_checked rfl argument _

theorem foldable_exp (value : Value) : Foldable (exp value) :=
  value.foldable_realArgument.bind fun argument => foldable_checked rfl argument _

theorem foldable_sqrt (value : Value) : Foldable (sqrt value) :=
  value.foldable_isNegative.bind fun _ =>
    foldable_ite (ComplexFunction.foldable_apply _ value) (foldable_apply _ value)

theorem foldable_positiveLog (value : Value) : Foldable (positiveLog value) := by
  unfold positiveLog
  split
  · refine foldable_ite foldable_domain ?_
    split
    · exact foldable_ok _
    · exact foldable_ok _
  · exact foldable_apply _ _

theorem foldable_log (value : Value) : Foldable (log value) :=
  value.foldable_isNegative.bind fun _ =>
    foldable_ite (ComplexFunction.foldable_apply _ value) (foldable_positiveLog value)

end RealFunction

namespace Tier

namespace Exact

theorem foldable_unary (operation : Operation) (value : Value) :
    Foldable (unary operation value) := by
  cases operation with
  | neg => exact value.foldable_neg
  | abs => exact value.foldable_abs
  | _ => exact foldable_operand

theorem foldable_integerPower (base exponent : Value) : Foldable (integerPower base exponent) :=
  exponent.foldable_isNegative.bind fun _ =>
    foldable_ite (foldable_error rfl) (Operator.isFoldable_power.apply base exponent)

theorem foldable_binary (operation : Operation) (first second : Value) :
    Foldable (binary operation first second) := by
  cases operation with
  | add => exact Operator.isFoldable_addition.apply first second
  | sub => exact Operator.isFoldable_subtraction.apply first second
  | mul => exact Operator.isFoldable_multiplication.apply first second
  | expt => exact foldable_integerPower first second
  | lt => exact (first.foldable_less second).map
  | eq => exact (first.foldable_equal second).map
  | _ => exact foldable_operand

end Exact

namespace Rational

theorem foldable_quotient (first second : Value) : Foldable (quotient first second) :=
  first.foldable_toRat.bind fun _ => second.foldable_toRat.bind fun _ =>
    foldable_ite foldable_zeroDivision (foldable_ok _)

theorem foldable_power (base exponent : Value) : Foldable (power base exponent) :=
  base.foldable_toRat.bind fun _ => exponent.foldable_toInteger.bind fun _ =>
    (PlainNumber.foldable_ratioPower _ _).map

theorem foldable_binary (operation : Operation) (first second : Value) :
    Foldable (binary operation first second) := by
  unfold binary
  split
  · exact foldable_quotient first second
  · exact foldable_power first second
  · exact (Exact.foldable_binary _ first second).map

end Rational

namespace Wide

theorem foldable_unary (operation : Operation) (value : Value) :
    Foldable (unary operation value) := by
  cases operation with
  | neg => exact value.foldable_neg
  | abs => exact value.foldable_abs
  | sqrt => exact RealFunction.foldable_sqrt value
  | exp => exact RealFunction.foldable_exp value
  | log => exact RealFunction.foldable_log value
  | sin | cos | tan => exact RealFunction.foldable_apply _ value
  | _ => exact foldable_operand

theorem foldable_binary (operation : Operation) (first second : Value) :
    Foldable (binary operation first second) := by
  unfold binary
  split
  · exact Operator.isFoldable_division.apply first second
  · exact Operator.isFoldable_power.apply first second
  · exact Exact.foldable_binary _ first second

theorem foldable_complexUnary (operation : Operation) (value : Value) :
    Foldable (complexUnary operation value) := by
  cases operation with
  | neg => exact value.foldable_neg
  | abs => exact value.foldable_abs
  | sqrt | exp | log | sin | cos | tan => exact ComplexFunction.foldable_apply _ value
  | _ => exact foldable_operand

end Wide

namespace Narrow

theorem foldable_complexUnary (operation : Operation) (value : Value) :
    Foldable (complexUnary operation value) := by
  refine Foldable.map ?_
  cases operation with
  | neg => exact Device.foldable_neg value
  | abs => exact Device.foldable_abs value
  | sqrt | exp | log | sin | cos | tan => exact Device.foldable_float _ value
  | _ => exact foldable_operand

theorem foldable_unary (operation : Operation) (value : Value) :
    Foldable (unary operation value) := by
  have direct := foldable_complexUnary operation value
  unfold unary
  split
  · refine value.foldable_isNegative.bind fun negative => ?_
    split
    · exact (Device.foldable_ofTier _ value).bind (foldable_complexUnary operation)
    · exact direct
  · exact direct

theorem foldable_realPower (base exponent : Value) : Foldable (realPower base exponent) := by
  have direct : Foldable (Value.toHost <$> Device.pow base exponent) :=
    (Device.foldable_pow base exponent).map
  refine base.foldable_isNegative.bind fun negative => ?_
  split
  · refine exponent.foldable_toDouble.bind fun power => ?_
    dsimp only
    split
    · exact (Device.foldable_ofTier _ base).bind fun _ =>
        (Device.foldable_ofTier _ exponent).bind fun _ =>
          (Device.foldable_pow _ _).bind fun _ => foldable_pure _
    · exact direct
  · exact direct

theorem foldable_complexBinary (operation : Operation) (first second : Value) :
    Foldable (complexBinary operation first second) := by
  unfold complexBinary
  split
  · exact (Device.foldable_binary _ first second).map
  · exact (Device.foldable_binary _ first second).map
  · exact (Device.foldable_binary _ first second).map
  · exact (Device.foldable_div first second).map
  · exact (Device.foldable_pow first second).map
  · exact Exact.foldable_binary _ first second

theorem foldable_binary (operation : Operation) (first second : Value) :
    Foldable (binary operation first second) := by
  unfold binary
  split
  · exact foldable_realPower first second
  · exact foldable_complexBinary _ first second

end Narrow

theorem foldable_unary (tier : Tier) (operation : Operation) (value : Value) :
    Foldable (tier.unary operation value) := by
  cases tier with
  | integer => exact Exact.foldable_unary operation value
  | rational => exact (Exact.foldable_unary operation value).map
  | float16 | float32 => exact Narrow.foldable_unary operation value
  | float64 => exact Wide.foldable_unary operation value
  | complex64 => exact Narrow.foldable_complexUnary operation value
  | complex128 => exact Wide.foldable_complexUnary operation value

theorem foldable_binary (tier : Tier) (operation : Operation) (first second : Value) :
    Foldable (tier.binary operation first second) := by
  cases tier with
  | integer => exact Exact.foldable_binary operation first second
  | rational => exact Rational.foldable_binary operation first second
  | float16 | float32 => exact Narrow.foldable_binary operation first second
  | float64 | complex128 => exact Wide.foldable_binary operation first second
  | complex64 => exact Narrow.foldable_complexBinary operation first second

theorem foldable_compute (tier : Tier) (operation : Operation) (operands : List Value) :
    Foldable (tier.compute operation operands) := by
  unfold compute
  split
  · exact tier.foldable_unary operation _
  · exact tier.foldable_binary operation _ _
  · exact foldable_operand

end Tier

namespace Generic

theorem foldable_tier (value : Value) : Foldable (tier value) := foldable_orFault rfl _

theorem foldable_binary (operation : Operation) (first second : Value) :
    Foldable (binary operation first second) :=
  (foldable_tier first).bind fun _ => (foldable_tier second).bind fun _ =>
    foldable_ite (foldable_error rfl) <| (first.foldable_toTier _).bind fun _ =>
      (second.foldable_toTier _).bind fun _ => Tier.foldable_binary _ operation _ _

theorem foldable_unary (operation : Operation) (value : Value) :
    Foldable (unary operation value) :=
  (foldable_tier value).bind fun _ => (value.foldable_toTier _).bind fun _ =>
    Tier.foldable_unary _ operation _

theorem foldable_fold (operation : Operation) (first : Value) (rest : List Value) :
    Foldable (fold operation first rest) := foldable_foldlM (foldable_binary operation) first

theorem foldable_sub (operands : List Value) : Foldable (sub operands) := by
  unfold sub
  split
  · exact foldable_operand
  · exact foldable_unary .neg _
  · exact foldable_fold .sub _ _

theorem foldable_div (operands : List Value) : Foldable (div operands) := by
  unfold div
  split
  · exact foldable_operand
  · exact foldable_binary .div _ _
  · exact foldable_fold .div _ _

theorem foldable_power (base exponent : Value) : Foldable (power base exponent) := by
  refine (foldable_tier base).bind fun baseTier => (foldable_tier exponent).bind fun met => ?_
  split
  · exact exponent.foldable_toInteger.bind fun count => foldable_ite
      (base.foldable_toInteger.bind fun _ => Tier.Exact.foldable_integerPower _ _)
      (Tier.Rational.foldable_power _ _)
  · exact (base.foldable_toTier _).bind fun _ => (exponent.foldable_toTier _).bind fun _ =>
      Tier.foldable_binary _ .expt _ _

theorem foldable_expt (operands : List Value) : Foldable (expt operands) := by
  unfold expt
  split
  · exact foldable_power _ _
  · exact foldable_operand

theorem foldable_wordQuotient (first second : Value) (quotient : Int) :
    Foldable (wordQuotient first second quotient) := by
  unfold wordQuotient
  dsimp only
  split
  · exact foldable_ok _
  · split
    · exact (foldable_orFault rfl _).bind fun _ => foldable_ok _
    · exact foldable_ok _
  · split
    · exact (foldable_orFault rfl _).bind fun _ => foldable_ok _
    · exact foldable_ok _
  · exact foldable_ok _

theorem foldable_floorQuotient (first second : Value) : Foldable (floorQuotient first second) := by
  have exact : Foldable (exactFloor first second) :=
    first.foldable_toRat.bind fun _ => second.foldable_toRat.bind fun _ =>
      foldable_ite foldable_zeroDivision <|
        (foldable_wordQuotient _ _ _).bind fun _ => foldable_ok _
  have double (met : Tier) : Foldable (doubleFloor met first second) :=
    first.foldable_toDouble.bind fun _ => second.foldable_toDouble.bind fun _ =>
      foldable_ite foldable_zeroDivision <| foldable_ite foldable_domain <|
        (foldable_orFault rfl _).bind fun _ => (foldable_orFault rfl _).bind fun _ =>
          (Value.foldable_toTier _ met).bind fun _ => foldable_ok _
  exact (foldable_tier first).bind fun _ => (foldable_tier second).bind fun _ =>
    foldable_ite (foldable_error rfl) (foldable_ite exact (double _))

theorem foldable_floor (operands : List Value) : Foldable (floor operands) := by
  unfold floor
  split
  · exact foldable_floorQuotient _ _
  · exact foldable_floorQuotient _ _
  · exact foldable_operand

theorem foldable_ofUnary (operation : Operation) (operands : List Value) :
    Foldable (ofUnary operation operands) := by
  unfold ofUnary
  split
  · exact foldable_unary operation _
  · exact foldable_operand

theorem foldable_ofBinary (operation : Operation) (operands : List Value) :
    Foldable (ofBinary operation operands) := by
  unfold ofBinary
  split
  · exact foldable_binary operation _ _
  · exact foldable_operand

theorem foldable_coerce (target : Tier) (operands : List Value) :
    Foldable (coerce target operands) := by
  unfold coerce
  split
  · exact (foldable_tier _).bind fun _ =>
      foldable_ite (foldable_error rfl) (Value.foldable_toTier _ target)
  · exact foldable_operand

end Generic

namespace Library

/-- Folding passes over every failure of the library. -/
theorem foldable_implementation {record : Record} (member : record ∈ records)
    {implementation : Implementation} (implemented : record.implementation = some implementation)
    (values : List Value) : Foldable (implementation values) := by
  rcases mem_cases member with plain | ⟨tier, operation, _, rfl⟩
  · simp only [plainRecords, arithmeticRecords, List.append_assoc, List.mem_append, List.mem_map,
      List.mem_cons, List.not_mem_nil, or_false] at plain
    rcases plain with (rfl | rfl | rfl | rfl) | ⟨operation, _, rfl⟩ | (rfl | rfl) |
      ⟨operation, _, rfl⟩ | ⟨tier, _, rfl⟩ <;> cases implemented
    · exact Generic.foldable_fold .add _ values
    · exact Generic.foldable_fold .mul _ values
    · exact Generic.foldable_sub values
    · exact Generic.foldable_div values
    · exact Generic.foldable_ofUnary operation values
    · exact Generic.foldable_expt values
    · exact Generic.foldable_floor values
    · exact Generic.foldable_ofBinary operation values
    · exact Generic.foldable_coerce tier values
  · cases implemented
    exact tier.foldable_compute operation values

end Library

end Narrowing
