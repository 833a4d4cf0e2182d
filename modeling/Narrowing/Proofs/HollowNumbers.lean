import Narrowing.Proofs.GenericResults

/-
This file follows zeros and undefined numbers through products, whose real ones stay as they are.
-/

namespace Narrowing

namespace Double

/-- A zero of either sign, or the undefined number. -/
def IsHollow (number : Float) : Prop := number = zero false ∨ number = zero true ∨ number = nan

instance (number : Float) : Decidable (IsHollow number) :=
  inferInstanceAs (Decidable (_ ∨ _ ∨ _))

theorem unpack_zero (negative : Bool) : (zero negative).toModel.unpack =
    .zero (if negative then .negative else .positive) := by cases negative <;> rfl

theorem unpack_nan : nan.toModel.unpack = .notANumber := rfl

/-- A zero times any number is a zero, unless the product is undefined. -/
theorem isHollow_mul {first : Float} (hollow : IsHollow first) (second : Float) :
    IsHollow (first * second) := by
  have undefined : IsHollow (.ofModel (.pack .notANumber)) := by decide +kernel
  have zeros : ∀ sign, IsHollow (.ofModel (.pack (.zero sign))) := by
    intro sign
    cases sign <;> decide +kernel
  have vanishes : ∀ sign, IsHollow
      (.ofModel (.pack (.mul .binary64 (.zero sign) second.toModel.unpack))) := by
    intro sign
    cases second.toModel.unpack with
    | infinity | notANumber => exact undefined
    | zero | finite => exact zeros _
  change IsHollow (.ofModel (.pack (.mul .binary64 first.toModel.unpack second.toModel.unpack)))
  rcases hollow with rfl | rfl | rfl
  · rw [unpack_zero]
    exact vanishes _
  · rw [unpack_zero]
    exact vanishes _
  · rw [unpack_nan]
    exact undefined

/-- Zeros and undefined numbers need no rounding. -/
theorem half_of_hollow {number : Float} (hollow : IsHollow number) :
    (Half.ofDouble number).toDouble = number := by
  rcases hollow with rfl | rfl | rfl <;> decide +kernel

theorem single_of_hollow {number : Float} (hollow : IsHollow number) :
    Single.toDouble (Single.ofDouble number) = number := by
  rcases hollow with rfl | rfl | rfl <;> decide +kernel

end Double

namespace Value

/-- The integer zero, or a zero or an undefined number of a real precision. -/
inductive IsHollow : Value → Prop
  | integer : IsHollow (.integer 0)
  | half {number : Float} (hollow : Double.IsHollow number) :
      IsHollow (.scalar (.half (Half.ofDouble number)))
  | single {number : Float} (hollow : Double.IsHollow number) :
      IsHollow (.scalar (.single (Single.ofDouble number)))
  | double {number : Float} (hollow : Double.IsHollow number) : IsHollow (.double number)

variable {value first second result : Value} {tier own left right : Tier}

theorem IsHollow.isLiteral (hollow : value.IsHollow) : value.isLiteral = true := by
  cases hollow <;> rfl

/-- One times a zero or an undefined number of the reals is this number. -/
theorem IsHollow.one_mul (hollow : value.IsHollow) :
    Generic.binary .mul (.integer 1) value = .ok value := by
  apply eq_ok_of_identical hollow.isLiteral
  cases hollow with
  | integer => decide +kernel
  | half hollow | single hollow | double hollow =>
      rcases hollow with rfl | rfl | rfl <;> decide +kernel

/-- The double behind a zero or an undefined number. -/
theorem IsHollow.exists_double (hollow : value.IsHollow) :
    ∃ number, Double.IsHollow number ∧ value.toDouble = .ok number := by
  cases hollow with
  | integer =>
      have converted : Double.ofInt? 0 = some (Double.zero false) := by decide +kernel
      exact ⟨Double.zero false, .inl rfl, congrArg (orFault · Fault.overflow) converted⟩
  | half hollow => exact ⟨_, hollow, congrArg Except.ok (Double.half_of_hollow hollow)⟩
  | single hollow => exact ⟨_, hollow, congrArg Except.ok (Double.single_of_hollow hollow)⟩
  | double hollow => exact ⟨_, hollow, rfl⟩

/-- Conversions to the real precisions keep zeros and undefined numbers. -/
theorem IsHollow.toTier (hollow : value.IsHollow) (inexact : tier.isExact = false)
    (real : tier.isComplex = false) (converted : value.toTier tier = .ok result) :
    result.IsHollow := by
  obtain ⟨number, hollowNumber, read⟩ := hollow.exists_double
  have narrow : ∀ storage, value.toNarrow storage =
      .ok (.scalar ((Scalar.double number).convert storage)) ∨
        ∃ scalar : Scalar, scalar.real = number ∧
          value.toNarrow storage = .ok (.scalar (scalar.convert storage)) := by
    intro storage
    cases hollow with
    | integer | double =>
        left
        change _ >>= _ = _
        rw [read]
        rfl
    | half | single => exact .inr ⟨_, Except.ok.inj read, rfl⟩
  cases tier with
  | integer | rational => cases inexact
  | complex64 | complex128 => cases real
  | float16 =>
      change value.toNarrow .half = _ at converted
      rcases narrow .half with same | ⟨scalar, rfl, same⟩ <;> cases converted.symm.trans same
      · exact .half hollowNumber
      · exact .half hollowNumber
  | float32 =>
      change value.toNarrow .single = _ at converted
      rcases narrow .single with same | ⟨scalar, rfl, same⟩ <;> cases converted.symm.trans same
      · exact .single hollowNumber
      · exact .single hollowNumber
  | float64 =>
      change value.toDouble.map _ = _ at converted
      rw [read] at converted
      cases converted
      exact .double hollowNumber

end Value

namespace Tier

variable {first second result : Value} {tier : Tier}

/-- A product with a zero or an undefined number of its tier is hollow too. -/
theorem isHollow_mul (inexact : tier.isExact = false) (real : tier.isComplex = false)
    (hollow : first.IsHollow) (firstInside : first.InTier tier) (secondInside : second.InTier tier)
    (computed : tier.binary .mul first second = .ok result) : result.IsHollow := by
  cases secondInside with
  | integer | whole | ratio => cases inexact
  | complexSingle | complexDouble => cases real
  | half number =>
      cases hollow with
      | half hollowNumber =>
          cases computed
          refine .half ?_
          -- The device converts both operands to their own precision twice.
          change Double.IsHollow
            ((Half.ofDouble (Half.ofDouble (Half.ofDouble _).toDouble).toDouble).toDouble * _)
          apply Double.isHollow_mul
          simpa only [Double.half_of_hollow hollowNumber]
      | _ => cases firstInside
  | single number =>
      cases hollow with
      | single hollowNumber =>
          cases computed
          refine .single ?_
          change Double.IsHollow (Single.toDouble (Single.ofDouble
            (Single.toDouble (Single.ofDouble (Single.toDouble (Single.ofDouble _))))) * _)
          apply Double.isHollow_mul
          simpa only [Double.single_of_hollow hollowNumber]
      | _ => cases firstInside
  | double number =>
      cases hollow with
      | double hollowNumber =>
          cases computed
          exact .double (Double.isHollow_mul hollowNumber number)
      | _ => cases firstInside

end Tier

namespace Generic

variable {first second result : Value} {left right own : Tier}

/-- A product with a zero or an undefined number of the reals is hollow too, or it is complex. -/
theorem isHollow_mul (hollow : first.IsHollow) (firstInside : first.InTier left)
    (secondInside : second.InTier right) (computed : binary .mul first second = .ok result) :
    result.IsHollow ∨ ∃ own, result.InTier own ∧ own.isComplex = true := by
  cases complex : (left.combine right).isComplex with
  | true =>
      have inexact : (left.combine right).isExact = false := by
        cases met : left.combine right <;> rw [met] at complex <;> first | rfl | cases complex
      exact .inr ⟨_, binary_inexact rfl firstInside secondInside inexact computed, complex⟩
  | false =>
      left
      cases exact : (left.combine right).isExact with
      | true =>
          rw [Tier.isExact_combine, Bool.and_eq_true] at exact
          obtain ⟨factor, secondExact⟩ := secondInside.exists_exact exact.2
          cases hollow with
          | integer =>
              rw [product_zero rfl secondExact (by simp) computed]
              exact .integer
          | half | single | double =>
              cases firstInside
              cases exact.1
      | false =>
          obtain ⟨leftValue, rightValue, _, leftConverted, rightConverted, computed⟩ :=
            exists_of_binary firstInside secondInside computed
          rw [Tier.chosen_eq .mul exact] at leftConverted rightConverted computed
          obtain ⟨⟨_, leftOwn, leftCovered⟩, _⟩ := Value.toTier_inTier firstInside leftConverted
          obtain ⟨⟨_, rightOwn, rightCovered⟩, _⟩ := Value.toTier_inTier secondInside rightConverted
          cases Tier.eq_of_covers leftCovered exact
          cases Tier.eq_of_covers rightCovered exact
          exact Tier.isHollow_mul exact complex (hollow.toTier exact complex leftConverted) leftOwn
            rightOwn computed

end Generic

end Narrowing
