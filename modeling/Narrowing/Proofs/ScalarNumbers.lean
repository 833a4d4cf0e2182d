import Narrowing.Proofs.GenericPowers
import Narrowing.Proofs.WordDoubles

/-
This file shows that generic operations take a word, or a scalar in double precision, as the number
that it holds.
-/

namespace Narrowing

namespace Value

/-- A word is the integer and a scalar in double precision the number that it holds. -/
def standardized : Value → Value
  | .scalar (.word word) => .integer word.value
  | .scalar (.double number) => .double number
  | .scalar (.complexDouble number) => .complex number
  | value => value

variable {value first second result : Value} {own tier : Tier}

@[simp] theorem tier?_standardized (value : Value) : value.standardized.tier? = value.tier? := by
  unfold standardized
  split <;> rfl

@[simp] theorem atom_standardized (value : Value) : value.standardized.atom = value.atom := by
  unfold standardized
  split <;> rfl

@[simp] theorem standardized_standardized (value : Value) :
    value.standardized.standardized = value.standardized := by
  unfold standardized
  split <;> split <;> first | rfl | simp_all

theorem InTier.standardized_eq (inside : value.InTier own) : value.standardized = value := by
  cases inside <;> rfl

theorem isLiteral_standardized (isLiteral : value.isLiteral = true) :
    value.standardized.isLiteral = true := by
  unfold standardized
  split <;> first | rfl | exact isLiteral

/-- The number of a literal has a standard representation. -/
theorem inTier_standardized (isLiteral : value.isLiteral = true) (number : value.tier? = some own) :
    value.standardized.InTier own := by
  refine inTier_of_tier? ?_ ((tier?_standardized value).trans number)
  cases value with
  | boolean | integer | ratio | double | complex | text => rfl
  | scalar scalar => cases scalar <;> rfl
  | _ => cases isLiteral

theorem standardized_of_none (none : value.tier? = none) : value.standardized = value := by
  cases value with
  | scalar scalar =>
      cases scalar with
      | word | double | complexDouble => cases none
      | _ => rfl
  | _ => rfl

/-- A scalar converts as the number that it holds, but complex numbers are never cut. -/
theorem toTier_standardized (number : value.tier? = some own)
    (kept : own.isComplex = true → tier.isComplex = true) :
    value.standardized.toTier tier = value.toTier tier := by
  cases value with
  | scalar scalar =>
      cases scalar with
      | word word =>
          have toDouble : (Value.integer word.value).toDouble = .ok (Double.ofInt word.value) :=
            congrArg (orFault · Fault.overflow) (Double.ofInt?_bounded word.natAbs_le)
          have toNarrow (storage : Storage) : (Value.integer word.value).toNarrow storage =
              .ok (.scalar ((Scalar.double (Double.ofInt word.value)).convert storage)) := by
            change (Value.integer word.value).toDouble >>= _ = _
            rw [toDouble]
            rfl
          cases tier with
          | float16 => exact toNarrow .half
          | float32 => exact toNarrow .single
          | complex64 => exact toNarrow .complexSingle
          | float64 => exact congrArg (Except.map Value.double) toDouble
          | _ => rfl
      | double number => cases tier <;> rfl
      | complexDouble number =>
          cases number
          cases tier with
          | complex64 | complex128 => rfl
          | _ => cases kept rfl
      | _ => rfl
  | _ => rfl

/-- Exact scalars are words. -/
theorem toInteger_standardized (number : value.tier? = some own) (isExact : own.isExact = true) :
    value.standardized.toInteger = value.toInteger := by
  cases value with
  | scalar scalar =>
      cases scalar with
      | double | complexDouble =>
          cases number
          cases isExact
      | _ => rfl
  | _ => rfl

theorem toRat_standardized (number : value.tier? = some own) (isExact : own.isExact = true) :
    value.standardized.toRat = value.toRat := by
  cases value with
  | scalar scalar =>
      cases scalar with
      | double | complexDouble =>
          cases number
          cases isExact
      | _ => rfl
  | _ => rfl

end Value

namespace Generic

variable {operation : Operation} {first second value base exponent result : Value}

/-- A generic operation takes scalars as the numbers that they hold. -/
theorem binary_standardized (operation : Operation) (first second : Value) :
    binary operation first.standardized second.standardized = binary operation first second := by
  cases leftTier : first.tier? with
  | none =>
      rw [Value.standardized_of_none leftTier]
      simp only [binary, tier, leftTier]
      rfl
  | some left =>
      cases rightTier : second.tier? with
      | none =>
          rw [Value.standardized_of_none rightTier]
          simp only [binary, tier, Value.tier?_standardized, leftTier, rightTier]
          rfl
      | some right =>
          have kept : (Tier.chosen operation (left.combine right)).isComplex =
              (left.isComplex || right.isComplex) := by
            rw [← Tier.isComplex_combine]
            unfold Tier.chosen
            split
            · rename_i both
              rw [both.2]
              rfl
            · rfl
          have leftConverted := @Value.toTier_standardized first left
            (Tier.chosen operation (left.combine right)) leftTier (by rw [kept]; simp +contextual)
          have rightConverted := @Value.toTier_standardized second right
            (Tier.chosen operation (left.combine right)) rightTier (by rw [kept]; simp +contextual)
          simp only [binary, tier, Value.tier?_standardized, leftTier, rightTier, orFault]
          change (if !(Tier.chosen operation (left.combine right)).offers operation then _ else
            first.standardized.toTier (Tier.chosen operation (left.combine right)) >>= fun leftValue =>
              second.standardized.toTier (Tier.chosen operation (left.combine right)) >>= _) = _
          rw [leftConverted, rightConverted]
          rfl

theorem unary_standardized (operation : Operation) (value : Value) :
    unary operation value.standardized = unary operation value := by
  cases number : value.tier? with
  | none => rw [Value.standardized_of_none number]
  | some own =>
      have converted := @Value.toTier_standardized value own (Tier.unaryChosen operation own) number
        (by cases own <;> cases operation <;> decide)
      simp only [unary, tier, Value.tier?_standardized, number, orFault]
      change value.standardized.toTier (Tier.unaryChosen operation own) >>= _ = _
      rw [converted]
      rfl

theorem fold_standardized (operation : Operation) (first : Value) (values : List Value) :
    fold operation first (values.map Value.standardized) = fold operation first values := by
  induction values generalizing first with
  | nil => rfl
  | cons second rest inductionHypothesis =>
      rw [List.map_cons, fold_cons, fold_cons, ← binary_standardized operation first second,
        ← binary_standardized operation first second.standardized, Value.standardized_standardized]
      exact bind_congr fun result => inductionHypothesis result

/-- Generic arithmetic takes scalars as the numbers that they hold. -/
theorem arithmetic_standardized (operation : Operation) (values : List Value) :
    arithmetic operation (values.map Value.standardized) = arithmetic operation values := by
  have chained (first second : Value) (rest : List Value) :
      fold operation first.standardized ((second :: rest).map Value.standardized) =
        fold operation first (second :: rest) := by
    rw [fold_standardized, fold_cons, fold_cons, ← binary_standardized operation first second,
      ← binary_standardized operation first.standardized second, Value.standardized_standardized]
  cases operation with
  | add => exact fold_standardized .add (.integer 0) values
  | mul => exact fold_standardized .mul (.integer 1) values
  | sub =>
      match values with
      | [] => rfl
      | [value] => exact unary_standardized .neg value
      | first :: second :: rest => exact chained first second rest
  | div =>
      match values with
      | [] => rfl
      | [value] => exact binary_standardized .div (.integer 1) value
      | first :: second :: rest => exact chained first second rest
  | _ => rfl

/-- The steps of an exact power. -/
theorem power_exactly {left : Tier} (leftTier : base.tier? = some left)
    (isExact : left.isExact = true) (rightTier : exponent.tier? = some .integer) :
    power base exponent = exponent.toInteger >>= fun count =>
      if left = .integer ∧ 0 ≤ count then
        base.toInteger >>= fun whole => Tier.Exact.integerPower (.integer whole) (.integer count)
      else Tier.Rational.power base (.integer count) := by
  simp only [power, tier, leftTier, rightTier, orFault]
  change (if left.isExact && decide (Tier.integer = .integer) then _ else _) = _
  rw [isExact]
  rfl

/-- The steps of any other power. -/
theorem power_inexactly {left right : Tier} (leftTier : base.tier? = some left)
    (rightTier : exponent.tier? = some right)
    (inexact : (left.isExact && decide (right = .integer)) = false) :
    power base exponent = base.toTier (powerTier (left.combine right)) >>= fun baseValue =>
      exponent.toTier (powerTier (left.combine right)) >>= fun exponentValue =>
        (powerTier (left.combine right)).binary .expt baseValue exponentValue := by
  simp only [power, tier, leftTier, rightTier, orFault]
  change (if left.isExact && decide (right = .integer) then _ else _) = _
  rw [inexact]
  rfl

/-- A power takes scalars as the numbers that they hold. -/
theorem power_standardized (base exponent : Value) :
    power base.standardized exponent.standardized = power base exponent := by
  cases leftTier : base.tier? with
  | none =>
      rw [Value.standardized_of_none leftTier]
      simp only [power, tier, leftTier]
      rfl
  | some left =>
      cases rightTier : exponent.tier? with
      | none =>
          rw [Value.standardized_of_none rightTier]
          simp only [power, tier, Value.tier?_standardized, leftTier, rightTier]
          rfl
      | some right =>
          have leftSame := (Value.tier?_standardized base).trans leftTier
          have rightSame := (Value.tier?_standardized exponent).trans rightTier
          cases exact : left.isExact && decide (right = .integer) with
          | true =>
              rw [Bool.and_eq_true, decide_eq_true_eq] at exact
              obtain ⟨isExact, rfl⟩ := exact
              rw [power_exactly leftSame isExact rightSame, power_exactly leftTier isExact rightTier,
                Value.toInteger_standardized rightTier rfl,
                Value.toInteger_standardized leftTier isExact]
              simp only [Tier.Rational.power, Value.toRat_standardized leftTier isExact]
          | false =>
              have kept : (powerTier (left.combine right)).isComplex =
                  (left.isComplex || right.isComplex) := by
                rw [← Tier.isComplex_combine]
                cases left.combine right <;> rfl
              rw [power_inexactly leftSame rightSame exact, power_inexactly leftTier rightTier exact,
                Value.toTier_standardized leftTier (by rw [kept]; simp +contextual),
                Value.toTier_standardized rightTier (by rw [kept]; simp +contextual)]

/-- A conversion takes a scalar as the number that it holds. -/
theorem coerce_standardized {target : Tier} (computed : coerce target [value] = .ok result) :
    coerce target [value.standardized] = .ok result := by
  obtain ⟨source, ownTier, computed⟩ := exists_of_bind computed
  have number := eq_some_of_orFault ownTier
  split at computed
  · cases computed
  rename_i real
  simp only [coerce, tier, Value.tier?_standardized, number, orFault]
  change (if source.isComplex && !target.isComplex then _ else
    value.standardized.toTier target) = _
  rw [if_neg real, Value.toTier_standardized number ?_]
  · exact computed
  · simpa using real

end Generic

end Narrowing
