import Narrowing.Proofs.GenericFunctions

/-
This file finds the results of generic powers of standard values.
-/

namespace Narrowing

namespace Value

variable {base exponent result : Value} {count : Int}

theorem ofInt?_small : ∀ count ∈ [(1 : Int), 2],
    Double.ofInt? count = some (Double.ofInt count) := by decide +kernel

/-- One and two stay whole in every real precision. -/
theorem isIntegral_small : ∀ count ∈ [(1 : Int), 2],
    Double.isIntegral (Double.ofInt count) = true ∧
      Double.isIntegral (Half.ofDouble (Double.ofInt count)).toDouble = true ∧
      Double.isIntegral (Single.toDouble (Single.ofDouble (Double.ofInt count))) = true := by
  decide +kernel

theorem whole_of_toTier {tier : Tier} (small : count ∈ [(1 : Int), 2])
    (inexact : tier.isExact = false) (real : tier.isComplex = false)
    (converted : (Value.integer count).toTier tier = .ok result) :
    ∃ number, result.toDouble = .ok number ∧ Double.isIntegral number = true := by
  have read : (Value.integer count).toDouble = .ok (Double.ofInt count) :=
    congrArg (orFault · Fault.overflow) (ofInt?_small count small)
  have narrow : ∀ storage, (Value.integer count).toNarrow storage =
      .ok (.scalar ((Scalar.double (Double.ofInt count)).convert storage)) := by
    intro storage
    change (Value.integer count).toDouble >>= _ = _
    rw [read]
    rfl
  obtain ⟨double, half, single⟩ := isIntegral_small count small
  cases tier with
  | integer | rational => cases inexact
  | complex64 | complex128 => cases real
  | float16 =>
      cases converted.symm.trans (narrow .half)
      exact ⟨_, rfl, half⟩
  | float32 =>
      cases converted.symm.trans (narrow .single)
      exact ⟨_, rfl, single⟩
  | float64 =>
      change (Value.integer count).toDouble.map _ = _ at converted
      rw [read] at converted
      cases converted
      exact ⟨_, rfl, double⟩

end Value

namespace Generic

variable {base exponent result : Value} {left right : Tier} {number : Rat} {count : Int}

/-- A power of an exact number with a whole exponent is a reduced exact number. -/
theorem exactPower_reduced (baseExact : base.exactNumber? = some number)
    (exponentExact : exponent.exactNumber? = some (count : Rat))
    (computed : power base exponent = .ok result) :
    result.exactNumber? = some (number ^ count) ∧ result.isReduced = true := by
  have defined : ¬(number = 0 ∧ count < 0) := by
    rintro ⟨rfl, negative⟩
    cases computed.symm.trans (power_zero baseExact exponentExact negative)
  obtain ⟨found, succeeded, exact⟩ := power_exact baseExact exponentExact defined
  cases computed.symm.trans succeeded
  refine ⟨exact, ?_⟩
  rw [power_eq baseExact exponentExact] at computed
  split at computed
  · exact Tier.integerPower_reduced computed
  · obtain ⟨exactBase, _, computed⟩ := exists_of_bind computed
    obtain ⟨whole, _, computed⟩ := exists_of_bind computed
    obtain ⟨fraction, _, same⟩ := exists_of_map computed
    rw [← same]
    exact Value.isReduced_ofRat fraction

/-- The tier in which a power computes that is not exact. -/
def powerTier (met : Tier) : Tier := if met.isExact then .float64 else met

theorem powerTier_inexact (met : Tier) : (powerTier met).isExact = false := by
  cases met <;> rfl

/-- A power that is not exact computes in an inexact tier. -/
theorem exists_of_power (baseInside : base.InTier left) (exponentInside : exponent.InTier right)
    (inexact : (left.isExact && decide (right = .integer)) = false)
    (computed : power base exponent = .ok result) :
    ∃ baseValue exponentValue, baseValue.InTier (powerTier (left.combine right)) ∧
      exponentValue.InTier (powerTier (left.combine right)) ∧
      exponent.toTier (powerTier (left.combine right)) = .ok exponentValue ∧
      (powerTier (left.combine right)).binary .expt baseValue exponentValue = .ok result := by
  obtain ⟨own, leftTier, computed⟩ := exists_of_bind computed
  cases (eq_some_of_orFault leftTier).symm.trans baseInside.tier?
  obtain ⟨other, rightTier, computed⟩ := exists_of_bind computed
  cases (eq_some_of_orFault rightTier).symm.trans exponentInside.tier?
  rw [inexact] at computed
  obtain ⟨baseValue, baseConverted, computed⟩ := exists_of_bind computed
  obtain ⟨exponentValue, exponentConverted, computed⟩ := exists_of_bind computed
  change base.toTier (powerTier (left.combine right)) = _ at baseConverted
  change exponent.toTier (powerTier (left.combine right)) = _ at exponentConverted
  obtain ⟨⟨_, baseOwn, baseCovered⟩, _⟩ := Value.toTier_inTier baseInside baseConverted
  obtain ⟨⟨_, exponentOwn, exponentCovered⟩, _⟩ :=
    Value.toTier_inTier exponentInside exponentConverted
  cases Tier.eq_of_covers baseCovered (powerTier_inexact _)
  cases Tier.eq_of_covers exponentCovered (powerTier_inexact _)
  exact ⟨baseValue, exponentValue, baseOwn, exponentOwn, exponentConverted, computed⟩

/-- A power that is not exact has one of the results that its tier declares. -/
theorem power_inexact (baseInside : base.InTier left) (exponentInside : exponent.InTier right)
    (inexact : (left.isExact && decide (right = .integer)) = false)
    (computed : power base exponent = .ok result) :
    (∃ own, result.InTier own ∧ (powerTier (left.combine right)).mayGive .expt own = true) ∧
      result.isReduced = true := by
  obtain ⟨baseValue, exponentValue, baseOwn, exponentOwn, _, computed⟩ :=
    exists_of_power baseInside exponentInside inexact computed
  obtain ⟨own, inside, gives⟩ := Tier.binary_inTier rfl baseOwn exponentOwn (Tier.covers_self _)
    (Tier.covers_self _) computed
  exact ⟨⟨own, inside, gives⟩, Value.isReduced_of_inexact inside
    (Tier.mayGive_inexact (powerTier_inexact _) gives)⟩

/-- All powers of standard numbers are reduced numbers. -/
theorem power_inTier (baseInside : base.InTier left) (exponentInside : exponent.InTier right)
    (computed : power base exponent = .ok result) :
    (∃ own, result.InTier own) ∧ result.isReduced = true := by
  cases exact : left.isExact && decide (right = .integer) with
  | false =>
      obtain ⟨⟨own, inside, _⟩, reduced⟩ :=
        power_inexact baseInside exponentInside exact computed
      exact ⟨⟨own, inside⟩, reduced⟩
  | true =>
      rw [Bool.and_eq_true, decide_eq_true_eq] at exact
      obtain ⟨baseTier, rfl⟩ := exact
      obtain ⟨number, baseExact⟩ := baseInside.exists_exact baseTier
      obtain ⟨fraction, exponentExact⟩ := exponentInside.exists_exact rfl
      have integral := (Value.tier?_integer_iff exponentExact).mp exponentInside.tier?
      rw [← (Rat.den_eq_one_iff fraction).mp integral] at exponentExact
      obtain ⟨powerExact, reduced⟩ := exactPower_reduced baseExact exponentExact computed
      exact ⟨⟨_, Value.inTier_of_exact powerExact⟩, reduced⟩

/-- The first and the second power of an inexact number stay in its tier. -/
theorem smallPower_inTier (baseInside : base.InTier left) (inexact : left.isExact = false)
    (small : count ∈ [(1 : Int), 2]) (computed : power base (.integer count) = .ok result) :
    result.InTier left := by
  have met : left.combine .integer = left := Tier.combine_exact inexact rfl
  have chosen : powerTier (left.combine .integer) = left := by
    rw [met, powerTier, inexact]
    rfl
  obtain ⟨baseValue, exponentValue, baseOwn, exponentOwn, converted, computed⟩ :=
    exists_of_power baseInside (.integer count) (by rw [inexact]; rfl) computed
  rw [chosen] at baseOwn exponentOwn converted computed
  rcases Tier.power_cases inexact baseOwn exponentOwn computed with stays | ⟨⟨real, _⟩, broken⟩
  · exact stays
  · obtain ⟨number, read, whole⟩ := Value.whole_of_toTier small inexact real converted
    cases (broken number read).symm.trans whole

end Generic

end Narrowing
