import Narrowing.Proofs.NarrowerTypes

/-
This file finds the results of the operations of inexact tiers on literals, scalars included.
-/

namespace Narrowing

namespace Value

variable {value : Value} {tier : Tier}

theorem InTier.isLiteral (inside : value.InTier tier) : value.isLiteral = true := by
  cases inside <;> rfl

/-- A literal in double precision has a standard representation or is a scalar. -/
theorem double_cases (isLiteral : value.isLiteral = true) (number : value.tier? = some .float64) :
    (∃ float, value = .double float) ∨ ∃ float, value = .scalar (.double float) := by
  have inside := inTier_standardized isLiteral number
  cases value with
  | double float => exact .inl ⟨float, rfl⟩
  | scalar scalar =>
      cases scalar with
      | double float => exact .inr ⟨float, rfl⟩
      | _ => cases number
  | ratio fraction => cases inside
  | boolean | integer | complex | text => cases number
  | _ => cases isLiteral

theorem complexDouble_cases (isLiteral : value.isLiteral = true)
    (number : value.tier? = some .complex128) :
    (∃ pair, value = .complex pair) ∨ ∃ pair, value = .scalar (.complexDouble pair) := by
  have inside := inTier_standardized isLiteral number
  cases value with
  | complex pair => exact .inl ⟨pair, rfl⟩
  | scalar scalar =>
      cases scalar with
      | complexDouble pair => exact .inr ⟨pair, rfl⟩
      | _ => cases number
  | ratio fraction => cases inside
  | boolean | integer | double | text => cases number
  | _ => cases isLiteral

/-- Literals in narrow tiers have a standard representation. -/
theorem inTier_narrow (isLiteral : value.isLiteral = true) (number : value.tier? = some tier)
    (inexact : tier.isExact = false) (narrow : tier ≠ .float64 ∧ tier ≠ .complex128) :
    value.InTier tier := by
  refine inTier_of_tier? ?_ number
  cases value with
  | scalar scalar =>
      cases scalar with
      | word =>
          cases number
          cases inexact
      | double =>
          cases number
          exact absurd rfl narrow.1
      | complexDouble =>
          cases number
          exact absurd rfl narrow.2
      | _ => rfl
  | boolean | integer | ratio | double | complex | text => rfl
  | _ => cases isLiteral

end Value

namespace Tier

variable {tier : Tier} {operation : Operation} {value first second result : Value}

/-- A literal that an operation of a tier may give. -/
def Gives (tier : Tier) (operation : Operation) (result : Value) : Prop :=
  result.isLiteral = true ∧ ∃ own, result.tier? = some own ∧ tier.mayGive operation own = true

theorem gives_of_inTier
    (gives : ∃ own, result.InTier own ∧ tier.mayGive operation own = true) :
    tier.Gives operation result := by
  obtain ⟨own, inside, gives⟩ := gives
  exact ⟨inside.isLiteral, own, inside.tier?, gives⟩

/-- The declared values of an operation hold the literals that it may give. -/
theorem Gives.contains (computes : operation.isComparison = false)
    (gives : tier.Gives operation result) :
    (Library.tierValues tier operation).primary.contains result = true := by
  obtain ⟨isLiteral, own, number, gives⟩ := gives
  have inside := contains_tierValues computes gives (Value.inTier_standardized isLiteral number)
  cases type : (Library.tierValues tier operation).primary with
  | singleton member =>
      have varied := Library.tierValues_constant? tier operation
      rw [type] at varied
      cases varied
  | primitive primitive =>
      rw [type, Ntype.contains_primitive, Value.atom_standardized] at inside
      exact inside

theorem Gives.isBroken (inexact : tier.isExact = false) (gives : tier.Gives operation result) :
    result.IsBroken := by
  obtain ⟨_, own, number, gives⟩ := gives
  refine Value.isBroken_of_inexact number ?_
  have each : ∀ tier ∈ all, tier.isExact = false → ∀ operation ∈ Operation.all, ∀ own ∈ all,
      tier.mayGive operation own = true → own.isExact = false := by decide +kernel
  exact each tier tier.mem_all inexact operation operation.mem_all own own.mem_all gives

/-- A function of a scalar in double precision. -/
theorem gives_wideUnary {float : Float}
    (computed : Wide.unary operation (.scalar (.double float)) = .ok result) :
    Gives .float64 operation result := by
  cases operation with
  | neg | abs =>
      cases computed
      exact ⟨rfl, .float64, rfl, rfl⟩
  | sqrt =>
      apply gives_of_inTier
      rcases RealFunction.sqrt_inTier computed with real | leaves
      · exact ⟨.float64, real, rfl⟩
      · exact ⟨.complex128, leaves, rfl⟩
  | log =>
      apply gives_of_inTier
      rcases RealFunction.log_inTier computed with real | leaves
      · exact ⟨.float64, real, rfl⟩
      · exact ⟨.complex128, leaves, rfl⟩
  | exp => exact gives_of_inTier ⟨.float64, RealFunction.exp_inTier computed, rfl⟩
  | sin | cos | tan => exact gives_of_inTier ⟨.float64, RealFunction.apply_inTier computed, rfl⟩
  | _ => cases computed

theorem gives_wideComplexUnary {pair : ComplexDouble}
    (computed : Wide.complexUnary operation (.scalar (.complexDouble pair)) = .ok result) :
    Gives .complex128 operation result := by
  cases operation with
  | neg =>
      cases computed
      exact ⟨rfl, .complex128, rfl, rfl⟩
  | abs =>
      cases computed
      exact ⟨rfl, .float64, rfl, rfl⟩
  | sqrt | exp | log | sin | cos | tan =>
      exact gives_of_inTier ⟨.complex128, ComplexFunction.apply_inTier computed, rfl⟩
  | _ => cases computed

/-- An operation of an inexact tier on a literal of the tier. -/
theorem gives_unary (inexact : tier.isExact = false) (isLiteral : value.isLiteral = true)
    (number : value.tier? = some tier) (computed : tier.unary operation value = .ok result) :
    tier.Gives operation result := by
  by_cases standard : value.InTier tier
  · exact gives_of_inTier (unary_inTier standard tier.covers_self computed)
  · cases tier with
    | integer | rational => cases inexact
    | float64 =>
        rcases Value.double_cases isLiteral number with ⟨float, rfl⟩ | ⟨float, rfl⟩
        · exact absurd (.double float) standard
        · exact gives_wideUnary computed
    | complex128 =>
        rcases Value.complexDouble_cases isLiteral number with ⟨pair, rfl⟩ | ⟨pair, rfl⟩
        · exact absurd (.complexDouble pair) standard
        · exact gives_wideComplexUnary computed
    | _ => exact absurd (Value.inTier_narrow isLiteral number rfl (by decide)) standard

/-- An operation of an inexact tier on two literals of the tier. -/
theorem gives_binary (inexact : tier.isExact = false) (computes : operation.isComparison = false)
    (firstLiteral : first.isLiteral = true) (firstNumber : first.tier? = some tier)
    (secondLiteral : second.isLiteral = true) (secondNumber : second.tier? = some tier)
    (computed : tier.binary operation first second = .ok result) :
    tier.Gives operation result := by
  by_cases standard : first.InTier tier ∧ second.InTier tier
  · exact gives_of_inTier (binary_inTier computes standard.1 standard.2 tier.covers_self
      tier.covers_self computed)
  · cases tier with
    | integer | rational => cases inexact
    | float64 =>
        rcases Value.double_cases firstLiteral firstNumber with ⟨left, rfl⟩ | ⟨left, rfl⟩ <;>
          rcases Value.double_cases secondLiteral secondNumber with ⟨right, rfl⟩ | ⟨right, rfl⟩
        · exact absurd ⟨.double left, .double right⟩ standard
        all_goals
          cases operation with
          | add | sub | mul | div | expt =>
              cases computed
              exact ⟨rfl, .float64, rfl, rfl⟩
          | lt | eq => cases computes
          | _ => cases computed
    | complex128 =>
        rcases Value.complexDouble_cases firstLiteral firstNumber with ⟨left, rfl⟩ | ⟨left, rfl⟩ <;>
          rcases Value.complexDouble_cases secondLiteral secondNumber with
            ⟨right, rfl⟩ | ⟨right, rfl⟩
        · exact absurd ⟨.complexDouble left, .complexDouble right⟩ standard
        all_goals
          cases operation with
          | add | sub | mul | div | expt =>
              cases computed
              exact ⟨rfl, .complex128, rfl, rfl⟩
          | lt | eq => cases computes
          | _ => cases computed
    | _ =>
        exact absurd ⟨Value.inTier_narrow firstLiteral firstNumber rfl (by decide),
          Value.inTier_narrow secondLiteral secondNumber rfl (by decide)⟩ standard

/-- An operation of an inexact tier on literals of the tier has a literal of its declared type. -/
theorem contains_of_literals {values : List Value} (inexact : tier.isExact = false)
    (each : ∀ value ∈ values, value.isLiteral = true ∧ value.tier? = some tier)
    (computed : tier.compute operation values = .ok result) :
    (Library.tierValues tier operation).primary.contains result = true ∧
      result.isLiteral = true ∧ result.IsBroken := by
  have finish (computes : operation.isComparison = false) (gives : tier.Gives operation result) :
      (Library.tierValues tier operation).primary.contains result = true ∧
        result.isLiteral = true ∧ result.IsBroken :=
    ⟨gives.contains computes, gives.1, gives.isBroken inexact⟩
  unfold compute at computed
  split at computed
  · rename_i value isUnary
    obtain ⟨isLiteral, number⟩ := each value List.mem_cons_self
    have computes : operation.isComparison = false := by
      cases operation <;> first | rfl | cases isUnary
    exact finish computes (gives_unary inexact isLiteral number computed)
  · rename_i first second _
    obtain ⟨firstLiteral, firstNumber⟩ := each first List.mem_cons_self
    obtain ⟨secondLiteral, secondNumber⟩ := each second (by simp)
    cases compares : operation.isComparison with
    | true =>
        obtain ⟨truth, rfl⟩ := binary_truth compares computed
        exact ⟨contains_tierValues_truth compares tier truth, rfl, nofun⟩
    | false =>
        exact finish compares (gives_binary inexact compares firstLiteral firstNumber secondLiteral
          secondNumber computed)
  · cases computed

end Tier

namespace Generic

variable {operation : Operation} {tier left right : Tier} {value first second base exponent : Value}
  {result : Value}

/-- An exact tier computes nothing that generic arithmetic leaves out. -/
theorem exists_arithmetic (isArithmetic : operation.isArithmetic = true)
    (isExact : tier.isExact = true) (firstLiteral : first.isLiteral = true)
    (firstNumber : first.tier? = some left) (leftExact : left.isExact = true)
    (secondLiteral : second.isLiteral = true) (secondNumber : second.tier? = some right)
    (rightExact : right.isExact = true) (computed : tier.binary operation first second = .ok result) :
    ∃ value, arithmetic operation [first, second] = .ok value := by
  obtain ⟨number, firstExact⟩ :=
    (Value.inTier_standardized firstLiteral firstNumber).exists_exact leftExact
  obtain ⟨other, secondExact⟩ :=
    (Value.inTier_standardized secondLiteral secondNumber).exists_exact rightExact
  have defined : ∃ meant, operation.arithmeticMeaning? [number, other] = some meant := by
    rw [Operation.arithmeticMeaning?_cons isArithmetic]
    cases operation with
    | add | sub | mul => exact ⟨_, rfl⟩
    | div =>
        have nonzero : other ≠ 0 := by
          rintro rfl
          cases tier with
          | rational =>
              obtain ⟨top, _, computed⟩ := exists_of_bind computed
              obtain ⟨bottom, found, computed⟩ := exists_of_bind computed
              rw [← Value.toRat_standardized secondNumber rightExact,
                Value.toRat_exact secondExact] at found
              cases found
              cases computed
          | integer => cases computed
          | _ => cases isExact
        refine ⟨number / other, ?_⟩
        simp only [Operation.foldMeaning?, Operation.meaning?, if_neg nonzero]
    | _ => cases isArithmetic
  obtain ⟨meant, defined⟩ := defined
  have whole := arithmetic_exact isArithmetic (.cons firstExact (.cons secondExact .nil))
  rw [defined] at whole
  obtain ⟨value, found, _⟩ := whole
  exact ⟨value, (arithmetic_standardized operation [first, second]).symm.trans found⟩

/-- Negations and sizes of exact numbers exist. -/
theorem exists_unary (keeps : operation = .abs ∨ operation = .neg)
    (isLiteral : value.isLiteral = true) (number : value.tier? = some left)
    (isExact : left.isExact = true) : ∃ result, unary operation value = .ok result := by
  obtain ⟨fraction, exact⟩ := (Value.inTier_standardized isLiteral number).exists_exact isExact
  have defined : ∃ meant, operation.unaryMeaning? fraction = some meant := by
    rcases keeps with rfl | rfl <;> exact ⟨_, rfl⟩
  obtain ⟨meant, defined⟩ := defined
  obtain ⟨result, computed, _⟩ := unary_exact exact defined
  exact ⟨result, (unary_standardized operation value).symm.trans computed⟩

/-- An exact tier computes no powers that the generic function leaves out. -/
theorem exists_power (isExact : tier.isExact = true) (baseLiteral : base.isLiteral = true)
    (baseNumber : base.tier? = some left) (leftExact : left.isExact = true)
    (exponentLiteral : exponent.isLiteral = true) (exponentNumber : exponent.tier? = some .integer)
    (positive : tier = .integer →
      ∀ count : Int, exponent.standardized.exactNumber? = some (count : Rat) → 0 ≤ count)
    (computed : tier.binary .expt base exponent = .ok result) :
    ∃ value, power base exponent = .ok value := by
  obtain ⟨number, baseExact⟩ :=
    (Value.inTier_standardized baseLiteral baseNumber).exists_exact leftExact
  have exponentInside := Value.inTier_standardized exponentLiteral exponentNumber
  obtain ⟨fraction, exponentExact⟩ := exponentInside.exists_exact rfl
  have integral := (Value.tier?_integer_iff exponentExact).mp exponentInside.tier?
  rw [← (Rat.den_eq_one_iff fraction).mp integral] at exponentExact
  have defined : ¬(number = 0 ∧ fraction.num < 0) := by
    rintro ⟨rfl, negative⟩
    cases tier with
    | integer => exact absurd (positive rfl _ exponentExact) negative.not_ge
    | rational =>
        obtain ⟨zero, found, computed⟩ := exists_of_bind computed
        obtain ⟨count, counted, computed⟩ := exists_of_bind computed
        rw [← Value.toInteger_standardized exponentNumber rfl,
          Value.toInteger_exact exponentExact] at counted
        cases counted
        rw [← Value.toRat_standardized baseNumber leftExact, Value.toRat_exact baseExact] at found
        cases found
        change Value.ofRat <$> PlainNumber.ratioPower 0 fraction.num = _ at computed
        rw [PlainNumber.ratioPower, if_pos ⟨rfl, negative⟩] at computed
        cases computed
    | _ => cases isExact
  obtain ⟨value, found, _⟩ := power_exact baseExact exponentExact defined
  exact ⟨value, (power_standardized base exponent).symm.trans found⟩

end Generic

end Narrowing
