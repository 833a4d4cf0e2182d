import Narrowing.Proofs.NarrowerArithmetic

/-
This file orders the types of powers by the types of their bases and exponents.
-/

namespace Narrowing

namespace Inference

open Ntype Plan

variable {base exponent wideBase wideExponent wide : Ntype} {types others : List Ntype}
  {value : Value} {tier : Tier}

/-- The call to which the rule of a power rewrites it. -/
inductive PowerCase (base exponent : Ntype) (call : Option Ntype) : Prop
  | square (two : exponent = .singleton (.integer 2)) (same : call = some (pair .mul base base))
  | first (one : exponent = .singleton (.integer 1)) (same : call = some base)
  | exact (exact : Engine.isExactPower (.ofType base) (.ofType exponent) = true)
      (same : call = some (tierCall (Engine.powerTier (.ofType base) (.ofType exponent)) .expt
        [base, exponent]))
  | inexact (inexact : Engine.isExactPower (.ofType base) (.ofType exponent) = false)
      (same : call = binaryCall .expt true base exponent)

theorem powerCase (base : Ntype) (proper : exponent.IsProper) :
    PowerCase base exponent (powerCall base exponent) := by
  unfold powerCall
  split
  · rename_i literal
    exact .square (proper.eq_of_isInteger literal) rfl
  split
  · rename_i literal
    exact .first (proper.eq_of_isInteger literal) rfl
  split
  · rename_i exact
    exact .exact exact rfl
  · rename_i inexact
    exact .inexact (Bool.eq_false_iff.mpr inexact) rfl

theorem powerCall_two (base : Ntype) :
    powerCall base (.singleton (.integer 2)) = some (pair .mul base base) := rfl

theorem powerCall_one (base : Ntype) : powerCall base (.singleton (.integer 1)) = some base := rfl

/-- Squares of numbers of a tier stay in it. -/
theorem square_in_tier (narrows : Narrows base tier.ntype) :
    Narrows (pair .mul base base) tier.ntype := by
  have each : ∀ tier ∈ Tier.all, (pair .mul tier.ntype tier.ntype).proves tier.ntype = true := by
    decide +kernel
  have squares := @pair_monotone .mul _ _ _ _ rfl narrows narrows
  exact squares.trans ⟨each tier tier.mem_all, squares.outerProper, isProper_tier tier⟩

/-- Powers of numbers that meet in a tier may be any numbers of this tier. -/
theorem tier_proves_power (tier : Tier) :
    tier.ntype.proves
      (Library.tierValues (binaryTier .expt true tier) .expt).primary = true := by
  have each : ∀ tier ∈ Tier.all, tier.ntype.proves
      (Library.tierValues (binaryTier .expt true tier) .expt).primary = true := by decide +kernel
  exact each tier tier.mem_all

theorem binaryTier_power (tier : Tier) : binaryTier .expt true tier = Generic.powerTier tier := by
  cases tier <;> rfl

/-- The tier of an exact power computes nothing on literals that have no power. -/
theorem power_steady (baseProper : base.IsProper) (exponentProper : exponent.IsProper)
    (exact : Engine.isExactPower (.ofType base) (.ofType exponent) = true)
    (stays : ∀ value, ¬FoldsTo Generic.expt [base, exponent] value) (value : Value) :
    ¬FoldsTo ((Engine.powerTier (.ofType base) (.ofType exponent)).compute .expt) [base, exponent]
      value := by
  intro folds
  obtain ⟨left, right, baseConstant, exponentConstant, computed⟩ := folds.pair
  rw [Engine.isExactPower, Bool.and_eq_true] at exact
  obtain ⟨integral, rational⟩ := exact
  obtain ⟨leftTier, leftNumber⟩ :=
    exists_tier_of_constant (proves_number_of_tier rational) baseConstant
  obtain ⟨rightTier, rightNumber⟩ :=
    exists_tier_of_constant (proves_number_of_tier integral) exponentConstant
  have leftLiteral := baseProper.isLiteral baseConstant leftNumber
  have rightLiteral := exponentProper.isLiteral exponentConstant rightNumber
  have rightInside := contains_constant exponentConstant rightLiteral
  have leftExact : leftTier.isExact = true := by
    rcases contains_tier.mp (contains_of_proves rational (contains_constant baseConstant
      leftLiteral)) with same | ⟨_, same⟩ <;> cases leftNumber.symm.trans same <;> rfl
  have rightIntegral : right.tier? = some .integer := by
    rcases contains_tier.mp (contains_of_proves integral rightInside) with same | ⟨impossible, _⟩
    · exact same
    · cases impossible
  have positive : Engine.powerTier (.ofType base) (.ofType exponent) = .integer →
      ∀ count : Int, right.standardized.exactNumber? = some (count : Rat) → 0 ≤ count := by
    intro isInteger count counted
    unfold Engine.powerTier at isInteger
    split at isInteger
    · rename_i proven
      rw [Bool.and_eq_true] at proven
      refine natural_of_contains ?_ counted
      have inside := contains_of_proves proven.2 rightInside
      change (Primitive.integers .unsigned64).atoms.contains right.standardized.atom = true
      rw [Value.atom_standardized]
      exact inside
    · cases isInteger
  obtain ⟨result, powered⟩ := Generic.exists_power (Engine.powerTier_isExact _ _) leftLiteral
    leftNumber leftExact rightLiteral rightIntegral positive computed
  exact stays result (foldsTo_pair baseConstant exponentConstant powered)

theorem isExactPower_standardized (base exponent : Ntype) :
    Engine.isExactPower (.ofType base.standardized) (.ofType exponent.standardized) =
      Engine.isExactPower (.ofType base) (.ofType exponent) :=
  congrArg₂ and (standardized_proves exponent _) (standardized_proves base _)

theorem powerTier_standardized (base exponent : Ntype) :
    Engine.powerTier (.ofType base.standardized) (.ofType exponent.standardized) =
      Engine.powerTier (.ofType base) (.ofType exponent) :=
  congrArg (fun natural : Bool => if natural then Tier.integer else .rational)
    (congrArg₂ and (standardized_proves base _) (standardized_proves exponent _))

theorem not_foldsTo_of_varied {implementation : Implementation}
    (varied : base.constant? = none ∨ exponent.constant? = none) (value : Value) :
    ¬FoldsTo implementation [base, exponent] value := by
  rintro ⟨literals, found, _⟩
  cases found.symm.trans (literals?_pair_varied varied)

/-- An exact power that does not run early is a number of its tier. -/
theorem exactPower_of_stays (stays : ∀ value,
    ¬FoldsTo ((Engine.powerTier (.ofType base) (.ofType exponent)).compute .expt) [base, exponent]
      value) :
    tierCall (Engine.powerTier (.ofType base) (.ofType exponent)) .expt [base, exponent] =
      (Engine.powerTier (.ofType base) (.ofType exponent)).ntype := by
  rw [tierCall_of_stays stays]
  exact Narrowing.tierValues_primary (Engine.powerTier_isExact _ _)

/-- The rule of a power of types that are not both known covers the power. -/
theorem power_covers (exponentProper : exponent.IsProper) (baseProper : base.IsProper)
    (baseNumber : base.proves .number = true) (exponentNumber : exponent.proves .number = true)
    (varied : base.constant? = none ∨ exponent.constant? = none)
    (called : powerCall base exponent = some wide) :
    Engine.Covers Generic.expt [.ofType base.standardized, .ofType exponent.standardized]
      (.ofType wide) := by
  rcases powerCase base exponentProper with ⟨two, same⟩ | ⟨one, same⟩ | ⟨exact, same⟩ | ⟨_, same⟩
  · subst two
    have absent := varied.resolve_right (Option.some_ne_none _)
    cases called.symm.trans same
    exact Engine.covers_square rfl
      (pair_joins rfl baseProper baseProper baseNumber baseNumber (.inl absent))
  · subst one
    have absent := varied.resolve_right (Option.some_ne_none _)
    cases called.symm.trans same
    rw [standardized_of_varied absent]
    exact Engine.covers_firstPower rfl absent
  · cases called.symm.trans same
    rw [← isExactPower_standardized] at exact
    refine Engine.covers_exactPower exact ?_
    rw [powerTier_standardized]
    exact exactPower_of_stays (not_foldsTo_of_varied varied)
  · rw [called] at same
    obtain ⟨met, found, _, rfl⟩ := binaryCall_of_varied varied same.symm
    have metFound : Engine.metTier? (.ofType base.standardized)
        (.ofType exponent.standardized) = some met := by
      change (base.standardized.contagion exponent.standardized).ntype.tier? = some met
      rwa [contagion_standardized]
    rw [binaryTier_power]
    exact Engine.covers_inexactPower ((standardized_proves base _).trans baseNumber)
      ((standardized_proves exponent _).trans exponentNumber) metFound rfl

/-- The power of numbers that are known, if there is one, is a number. -/
theorem exists_of_power (baseProper : base.IsProper) (exponentProper : exponent.IsProper)
    (folds : FoldsTo Generic.expt [base, exponent] value) :
    ∃ left right, base.constant? = some left ∧ exponent.constant? = some right ∧
      (∃ own, left.tier? = some own) ∧ (∃ own, right.tier? = some own) ∧
        Generic.expt [left.standardized, right.standardized] = .ok value ∧
          (∃ own, value.InTier own) ∧ value.isReduced = true := by
  obtain ⟨left, right, baseConstant, exponentConstant, computed⟩ := folds.pair
  obtain ⟨leftTier, found, rest⟩ := exists_of_bind computed
  have leftNumber := eq_some_of_orFault found
  obtain ⟨rightTier, found, _⟩ := exists_of_bind rest
  have rightNumber := eq_some_of_orFault found
  have restarted : Generic.power left.standardized right.standardized = .ok value :=
    (Generic.power_standardized left right).trans computed
  exact ⟨left, right, baseConstant, exponentConstant, ⟨leftTier, leftNumber⟩,
    ⟨rightTier, rightNumber⟩, restarted, Generic.power_inTier
      (Value.inTier_standardized (baseProper.isLiteral baseConstant leftNumber) leftNumber)
      (Value.inTier_standardized (exponentProper.isLiteral exponentConstant rightNumber) rightNumber)
      restarted⟩

theorem power_pair (base exponent : Ntype) :
    power [base, exponent] = folded Generic.expt [base, exponent]
      ((whenNumbers [base, exponent] (powerCall base exponent)).getD .number) := rfl

theorem powerTier_narrows (base exponent : Ntype) :
    Narrows (Engine.powerTier (.ofType base) (.ofType exponent)).ntype .number :=
  ⟨Ntype.proves_number_of_tier (proves_refl _ trivial), isProper_tier _, isProper_number⟩

theorem steady_inexact : Steady .expt true base exponent := by
  intro met _ isExact
  rw [binaryTier_power, Generic.powerTier_inexact] at isExact
  cases isExact

/-- The call to which a power of numbers is rewritten is a number. -/
theorem powerCall_bounded (baseProper : base.IsProper) (exponentProper : exponent.IsProper)
    (baseNumber : base.proves .number = true)
    (stays : ∀ value, ¬FoldsTo Generic.expt [base, exponent] value)
    (called : powerCall base exponent = some wide) : Narrows wide .number := by
  rcases powerCase base exponentProper with ⟨_, same⟩ | ⟨_, same⟩ | ⟨exact, same⟩ | ⟨_, same⟩
  · cases called.symm.trans same
    exact pair_bounded rfl baseProper baseProper
  · cases called.symm.trans same
    exact ⟨baseNumber, baseProper, isProper_number⟩
  · cases called.symm.trans same
    rw [exactPower_of_stays (power_steady baseProper exponentProper exact stays)]
    exact powerTier_narrows base exponent
  · rw [called] at same
    exact binaryCall_bounded rfl baseProper exponentProper steady_inexact same.symm

/-- A power is a number. -/
theorem power_bounded (baseProper : base.IsProper) (exponentProper : exponent.IsProper) :
    Narrows (power [base, exponent]) .number := by
  rw [power_pair]
  rcases folded_cases Generic.expt [base, exponent]
    ((whenNumbers [base, exponent] (powerCall base exponent)).getD .number)
    with ⟨value, folds, same⟩ | ⟨stays, same⟩
  · rw [same]
    obtain ⟨_, _, _, _, _, _, _, ⟨own, inside⟩, reduced⟩ :=
      exists_of_power baseProper exponentProper folds
    exact narrows_number inside reduced
  · rw [same]
    cases numbers : base.proves .number && exponent.proves .number with
    | false =>
        rw [whenNumbers_of_others numbers]
        exact isProper_number.refl
    | true =>
        rw [Bool.and_eq_true] at numbers
        rw [whenNumbers_of_numbers numbers.1 numbers.2]
        cases called : powerCall base exponent with
        | none => exact isProper_number.refl
        | some call => exact powerCall_bounded baseProper exponentProper numbers.1 stays called

/-- The type of a power that is not known holds the powers of narrower literals. -/
theorem power_of_folds (baseNarrows : Narrows base wideBase)
    (exponentNarrows : Narrows exponent wideExponent) (baseNumber : wideBase.proves .number = true)
    (exponentNumber : wideExponent.proves .number = true)
    (varied : wideBase.constant? = none ∨ wideExponent.constant? = none)
    (folds : FoldsTo Generic.expt [base, exponent] value) :
    Narrows (.ofConstant value) ((powerCall wideBase wideExponent).getD .number) := by
  obtain ⟨left, right, baseConstant, exponentConstant, ⟨_, leftNumber⟩, ⟨_, rightNumber⟩, computed,
    ⟨own, inside⟩, reduced⟩ :=
    exists_of_power baseNarrows.innerProper exponentNarrows.innerProper folds
  cases called : powerCall wideBase wideExponent with
  | none => exact narrows_number inside reduced
  | some wide =>
      have stays := @not_foldsTo_of_varied wideBase wideExponent Generic.expt varied
      have bounded := powerCall_bounded baseNarrows.outerProper exponentNarrows.outerProper
        baseNumber stays called
      have covers := power_covers exponentNarrows.outerProper baseNarrows.outerProper baseNumber
        exponentNumber varied called
      have admits := covers [left.standardized, right.standardized] value
        (.cons (baseNarrows.admits baseConstant leftNumber)
          (.cons (exponentNarrows.admits exponentConstant rightNumber) .nil)) computed
      exact narrows_ofConstant inside.isLiteral (Value.isBroken_of_reduced reduced) admits.1
        bounded.innerProper

/-- An exact base with an integral exponent meets it in an exact tier. -/
theorem isExact_of_met (baseProper : base.IsProper) (exponentProper : exponent.IsProper)
    (exact : Engine.isExactPower (.ofType base) (.ofType exponent) = true)
    (found : (base.contagion exponent).ntype.tier? = some tier) : tier.isExact = true := by
  rw [Engine.isExactPower, Bool.and_eq_true] at exact
  have baseNarrows : Narrows base Tier.rational.ntype :=
    ⟨exact.2, baseProper, isProper_tier .rational⟩
  have exponentNarrows : Narrows exponent Tier.integer.ntype :=
    ⟨exact.1, exponentProper, isProper_tier .integer⟩
  have met : (Tier.rational.ntype.contagion Tier.integer.ntype).ntype.tier? = some .rational := by
    decide +kernel
  obtain ⟨narrower, same, covers⟩ := baseNarrows.exists_met exponentNarrows rfl rfl met
  cases found.symm.trans same
  exact Tier.exact_of_covers rfl covers

section Monotone

variable (baseNarrows : Narrows base wideBase) (exponentNarrows : Narrows exponent wideExponent)

include baseNarrows exponentNarrows

/-- Exact powers stay exact, and they stay whole, for narrower operands. -/
theorem powerTier_monotone
    (exact : Engine.isExactPower (.ofType wideBase) (.ofType wideExponent) = true) :
    Engine.isExactPower (.ofType base) (.ofType exponent) = true ∧
      Narrows base (Engine.powerTier (.ofType wideBase) (.ofType wideExponent)).ntype ∧
        Narrows (Engine.powerTier (.ofType base) (.ofType exponent)).ntype
          (Engine.powerTier (.ofType wideBase) (.ofType wideExponent)).ntype := by
  rw [Engine.isExactPower, Bool.and_eq_true] at exact ⊢
  obtain ⟨integral, rational⟩ := exact
  refine ⟨⟨exponentNarrows.proves integral, baseNarrows.proves rational⟩, ?_⟩
  have fromInteger : Narrows Tier.integer.ntype Tier.rational.ntype :=
    ⟨by decide, isProper_tier _, isProper_tier _⟩
  cases natural : wideBase.proves Tier.integer.ntype && wideExponent.proves Rule.naturalExponent with
  | true =>
      have wideTier : Engine.powerTier (.ofType wideBase) (.ofType wideExponent) = .integer :=
        if_pos natural
      rw [Bool.and_eq_true] at natural
      have inside : base.proves Tier.integer.ntype = true := baseNarrows.proves natural.1
      have tier : Engine.powerTier (.ofType base) (.ofType exponent) = .integer :=
        if_pos (Bool.and_eq_true_iff.mpr ⟨inside, exponentNarrows.proves natural.2⟩)
      rw [wideTier, tier]
      exact ⟨⟨inside, baseNarrows.innerProper, isProper_tier _⟩, (isProper_tier _).refl⟩
  | false =>
      have wideTier : Engine.powerTier (.ofType wideBase) (.ofType wideExponent) = .rational :=
        if_neg (Bool.eq_false_iff.mp natural)
      rw [wideTier]
      refine ⟨⟨baseNarrows.proves rational, baseNarrows.innerProper, isProper_tier _⟩, ?_⟩
      unfold Engine.powerTier
      split
      · exact fromInteger
      · exact (isProper_tier _).refl

/-- Narrower operands of an exact power have a power in its tier. -/
theorem exactPower_monotone (stays : ∀ value, ¬FoldsTo Generic.expt [base, exponent] value)
    (exact : Engine.isExactPower (.ofType wideBase) (.ofType wideExponent) = true) :
    ∃ call, powerCall base exponent = some call ∧
      Narrows call (Engine.powerTier (.ofType wideBase) (.ofType wideExponent)).ntype := by
  obtain ⟨innerExact, inTier, tiers⟩ := powerTier_monotone baseNarrows exponentNarrows exact
  have baseProper := baseNarrows.innerProper
  have exponentProper := exponentNarrows.innerProper
  rcases powerCase base exponentProper with ⟨_, same⟩ | ⟨_, same⟩ | ⟨exact, same⟩ | ⟨inexact, _⟩
  · exact ⟨_, same, square_in_tier inTier⟩
  · exact ⟨_, same, inTier⟩
  · refine ⟨_, same, ?_⟩
    rwa [exactPower_of_stays (power_steady baseProper exponentProper exact stays)]
  · cases innerExact.symm.trans inexact

/-- Narrower operands of an inexact power have a power with fewer values. -/
theorem inexactPower_monotone (baseNumber : wideBase.proves .number = true)
    (exponentNumber : wideExponent.proves .number = true)
    (varied : wideBase.constant? = none ∨ wideExponent.constant? = none)
    (stays : ∀ value, ¬FoldsTo Generic.expt [base, exponent] value)
    (called : binaryCall .expt true wideBase wideExponent = some wide) :
    ∃ call, powerCall base exponent = some call ∧ Narrows call wide := by
  have baseProper := baseNarrows.innerProper
  have exponentProper := exponentNarrows.innerProper
  obtain ⟨met, found, _, rfl⟩ := binaryCall_of_varied varied called
  obtain ⟨narrower, narrowerFound, covers⟩ :=
    baseNarrows.exists_met exponentNarrows baseNumber exponentNumber found
  have declared : Narrows (Library.tierValues (binaryTier .expt true narrower) .expt).primary
      (Library.tierValues (binaryTier .expt true met) .expt).primary :=
    ⟨(Library.tierValues_binary .expt true covers).1, isProper_tierValues _ _,
      isProper_tierValues _ _⟩
  have holds : Narrows narrower.ntype
      (Library.tierValues (binaryTier .expt true narrower) .expt).primary :=
    ⟨tier_proves_power narrower, isProper_tier _, isProper_tierValues _ _⟩
  have inTier {number : Int} (literal : exponent = .singleton (.integer number)) :
      Narrows base narrower.ntype := by
    subst literal
    exact ⟨proves_of_met_integer (baseNarrows.proves baseNumber) narrowerFound (cover_integer _)
      (atom_integer _), baseProper, isProper_tier _⟩
  rcases powerCase base exponentProper with ⟨two, same⟩ | ⟨one, same⟩ | ⟨exact, same⟩ | ⟨_, same⟩
  · exact ⟨_, same, ((square_in_tier (inTier two)).trans holds).trans declared⟩
  · exact ⟨_, same, ((inTier one).trans holds).trans declared⟩
  · -- Operands that meet in an exact tier have all numbers for inexact powers.
    have wideNumber : Ntype.number.proves
        (Library.tierValues (binaryTier .expt true narrower) .expt).primary = true := by
      rw [binaryTier_power, Generic.powerTier,
        if_pos (isExact_of_met baseProper exponentProper exact narrowerFound)]
      decide
    refine ⟨_, same, ?_⟩
    rw [exactPower_of_stays (power_steady baseProper exponentProper exact stays)]
    exact ((powerTier_narrows base exponent).trans
      ⟨wideNumber, isProper_number, isProper_tierValues _ _⟩).trans declared
  · rw [same]
    exact binaryCall_monotone baseNarrows exponentNarrows baseNumber exponentNumber varied
      steady_inexact called

/-- Powers of narrower operands are rewritten to narrower calls. -/
theorem powerCall_monotone (baseNumber : wideBase.proves .number = true)
    (exponentNumber : wideExponent.proves .number = true)
    (varied : wideBase.constant? = none ∨ wideExponent.constant? = none)
    (stays : ∀ value, ¬FoldsTo Generic.expt [base, exponent] value)
    (called : powerCall wideBase wideExponent = some wide) :
    ∃ call, powerCall base exponent = some call ∧ Narrows call wide := by
  -- An exponent of two or one is the same for the narrower operands; all other cases may change.
  rcases powerCase wideBase exponentNarrows.outerProper with
    ⟨two, same⟩ | ⟨one, same⟩ | ⟨exact, same⟩ | ⟨_, same⟩ <;> rw [called] at same
  · subst two
    rw [exponentNarrows.eq_of_constant rfl rfl]
    cases same
    exact ⟨_, powerCall_two base, pair_monotone rfl baseNarrows baseNarrows⟩
  · subst one
    rw [exponentNarrows.eq_of_constant rfl rfl]
    cases same
    exact ⟨_, powerCall_one base, baseNarrows⟩
  · cases same
    rw [exactPower_of_stays (not_foldsTo_of_varied varied)]
    exact exactPower_monotone baseNarrows exponentNarrows stays exact
  · exact inexactPower_monotone baseNarrows exponentNarrows baseNumber exponentNumber varied stays
      same.symm

end Monotone

/-- A power of narrower operands has a narrower type. -/
theorem power_monotone (narrows : List.Forall₂ Narrows types others) :
    Narrows (power types) (power others) := by
  rcases narrows with _ | ⟨baseNarrows, _ | ⟨exponentNarrows, _ | _⟩⟩
  · exact isProper_number.refl
  · exact isProper_number.refl
  · rename_i base wideBase exponent wideExponent
    have bounded := power_bounded baseNarrows.innerProper exponentNarrows.innerProper
    rw [power_pair wideBase]
    cases numbers : wideBase.proves .number && wideExponent.proves .number with
    | false =>
        have pairs : ∀ left right result, Generic.expt [left, right] = .ok result →
            left.tier?.isSome = true ∧ right.tier?.isSome = true := by
          intro left right result computed
          obtain ⟨leftTier, found, rest⟩ := exists_of_bind computed
          obtain ⟨rightTier, again, _⟩ := exists_of_bind rest
          rw [eq_some_of_orFault found, eq_some_of_orFault again]
          exact ⟨rfl, rfl⟩
        rwa [folded_of_others pairs numbers, whenNumbers_of_others numbers]
    | true =>
        rw [Bool.and_eq_true] at numbers
        rcases eq_or_varied baseNarrows exponentNarrows numbers.1 numbers.2 with
          ⟨rfl, rfl⟩ | varied
        · exact bounded.innerProper.refl
        · rw [folded_of_none (literals?_pair_varied varied),
            whenNumbers_of_numbers numbers.1 numbers.2]
          rcases folded_cases Generic.expt [base, exponent]
            ((whenNumbers [base, exponent] (powerCall base exponent)).getD .number)
            with ⟨value, folds, same⟩ | ⟨stays, same⟩
          · rw [power_pair, same]
            exact power_of_folds baseNarrows exponentNarrows numbers.1 numbers.2 varied folds
          · cases called : powerCall wideBase wideExponent with
            | none => exact bounded
            | some wide =>
                obtain ⟨call, made, callNarrows⟩ := powerCall_monotone baseNarrows exponentNarrows
                  numbers.1 numbers.2 varied stays called
                rw [power_pair, same, whenNumbers_of_numbers (baseNarrows.proves numbers.1)
                  (exponentNarrows.proves numbers.2), made]
                exact callNarrows
  · exact isProper_number.refl

end Inference

end Narrowing
