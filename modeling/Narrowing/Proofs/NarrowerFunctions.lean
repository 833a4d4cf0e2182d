import Narrowing.Proofs.NarrowerCalls

/-
This file orders the types of functions of one number, of comparisons and of conversions by the
types of their operands.
-/

namespace Narrowing

namespace Inference

open Ntype Plan

variable {operation : Operation} {implementation : Implementation} {types others : List Ntype}
  {type inner outer top first second : Ntype} {value : Value} {tier own : Tier}

theorem whenNumbers_of_number (isNumber : type.proves .number = true) (answer : Option Ntype) :
    whenNumbers [type] answer = answer := by
  simp only [whenNumbers, List.all_cons, List.all_nil, isNumber, Bool.and_true, if_true]

theorem whenNumbers_of_other (isOther : type.proves .number = false) (answer : Option Ntype) :
    whenNumbers [type] answer = none := by
  simp [whenNumbers, isOther]

theorem whenNumbers_of_numbers (firstNumber : first.proves .number = true)
    (secondNumber : second.proves .number = true) (answer : Option Ntype) :
    whenNumbers [first, second] answer = answer := by
  simp only [whenNumbers, List.all_cons, List.all_nil, firstNumber, secondNumber, Bool.and_true,
    if_true]

theorem whenNumbers_of_others (areOther : (first.proves .number && second.proves .number) = false)
    (answer : Option Ntype) : whenNumbers [first, second] answer = none := by
  simp only [whenNumbers, List.all_cons, List.all_nil, Bool.and_true, areOther, Bool.false_eq_true,
    if_false]

/-- The type of a function of one number, which has some type around all its results. -/
def unaryResult (implementation : Implementation) (operation : Operation) (top type : Ntype) :
    Ntype :=
  folded implementation [type] ((whenNumbers [type] (unaryCall operation type)).getD top)

section Unary

variable (isUnary : operation.isUnary = true)
  (runs : ∀ literal, implementation [literal] = Generic.unary operation literal)

include runs in
/-- What a function makes of a literal, and the tier of the literal. -/
theorem exists_of_unary (proper : type.IsProper) (folds : FoldsTo implementation [type] value) :
    ∃ literal own, type.constant? = some literal ∧ literal.standardized.InTier own ∧
      Generic.unary operation literal.standardized = .ok value := by
  obtain ⟨literal, constant, computed⟩ := folds.single
  rw [runs] at computed
  obtain ⟨own, found, _⟩ := exists_of_bind computed
  have number := eq_some_of_orFault found
  have isLiteral := proper.isLiteral constant number
  exact ⟨literal, own, constant, Value.inTier_standardized isLiteral number,
    (Generic.unary_standardized operation literal).trans computed⟩

include runs in
theorem unaryResult_of_other (proper : type.IsProper) (isOther : type.proves .number = false) :
    unaryResult implementation operation top type = top := by
  unfold unaryResult
  rcases folded_cases implementation [type]
    ((whenNumbers [type] (unaryCall operation type)).getD top) with ⟨value, folds, _⟩ | ⟨_, same⟩
  · obtain ⟨literal, own, constant, inside, _⟩ := exists_of_unary runs proper folds
    have number := (Value.tier?_standardized literal).symm.trans inside.tier?
    cases isOther.symm.trans (proves_number_of_constant constant number)
  · rw [same, whenNumbers_of_other isOther]
    rfl

include runs in
/-- An exact tier computes nothing on a literal on which the function has no value. -/
theorem unary_steady (proper : type.IsProper)
    (stays : ∀ value, ¬FoldsTo implementation [type] value) (found : type.tier? = some own)
    (isExact : (unaryTier operation own).isExact = true) (value : Value) :
    ¬FoldsTo ((unaryTier operation own).compute operation) [type] value := by
  intro folds
  obtain ⟨literal, constant, _⟩ := folds.single
  have keeps : operation = .abs ∨ operation = .neg := by
    unfold unaryTier at isExact
    split at isExact
    · assumption
    · cases own <;> cases isExact
  rw [Tier.unaryTier_exact isExact] at isExact
  obtain ⟨left, number⟩ :=
    exists_tier_of_constant (proves_number_of_tier (proves_of_tier? found)) constant
  have isLiteral := proper.isLiteral constant number
  have leftExact : left.isExact = true := by
    rcases tier_of_contains found (contains_constant constant isLiteral) with same | ⟨_, integral⟩
    · cases number.symm.trans same
      exact isExact
    · cases number.symm.trans integral
      rfl
  obtain ⟨result, computed⟩ := Generic.exists_unary keeps isLiteral number leftExact
  exact stays result (foldsTo_single constant ((runs literal).trans computed))

include isUnary in
theorem computes_of_isUnary : operation.isComparison = false := by
  cases operation <;> first | rfl | cases isUnary

include isUnary runs

/-- All results of a function lie in the type around them. -/
theorem unaryResult_bounded (topProper : top.IsProper)
    (declared : ∀ tier,
      (Library.tierValues (unaryTier operation tier) operation).primary.proves top = true)
    (proper : type.IsProper) :
    Narrows (unaryResult implementation operation top type) top := by
  have bound (tier : Tier) :
      Narrows (Library.tierValues (unaryTier operation tier) operation).primary top :=
    ⟨declared tier, isProper_tierValues _ _, topProper⟩
  cases isNumber : type.proves .number with
  | false =>
      rw [unaryResult_of_other runs proper isNumber]
      exact topProper.refl
  | true =>
      unfold unaryResult
      rcases folded_cases implementation [type]
        ((whenNumbers [type] (unaryCall operation type)).getD top)
        with ⟨value, folds, same⟩ | ⟨stays, same⟩
      · rw [same]
        obtain ⟨literal, own, _, inside, computed⟩ := exists_of_unary runs proper folds
        obtain ⟨⟨other, resultInside, gives⟩, reduced⟩ := Generic.unary_inTier inside computed
        have given := Tier.mayGive_of_covers_unary isUnary own.covers_self gives
        refine narrows_ofConstant resultInside.isLiteral (Value.isBroken_of_reduced reduced) ?_
          topProper
        exact contains_of_proves (declared own)
          (Tier.contains_tierValues (computes_of_isUnary isUnary) given resultInside)
      · rw [same, whenNumbers_of_number isNumber]
        cases found : type.tier? with
        | none =>
            simp only [unaryCall, found]
            exact topProper.refl
        | some own =>
            obtain ⟨call, called, bounded⟩ :=
              unaryCall_narrows proper found (unary_steady runs proper stays found)
            rw [called]
            exact bounded.trans (bound own)

/-- A function of numbers of a tier has the values of its call in this tier. -/
theorem unaryResult_in_tier (narrows : Narrows inner outer) (found : outer.tier? = some own) :
    Narrows (unaryResult implementation operation top inner)
      (Library.tierValues (unaryTier operation own) operation).primary := by
  have proper := isProper_tierValues (unaryTier operation own) operation
  unfold unaryResult
  rcases folded_cases implementation [inner]
    ((whenNumbers [inner] (unaryCall operation inner)).getD top)
    with ⟨value, folds, same⟩ | ⟨stays, same⟩
  · rw [same]
    obtain ⟨literal, left, constant, inside, computed⟩ :=
      exists_of_unary runs narrows.innerProper folds
    have number := (Value.tier?_standardized literal).symm.trans inside.tier?
    obtain ⟨⟨_, resultInside, _⟩, reduced⟩ := Generic.unary_inTier inside computed
    have admitted := narrows.admits constant number
    have tierFound : (Operand.ofType outer.standardized).ntype.tier? = some own :=
      (tier?_standardized outer).trans found
    have admits : (Operand.ofType (Library.tierValues (unaryTier operation own)
        operation).primary).Admits value :=
      Operand.admits_of_unary isUnary tierFound rfl admitted computed
    exact narrows_ofConstant resultInside.isLiteral (Value.isBroken_of_reduced reduced) admits.1
      proper
  · obtain ⟨narrower, narrowerFound, covers⟩ := narrows.exists_tier found
    obtain ⟨call, called, bounded⟩ := unaryCall_narrows narrows.innerProper narrowerFound
      (unary_steady runs narrows.innerProper stays narrowerFound)
    have isNumber := narrows.proves (proves_number_of_tier (proves_of_tier? found))
    rw [same, whenNumbers_of_number isNumber, called]
    exact bounded.trans
      ⟨Library.tierValues_unary operation covers, isProper_tierValues _ _, proper⟩

/-- A function of a narrower operand has a narrower type. -/
theorem unaryResult_monotone (topProper : top.IsProper)
    (declared : ∀ tier,
      (Library.tierValues (unaryTier operation tier) operation).primary.proves top = true)
    (narrows : Narrows inner outer) :
    Narrows (unaryResult implementation operation top inner)
      (unaryResult implementation operation top outer) := by
  have bounded := unaryResult_bounded isUnary runs topProper declared narrows.innerProper
  cases isNumber : outer.proves .number with
  | false =>
      rw [unaryResult_of_other runs narrows.outerProper isNumber]
      exact bounded
  | true =>
      cases constant : outer.constant? with
      | some literal =>
          rw [← narrows.eq_of_number isNumber constant]
          exact bounded.innerProper.refl
      | none =>
          have outerSame : unaryResult implementation operation top outer =
              (unaryCall operation outer).getD top := by
            rw [unaryResult, folded_of_none (literals?_varied List.mem_cons_self constant),
              whenNumbers_of_number isNumber]
          rw [outerSame]
          cases called : unaryCall operation outer with
          | none => exact bounded
          | some call =>
              obtain ⟨own, found, rfl⟩ := unaryCall_of_varied constant called
              exact unaryResult_in_tier isUnary runs narrows found

end Unary

/-- A function of a narrower operand has a narrower type. -/
theorem function_monotone (isFunction : operation ∈ Library.functions)
    (narrows : List.Forall₂ Narrows types others) :
    Narrows (function operation types) (function operation others) := by
  have isUnary : operation.isUnary = true := by
    revert isFunction
    cases operation <;> decide
  have topProper : (Library.functionRecord operation).values.primary.IsProper := by
    refine isProper_primitive ?_
    split <;> decide
  have declared : ∀ tier, (Library.tierValues (unaryTier operation tier) operation).primary.proves
      (Library.functionRecord operation).values.primary = true := by
    intro tier
    have each : ∀ operation ∈ Library.functions, ∀ tier ∈ Tier.all,
        (Library.tierValues (unaryTier operation tier) operation).primary.proves
          (Library.functionRecord operation).values.primary = true := by decide +kernel
    exact each operation isFunction tier tier.mem_all
  rcases narrows with _ | ⟨first, _ | _⟩
  · exact topProper.refl
  · exact unaryResult_monotone isUnary (fun _ => rfl) topProper declared first
  · exact topProper.refl

/-- A call of a tier that compares has truth values. -/
theorem tierCall_truth (compares : operation.isComparison = true) :
    Narrows (tierCall tier operation types) (.primitive .boolean) := by
  have proper : (Ntype.primitive .boolean).IsProper := isProper_primitive (by decide)
  unfold tierCall
  rcases folded_cases (tier.compute operation) types (Library.tierValues tier operation).primary
    with ⟨value, ⟨literals, found, computed⟩, same⟩ | ⟨_, same⟩
  · rw [same]
    clear found
    unfold Tier.compute at computed
    split at computed
    · rename_i isUnary
      cases operation <;> first | cases compares; done | cases isUnary
    · obtain ⟨truth, rfl⟩ := Tier.binary_truth compares computed
      exact narrows_ofConstant rfl nofun (by cases truth <;> decide) proper
    · cases computed
  · rw [same, Library.tierValues, if_pos compares]
    exact proper.refl

theorem binaryCall_truth {inexact : Bool} {call : Ntype} (compares : operation.isComparison = true)
    (called : binaryCall operation inexact first second = some call) :
    Narrows call (.primitive .boolean) := by
  unfold binaryCall at called
  split at called
  · cases called
  · simp only at called
    split at called
    · rw [← Option.some.inj called]
      exact tierCall_truth compares
    · cases called

/-- A comparison has truth values. -/
theorem comparison_bounded (compares : operation.isComparison = true) (firstProper : first.IsProper)
    (secondProper : second.IsProper) :
    Narrows (comparison operation [first, second]) (.primitive .boolean) := by
  have proper : (Ntype.primitive .boolean).IsProper := isProper_primitive (by decide)
  unfold comparison
  simp only
  rcases folded_cases (Generic.ofBinary operation) [first, second]
    ((whenNumbers [first, second] (binaryCall operation false first second)).getD
      (.primitive .boolean)) with ⟨value, folds, same⟩ | ⟨_, same⟩
  · rw [same]
    obtain ⟨left, right, firstConstant, secondConstant, computed⟩ := folds.pair
    change Generic.binary operation left right = .ok value at computed
    obtain ⟨leftNumber, rightNumber⟩ := Generic.numbers_of_binary computed
    obtain ⟨leftTier, leftNumber⟩ := Option.isSome_iff_exists.mp leftNumber
    obtain ⟨rightTier, rightNumber⟩ := Option.isSome_iff_exists.mp rightNumber
    obtain ⟨truth, rfl⟩ := Generic.truth_of_binary compares
      (Value.inTier_standardized (firstProper.isLiteral firstConstant leftNumber) leftNumber)
      (Value.inTier_standardized (secondProper.isLiteral secondConstant rightNumber) rightNumber)
      ((Generic.binary_standardized operation left right).trans computed)
    exact narrows_ofConstant rfl nofun (by cases truth <;> decide) proper
  · rw [same]
    cases numbers : first.proves .number && second.proves .number with
    | false =>
        rw [whenNumbers_of_others numbers]
        exact proper.refl
    | true =>
        rw [Bool.and_eq_true] at numbers
        rw [whenNumbers_of_numbers numbers.1 numbers.2]
        cases called : binaryCall operation false first second with
        | none => exact proper.refl
        | some call => exact binaryCall_truth compares called

/-- Numbers that are known do not narrow. -/
theorem eq_or_varied {wideFirst wideSecond : Ntype} (narrows : Narrows first wideFirst)
    (others : Narrows second wideSecond) (firstNumber : wideFirst.proves .number = true)
    (secondNumber : wideSecond.proves .number = true) :
    (first = wideFirst ∧ second = wideSecond) ∨
      wideFirst.constant? = none ∨ wideSecond.constant? = none := by
  cases firstConstant : wideFirst.constant? with
  | none => exact .inr (.inl rfl)
  | some left =>
      cases secondConstant : wideSecond.constant? with
      | none => exact .inr (.inr rfl)
      | some right =>
          exact .inl ⟨narrows.eq_of_number firstNumber firstConstant,
            others.eq_of_number secondNumber secondConstant⟩

theorem literals?_pair_varied (varied : first.constant? = none ∨ second.constant? = none) :
    literals? [first, second] = none := by
  rcases varied with absent | absent
  · exact literals?_varied List.mem_cons_self absent
  · exact literals?_varied (List.mem_cons_of_mem _ List.mem_cons_self) absent

/-- An implementation that takes numbers alone folds numbers alone. -/
theorem folded_of_others
    (numbers : ∀ left right result, implementation [left, right] = .ok result →
      left.tier?.isSome = true ∧ right.tier?.isSome = true)
    (areOther : (first.proves .number && second.proves .number) = false) :
    folded implementation [first, second] type = type := by
  rcases folded_cases implementation [first, second] type with ⟨value, folds, _⟩ | ⟨_, same⟩
  · obtain ⟨left, right, firstConstant, secondConstant, computed⟩ := folds.pair
    obtain ⟨leftNumber, rightNumber⟩ := numbers left right value computed
    obtain ⟨leftTier, leftNumber⟩ := Option.isSome_iff_exists.mp leftNumber
    obtain ⟨rightTier, rightNumber⟩ := Option.isSome_iff_exists.mp rightNumber
    rw [proves_number_of_constant firstConstant leftNumber,
      proves_number_of_constant secondConstant rightNumber] at areOther
    cases areOther
  · exact same

/-- A comparison of narrower operands has a narrower type. -/
theorem comparison_monotone (compares : operation.isComparison = true)
    (narrows : List.Forall₂ Narrows types others) :
    Narrows (comparison operation types) (comparison operation others) := by
  have proper : (Ntype.primitive .boolean).IsProper := isProper_primitive (by decide)
  rcases narrows with _ | ⟨firstNarrows, _ | ⟨secondNarrows, _ | _⟩⟩
  · exact proper.refl
  · exact proper.refl
  · rename_i first wideFirst second wideSecond
    have bounded :=
      comparison_bounded compares firstNarrows.innerProper secondNarrows.innerProper
    have wideSame (same : comparison operation [wideFirst, wideSecond] = .primitive .boolean) :
        Narrows (comparison operation [first, second])
          (comparison operation [wideFirst, wideSecond]) := by
      rw [same]
      exact bounded
    cases numbers : wideFirst.proves .number && wideSecond.proves .number with
    | false =>
        apply wideSame
        unfold comparison
        simp only
        rw [folded_of_others (fun _ _ _ => Generic.numbers_of_binary) numbers,
          whenNumbers_of_others numbers]
        rfl
    | true =>
        rw [Bool.and_eq_true] at numbers
        rcases eq_or_varied firstNarrows secondNarrows numbers.1 numbers.2 with
          ⟨rfl, rfl⟩ | varied
        · exact bounded.innerProper.refl
        · apply wideSame
          unfold comparison
          simp only
          rw [folded_of_none (literals?_pair_varied varied),
            whenNumbers_of_numbers numbers.1 numbers.2]
          cases called : binaryCall operation false wideFirst wideSecond with
          | none => rfl
          | some call =>
              obtain ⟨met, _, _, rfl⟩ := binaryCall_of_varied varied called
              rw [Library.tierValues, if_pos compares]
              rfl
  · exact proper.refl

theorem coercion_of_other (isOther : type.proves .number = false) :
    coercion tier type = tier.ntype := by
  unfold coercion
  rcases folded_cases (Generic.coerce tier) [type]
    (if type.proves tier.ntype then type else tier.ntype) with ⟨value, folds, _⟩ | ⟨_, same⟩
  · obtain ⟨literal, constant, computed⟩ := folds.single
    obtain ⟨own, found, _⟩ := exists_of_bind computed
    cases isOther.symm.trans (proves_number_of_constant constant (eq_some_of_orFault found))
  · rw [same, if_neg]
    intro proven
    cases isOther.symm.trans (proves_number_of_tier proven)

/-- A conversion of numbers of the tier stays among them. -/
theorem coercion_in_tier (isInexact : tier.isExact = false) (narrows : Narrows inner outer)
    (varied : outer.constant? = none) (proven : outer.proves tier.ntype = true) :
    Narrows (coercion tier inner) outer := by
  have innerProven : inner.proves tier.ntype = true := narrows.proves proven
  unfold coercion
  rcases folded_cases (Generic.coerce tier) [inner]
    (if inner.proves tier.ntype then inner else tier.ntype) with ⟨value, folds, same⟩ | ⟨_, same⟩
  · rw [same]
    obtain ⟨literal, constant, computed⟩ := folds.single
    obtain ⟨own, number⟩ := exists_tier_of_constant (proves_number_of_tier innerProven) constant
    have isLiteral := narrows.innerProper.isLiteral constant number
    have admitted := narrows.admits constant number
    rw [standardized_of_varied varied] at admitted
    have inside := Generic.coerce_inTier isInexact
      (Value.inTier_standardized isLiteral number).isStandard (Generic.coerce_standardized computed)
    obtain ⟨left, literalInside, covers⟩ :=
      exists_inTier_of_contains admitted.2 (contains_of_proves proven admitted.1)
    cases Tier.eq_of_covers covers isInexact
    exact narrows_ofConstant inside.isLiteral (Value.isBroken_of_inexact inside.tier? isInexact)
      (contains_of_resembles varied admitted.1
        (Value.resembles_of_inexact literalInside inside isInexact)) narrows.outerProper
  · rwa [same, if_pos innerProven]

theorem coercion_monotone (isInexact : tier.isExact = false) (narrows : Narrows inner outer) :
    Narrows (coercion tier inner) (coercion tier outer) := by
  have bounded := coercion_narrows isInexact narrows.innerProper
  cases isNumber : outer.proves .number with
  | false => rwa [coercion_of_other isNumber]
  | true =>
      cases constant : outer.constant? with
      | some literal =>
          rw [← narrows.eq_of_number isNumber constant]
          exact bounded.innerProper.refl
      | none =>
          have outerSame : coercion tier outer =
              if outer.proves tier.ntype then outer else tier.ntype :=
            folded_of_none (literals?_varied List.mem_cons_self constant)
          rw [outerSame]
          split
          · rename_i proven
            exact coercion_in_tier isInexact narrows constant proven
          · exact bounded

/-- A conversion of a narrower operand has a narrower type. -/
theorem conversion_monotone (isInexact : tier.isExact = false)
    (narrows : List.Forall₂ Narrows types others) :
    Narrows (conversion tier types) (conversion tier others) := by
  rcases narrows with _ | ⟨first, _ | _⟩
  · exact (isProper_tier tier).refl
  · exact coercion_monotone isInexact first
  · exact (isProper_tier tier).refl

end Inference

end Narrowing
