import Narrowing.Proofs.NarrowerFunctions

/-
This file orders the types of sums, differences, products and quotients of one or two operands by
the types of the operands.
-/

namespace Narrowing

namespace Tier

theorem combine_integer (tier : Tier) : tier.combine .integer = tier := by cases tier <;> rfl

end Tier

namespace Library

theorem proves_tierValues {operation : Operation} (isArithmetic : operation.isArithmetic = true)
    (tier : Tier) :
    tier.ntype.proves
      (tierValues (Plan.binaryTier operation false tier) operation).primary = true := by
  have each : ∀ operation ∈ Operation.all, operation.isArithmetic = true → ∀ tier ∈ Tier.all,
      tier.ntype.proves
        (tierValues (Plan.binaryTier operation false tier) operation).primary = true := by
    decide +kernel
  exact each operation operation.mem_all isArithmetic tier tier.mem_all

end Library

namespace Ntype

variable {type first second : Ntype} {tier own : Tier} {atom : Atom} {number : Int}

/-- The integer that a type holds alone. -/
theorem IsProper.eq_of_isInteger (proper : type.IsProper)
    (literal : (Operand.ofType type).isInteger number = true) :
    type = .singleton (.integer number) := by
  cases type with
  | primitive primitive => cases literal
  | singleton member =>
      cases member with
      | integer value =>
          change (value == number) = true at literal
          rw [beq_iff_eq.mp literal]
      | ratio value =>
          change (value == (number : Rat)) = true at literal
          refine absurd ?_ (proper.broken (.ratio value) rfl value rfl)
          rw [beq_iff_eq.mp literal]
          rfl
      | _ => cases literal

/-- Numbers that meet an integer in a tier are numbers of this tier. -/
theorem proves_of_met_integer (isNumber : first.proves .number = true)
    (found : (first.contagion second).ntype.tier? = some tier)
    (inside : second.cover.atoms.contains atom = true) (integral : atom.tier? = some .integer) :
    first.proves tier.ntype = true := by
  by_contra unproven
  obtain ⟨outsider, present, outside, others⟩ :=
    exists_atom_outside (Bool.eq_false_iff.mpr unproven)
  have numeric := (AtomSet.contains_number outsider).mp (others .number isNumber)
  obtain ⟨own, ownTier⟩ := Option.isSome_iff_exists.mp numeric
  have met := tier_of_contagious_atoms found present inside ownTier integral
  rw [Tier.combine_integer] at met
  rw [Primitive.atoms_ofTier, ← Bool.not_eq_true, AtomSet.contains_ofTier, ownTier] at outside
  exact outside (by simpa using met)

theorem cover_integer (number : Int) :
    (singleton (.integer number)).cover.atoms.contains (Value.integer number).atom = true :=
  Primitive.contains_ofAtom _

theorem atom_integer (number : Int) : (Value.integer number).atom.tier? = some .integer :=
  Value.atom_tier? _

/-- A tier that holds numbers of an exact type is exact. -/
theorem isExact_of_proves (proper : type.IsProper)
    (proven : type.proves tier.ntype = true) (exact : type.proves Tier.rational.ntype = true) :
    tier.isExact = true := by
  obtain ⟨atom, own, inside, number⟩ := proper.exists_number (proves_number_of_tier proven)
  rcases tier_of_atom exact inside number with rfl | ⟨_, rfl⟩ <;>
    rcases tier_of_atom proven inside number with rfl | ⟨rfl, _⟩ <;> rfl

end Ntype

namespace Inference

open Ntype Plan

variable {operation : Operation} {types : List Ntype}
  {type first second wideFirst wideSecond chosen wide : Ntype} {value : Value} {tier own : Tier}

theorem exists_simplified (simplified : simplified? operation first second = some chosen) :
    ∃ operand : Operand, operand.ntype = chosen ∧
      Operand.Simplifies operation (.ofType first) (.ofType second) operand := by
  obtain ⟨operand, found, same⟩ := Option.map_eq_some_iff.mp simplified
  exact ⟨operand, same, Operand.simplifies_of_simplified? found⟩

/-- What stands for a call of two numbers is a number of the tier where they meet. -/
theorem simplified?_in_tier {met : Tier} (firstProper : first.IsProper)
    (secondProper : second.IsProper) (firstNumber : first.proves .number = true)
    (secondNumber : second.proves .number = true)
    (simplified : simplified? operation first second = some chosen)
    (found : (first.contagion second).ntype.tier? = some met) :
    Narrows chosen met.ntype := by
  have swapped : (second.contagion first).ntype.tier? = some met := by
    rwa [contagion_ntype_comm]
  have narrows {chosen : Ntype} (proper : chosen.IsProper)
      (proven : chosen.proves met.ntype = true) : Narrows chosen met.ntype :=
    ⟨proven, proper, isProper_tier met⟩
  obtain ⟨operand, rfl, simplifies⟩ := exists_simplified simplified
  cases simplifies with
  | neutral neutral literal =>
      have same := secondProper.eq_of_isInteger literal
      subst same
      exact narrows firstProper
        (proves_of_met_integer firstNumber found (cover_integer _) (atom_integer _))
  | identity identity literal =>
      have same := firstProper.eq_of_isInteger literal
      subst same
      exact narrows secondProper
        (proves_of_met_integer secondNumber swapped (cover_integer _) (atom_integer _))
  | swallowed product swallowed =>
      simp only [Operand.isSwallowed, Bool.and_eq_true] at swallowed
      have same := secondProper.eq_of_isInteger swallowed.1
      subst same
      have proven :=
        proves_of_met_integer firstNumber found (cover_integer _) (atom_integer _)
      obtain ⟨atom, own, inside, number⟩ := firstProper.exists_number firstNumber
      exact narrows secondProper (proves_of_contagion_right secondNumber found
        (isExact_of_proves firstProper proven swallowed.2) inside number)
  | swallowing product swallowed =>
      simp only [Operand.isSwallowed, Bool.and_eq_true] at swallowed
      have same := firstProper.eq_of_isInteger swallowed.1
      subst same
      have proven :=
        proves_of_met_integer secondNumber swapped (cover_integer _) (atom_integer _)
      obtain ⟨atom, own, inside, number⟩ := secondProper.exists_number secondNumber
      exact narrows firstProper (proves_of_contagion firstNumber found
        (isExact_of_proves secondProper proven swallowed.2) inside number)

theorem simplified?_neutral {number : Int} (neutral : operation.neutral? = some number)
    (first : Ntype) : simplified? operation first (.singleton (.integer number)) = some first := by
  cases operation <;> cases neutral <;> rfl

/-- The neutral number in front leaves the other operand, unless this one comes first. -/
theorem simplified?_identity {number : Int} (identity : operation.identity? = some number)
    (proper : second.IsProper) :
    simplified? operation (.singleton (.integer number)) second = some second := by
  cases again : (Operand.ofType second).isInteger number with
  | true =>
      rw [proper.eq_of_isInteger again]
      cases operation <;> cases identity <;> rfl
  | false =>
      cases operation with
      | add | mul =>
          cases identity
          simp only [simplified?, Operand.simplified?, again]
          rfl
      | _ => cases identity

theorem simplified?_swallowed (exact : first.proves Tier.rational.ntype = true) :
    simplified? .mul first (.singleton (.integer 0)) = some (.singleton (.integer 0)) := by
  have zero : (Operand.ofType first).isSwallowed (.ofType (.singleton (.integer 0))) = true := exact
  cases one : (Operand.ofType first).isInteger 1 <;>
    simp only [simplified?, Operand.simplified?, one, zero] <;> rfl

/-- A zero in front swallows the other operand, unless this one is a zero too. -/
theorem simplified?_swallowing (proper : second.IsProper)
    (exact : second.proves Tier.rational.ntype = true) :
    simplified? .mul (.singleton (.integer 0)) second = some (.singleton (.integer 0)) := by
  have zero : (Operand.ofType second).isSwallowed (.ofType (.singleton (.integer 0))) = true := exact
  cases one : (Operand.ofType second).isInteger 1 with
  | true =>
      simp only [simplified?, Operand.simplified?, one]
      rfl
  | false =>
      cases again : (Operand.ofType (.singleton (.integer 0))).isSwallowed (.ofType second) with
      | true =>
          simp only [Operand.isSwallowed, Bool.and_eq_true] at again
          rw [proper.eq_of_isInteger again.1]
          rfl
      | false =>
          simp only [simplified?, Operand.simplified?, one, again, zero]
          rfl

/-- A call that simplifies also does so for narrower operands, and to a narrower one of them. -/
theorem simplified?_monotone (narrows : Narrows first wideFirst)
    (others : Narrows second wideSecond)
    (simplified : simplified? operation wideFirst wideSecond = some wide) :
    ∃ chosen, simplified? operation first second = some chosen ∧ Narrows chosen wide := by
  obtain ⟨operand, rfl, simplifies⟩ := exists_simplified simplified
  cases simplifies with
  | neutral neutral literal =>
      have same := others.outerProper.eq_of_isInteger literal
      subst same
      rw [others.eq_of_constant rfl rfl]
      exact ⟨first, simplified?_neutral neutral first, narrows⟩
  | identity identity literal =>
      have same := narrows.outerProper.eq_of_isInteger literal
      subst same
      rw [narrows.eq_of_constant rfl rfl]
      exact ⟨second, simplified?_identity identity others.innerProper, others⟩
  | swallowed product swallowed =>
      subst product
      simp only [Operand.isSwallowed, Bool.and_eq_true] at swallowed
      have same := others.outerProper.eq_of_isInteger swallowed.1
      subst same
      have inner := others.eq_of_constant rfl rfl
      subst inner
      exact ⟨_, simplified?_swallowed (narrows.proves swallowed.2), others⟩
  | swallowing product swallowed =>
      subst product
      simp only [Operand.isSwallowed, Bool.and_eq_true] at swallowed
      have same := narrows.outerProper.eq_of_isInteger swallowed.1
      subst same
      have inner := narrows.eq_of_constant rfl rfl
      subst inner
      exact ⟨_, simplified?_swallowing others.innerProper (others.proves swallowed.2), narrows⟩

/-- Literals on which arithmetic has a value are numbers, and so is the value. -/
theorem exists_of_arithmetic (proper : ∀ type ∈ types, type.IsProper)
    (folds : FoldsTo (Generic.arithmetic operation) types value) :
    ∃ literals, literals? types = some literals ∧
      (∀ literal ∈ literals, ∃ own, literal.standardized.InTier own) ∧
        Generic.arithmetic operation (literals.map Value.standardized) = .ok value ∧
          (∃ own, value.InTier own) ∧ value.isReduced = true := by
  obtain ⟨literals, found, computed⟩ := folds
  have numbers := Generic.numbers_of_arithmetic computed
  have inside : ∀ literal ∈ literals, ∃ own, literal.standardized.InTier own := by
    intro literal member
    obtain ⟨own, number⟩ := Option.isSome_iff_exists.mp (numbers literal member)
    obtain ⟨type, among, constant⟩ := exists_related_of_mem (literals?_related found).flip member
    exact ⟨own, Value.inTier_standardized ((proper type among).isLiteral constant number) number⟩
  rw [← Generic.arithmetic_standardized] at computed
  refine ⟨literals, found, inside, computed, Generic.arithmetic_inTier ?_ computed⟩
  simp only [List.forall_mem_map]
  intro literal member
  obtain ⟨own, inside⟩ := inside literal member
  exact inside.isStandard

/-- The value of arithmetic on literals is a number. -/
theorem narrows_of_folds (proper : ∀ type ∈ types, type.IsProper)
    (folds : FoldsTo (Generic.arithmetic operation) types value) (typeProper : type.IsProper)
    (contains : type.contains value = true) : Narrows (.ofConstant value) type := by
  obtain ⟨_, _, _, _, ⟨own, inside⟩, reduced⟩ := exists_of_arithmetic proper folds
  exact narrows_ofConstant inside.isLiteral (Value.isBroken_of_reduced reduced) contains typeProper

theorem number_of_folds (proper : ∀ type ∈ types, type.IsProper)
    (folds : FoldsTo (Generic.arithmetic operation) types value) :
    Narrows (.ofConstant value) .number := by
  obtain ⟨_, _, _, _, ⟨own, inside⟩, reduced⟩ := exists_of_arithmetic proper folds
  exact narrows_number inside reduced

/-- An exact tier computes nothing on literals on which arithmetic has no value. -/
theorem arithmetic_steady (isArithmetic : operation.isArithmetic = true)
    (firstProper : first.IsProper) (secondProper : second.IsProper)
    (firstNumber : first.proves .number = true) (secondNumber : second.proves .number = true)
    (stays : ∀ value, ¬FoldsTo (Generic.arithmetic operation) [first, second] value) :
    Steady operation false first second := by
  rintro met found isExact value folds
  obtain ⟨left, right, firstConstant, secondConstant, computed⟩ := folds.pair
  obtain ⟨leftTier, leftNumber⟩ := exists_tier_of_constant firstNumber firstConstant
  obtain ⟨rightTier, rightNumber⟩ := exists_tier_of_constant secondNumber secondConstant
  have leftLiteral := firstProper.isLiteral firstConstant leftNumber
  have rightLiteral := secondProper.isLiteral secondConstant rightNumber
  have meets := tier_of_contagion found (contains_constant firstConstant leftLiteral)
    (contains_constant secondConstant rightLiteral) leftNumber rightNumber
  obtain ⟨leftCovered, rightCovered⟩ := Tier.covers_of_met (Tier.binaryTier_exact isExact).2 meets
  have metExact := (Tier.binaryTier_exact isExact).2
  have isBinary : operation.isUnary = false := by
    cases operation <;> first | rfl | cases isArithmetic
  have pairwise : (binaryTier operation false met).compute operation [left, right] =
      (binaryTier operation false met).binary operation left right := by
    unfold Tier.compute
    rw [isBinary]
  obtain ⟨result, generic⟩ := Generic.exists_arithmetic isArithmetic isExact leftLiteral leftNumber
    (Tier.exact_of_covers metExact leftCovered) rightLiteral rightNumber
    (Tier.exact_of_covers metExact rightCovered) (pairwise.symm.trans computed)
  exact stays result (foldsTo_pair firstConstant secondConstant generic)

variable (isArithmetic : operation.isArithmetic = true)

include isArithmetic

theorem computes_of_isArithmetic : operation.isComparison = false := by
  cases operation <;> first | rfl | cases isArithmetic

/-- What stands for a call of two numbers, or their call in a tier, is a number. -/
theorem pairCall_bounded {call : Ntype} (firstProper : first.IsProper)
    (secondProper : second.IsProper) (firstNumber : first.proves .number = true)
    (secondNumber : second.proves .number = true) (steady : Steady operation false first second)
    (called : pairCall operation first second = some call) : Narrows call .number := by
  unfold pairCall at called
  split at called
  · rename_i chosen simplified
    cases called
    obtain ⟨operand, rfl, simplifies⟩ := exists_simplified simplified
    cases simplifies with
    | neutral | swallowing => exact ⟨firstNumber, firstProper, isProper_number⟩
    | identity | swallowed => exact ⟨secondNumber, secondProper, isProper_number⟩
  · exact binaryCall_bounded (computes_of_isArithmetic isArithmetic) firstProper secondProper steady
      called

/-- A sum, difference, product or quotient of two operands is a number. -/
theorem pair_bounded (firstProper : first.IsProper) (secondProper : second.IsProper) :
    Narrows (pair operation first second) .number := by
  unfold pair
  rcases folded_cases (Generic.arithmetic operation) [first, second]
    ((whenNumbers [first, second] (pairCall operation first second)).getD .number)
    with ⟨value, folds, same⟩ | ⟨stays, same⟩
  · rw [same]
    exact number_of_folds (List.forall_mem_cons.mpr
      ⟨firstProper, List.forall_mem_singleton.mpr secondProper⟩) folds
  · rw [same]
    cases numbers : first.proves .number && second.proves .number with
    | false =>
        rw [whenNumbers_of_others numbers]
        exact isProper_number.refl
    | true =>
        rw [Bool.and_eq_true] at numbers
        rw [whenNumbers_of_numbers numbers.1 numbers.2]
        cases called : pairCall operation first second with
        | none => exact isProper_number.refl
        | some call =>
            exact pairCall_bounded isArithmetic firstProper secondProper numbers.1 numbers.2
              (arithmetic_steady isArithmetic firstProper secondProper numbers.1 numbers.2 stays)
              called

/-- The call of two numbers that are not both known has a type that joins them. -/
theorem pair_joins (firstProper : first.IsProper) (secondProper : second.IsProper)
    (firstNumber : first.proves .number = true) (secondNumber : second.proves .number = true)
    (varied : first.constant? = none ∨ second.constant? = none) :
    Operand.Joins operation (.ofType first.standardized) (.ofType second.standardized)
      (.ofType (pair operation first second)) := by
  have same : pair operation first second = (pairCall operation first second).getD .number := by
    rw [pair, folded_of_none (literals?_pair_varied varied),
      whenNumbers_of_numbers firstNumber secondNumber]
  rw [same]
  unfold pairCall
  split
  · rename_i chosen simplified
    obtain ⟨operand, rfl, simplifies⟩ := exists_simplified simplified
    cases simplifies with
    | neutral neutral literal =>
        have same := secondProper.eq_of_isInteger literal
        subst same
        have absent := varied.resolve_right (Option.some_ne_none _)
        rw [standardized_of_varied absent]
        exact Operand.joins_neutral neutral rfl absent
    | identity identity literal =>
        have same := firstProper.eq_of_isInteger literal
        subst same
        have absent := varied.resolve_left (Option.some_ne_none _)
        rw [standardized_of_varied absent]
        exact Operand.joins_identity identity rfl absent
    | swallowed product swallowed =>
        subst product
        simp only [Operand.isSwallowed, Bool.and_eq_true] at swallowed
        have same := secondProper.eq_of_isInteger swallowed.1
        subst same
        exact Operand.joins_swallowed rfl ((standardized_proves first _).trans swallowed.2)
    | swallowing product swallowed =>
        subst product
        simp only [Operand.isSwallowed, Bool.and_eq_true] at swallowed
        have same := firstProper.eq_of_isInteger swallowed.1
        subst same
        exact Operand.joins_swallowing rfl ((standardized_proves second _).trans swallowed.2)
  · cases called : binaryCall operation false first second with
    | none => exact Operand.joins_number isArithmetic rfl
    | some call =>
        obtain ⟨met, found, _, rfl⟩ := binaryCall_of_varied varied called
        have metFound : Engine.metTier? (.ofType first.standardized)
            (.ofType second.standardized) = some met := by
          change (first.standardized.contagion second.standardized).ntype.tier? = some met
          rwa [contagion_standardized]
        exact Operand.joins_tier isArithmetic ((standardized_proves first _).trans firstNumber)
          ((standardized_proves second _).trans secondNumber) metFound rfl

/-- Narrower operands have a narrower call. -/
theorem pairCall_monotone (narrows : Narrows first wideFirst) (others : Narrows second wideSecond)
    (firstNumber : wideFirst.proves .number = true)
    (secondNumber : wideSecond.proves .number = true)
    (varied : wideFirst.constant? = none ∨ wideSecond.constant? = none)
    (steady : Steady operation false first second)
    (called : pairCall operation wideFirst wideSecond = some wide) :
    ∃ call, pairCall operation first second = some call ∧ Narrows call wide := by
  cases simplified : simplified? operation wideFirst wideSecond with
  | some chosen =>
      simp only [pairCall, simplified] at called
      cases called
      obtain ⟨call, same, bounded⟩ := simplified?_monotone narrows others simplified
      refine ⟨call, ?_, bounded⟩
      simp only [pairCall, same]
  | none =>
      simp only [pairCall, simplified] at called
      obtain ⟨call, made, bounded⟩ :=
        binaryCall_monotone narrows others firstNumber secondNumber varied steady called
      -- Narrower operands may simplify where the wide ones do not, within the tier of the wide call.
      cases innerSimplified : simplified? operation first second with
      | none =>
          refine ⟨call, ?_, bounded⟩
          simp only [pairCall, innerSimplified, made]
      | some chosen =>
          refine ⟨chosen, by simp only [pairCall, innerSimplified], ?_⟩
          obtain ⟨met, found, _, rfl⟩ := binaryCall_of_varied varied called
          obtain ⟨narrower, narrowerFound, covers⟩ :=
            narrows.exists_met others firstNumber secondNumber found
          have inTier := simplified?_in_tier narrows.innerProper others.innerProper
            (narrows.proves firstNumber) (others.proves secondNumber) innerSimplified narrowerFound
          have declared := (Library.tierValues_binary operation false covers).1
          refine inTier.trans (Narrows.trans ⟨Library.proves_tierValues isArithmetic narrower,
            isProper_tier narrower, isProper_tierValues _ _⟩ ⟨declared, isProper_tierValues _ _,
              isProper_tierValues _ _⟩)

/-- The type of a call that is not folded holds the values of narrower literals. -/
theorem pair_of_folds (narrows : Narrows first wideFirst) (others : Narrows second wideSecond)
    (firstNumber : wideFirst.proves .number = true)
    (secondNumber : wideSecond.proves .number = true)
    (varied : wideFirst.constant? = none ∨ wideSecond.constant? = none)
    (folds : FoldsTo (Generic.arithmetic operation) [first, second] value) :
    Narrows (.ofConstant value) (pair operation wideFirst wideSecond) := by
  have proper : ∀ type ∈ [first, second], type.IsProper :=
    List.forall_mem_cons.mpr ⟨narrows.innerProper, List.forall_mem_singleton.mpr others.innerProper⟩
  have wideProper := (pair_bounded isArithmetic narrows.outerProper others.outerProper).innerProper
  refine narrows_of_folds proper folds wideProper ?_
  obtain ⟨left, right, firstConstant, secondConstant, computed⟩ := folds.pair
  obtain ⟨leftTier, leftNumber⟩ :=
    exists_tier_of_constant (narrows.proves firstNumber) firstConstant
  obtain ⟨rightTier, rightNumber⟩ :=
    exists_tier_of_constant (others.proves secondNumber) secondConstant
  have covers := Engine.covers_of_joins isArithmetic (pair_joins isArithmetic narrows.outerProper
    others.outerProper firstNumber secondNumber varied)
  exact (covers [left.standardized, right.standardized] value
    (.cons (narrows.admits firstConstant leftNumber)
      (.cons (others.admits secondConstant rightNumber) .nil))
    ((Generic.arithmetic_standardized operation [left, right]).trans computed)).1

/-- Arithmetic on two narrower operands has a narrower type. -/
theorem pair_monotone (narrows : Narrows first wideFirst) (others : Narrows second wideSecond) :
    Narrows (pair operation first second) (pair operation wideFirst wideSecond) := by
  have bounded := pair_bounded isArithmetic narrows.innerProper others.innerProper
  cases numbers : wideFirst.proves .number && wideSecond.proves .number with
  | false =>
      have wideSame : pair operation wideFirst wideSecond = .number := by
        have pairs : ∀ left right result,
            Generic.arithmetic operation [left, right] = .ok result →
              left.tier?.isSome = true ∧ right.tier?.isSome = true := by
          intro left right result computed
          have each := Generic.numbers_of_arithmetic computed
          exact ⟨each left List.mem_cons_self, each right (by simp)⟩
        rw [pair, folded_of_others pairs numbers, whenNumbers_of_others numbers]
        rfl
      rwa [wideSame]
  | true =>
      rw [Bool.and_eq_true] at numbers
      rcases eq_or_varied narrows others numbers.1 numbers.2 with ⟨rfl, rfl⟩ | varied
      · exact bounded.innerProper.refl
      · have wideSame : pair operation wideFirst wideSecond =
            (pairCall operation wideFirst wideSecond).getD .number := by
          rw [pair, folded_of_none (literals?_pair_varied varied),
            whenNumbers_of_numbers numbers.1 numbers.2]
        rcases folded_cases (Generic.arithmetic operation) [first, second]
          ((whenNumbers [first, second] (pairCall operation first second)).getD .number)
          with ⟨value, folds, same⟩ | ⟨stays, same⟩
        · rw [pair, same]
          exact pair_of_folds isArithmetic narrows others numbers.1 numbers.2 varied folds
        · rw [wideSame]
          cases called : pairCall operation wideFirst wideSecond with
          | none => exact bounded
          | some wide =>
              have firstNumber : first.proves .number = true := narrows.proves numbers.1
              have secondNumber : second.proves .number = true := others.proves numbers.2
              obtain ⟨call, made, callBounded⟩ := pairCall_monotone isArithmetic narrows others
                numbers.1 numbers.2 varied (arithmetic_steady isArithmetic narrows.innerProper
                  others.innerProper firstNumber secondNumber stays) called
              rw [pair, same, whenNumbers_of_numbers firstNumber secondNumber, made]
              exact callBounded

omit isArithmetic

theorem one_isProper : (Ntype.ofConstant (.integer 1)).IsProper := isProper_ofConstant nofun

theorem arithmetic_single (operation : Operation) (type : Ntype) :
    arithmetic operation [type] = folded (Generic.arithmetic operation) [type]
      ((whenNumbers [type] (singleCall operation type)).getD .number) := rfl

/-- The call to which a rule rewrites arithmetic on one number, other than a negation. -/
structure Rewrites (operation : Operation) (call : Ntype → Ntype) : Prop where
  single : ∀ type, singleCall operation type = some (call type)
  bounded : ∀ type, type.IsProper → type.proves .number = true → Narrows (call type) .number
  monotone : ∀ inner outer, Narrows inner outer → Narrows (call inner) (call outer)
  covers : ∀ type, type.IsProper → type.proves .number = true → type.constant? = none →
    Engine.Covers (Generic.arithmetic operation) [.ofType type] (.ofType (call type))

/-- A sum or a product of one number is this number. -/
theorem rewrites_same (repeats : operation.identity?.isSome = true) :
    Rewrites operation id where
  single type := by cases operation <;> first | rfl | cases repeats
  bounded type proper isNumber := ⟨isNumber, proper, isProper_number⟩
  monotone inner outer narrows := narrows
  covers type proper isNumber varied := Engine.covers_single repeats varied

/-- A quotient of one number is its inverse. -/
theorem rewrites_inverse : Rewrites .div (pair .div (.ofConstant (.integer 1))) where
  single type := rfl
  bounded type proper isNumber := pair_bounded rfl one_isProper proper
  monotone inner outer narrows := pair_monotone rfl one_isProper.refl narrows
  covers type proper isNumber varied := by
    rintro _ result (_ | ⟨admits, _ | _⟩) computed
    have joins := @pair_joins .div _ _ rfl one_isProper proper rfl isNumber (.inr varied)
    rw [standardized_of_varied varied] at joins
    exact joins.admits (.integer 1) _ result ⟨Ntype.contains_ofConstant (.integer 1), rfl⟩ admits
      computed

section Rewrites

variable {call : Ntype → Ntype} (rewrites : Rewrites operation call)

include rewrites

theorem Rewrites.arithmetic_bounded (proper : type.IsProper) :
    Narrows (arithmetic operation [type]) .number := by
  rw [arithmetic_single]
  rcases folded_cases (Generic.arithmetic operation) [type]
    ((whenNumbers [type] (singleCall operation type)).getD .number)
    with ⟨value, folds, same⟩ | ⟨_, same⟩
  · rw [same]
    exact number_of_folds (List.forall_mem_singleton.mpr proper) folds
  · rw [same, rewrites.single]
    cases isNumber : type.proves .number with
    | false =>
        rw [whenNumbers_of_other isNumber]
        exact isProper_number.refl
    | true =>
        rw [whenNumbers_of_number isNumber]
        exact rewrites.bounded type proper isNumber

/-- Arithmetic on a number that is not known has the type to which the rule rewrites it. -/
theorem Rewrites.arithmetic_in_call (narrows : Narrows first second)
    (isNumber : second.proves .number = true) (varied : second.constant? = none) :
    Narrows (arithmetic operation [first]) (call second) := by
  have innerNumber : first.proves .number = true := narrows.proves isNumber
  rw [arithmetic_single]
  rcases folded_cases (Generic.arithmetic operation) [first]
    ((whenNumbers [first] (singleCall operation first)).getD .number)
    with ⟨value, folds, same⟩ | ⟨_, same⟩
  · rw [same]
    obtain ⟨literal, constant, computed⟩ := folds.single
    obtain ⟨own, number⟩ := exists_tier_of_constant innerNumber constant
    have admitted := narrows.admits constant number
    rw [standardized_of_varied varied] at admitted
    refine narrows_of_folds (List.forall_mem_singleton.mpr narrows.innerProper) folds
      (rewrites.bounded second narrows.outerProper isNumber).innerProper ?_
    exact (rewrites.covers second narrows.outerProper isNumber varied [literal.standardized] value
      (.cons admitted .nil)
      ((Generic.arithmetic_standardized operation [literal]).trans computed)).1
  · rw [same, rewrites.single, whenNumbers_of_number innerNumber]
    exact rewrites.monotone first second narrows

theorem Rewrites.arithmetic_monotone (narrows : Narrows first second) :
    Narrows (arithmetic operation [first]) (arithmetic operation [second]) := by
  have bounded := rewrites.arithmetic_bounded narrows.innerProper
  cases isNumber : second.proves .number with
  | false =>
      have wideSame : arithmetic operation [second] = .number := by
        rw [arithmetic_single]
        rcases folded_cases (Generic.arithmetic operation) [second]
          ((whenNumbers [second] (singleCall operation second)).getD .number)
          with ⟨value, folds, _⟩ | ⟨_, same⟩
        · obtain ⟨literal, constant, computed⟩ := folds.single
          have numbers := Generic.numbers_of_arithmetic computed literal List.mem_cons_self
          obtain ⟨own, number⟩ := Option.isSome_iff_exists.mp numbers
          cases isNumber.symm.trans (proves_number_of_constant constant number)
        · rw [same, whenNumbers_of_other isNumber]
          rfl
      rwa [wideSame]
  | true =>
      cases constant : second.constant? with
      | some literal =>
          rw [← narrows.eq_of_number isNumber constant]
          exact bounded.innerProper.refl
      | none =>
          have wideSame : arithmetic operation [second] = call second := by
            rw [arithmetic_single, folded_of_none (literals?_varied List.mem_cons_self constant),
              whenNumbers_of_number isNumber, rewrites.single]
            rfl
          rw [wideSame]
          exact rewrites.arithmetic_in_call narrows isNumber constant

end Rewrites

/-- Arithmetic on one narrower operand has a narrower type. -/
theorem single_monotone (isArithmetic : operation.isArithmetic = true)
    (narrows : Narrows first second) :
    Narrows (arithmetic operation [first]) (arithmetic operation [second]) := by
  cases operation with
  | add | mul => exact (rewrites_same rfl).arithmetic_monotone narrows
  | div => exact rewrites_inverse.arithmetic_monotone narrows
  | sub =>
      have isUnary : Operation.neg.isUnary = true := rfl
      exact unaryResult_monotone isUnary (fun _ => rfl) isProper_number
        (fun tier => Library.tierValues_number rfl _) narrows
  | _ => cases isArithmetic

end Inference

end Narrowing
