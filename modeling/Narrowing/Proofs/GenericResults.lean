import Narrowing.Proofs.ReducedResults
import Narrowing.Proofs.TierConversions

/-
This file finds the results of generic sums, differences, products and quotients.
-/

namespace Narrowing

namespace Tier

/-- The tier in which a generic operation computes when its operands meet in a tier. -/
def chosen (operation : Operation) (met : Tier) : Tier :=
  if operation = .div ∧ met = .integer then .rational else met

theorem chosen_eq (operation : Operation) {met : Tier} (inexact : met.isExact = false) :
    chosen operation met = met := by
  unfold chosen
  split
  · rename_i both
    rw [both.2] at inexact
    cases inexact
  · rfl

theorem isExact_chosen (operation : Operation) (met : Tier) :
    (chosen operation met).isExact = met.isExact := by
  unfold chosen
  split
  · rename_i both
    rw [both.2]
    rfl
  · rfl

/-- Operands whose types meet in a tier may meet in a tier that it covers. -/
theorem covers_chosen {operation : Operation} {tier met : Tier}
    (found : met = tier ∨ (tier = .rational ∧ met = .integer)) :
    (chosen operation tier).covers (chosen operation met) = true := by
  rcases found with rfl | ⟨rfl, rfl⟩
  · exact covers_self _
  · unfold chosen
    split <;> simp [covers]

theorem covers_trans {first second third : Tier} (outer : first.covers second = true)
    (inner : second.covers third = true) : first.covers third = true := by
  revert outer inner
  cases first <;> cases second <;> cases third <;> decide

/-- An exact operand leaves the other one in its tier, unless it is exact too. -/
theorem combine_exact {first second : Tier} (inexact : first.isExact = false)
    (exact : second.isExact = true) : first.combine second = first := by
  cases first <;> cases second <;> first | rfl | cases inexact; done | cases exact

theorem isComplex_combine {first second : Tier} :
    (first.combine second).isComplex = (first.isComplex || second.isComplex) := by
  cases first <;> cases second <;> rfl

end Tier

namespace Generic

variable {operation : Operation} {first second result : Value} {left right : Tier}

/-- The steps of a generic operation on two numbers. -/
theorem exists_of_binary (firstInside : first.InTier left) (secondInside : second.InTier right)
    (computed : binary operation first second = .ok result) :
    ∃ leftValue rightValue,
      (Tier.chosen operation (left.combine right)).offers operation = true ∧
      first.toTier (Tier.chosen operation (left.combine right)) = .ok leftValue ∧
      second.toTier (Tier.chosen operation (left.combine right)) = .ok rightValue ∧
      (Tier.chosen operation (left.combine right)).binary operation leftValue rightValue =
        .ok result := by
  obtain ⟨own, leftTier, computed⟩ := exists_of_bind computed
  cases (eq_some_of_orFault leftTier).symm.trans firstInside.tier?
  obtain ⟨other, rightTier, computed⟩ := exists_of_bind computed
  cases (eq_some_of_orFault rightTier).symm.trans secondInside.tier?
  change (if (!(Tier.chosen operation (left.combine right)).offers operation) then _ else _ :
    Except Fault Value) = _ at computed
  split at computed
  · cases computed
  rename_i offered
  obtain ⟨leftValue, leftConverted, computed⟩ := exists_of_bind computed
  obtain ⟨rightValue, rightConverted, computed⟩ := exists_of_bind computed
  exact ⟨leftValue, rightValue, by simpa using offered, leftConverted, rightConverted, computed⟩

/-- A generic operation whose steps succeed has their result. -/
theorem binary_of_steps {leftValue rightValue : Value} (firstInside : first.InTier left)
    (secondInside : second.InTier right)
    (offered : (Tier.chosen operation (left.combine right)).offers operation = true)
    (leftConverted : first.toTier (Tier.chosen operation (left.combine right)) = .ok leftValue)
    (rightConverted : second.toTier (Tier.chosen operation (left.combine right)) = .ok rightValue) :
    binary operation first second =
      (Tier.chosen operation (left.combine right)).binary operation leftValue rightValue := by
  simp only [binary, tier, firstInside.tier?, secondInside.tier?, orFault]
  change (if (!(Tier.chosen operation (left.combine right)).offers operation) then _ else
    first.toTier (Tier.chosen operation (left.combine right)) >>= fun leftValue =>
      second.toTier (Tier.chosen operation (left.combine right)) >>= fun rightValue =>
        (Tier.chosen operation (left.combine right)).binary operation leftValue rightValue) = _
  rw [offered, leftConverted, rightConverted]
  rfl

/-- A comparison of two numbers answers with a truth value. -/
theorem truth_of_binary (compares : operation.isComparison = true)
    (firstInside : first.InTier left) (secondInside : second.InTier right)
    (computed : binary operation first second = .ok result) : ∃ truth, result = .boolean truth := by
  obtain ⟨_, _, _, _, _, computed⟩ := exists_of_binary firstInside secondInside computed
  exact Tier.binary_truth compares computed

/-- Generic arithmetic computes in the tier where the operands meet. -/
theorem binary_inTier (isArithmetic : operation.isArithmetic = true)
    (firstInside : first.InTier left) (secondInside : second.InTier right)
    (computed : binary operation first second = .ok result) :
    (∃ own, result.InTier own ∧
      (Tier.chosen operation (left.combine right)).covers own = true) ∧
      result.isReduced = true := by
  obtain ⟨leftValue, rightValue, _, leftConverted, rightConverted, computed⟩ :=
    exists_of_binary firstInside secondInside computed
  obtain ⟨⟨leftOwn, leftInside, leftCovered⟩, leftReduced⟩ :=
    Value.toTier_inTier firstInside leftConverted
  obtain ⟨⟨rightOwn, rightInside, rightCovered⟩, rightReduced⟩ :=
    Value.toTier_inTier secondInside rightConverted
  have computes : operation.isComparison = false := by
    cases operation <;> first | rfl | cases isArithmetic
  cases inexact : (Tier.chosen operation (left.combine right)).isExact with
  | false =>
      cases Tier.eq_of_covers leftCovered inexact
      cases Tier.eq_of_covers rightCovered inexact
      have inside := Tier.arithmetic_inTier inexact isArithmetic leftInside rightInside computed
      exact ⟨⟨_, inside, Tier.covers_self _⟩, Value.isReduced_of_inexact inside inexact⟩
  | true =>
      exact ⟨Tier.exactBinary_inTier inexact computes leftInside rightInside leftCovered
          rightCovered computed,
        Tier.exactArithmetic_reduced inexact isArithmetic leftInside rightInside leftCovered
          rightCovered leftReduced rightReduced computed⟩

/-- Inexact arithmetic computes in the tier where the operands meet and nowhere else. -/
theorem binary_inexact (isArithmetic : operation.isArithmetic = true)
    (firstInside : first.InTier left) (secondInside : second.InTier right)
    (inexact : (left.combine right).isExact = false)
    (computed : binary operation first second = .ok result) :
    result.InTier (left.combine right) := by
  obtain ⟨⟨own, inside, covers⟩, _⟩ :=
    binary_inTier isArithmetic firstInside secondInside computed
  rw [Tier.chosen_eq operation inexact] at covers
  cases Tier.eq_of_covers covers inexact
  exact inside

/-- Sums and products of numbers that convert to the inexact tier where they meet have a result. -/
theorem binary_total {leftValue rightValue : Value} (repeats : operation.identity?.isSome = true)
    (firstInside : first.InTier left) (secondInside : second.InTier right)
    (inexact : (left.combine right).isExact = false)
    (leftConverted : first.toTier (left.combine right) = .ok leftValue)
    (rightConverted : second.toTier (left.combine right) = .ok rightValue) :
    ∃ result, binary operation first second = .ok result ∧ result.InTier (left.combine right) := by
  have chosen := Tier.chosen_eq operation inexact
  have offered : (Tier.chosen operation (left.combine right)).offers operation = true := by
    rw [chosen]
    cases operation with
    | add | mul => cases left.combine right <;> rfl
    | _ => cases repeats
  obtain ⟨⟨_, leftOwn, leftCovered⟩, _⟩ := Value.toTier_inTier firstInside leftConverted
  obtain ⟨⟨_, rightOwn, rightCovered⟩, _⟩ := Value.toTier_inTier secondInside rightConverted
  cases Tier.eq_of_covers leftCovered inexact
  cases Tier.eq_of_covers rightCovered inexact
  obtain ⟨result, computed, inside⟩ := Tier.binary_total inexact repeats leftOwn rightOwn
  have steps := binary_of_steps firstInside secondInside offered (by rwa [chosen])
    (by rwa [chosen])
  rw [chosen] at steps
  exact ⟨result, steps.trans computed, inside⟩

/-- Sums and products depend on an exact operand by its value and on another by its tier. -/
theorem binary_resembles {other : Value} (repeats : operation.identity?.isSome = true)
    (same : first.Resembles other) (secondInside : second.InTier right)
    (computed : binary operation first second = .ok result) :
    ∃ again, binary operation other second = .ok again ∧ result.Resembles again := by
  obtain ⟨left, firstInside, otherInside, sameExact⟩ := same
  have isArithmetic : operation.isArithmetic = true := by
    cases operation <;> first | rfl | cases repeats
  cases met : (left.combine right).isExact with
  | true =>
      rw [Tier.isExact_combine, Bool.and_eq_true] at met
      obtain ⟨number, firstExact⟩ := firstInside.exists_exact met.1
      obtain ⟨factor, secondExact⟩ := secondInside.exists_exact met.2
      obtain ⟨meaning, meant⟩ : ∃ meaning, operation.meaning? number factor =
          some (.number meaning) := by
        cases operation with
        | add | mul => exact ⟨_, rfl⟩
        | _ => cases repeats
      obtain ⟨found, succeeded, foundMeant⟩ := binary_exact firstExact secondExact meant
      cases computed.symm.trans succeeded
      obtain ⟨again, alsoSucceeded, againMeant⟩ :=
        binary_exact (sameExact ▸ firstExact) secondExact meant
      exact ⟨again, alsoSucceeded, Value.resembles_of_exact
        (Value.meaning?_eq_number_iff.mp foundMeant) (Value.meaning?_eq_number_iff.mp againMeant)⟩
  | false =>
      have inside := binary_inexact isArithmetic firstInside secondInside met computed
      obtain ⟨leftValue, rightValue, _, leftConverted, rightConverted, _⟩ :=
        exists_of_binary firstInside secondInside computed
      rw [Tier.chosen_eq operation met] at leftConverted rightConverted
      obtain ⟨otherValue, otherConverted⟩ : ∃ value,
          other.toTier (left.combine right) = .ok value := by
        cases exact : left.isExact with
        | true =>
            obtain ⟨number, firstExact⟩ := firstInside.exists_exact exact
            rw [← Value.toTier_congr firstExact (sameExact ▸ firstExact) met]
            exact ⟨leftValue, leftConverted⟩
        | false =>
            apply Value.exists_toTier otherInside exact met
            intro isComplex
            rw [Tier.isComplex_combine, isComplex]
            rfl
      obtain ⟨again, succeeded, againInside⟩ :=
        binary_total repeats otherInside secondInside met otherConverted rightConverted
      exact ⟨again, succeeded, Value.resembles_of_inexact inside againInside met⟩

/-- A neutral operand on the right leaves the other one as it is, but for its bits. -/
theorem binary_neutral {number : Int} (neutral : operation.neutral? = some number)
    (firstInside : first.InTier left) (exact : second.exactNumber? = some (number : Rat))
    (computed : binary operation first second = .ok result) : result.Resembles first := by
  have isArithmetic : operation.isArithmetic = true := by
    cases operation <;> first | rfl | cases neutral
  have secondInside := Value.inTier_of_exact exact
  rw [Rat.den_intCast] at secondInside
  cases isExact : left.isExact with
  | true =>
      obtain ⟨fraction, firstExact⟩ := firstInside.exists_exact isExact
      have meant : operation.meaning? fraction number = some (.number fraction) := by
        cases operation with
        | add | sub | mul | div =>
            cases neutral
            simp [Operation.meaning?]
        | _ => cases neutral
      obtain ⟨found, succeeded, foundMeant⟩ := binary_exact firstExact exact meant
      cases computed.symm.trans succeeded
      exact Value.resembles_of_exact (Value.meaning?_eq_number_iff.mp foundMeant) firstExact
  | false =>
      have same : left.combine .integer = left := Tier.combine_exact isExact rfl
      have inside := binary_inexact isArithmetic firstInside secondInside
        (by rw [if_pos rfl, same, isExact]) computed
      rw [if_pos rfl, same] at inside
      exact Value.resembles_of_inexact inside firstInside isExact

/-- The same for the operand on the left of a sum or a product. -/
theorem binary_identity {number : Int} (identity : operation.identity? = some number)
    (exact : first.exactNumber? = some (number : Rat)) (secondInside : second.InTier right)
    (computed : binary operation first second = .ok result) : result.Resembles second := by
  have isArithmetic : operation.isArithmetic = true := by
    cases operation <;> first | rfl | cases identity
  have firstInside := Value.inTier_of_exact exact
  rw [Rat.den_intCast] at firstInside
  cases isExact : right.isExact with
  | true =>
      obtain ⟨fraction, secondExact⟩ := secondInside.exists_exact isExact
      have meant : operation.meaning? number fraction = some (.number fraction) := by
        cases operation with
        | add | mul =>
            cases identity
            simp [Operation.meaning?]
        | _ => cases identity
      obtain ⟨found, succeeded, foundMeant⟩ := binary_exact exact secondExact meant
      cases computed.symm.trans succeeded
      exact Value.resembles_of_exact (Value.meaning?_eq_number_iff.mp foundMeant) secondExact
  | false =>
      have same : Tier.integer.combine right = right := by
        rw [Tier.combine_comm]
        exact Tier.combine_exact isExact rfl
      have inside := binary_inexact isArithmetic firstInside secondInside
        (by rw [if_pos rfl, same, isExact]) computed
      rw [if_pos rfl, same] at inside
      exact Value.resembles_of_inexact inside secondInside isExact

/-- An exact product that is zero is the integer zero. -/
theorem product_zero {base factor : Rat} (firstExact : first.exactNumber? = some base)
    (secondExact : second.exactNumber? = some factor) (zero : base * factor = 0)
    (computed : binary .mul first second = .ok result) : result = .integer 0 := by
  have product : Operation.mul.meaning? base factor = some (.number (base * factor)) := rfl
  obtain ⟨found, succeeded, meant⟩ := binary_exact firstExact secondExact product
  cases computed.symm.trans succeeded
  have exact := Value.meaning?_eq_number_iff.mp meant
  rw [zero] at exact
  have reduced := (binary_inTier rfl (Value.inTier_of_exact firstExact)
    (Value.inTier_of_exact secondExact) computed).2
  rw [Value.eq_ofRat_of_reduced reduced exact]
  rfl

/-- Operands that are combined from the left give a reduced number. -/
theorem fold_inTier (isArithmetic : operation.isArithmetic = true) {values : List Value}
    (standard : ∀ value ∈ values, value.isStandard = true) (firstInside : first.InTier left)
    (reduced : values = [] → first.isReduced = true)
    (computed : fold operation first values = .ok result) :
    (∃ own, result.InTier own) ∧ result.isReduced = true := by
  induction values generalizing first left with
  | nil =>
      cases computed
      exact ⟨⟨left, firstInside⟩, reduced rfl⟩
  | cons second rest inductionHypothesis =>
      obtain ⟨middle, step, finished⟩ := exists_of_bind computed
      obtain ⟨right, secondInside⟩ := Value.exists_inTier (standard second List.mem_cons_self)
        (numbers_of_binary step).2
      obtain ⟨⟨own, middleInside, _⟩, middleReduced⟩ :=
        binary_inTier isArithmetic firstInside secondInside step
      exact inductionHypothesis (fun value member => standard value (List.mem_cons_of_mem _ member))
        middleInside (fun _ => middleReduced) finished

theorem fold_append (operation : Operation) (first : Value) (before after : List Value) :
    fold operation first (before ++ after) =
      fold operation first before >>= fun middle => fold operation middle after :=
  List.foldlM_append

end Generic

end Narrowing
