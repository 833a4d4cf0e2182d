import Narrowing.Proofs.TypedArithmetic

/-
This file carries types through functions of one number, comparisons, floors and conversions.
-/

namespace Narrowing

/-- The type that the generic function declares holds its results: sizes are real. -/
theorem Tier.proves_function {operation : Operation} {own other : Tier}
    (gives : (unaryChosen operation own).mayGive operation other = true) :
    other.ntype.proves (Library.functionRecord operation).values.primary = true := by
  have each : ∀ operation ∈ Operation.all, ∀ own ∈ all, ∀ other ∈ all,
      (unaryChosen operation own).mayGive operation other = true →
        other.ntype.proves (Library.functionRecord operation).values.primary = true := by
    decide +kernel
  exact each operation operation.mem_all own own.mem_all other other.mem_all gives

namespace Engine

open Traced Operand

variable {environment : Environment} {engine : Engine} {allowed : Fault → Prop}
  {operands : List Operand} {operation : Operation} {tier : Tier}

theorem runs_function (isFunction : operation ∈ Library.functions) :
    Runs (Library.functionRecord operation) (Generic.ofUnary operation) where
  member := Library.function_mem isFunction
  implemented := rfl
  single := rfl
  foldable := rfl
  primitive := rfl

theorem computes_function :
    Computes (Library.functionRecord operation) (Generic.ofUnary operation) operands := by
  intro values result primary admitted computed first
  rw [@Registry.primaryValue_single (Library.functionRecord operation) rfl] at first
  cases first
  match values with
  | [] | _ :: _ :: _ => cases computed
  | [value] =>
      obtain ⟨own, ownTier, _⟩ := exists_of_bind computed
      have inside := Value.inTier_of_tier?
        (standard_of_admits admitted value List.mem_cons_self) (eq_some_of_orFault ownTier)
      obtain ⟨⟨other, resultInside, gives⟩, reduced⟩ := Generic.unary_inTier inside computed
      exact ⟨⟨Ntype.contains_of_proves (Tier.proves_function gives)
        (Ntype.contains_tier_of_inTier resultInside other.covers_self), resultInside.isStandard⟩,
        fun _ => reduced⟩

theorem runs_comparison (compares : operation ∈ [Operation.lt, .eq]) :
    Runs (Library.comparisonRecord operation) (Generic.ofBinary operation) where
  member := Library.comparison_mem compares
  implemented := rfl
  single := rfl
  foldable := rfl
  primitive := rfl

/-- A comparison of admitted values answers with a truth value. -/
theorem truth_of_ofBinary {values : List Value} {result : Value}
    (compares : operation.isComparison = true) (admitted : List.Forall₂ Admits operands values)
    (computed : Generic.ofBinary operation values = .ok result) :
    ∃ truth, result = .boolean truth := by
  match values with
  | [] | [_] | _ :: _ :: _ :: _ => cases computed
  | [first, second] =>
      have standard := standard_of_admits admitted
      obtain ⟨firstNumber, secondNumber⟩ := Generic.numbers_of_binary computed
      obtain ⟨left, firstInside⟩ :=
        Value.exists_inTier (standard first List.mem_cons_self) firstNumber
      obtain ⟨right, secondInside⟩ :=
        Value.exists_inTier (standard second (by simp)) secondNumber
      exact Generic.truth_of_binary compares firstInside secondInside computed

theorem computes_comparison (compares : operation.isComparison = true) :
    Computes (Library.comparisonRecord operation) (Generic.ofBinary operation) operands := by
  intro values result primary admitted computed first
  rw [@Registry.primaryValue_single (Library.comparisonRecord operation) rfl] at first
  cases first
  obtain ⟨truth, rfl⟩ := truth_of_ofBinary compares admitted computed
  have inside : (Ntype.primitive .boolean).contains (.boolean truth) = true := by
    cases truth <;> decide
  exact ⟨⟨inside, rfl⟩, fun _ => rfl⟩

/-- The floor of admitted values is an integer. -/
theorem computes_floor : Computes Library.floorRecord Generic.floor operands := by
  intro values result primary admitted computed first
  obtain ⟨whole, rest, rfl⟩ := Generic.floor_cases (standard_of_admits admitted) computed
  cases first
  have inside : Tier.integer.ntype.contains (.integer whole) = true :=
    Ntype.contains_tier_of_inTier (.integer whole) Tier.integer.covers_self
  refine ⟨⟨?_, ?_⟩, ?_⟩
  · exact inside
  · rfl
  · exact fun _ => rfl

variable (standard : engine.registry = .standard) (folds : engine.folds = true)
  (anyway : ∀ fault, allowed fault)

include standard folds anyway

/-- A specialized function of one number covers the generic function. -/
theorem meets_typedFunction (isFunction : operation ∈ Library.functions)
    (typed : ∀ operand ∈ operands, operand.Typed environment) (remaining depth : Nat) :
    ((engine.level remaining depth).specialize operation.symbol operands).Meets allowed
      fun made => made.Typed environment ∧ Covers (Generic.ofUnary operation) operands made := by
  have isUnary : operation.isUnary = true := by
    revert isFunction
    cases operation <;> decide
  refine meets_level (fun _ => anyway _) (fun remaining depth => ?_) remaining depth
  refine meets_covers standard folds anyway (runs_function isFunction) typed computes_function ?_
  change (engine.follow depth _ (Rule.function operation) operands).Meets _ _
  rw [follow_function]
  match operands with
  | [] | _ :: _ :: _ => exact meets_throw (anyway _)
  | [operand] =>
      simp only [functionAnswer]
      split
      · apply (meets_typedUnary standard folds anyway isUnary (typed operand List.mem_cons_self)
          remaining (depth + 1)).mono
        intro answer answers
        apply answers.mono
        rintro made described varied _ result (_ | ⟨admits, _ | _⟩) computed
        obtain ⟨tier, found, type⟩ := described (varied_singleton.mp varied)
        exact admits_of_unary isUnary found type admits computed
      · exact meets_pure .ofNone

/-- A specialized comparison covers the generic comparison. -/
theorem meets_typedComparison (member : operation ∈ [Operation.lt, .eq])
    (typed : ∀ operand ∈ operands, operand.Typed environment) (remaining depth : Nat) :
    ((engine.level remaining depth).specialize operation.symbol operands).Meets allowed
      fun made => made.Typed environment ∧ Covers (Generic.ofBinary operation) operands made := by
  have compares : operation.isComparison = true := by
    revert member
    cases operation <;> decide
  refine meets_level (fun _ => anyway _) (fun remaining depth => ?_) remaining depth
  refine meets_covers standard folds anyway (runs_comparison member) typed
    (computes_comparison compares) ?_
  change (engine.follow depth _ (Rule.comparison operation) operands).Meets _ _
  rw [follow_comparison]
  match operands with
  | [] | [_] | _ :: _ :: _ :: _ => exact meets_throw (anyway _)
  | [first, second] =>
      obtain ⟨firstTyped, secondTyped⟩ := List.forall_mem_cons.mp typed
      simp only [comparisonAnswer]
      split
      · rename_i numbers
        rw [Bool.and_eq_true] at numbers
        apply (meets_typedBinary standard folds anyway firstTyped
          (List.forall_mem_singleton.mp secondTyped) numbers.1 numbers.2 remaining
          (depth + 1)).mono
        intro answer answers
        apply answers.mono
        intro made described varied values result admitted computed
        obtain ⟨tier, _, type⟩ := described varied
        obtain ⟨truth, rfl⟩ := truth_of_ofBinary compares admitted computed
        rw [Admits, type]
        exact ⟨Tier.contains_tierValues_truth compares _ truth, rfl⟩
      · exact meets_pure .ofNone

/-- A specialized conversion to an inexact tier covers the conversion. -/
theorem meets_typedConversion (inexact : tier.isExact = false)
    (typed : ∀ operand ∈ operands, operand.Typed environment) (remaining depth : Nat) :
    ((engine.level remaining depth).specialize tier.name operands).Meets allowed
      fun made => made.Typed environment ∧ Covers (Generic.coerce tier) operands made := by
  refine meets_level (fun _ => anyway _) (fun remaining depth => ?_) remaining depth
  refine meets_covers standard folds anyway (runs_coercion inexact) typed
    (computes_coercion inexact) ?_
  change (engine.follow depth _ (Rule.coercion tier) operands).Meets _ _
  rw [follow_coercion]
  match operands with
  | [] | _ :: _ :: _ => exact meets_throw (anyway _)
  | [operand] =>
      simp only [coercionAnswer]
      split
      · rename_i proven
        refine meets_pure (.ofSome (typed operand List.mem_cons_self) ?_)
        rintro varied _ result (_ | ⟨admits, _ | _⟩) computed
        -- The operand has the type of the tier, so the conversion stays among its numbers.
        obtain ⟨own, inside, covers⟩ :=
          within_of_proves proven _ (.cons admits .nil) _ List.mem_cons_self
        cases Tier.eq_of_covers covers inexact
        have converted := Generic.coerce_inTier inexact admits.2 computed
        exact admits.of_resembles (varied_singleton.mp varied)
          (Value.resembles_of_inexact inside converted inexact)
      · exact meets_pure .ofNone

/-- A floor has no rule, and it never runs early since it has two values. -/
theorem meets_plainFloor {property : Operand → Prop}
    (plain : Library.floorRecord.accepts operands.length = true →
      property (plainCall Library.floorRecord operands)) (remaining depth : Nat) :
    ((engine.level remaining depth).specialize "floor" operands).Meets allowed property := by
  refine meets_level (fun _ => anyway _) (fun remaining depth => ?_) remaining depth
  cases accepts : Library.floorRecord.accepts operands.length with
  | false => exact meets_rejected standard anyway Library.floor_mem accepts
  | true =>
      have unfolded : engine.fold? Library.floorRecord operands = .ok none := by
        unfold fold?
        rw [folds]
        rfl
      apply meets_specializeCall standard Library.floor_mem accepts
      rw [unfolded]
      exact meets_pure (plain accepts)

theorem meets_typedFloor (typed : ∀ operand ∈ operands, operand.Typed environment)
    (remaining depth : Nat) :
    ((engine.level remaining depth).specialize "floor" operands).Meets allowed fun made =>
      made.Typed environment ∧
        Covers (Registry.standard.applyOperation "floor") operands made := by
  refine meets_plainFloor standard folds anyway (fun accepts => ?_) remaining depth
  refine ⟨typed_plainCall Library.floor_mem rfl rfl accepts typed computes_floor, ?_⟩
  intro values primary admitted applied
  rw [admitted.length_eq] at accepts
  have steps := Registry.standard_applyOperation Library.floor_mem rfl accepts
  obtain ⟨result, computed, first⟩ := exists_of_bind (steps.symm.trans applied)
  exact (computes_floor values result primary admitted computed first).1

end Engine

end Narrowing
