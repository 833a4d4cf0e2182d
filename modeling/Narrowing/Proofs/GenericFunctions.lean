import Narrowing.Proofs.GenericResults

/-
This file finds the results of generic functions, powers, floors and conversions.
-/

namespace Narrowing

namespace Tier

/-- The tier in which a generic function of one number computes. -/
def unaryChosen (operation : Operation) (own : Tier) : Tier :=
  if Generic.keepsTier operation then own else own.floatFor

end Tier

namespace Generic

variable {operation : Operation} {value first second result : Value} {own left right : Tier}

/-- A generic function of one number computes in a tier of its own. -/
theorem unary_inTier (inside : value.InTier own) (computed : unary operation value = .ok result) :
    (∃ other, result.InTier other ∧
      (Tier.unaryChosen operation own).mayGive operation other = true) ∧
      result.isReduced = true := by
  obtain ⟨tier, ownTier, computed⟩ := exists_of_bind computed
  cases (eq_some_of_orFault ownTier).symm.trans inside.tier?
  obtain ⟨converted, toTier, computed⟩ := exists_of_bind computed
  change value.toTier (Tier.unaryChosen operation own) = _ at toTier
  change (Tier.unaryChosen operation own).unary operation converted = _ at computed
  obtain ⟨⟨other, convertedInside, covers⟩, reduced⟩ := Value.toTier_inTier inside toTier
  obtain ⟨last, resultInside, gives⟩ := Tier.unary_inTier convertedInside covers computed
  refine ⟨⟨last, resultInside, gives⟩, ?_⟩
  cases exact : (Tier.unaryChosen operation own).isExact with
  | false =>
      exact Value.isReduced_of_inexact resultInside (Tier.mayGive_inexact exact gives)
  | true => exact Tier.exactUnary_reduced exact convertedInside covers reduced computed

/-- Sums, differences, products and quotients of standard values are reduced numbers. -/
theorem arithmetic_inTier {values : List Value}
    (standard : ∀ value ∈ values, value.isStandard = true)
    (computed : arithmetic operation values = .ok result) :
    (∃ own, result.InTier own) ∧ result.isReduced = true := by
  have numbers := numbers_of_arithmetic computed
  have chained : ∀ {first second : Value} {rest : List Value}, operation.isArithmetic = true →
      values = first :: second :: rest → fold operation first (second :: rest) = .ok result →
      (∃ own, result.InTier own) ∧ result.isReduced = true := by
    rintro first second rest isArithmetic rfl computed
    obtain ⟨own, inside⟩ := Value.exists_inTier (standard first List.mem_cons_self)
      (numbers first List.mem_cons_self)
    exact fold_inTier isArithmetic
      (fun value member => standard value (List.mem_cons_of_mem _ member)) inside nofun computed
  cases operation with
  | add => exact fold_inTier rfl standard (.integer 0) (fun _ => rfl) computed
  | mul => exact fold_inTier rfl standard (.integer 1) (fun _ => rfl) computed
  | sub =>
      match values with
      | [] => cases computed
      | [value] =>
          obtain ⟨own, inside⟩ := Value.exists_inTier (standard value List.mem_cons_self)
            (numbers value List.mem_cons_self)
          obtain ⟨⟨other, resultInside, _⟩, reduced⟩ := unary_inTier inside computed
          exact ⟨⟨other, resultInside⟩, reduced⟩
      | first :: second :: rest => exact chained rfl rfl computed
  | div =>
      match values with
      | [] => cases computed
      | [value] =>
          obtain ⟨own, inside⟩ := Value.exists_inTier (standard value List.mem_cons_self)
            (numbers value List.mem_cons_self)
          obtain ⟨⟨other, resultInside, _⟩, reduced⟩ :=
            binary_inTier rfl (.integer 1) inside computed
          exact ⟨⟨other, resultInside⟩, reduced⟩
      | first :: second :: rest => exact chained rfl rfl computed
  | _ => cases computed

/-- A conversion to an inexact tier gives a number of this tier. -/
theorem coerce_inTier {target : Tier} (inexact : target.isExact = false)
    (standard : value.isStandard = true) (computed : coerce target [value] = .ok result) :
    result.InTier target := by
  obtain ⟨source, ownTier, computed⟩ := exists_of_bind computed
  have inside := Value.inTier_of_tier? standard (eq_some_of_orFault ownTier)
  split at computed
  · cases computed
  · obtain ⟨⟨other, resultInside, covers⟩, _⟩ := Value.toTier_inTier inside computed
    cases Tier.eq_of_covers covers inexact
    exact resultInside

/-- The word of a standard number does not exist. -/
theorem wordQuotient_eq (firstInside : first.InTier left) (secondInside : second.InTier right)
    (quotient : Int) : wordQuotient first second quotient = .ok (.integer quotient) := by
  cases firstInside <;> cases secondInside <;> rfl

/-- A floor comes with the rest and is an integer. -/
theorem floorQuotient_cases (firstStandard : first.isStandard = true)
    (secondStandard : second.isStandard = true)
    (computed : floorQuotient first second = .ok result) :
    ∃ whole rest, result = .tuple [.integer whole, rest] := by
  obtain ⟨left, leftTier, computed⟩ := exists_of_bind computed
  obtain ⟨right, rightTier, computed⟩ := exists_of_bind computed
  have firstInside := Value.inTier_of_tier? firstStandard (eq_some_of_orFault leftTier)
  have secondInside := Value.inTier_of_tier? secondStandard (eq_some_of_orFault rightTier)
  simp only at computed
  split at computed
  · cases computed
  split at computed
  · obtain ⟨top, _, computed⟩ := exists_of_bind computed
    obtain ⟨bottom, _, computed⟩ := exists_of_bind computed
    split at computed
    · cases computed
    · simp only [wordQuotient_eq firstInside secondInside] at computed
      cases computed
      exact ⟨_, _, rfl⟩
  · obtain ⟨top, _, computed⟩ := exists_of_bind computed
    obtain ⟨bottom, _, computed⟩ := exists_of_bind computed
    split at computed
    · cases computed
    simp only at computed
    split at computed
    · cases computed
    obtain ⟨quotient, _, computed⟩ := exists_of_bind computed
    obtain ⟨whole, _, computed⟩ := exists_of_bind computed
    obtain ⟨rest, _, computed⟩ := exists_of_bind computed
    cases computed
    exact ⟨quotient, rest, rfl⟩

theorem floor_cases {values : List Value} (standard : ∀ value ∈ values, value.isStandard = true)
    (computed : floor values = .ok result) :
    ∃ whole rest, result = .tuple [.integer whole, rest] := by
  match values with
  | [] | _ :: _ :: _ :: _ => cases computed
  | [value] => exact floorQuotient_cases (standard value List.mem_cons_self) rfl computed
  | [first, second] =>
      exact floorQuotient_cases (standard first List.mem_cons_self)
        (standard second (List.mem_cons_of_mem _ List.mem_cons_self)) computed

end Generic

end Narrowing
