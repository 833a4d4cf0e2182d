import Narrowing.Proofs.TierResults

/-
This file shows that the operations of the tiers give reduced results for reduced numbers.
-/

namespace Narrowing

namespace Tier

variable {tier own left right : Tier} {operation : Operation} {value first second result : Value}

theorem mayGive_inexact {tier own : Tier} {operation : Operation} (inexact : tier.isExact = false)
    (gives : tier.mayGive operation own = true) : own.isExact = false := by
  revert inexact gives
  cases tier <;> cases operation <;> cases own <;> decide

/-- Exact arithmetic on reduced numbers gives reduced numbers. -/
theorem exactArithmetic_reduced (isExact : tier.isExact = true)
    (isArithmetic : operation.isArithmetic = true) (firstInside : first.InTier left)
    (secondInside : second.InTier right) (firstCovered : tier.covers left = true)
    (secondCovered : tier.covers right = true) (firstReduced : first.isReduced = true)
    (secondReduced : second.isReduced = true)
    (computed : tier.binary operation first second = .ok result) : result.isReduced = true := by
  cases tier with
  | integer =>
      obtain rfl := (covers_iff.mp firstCovered).resolve_right nofun
      obtain rfl := (covers_iff.mp secondCovered).resolve_right nofun
      obtain ⟨base, rfl⟩ := Value.exists_integer firstInside firstReduced
      obtain ⟨other, rfl⟩ := Value.exists_integer secondInside secondReduced
      cases operation with
      | add | sub | mul =>
          cases computed
          rfl
      | div => cases computed
      | _ => cases isArithmetic
  | rational =>
      obtain ⟨base, firstExact⟩ := firstInside.exists_exact (exact_of_covers rfl firstCovered)
      obtain ⟨other, secondExact⟩ := secondInside.exists_exact (exact_of_covers rfl secondCovered)
      have normalized : ∀ number, operation.meaning? base other = some (.number number) →
          operation ≠ .div →
          (Exact.binary operation first second).map Value.normalized = .ok result →
          result.isReduced = true := by
        intro number meant undivided computed
        obtain ⟨middle, succeeded, middleMeant⟩ :=
          Exact.binary_exact firstExact secondExact meant undivided
        rw [succeeded] at computed
        cases computed
        exact Value.isReduced_normalized (Value.meaning?_eq_number_iff.mp middleMeant)
      cases operation with
      | add | sub | mul => exact normalized _ rfl (by decide) computed
      | div =>
          obtain ⟨top, _, computed⟩ := exists_of_bind computed
          obtain ⟨bottom, _, computed⟩ := exists_of_bind computed
          split at computed <;> cases computed
          exact Value.isReduced_ofRat _
      | _ => cases isArithmetic
  | _ => cases isExact

/-- The exact negation or size of a reduced number is reduced. -/
theorem exactUnary_reduced (isExact : tier.isExact = true) (inside : value.InTier own)
    (covers : tier.covers own = true) (reduced : value.isReduced = true)
    (computed : tier.unary operation value = .ok result) : result.isReduced = true := by
  cases tier with
  | integer =>
      obtain rfl := (covers_iff.mp covers).resolve_right nofun
      obtain ⟨whole, rfl⟩ := Value.exists_integer inside reduced
      cases operation with
      | neg | abs =>
          cases computed
          rfl
      | _ => cases computed
  | rational =>
      have ownExact := exact_of_covers rfl covers
      obtain ⟨middle, applied, same⟩ := exists_of_map computed
      obtain ⟨number, known⟩ :=
        (exactUnary_inTier inside ownExact applied).exists_exact ownExact
      rw [← same]
      exact Value.isReduced_normalized known
  | _ => cases isExact

/-- A power of integers is an integer, unless it fails. -/
theorem integerPower_reduced {base exponent : Int}
    (computed : Exact.integerPower (.integer base) (.integer exponent) = .ok result) :
    result.isReduced = true := by
  obtain ⟨negative, tested, computed⟩ := exists_of_bind computed
  have known : (Value.integer exponent).isNegative =
      .ok (decide ((exponent : Rat) < ((0 : Int) : Rat))) := Value.less_exact rfl rfl
  cases tested.symm.trans known
  split at computed
  · cases computed
  · rename_i positive
    have positive : (0 : Rat) ≤ exponent := by simpa using positive
    have positive : 0 ≤ exponent := by exact_mod_cast positive
    rw [Operator.apply_plain _ rfl rfl] at computed
    change (if 0 ≤ exponent then _ else _ : Except Fault PlainNumber).map _ = _ at computed
    rw [if_pos positive] at computed
    cases computed
    rfl

/-- An exact operation on two reduced numbers gives a reduced value. -/
theorem exactBinary_reduced (isExact : tier.isExact = true)
    (computes : operation.isComparison = false) (firstInside : first.InTier left)
    (secondInside : second.InTier right) (firstCovered : tier.covers left = true)
    (secondCovered : tier.covers right = true) (firstReduced : first.isReduced = true)
    (secondReduced : second.isReduced = true)
    (computed : tier.binary operation first second = .ok result) : result.isReduced = true := by
  cases isArithmetic : operation.isArithmetic with
  | true =>
      exact exactArithmetic_reduced isExact isArithmetic firstInside secondInside firstCovered
        secondCovered firstReduced secondReduced computed
  | false =>
      cases operation with
      | expt =>
          cases tier with
          | integer =>
              obtain rfl := (covers_iff.mp firstCovered).resolve_right nofun
              obtain rfl := (covers_iff.mp secondCovered).resolve_right nofun
              obtain ⟨base, rfl⟩ := Value.exists_integer firstInside firstReduced
              obtain ⟨exponent, rfl⟩ := Value.exists_integer secondInside secondReduced
              exact integerPower_reduced computed
          | rational =>
              obtain ⟨base, _, computed⟩ := exists_of_bind computed
              obtain ⟨count, _, computed⟩ := exists_of_bind computed
              obtain ⟨power, _, same⟩ := exists_of_map computed
              rw [← same]
              exact Value.isReduced_ofRat power
          | _ => cases isExact
      | lt | eq => cases computes
      | add | sub | mul | div => cases isArithmetic
      | _ => cases tier <;> first | cases isExact; done | cases computed

/-- An operation of a tier on reduced numbers of the tier gives a reduced value. -/
theorem compute_reduced {values : List Value}
    (each : ∀ value ∈ values, ∃ own, value.InTier own ∧ tier.covers own = true)
    (reduced : ∀ value ∈ values, value.isReduced = true)
    (computed : tier.compute operation values = .ok result) : result.isReduced = true := by
  unfold compute at computed
  split at computed
  · rename_i value _
    obtain ⟨own, inside, covers⟩ := each value List.mem_cons_self
    cases exact : tier.isExact with
    | true =>
        exact exactUnary_reduced exact inside covers (reduced value List.mem_cons_self) computed
    | false =>
        obtain ⟨other, inTier, gives⟩ := unary_inTier inside covers computed
        exact Value.isReduced_of_inexact inTier (mayGive_inexact exact gives)
  · rename_i first second _
    cases compares : operation.isComparison with
    | true =>
        obtain ⟨truth, rfl⟩ := binary_truth compares computed
        rfl
    | false =>
        obtain ⟨left, firstInside, firstCovered⟩ := each first List.mem_cons_self
        obtain ⟨right, secondInside, secondCovered⟩ :=
          each second (List.mem_cons_of_mem first List.mem_cons_self)
        cases exact : tier.isExact with
        | true =>
            exact exactBinary_reduced exact compares firstInside secondInside firstCovered
              secondCovered (reduced first List.mem_cons_self)
              (reduced second (List.mem_cons_of_mem first List.mem_cons_self)) computed
        | false =>
            obtain ⟨other, inTier, gives⟩ := binary_inTier compares firstInside secondInside
              firstCovered secondCovered computed
            exact Value.isReduced_of_inexact inTier (mayGive_inexact exact gives)
  · cases computed

end Tier

end Narrowing
