import Mathlib.Algebra.DualNumber
import Mathlib.Tactic.FieldSimp
import Mathlib.Tactic.Ring
import Narrowing.Library.Rule
import Narrowing.Proofs.ExactArithmetic

/-
This file computes with dual numbers and proves the chain rule of calls on them.
-/

namespace Narrowing

open TrivSqZeroExt

namespace Operation

theorem foldMeaning?_add (first : Rat) (rest : List Rat) :
    foldMeaning? .add first rest = some (first + rest.sum) := by
  induction rest generalizing first with
  | nil => simp [foldMeaning?]
  | cons second rest inductionHypothesis =>
      simp only [foldMeaning?, meaning?, inductionHypothesis, List.sum_cons, add_assoc]

theorem foldMeaning?_sub (first : Rat) (rest : List Rat) :
    foldMeaning? .sub first rest = some (first - rest.sum) := by
  induction rest generalizing first with
  | nil => simp [foldMeaning?]
  | cons second rest inductionHypothesis =>
      simp only [foldMeaning?, meaning?, inductionHypothesis, List.sum_cons, sub_sub]

theorem foldMeaning?_mul (first : Rat) (rest : List Rat) :
    foldMeaning? .mul first rest = some (first * rest.prod) := by
  induction rest generalizing first with
  | nil => simp [foldMeaning?]
  | cons second rest inductionHypothesis =>
      simp only [foldMeaning?, meaning?, inductionHypothesis, List.prod_cons, mul_assoc]

/-- A quotient is defined if no divisor is zero. -/
theorem foldMeaning?_div (first : Rat) (rest : List Rat) :
    foldMeaning? .div first rest = if 0 ∈ rest then none else some (first / rest.prod) := by
  induction rest generalizing first with
  | nil => simp [foldMeaning?]
  | cons second rest inductionHypothesis =>
      by_cases zero : second = 0
      · simp [foldMeaning?, meaning?, zero]
      · simp [foldMeaning?, meaning?, zero, inductionHypothesis, div_div, eq_comm]

end Operation

namespace Dual

/-- The power with a whole exponent. -/
def power (base : DualNumber Rat) (count : Int) : DualNumber Rat :=
  if 0 ≤ count then base ^ count.toNat else (base ^ count.natAbs)⁻¹

/-- A call on dual numbers; the exponent of a power is a whole number. -/
def call : String → List (DualNumber Rat) → DualNumber Rat
  | "+", operands => operands.sum
  | "*", operands => operands.prod
  | "-", [operand] => -operand
  | "-", first :: rest => first - rest.sum
  | "/", [operand] => operand⁻¹
  | "/", first :: rest => first * rest.prod⁻¹
  | "expt", [base, exponent] => power base exponent.fst.num
  | _, _ => 0

/-- The derivative of a call in one of its operands. -/
def partialAt : String → List Rat → Nat → Rat
  | "+", _, _ => 1
  | "*", operands, index => (operands.eraseIdx index).prod
  | "-", [_], _ => -1
  | "-", _, 0 => 1
  | "-", _, _ + 1 => -1
  | "/", [operand], _ => -1 / (operand * operand)
  | "/", _ :: rest, 0 => 1 / rest.prod
  | "/", first :: rest, index + 1 => -(first / rest.prod / rest.getD index 0)
  | "expt", [base, exponent], 0 => exponent * base ^ (exponent.num - 1)
  | _, _, _ => 0

/-- The slopes of several dual numbers, summed up with weights. -/
def weighted (weights : Nat → Rat) (operands : List (DualNumber Rat)) : Rat :=
  ((List.range operands.length).map fun index => weights index * (operands.getD index 0).snd).sum

variable {weights : Nat → Rat} {operand : DualNumber Rat} {operands : List (DualNumber Rat)}

theorem weighted_nil : weighted weights [] = 0 := rfl

theorem weighted_cons : weighted weights (operand :: operands) =
    weights 0 * operand.snd + weighted (fun index => weights (index + 1)) operands := by
  unfold weighted
  rw [List.length_cons, List.range_succ_eq_map, List.map_cons, List.sum_cons, List.map_map]
  rfl

theorem weighted_mul (factor : Rat) (weights : Nat → Rat) (operands : List (DualNumber Rat)) :
    weighted (fun index => factor * weights index) operands =
      factor * weighted weights operands := by
  induction operands generalizing weights with
  | nil => simp [weighted_nil]
  | cons operand operands inductionHypothesis =>
      rw [weighted_cons, weighted_cons, inductionHypothesis fun index => weights (index + 1)]
      ring

theorem weighted_one (operands : List (DualNumber Rat)) :
    weighted (fun _ => 1) operands = operands.sum.snd := by
  induction operands with
  | nil => rfl
  | cons operand operands inductionHypothesis =>
      rw [weighted_cons, inductionHypothesis, List.sum_cons, snd_add, one_mul]

theorem fst_sum (operands : List (DualNumber Rat)) :
    operands.sum.fst = (operands.map fst).sum := by
  induction operands with
  | nil => rfl
  | cons operand operands inductionHypothesis =>
      rw [List.sum_cons, fst_add, inductionHypothesis, List.map_cons, List.sum_cons]

theorem fst_prod (operands : List (DualNumber Rat)) :
    operands.prod.fst = (operands.map fst).prod := by
  induction operands with
  | nil => rfl
  | cons operand operands inductionHypothesis =>
      rw [List.prod_cons, fst_mul, inductionHypothesis, List.map_cons, List.prod_cons]

/-- The product rule. -/
theorem weighted_eraseIdx (operands : List (DualNumber Rat)) :
    weighted (fun index => ((operands.map fst).eraseIdx index).prod) operands =
      operands.prod.snd := by
  induction operands with
  | nil => rfl
  | cons operand operands inductionHypothesis =>
      have later : ∀ index, ((operand.fst :: operands.map fst).eraseIdx (index + 1)).prod =
          operand.fst * ((operands.map fst).eraseIdx index).prod := fun _ => List.prod_cons
      rw [weighted_cons, List.map_cons, List.prod_cons]
      simp only [later, weighted_mul, inductionHypothesis]
      simp only [List.eraseIdx_cons_zero, ← fst_prod, snd_mul, smul_eq_mul, op_smul_eq_smul]
      ring

/-- The logarithmic derivative of a product. -/
theorem weighted_inv (operands : List (DualNumber Rat))
    (nonzero : ∀ operand ∈ operands, operand.fst ≠ 0) :
    weighted (fun index => ((operands.map fst).getD index 0)⁻¹) operands =
      operands.prod.snd / operands.prod.fst := by
  induction operands with
  | nil => simp [weighted_nil]
  | cons operand operands inductionHypothesis =>
      obtain ⟨first, rest⟩ := List.forall_mem_cons.mp nonzero
      have others : operands.prod.fst ≠ 0 := by
        rw [fst_prod]
        refine List.prod_ne_zero fun zero => ?_
        obtain ⟨other, member, vanishes⟩ := List.mem_map.mp zero
        exact rest other member vanishes
      rw [weighted_cons]
      simp only [List.map_cons, List.getD_cons_succ, List.getD_cons_zero, inductionHypothesis rest,
        List.prod_cons, snd_mul, fst_mul, smul_eq_mul, op_smul_eq_smul]
      field_simp
      ring

theorem snd_call_add (operands : List (DualNumber Rat)) :
    (call "+" operands).snd = weighted (partialAt "+" (operands.map fst)) operands :=
  (weighted_one operands).symm

theorem snd_call_mul (operands : List (DualNumber Rat)) :
    (call "*" operands).snd = weighted (partialAt "*" (operands.map fst)) operands :=
  (weighted_eraseIdx operands).symm

/-- The first operand of a difference counts once and the others count against it. -/
theorem snd_call_sub (filled : operands ≠ []) :
    (call "-" operands).snd = weighted (partialAt "-" (operands.map fst)) operands := by
  match operands with
  | [] => exact absurd rfl filled
  | [operand] =>
      change (-operand).snd = _
      rw [weighted_cons, weighted_nil, List.map_cons, List.map_nil, partialAt, snd_neg]
      ring
  | first :: second :: rest =>
      have others : weighted (fun _ => (-1 : Rat)) (second :: rest) = -(second :: rest).sum.snd := by
        have scaled := weighted_mul (-1) (fun _ => 1) (second :: rest)
        rwa [weighted_one, mul_one, neg_one_mul] at scaled
      rw [weighted_cons]
      change (first - (second :: rest).sum).snd =
        1 * first.snd + weighted (fun _ => (-1 : Rat)) (second :: rest)
      rw [others, snd_sub]
      ring

/-- The quotient rule. -/
theorem snd_call_div (filled : operands ≠ [])
    (nonzero : ∀ divisor ∈ operands.tail, divisor.fst ≠ 0)
    (alone : ∀ operand, operands = [operand] → operand.fst ≠ 0) :
    (call "/" operands).snd = weighted (partialAt "/" (operands.map fst)) operands := by
  match operands with
  | [] => exact absurd rfl filled
  | [operand] =>
      have divides := alone operand rfl
      change operand⁻¹.snd = _
      rw [weighted_cons, weighted_nil, List.map_cons, List.map_nil, partialAt, snd_inv]
      simp only [smul_eq_mul, op_smul_eq_smul]
      field_simp
      ring
  | first :: second :: rest =>
      have divides : (second :: rest).prod.fst ≠ 0 := by
        rw [fst_prod]
        refine List.prod_ne_zero fun zero => ?_
        obtain ⟨other, member, vanishes⟩ := List.mem_map.mp zero
        exact nonzero other member vanishes
      have others : weighted (fun index => -(first.fst / ((second :: rest).map fst).prod /
          ((second :: rest).map fst).getD index 0)) (second :: rest) =
          -(first.fst / (second :: rest).prod.fst) *
            ((second :: rest).prod.snd / (second :: rest).prod.fst) := by
        rw [← weighted_inv (second :: rest) nonzero, ← weighted_mul, ← fst_prod]
        simp only [div_eq_mul_inv, neg_mul]
      rw [weighted_cons]
      change (first * (second :: rest).prod⁻¹).snd =
        1 / ((second :: rest).map fst).prod * first.snd + weighted (fun index =>
          -(first.fst / ((second :: rest).map fst).prod /
            ((second :: rest).map fst).getD index 0)) (second :: rest)
      rw [others, ← fst_prod, snd_mul, snd_inv, fst_inv]
      simp only [smul_eq_mul, op_smul_eq_smul]
      field_simp
      ring

/-- The power rule, which needs no power of zero with a negative exponent. -/
theorem snd_power (base : DualNumber Rat) (count : Int) (defined : ¬(base.fst = 0 ∧ count < 0)) :
    (power base count).snd = count * base.fst ^ (count - 1) * base.snd := by
  unfold power
  split
  · rename_i positive
    obtain ⟨exponent, rfl⟩ := Int.eq_ofNat_of_zero_le positive
    rw [Int.toNat_natCast, snd_pow]
    cases exponent with
    | zero => simp
    | succ exponent =>
        have lowered : ((exponent + 1 : Nat) : Int) - 1 = exponent := by omega
        rw [lowered, zpow_natCast, Nat.pred_succ]
        simp only [nsmul_eq_mul, smul_eq_mul]
        push_cast
        ring
  · rename_i negative
    obtain ⟨exponent, rfl⟩ : ∃ exponent : Nat, count = -((exponent : Int) + 1) :=
      ⟨(-count - 1).toNat, by omega⟩
    have nonzero : base.fst ≠ 0 := fun zero => defined ⟨zero, by omega⟩
    have size : (-((exponent : Int) + 1)).natAbs = exponent + 1 := by omega
    have lowered : -((exponent : Int) + 1) - 1 = -((exponent + 2 : Nat) : Int) := by omega
    rw [size, snd_inv, snd_pow, fst_pow, lowered, zpow_neg, zpow_natCast]
    simp only [nsmul_eq_mul, smul_eq_mul, op_smul_eq_smul, Nat.pred_succ]
    field_simp
    push_cast
    ring

theorem fst_power (base : DualNumber Rat) (count : Int) :
    (power base count).fst = base.fst ^ count := by
  unfold power
  split
  · rename_i positive
    rw [fst_pow, ← zpow_natCast, Int.toNat_of_nonneg positive]
  · rename_i negative
    rw [fst_inv, fst_pow, ← zpow_natCast, ← zpow_neg]
    congr 1
    omega

/-- The divisors of a quotient that is defined. -/
theorem nonzero_of_fold {first number : Rat} {divisors : List (DualNumber Rat)}
    (meant : Operation.foldMeaning? .div first (divisors.map fst) = some number) :
    ∀ divisor ∈ divisors, divisor.fst ≠ 0 := by
  rw [Operation.foldMeaning?_div] at meant
  split at meant
  · cases meant
  · rename_i absent
    exact fun divisor member zero => absent (zero ▸ List.mem_map_of_mem member)

/-- A call on dual numbers has the value of the call on fractions, and the slope that the chain
rule gives. -/
theorem call_of_meaning {operation : Operation} (isArithmetic : operation.isArithmetic = true)
    {number : Rat} (meant : operation.arithmeticMeaning? (operands.map fst) = some number) :
    (call operation.symbol operands).fst = number ∧
      (call operation.symbol operands).snd =
        weighted (partialAt operation.symbol (operands.map fst)) operands := by
  cases operation with
  | add =>
      rw [Operation.arithmeticMeaning?, Operation.foldMeaning?_add, zero_add, ← fst_sum] at meant
      exact ⟨Option.some.inj meant, snd_call_add operands⟩
  | mul =>
      rw [Operation.arithmeticMeaning?, Operation.foldMeaning?_mul, one_mul, ← fst_prod] at meant
      exact ⟨Option.some.inj meant, snd_call_mul operands⟩
  | sub =>
      rcases operands with _ | ⟨first, _ | ⟨second, rest⟩⟩
      · cases meant
      · exact ⟨Option.some.inj meant, snd_call_sub (List.cons_ne_nil _ _)⟩
      · have folded : Operation.foldMeaning? .sub first.fst ((second :: rest).map fst) =
            some number := meant
        rw [Operation.foldMeaning?_sub, ← fst_sum] at folded
        exact ⟨Option.some.inj folded, snd_call_sub (List.cons_ne_nil _ _)⟩
  | div =>
      rcases operands with _ | ⟨first, _ | ⟨second, rest⟩⟩
      · cases meant
      · have folded : Operation.foldMeaning? .div 1 ([first].map fst) = some number := meant
        have nonzero := nonzero_of_fold folded first List.mem_cons_self
        refine ⟨?_, snd_call_div (List.cons_ne_nil _ _) (by simp) fun other same => ?_⟩
        · simp [Operation.foldMeaning?_div, nonzero.symm] at folded
          exact folded
        · cases same
          exact nonzero
      · have folded : Operation.foldMeaning? .div first.fst ((second :: rest).map fst) =
            some number := meant
        have nonzero := nonzero_of_fold folded
        refine ⟨?_, snd_call_div (List.cons_ne_nil _ _) nonzero (by simp)⟩
        rw [Operation.foldMeaning?_div, ← fst_prod] at folded
        split at folded
        · cases folded
        · rw [← Option.some.inj folded, div_eq_mul_inv]
          exact fst_mul _ _
  | _ => cases isArithmetic

end Dual

end Narrowing
