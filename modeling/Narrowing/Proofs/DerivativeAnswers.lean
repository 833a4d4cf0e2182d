import Narrowing.Library.Derivative
import Narrowing.Proofs.PlanAnswers

/-
This file gives the answers of the derivative rules of arithmetic as functions of their operands.
-/

namespace Narrowing

namespace Engine

/-- Each operand of a sum has the derivative one. -/
def sumSlopeAnswer : Traced (Option Operand) := some <$> Traced.constant (.integer 1)

def differenceSlopeAnswer (index : Nat) (operands : List Operand) : Traced (Option Operand) :=
  some <$> Traced.constant (.integer (if operands.length = 1 ∨ 0 < index then -1 else 1))

/-- The other factors, multiplied. -/
def productSlopeAnswer (below : Level) (index : Nat) (operands : List Operand) :
    Traced (Option Operand) :=
  match operands.eraseIdx index with
  | [] => some <$> Traced.constant (.integer 1)
  | others => some <$> below.specialize "*" others

/-- The derivative of a reciprocal. -/
def reciprocalSlopeAnswer (below : Level) (operand : Operand) : Traced (Option Operand) := do
  let negative ← Traced.constant (.integer (-1))
  let square ← below.specialize "*" [operand, operand]
  some <$> below.specialize "/" [negative, square]

/-- The derivative in the dividend. -/
def dividendSlopeAnswer (below : Level) (divisors : List Operand) : Traced (Option Operand) := do
  let one ← Traced.constant (.integer 1)
  some <$> below.specialize "/" (one :: divisors)

/-- The derivative in one of the divisors. -/
def divisorSlopeAnswer (below : Level) (operands : List Operand) (divisor : Operand) :
    Traced (Option Operand) := do
  let whole ← below.specialize "/" operands
  let divided ← below.specialize "/" [whole, divisor]
  some <$> below.specialize "-" [divided]

/-- The derivative of a power in its base. -/
def powerSlopeAnswer (below : Level) (base exponent : Operand) : Traced (Option Operand) := do
  let one ← Traced.constant (.integer 1)
  let lowered ← below.specialize "-" [exponent, one]
  let lower ← below.specialize "expt" [base, lowered]
  some <$> below.specialize "*" [exponent, lower]

variable {engine : Engine} {depth : Nat} {below : Level} {known : List Operand}

theorem operandsOf_eraseIdx {handles : List Handle} {operands : List Operand}
    (present : operandsOf known handles = .ok operands) (index : Nat) :
    operandsOf known (handles.eraseIdx index) = .ok (operands.eraseIdx index) := by
  induction handles generalizing operands index with
  | nil =>
      cases present
      rfl
  | cons handle handles inductionHypothesis =>
      obtain ⟨operand, others, rfl, first, rest⟩ := operandsOf_cons_inv present
      cases index with
      | zero => exact rest
      | succ index => exact operandsOf_cons first (inductionHypothesis rest index)

/-- The newest operand is behind the handle that comes after all earlier ones. -/
theorem getElem?_newest (known : List Operand) (made : Operand) :
    (known ++ [made])[known.length]? = some made := by simp

theorem getElem?_earlier {handle : Handle} {operand : Operand}
    (present : known[handle]? = some operand) (later : List Operand) :
    (known ++ later)[handle]? = some operand := by
  rw [List.getElem?_append_left (List.getElem?_eq_some_iff.mp present).1, present]

theorem follow_sumSlope (index : Nat) (operands : List Operand) :
    engine.follow depth below (Derivative.sum index) operands = sumSlopeAnswer :=
  answer_some_ofConstant (.integer 1)

theorem follow_differenceSlope (index : Nat) (operands : List Operand) :
    engine.follow depth below (Derivative.difference index) operands =
      differenceSlopeAnswer index operands := by
  rw [follow_eq_answer, Derivative.difference, differenceSlopeAnswer, List.length_range]
  split
  · exact answer_some_ofConstant _
  · exact answer_some_ofConstant _

theorem follow_productSlope (index : Nat) (operands : List Operand) :
    engine.follow depth below (Derivative.product index) operands =
      productSlopeAnswer below index operands := by
  have present := operandsOf_eraseIdx (operandsOf_range operands) index
  rw [follow_eq_answer, Derivative.product, productSlopeAnswer]
  generalize (List.range operands.length).eraseIdx index = handles at present ⊢
  generalize operands.eraseIdx index = others at present ⊢
  cases handles with
  | nil =>
      cases present
      exact answer_some_ofConstant _
  | cons handle handles =>
      obtain ⟨operand, rest, rfl, _, _⟩ := operandsOf_cons_inv present
      exact answer_some_ofCall present

theorem follow_reciprocalSlope (index : Nat) (operand : Operand) :
    engine.follow depth below (Derivative.quotient index) [operand] =
      reciprocalSlopeAnswer below operand := by
  rw [follow_eq_answer]
  refine (answer_ofConstant (.integer (-1)) _).trans (bind_congr fun negative => ?_)
  refine (answer_ofCall (operandsOf_pair rfl rfl) _).trans (bind_congr fun square => ?_)
  exact answer_some_ofCall (operandsOf_pair rfl rfl)

/-- Two operands or more have handles that start with zero and one. -/
theorem range_eq_cons_cons (first second : Operand) (rest : List Operand) :
    List.range (first :: second :: rest).length =
      0 :: 1 :: (List.range rest.length).map (· + 2) := by
  rw [List.length_cons, List.length_cons, List.range_succ_eq_map, List.range_succ_eq_map]
  simp

theorem follow_dividendSlope (first second : Operand) (rest : List Operand) :
    engine.follow depth below (Derivative.quotient 0) (first :: second :: rest) =
      dividendSlopeAnswer below (second :: rest) := by
  have present := operandsOf_eraseIdx (operandsOf_range (first :: second :: rest)) 0
  rw [range_eq_cons_cons] at present
  rw [follow_eq_answer, range_eq_cons_cons]
  refine (answer_ofConstant (.integer 1) _).trans (bind_congr fun one => ?_)
  exact answer_some_ofCall (operandsOf_cons (getElem?_newest _ one) (operandsOf_append present [one]))

theorem follow_divisorSlope (first second : Operand) (rest : List Operand) (index : Nat)
    (divisor : Operand) (found : (second :: rest)[index]? = some divisor) :
    engine.follow depth below (Derivative.quotient (index + 1)) (first :: second :: rest) =
      divisorSlopeAnswer below (first :: second :: rest) divisor := by
  have present := operandsOf_range (first :: second :: rest)
  have within : index + 1 < (first :: second :: rest).length :=
    Nat.succ_lt_succ (List.getElem?_eq_some_iff.mp found).1
  have handle : (List.range (first :: second :: rest).length)[index + 1]? = some (index + 1) :=
    List.getElem?_range within
  rw [range_eq_cons_cons] at present handle
  rw [follow_eq_answer, range_eq_cons_cons]
  simp only [Derivative.quotient, Nat.succ_ne_zero, if_false, handle]
  refine (answer_ofCall present _).trans (bind_congr fun whole => ?_)
  have divisorPresent : (first :: second :: rest)[index + 1]? = some divisor := found
  refine (answer_ofCall (operandsOf_pair (getElem?_newest _ whole)
    (getElem?_earlier divisorPresent [whole])) _).trans (bind_congr fun divided => ?_)
  exact answer_some_ofCall (operandsOf_cons (getElem?_newest _ divided) rfl)

theorem follow_powerSlope (base exponent : Operand) :
    engine.follow depth below (Derivative.power 0) [base, exponent] =
      powerSlopeAnswer below base exponent := by
  rw [follow_eq_answer]
  refine (answer_ofConstant (.integer 1) _).trans (bind_congr fun one => ?_)
  refine (answer_ofCall (operandsOf_pair rfl rfl) _).trans (bind_congr fun lowered => ?_)
  refine (answer_ofCall (operandsOf_pair rfl rfl) _).trans (bind_congr fun lower => ?_)
  exact answer_some_ofCall (operandsOf_pair rfl rfl)

end Engine

end Narrowing
