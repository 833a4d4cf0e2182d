import Narrowing.Proofs.DerivativeAnswers
import Narrowing.Proofs.DualNumbers
import Narrowing.Proofs.ExactTypes

/-
This file shows that the derivative rules of arithmetic stand for the partial derivatives.
-/

namespace Narrowing

variable {environment : Environment}

/-- A derivative rule answers with an operand that has this value. -/
def Engine.Slopes (environment : Environment) (number : Rat) (answer : Option Operand) : Prop :=
  ∃ operand, answer = some operand ∧ operand.Sound environment (.number number)

namespace Engine

open Traced

variable {engine : Engine} {allowed : Fault → Prop} {operation : Operation}
  {operands : List Operand} {numbers : List Rat} {number : Rat}

theorem meets_slope {traced : Traced Operand}
    (meets : traced.Meets allowed (Operand.Sound environment · (.number number))) :
    (some <$> traced : Traced (Option Operand)).Meets allowed (Slopes environment number) :=
  Meets.map (meets.mono fun operand sound => ⟨operand, rfl, sound⟩)

theorem meets_slopeConstant (value : Int) :
    (some <$> Traced.constant (.integer value) : Traced (Option Operand)).Meets allowed
      (Slopes environment value) := meets_slope (meets_constant (.ofConstant rfl))

/-- The derivative of a call by the rule of its record. -/
theorem meets_differentiateCall (standard : engine.registry = .standard) {record : Record}
    (member : record ∈ Library.records) (accepts : record.accepts operands.length = true)
    {rule : DerivativeRule} (ruled : record.differentiator = some rule) {depth index : Nat}
    {below : Level} (within : index < operands.length) {property : Option Operand → Prop}
    (answers : (engine.follow depth below (rule index) operands).Meets allowed property) :
    (engine.differentiateCall depth below record.name operands index).Meets allowed property := by
  obtain ⟨serial, checked⟩ := Registry.standard_check member accepts
  unfold differentiateCall
  rw [standard, checked]
  simp only [ruled]
  rw [if_neg (by omega)]
  exact answers

/-- The derivative of a call is found on every level, or no level is left. -/
theorem meets_differentiate (deep : ∀ operation, allowed (.depth operation engine.ceiling))
    {name : String} {index : Nat}
    (each : ∀ remaining depth,
      (engine.differentiateCall depth (engine.level remaining (depth + 1)) name operands
        index).Meets allowed (Slopes environment number)) (depth : Nat) :
    (engine.differentiate depth name operands index).Meets allowed
      (Operand.Sound environment · (.number number)) := by
  have leveled : ((engine.levelAt depth).differentiate name operands index).Meets allowed
      (Slopes environment number) := by
    unfold levelAt
    cases (engine.ceiling + 1 - depth).toNat with
    | zero => exact meets_throw (deep name)
    | succ remaining => exact each remaining depth
  refine leveled.bind fun answer slopes => ?_
  obtain ⟨operand, rfl, sound⟩ := slopes
  exact meets_pure sound

/-- Operands beside their numbers, without the ones at one position. -/
theorem eraseIdx_related {relates : Operand → Rat → Prop}
    (related : List.Forall₂ relates operands numbers) (index : Nat) :
    List.Forall₂ relates (operands.eraseIdx index) (numbers.eraseIdx index) := by
  induction related generalizing index with
  | nil => exact .nil
  | cons first rest inductionHypothesis =>
      cases index with
      | zero => exact rest
      | succ index => exact .cons first (inductionHypothesis index)

/-- Operands beside their numbers, at one position. -/
theorem getElem?_related {relates : Operand → Rat → Prop}
    (related : List.Forall₂ relates operands numbers) {index : Nat}
    (within : index < operands.length) :
    ∃ operand, operands[index]? = some operand ∧ numbers.getD index 0 ∈ numbers ∧
      relates operand (numbers.getD index 0) := by
  induction related generalizing index with
  | nil => cases within
  | cons first rest inductionHypothesis =>
      cases index with
      | zero => exact ⟨_, rfl, List.mem_cons_self, first⟩
      | succ index =>
          obtain ⟨operand, found, member, holds⟩ :=
            inductionHypothesis (Nat.lt_of_succ_lt_succ within)
          exact ⟨operand, found, List.mem_cons_of_mem _ member, holds⟩

theorem meets_productSlope (standard : engine.registry = .standard)
    (deep : ∀ operation, allowed (.depth operation engine.ceiling))
    (sound : List.Forall₂ (fun operand number => Operand.Sound environment operand (.number number))
      operands numbers) (index remaining depth : Nat) :
    (productSlopeAnswer (engine.level remaining depth) index operands).Meets allowed
      (Slopes environment (Dual.partialAt "*" numbers index)) := by
  have others := eraseIdx_related sound index
  change (productSlopeAnswer _ _ _).Meets allowed
    (Slopes environment (numbers.eraseIdx index).prod)
  unfold productSlopeAnswer
  generalize numbers.eraseIdx index = factors at others ⊢
  split
  · rename_i empty
    rw [empty] at others
    cases others
    exact meets_slopeConstant 1
  · have meant : Operation.mul.arithmeticMeaning? factors = some factors.prod := by
      rw [Operation.arithmeticMeaning?, Operation.foldMeaning?_mul, one_mul]
    exact meets_slope (meets_arithmetic standard deep rfl (List.forall₂_map_right_iff.mpr others)
      meant remaining depth)

theorem meets_reciprocalSlope (standard : engine.registry = .standard)
    (deep : ∀ operation, allowed (.depth operation engine.ceiling)) {operand : Operand}
    (sound : operand.Sound environment (.number number)) (nonzero : number ≠ 0)
    (remaining depth : Nat) :
    (reciprocalSlopeAnswer (engine.level remaining depth) operand).Meets allowed
      (Slopes environment (-1 / (number * number))) := by
  have minus : (Traced.constant (.integer (-1))).Meets allowed
      (Operand.Sound environment · (.number (-1 : Int))) := meets_constant (.ofConstant rfl)
  have meant : Operation.div.meaning? ((-1 : Int) : Rat) (number * number) =
      some (.number (-1 / (number * number))) := by
    simp [Operation.meaning?, nonzero]
  have squared : Operation.mul.meaning? number number = some (.number (number * number)) := rfl
  refine minus.bind fun negative negativeSound => ?_
  refine (meets_pair standard deep rfl sound sound squared remaining depth).bind
    fun square squareSound => ?_
  exact meets_slope (meets_pair standard deep rfl negativeSound squareSound meant remaining depth)

/-- A quotient of operands with no zero among the divisors. -/
theorem meets_quotient (standard : engine.registry = .standard)
    (deep : ∀ operation, allowed (.depth operation engine.ceiling)) {first : Operand}
    {left : Rat} (firstSound : first.Sound environment (.number left))
    (filled : numbers ≠ [])
    (sound : List.Forall₂ (fun operand number => Operand.Sound environment operand (.number number))
      operands numbers) (nonzero : 0 ∉ numbers) (remaining depth : Nat) :
    ((engine.level remaining depth).specialize "/" (first :: operands)).Meets allowed
      (Operand.Sound environment · (.number (left / numbers.prod))) := by
  have meant : Operation.div.arithmeticMeaning? (left :: numbers) = some (left / numbers.prod) := by
    match numbers with
    | [] => exact absurd rfl filled
    | right :: others =>
        rw [Operation.arithmeticMeaning?_cons rfl, Operation.foldMeaning?_div, if_neg nonzero]
  exact meets_arithmetic standard deep rfl
    (.cons firstSound (List.forall₂_map_right_iff.mpr sound)) meant remaining depth

theorem meets_dividendSlope (standard : engine.registry = .standard)
    (deep : ∀ operation, allowed (.depth operation engine.ceiling)) (filled : numbers ≠ [])
    (sound : List.Forall₂ (fun operand number => Operand.Sound environment operand (.number number))
      operands numbers) (nonzero : 0 ∉ numbers) (remaining depth : Nat) :
    (dividendSlopeAnswer (engine.level remaining depth) operands).Meets allowed
      (Slopes environment (1 / numbers.prod)) := by
  have one : (Traced.constant (.integer 1)).Meets allowed
      (Operand.Sound environment · (.number (1 : Int))) := meets_constant (.ofConstant rfl)
  refine one.bind fun made madeSound => ?_
  refine meets_slope ?_
  have divided := meets_quotient standard deep madeSound filled sound nonzero remaining depth
  rwa [Int.cast_one] at divided

theorem meets_divisorSlope (standard : engine.registry = .standard)
    (deep : ∀ operation, allowed (.depth operation engine.ceiling)) {first divisor : Operand}
    {left right : Rat} (firstSound : first.Sound environment (.number left))
    (sound : List.Forall₂ (fun operand number => Operand.Sound environment operand (.number number))
      operands numbers) (divisorSound : divisor.Sound environment (.number right))
    (member : right ∈ numbers) (nonzero : 0 ∉ numbers) (remaining depth : Nat) :
    (divisorSlopeAnswer (engine.level remaining depth) (first :: operands) divisor).Meets allowed
      (Slopes environment (-(left / numbers.prod / right))) := by
  have divides : right ≠ 0 := fun zero => nonzero (zero ▸ member)
  have meant : Operation.div.meaning? (left / numbers.prod) right =
      some (.number (left / numbers.prod / right)) := if_neg divides
  refine (meets_quotient standard deep firstSound (List.ne_nil_of_mem member) sound nonzero
    remaining depth).bind fun whole wholeSound => ?_
  refine (meets_pair standard deep rfl wholeSound divisorSound meant remaining depth).bind
    fun divided dividedSound => ?_
  exact meets_slope (meets_arithmetic standard deep rfl (.cons dividedSound .nil)
    (show Operation.sub.arithmeticMeaning? [_] = some _ from rfl) remaining depth)

/-- The derivative of arithmetic in one operand is the partial derivative. -/
theorem meets_arithmeticSlope (standard : engine.registry = .standard)
    (deep : ∀ operation, allowed (.depth operation engine.ceiling))
    (isArithmetic : operation.isArithmetic = true)
    (sound : List.Forall₂ (fun operand number => Operand.Sound environment operand (.number number))
      operands numbers) (meant : operation.arithmeticMeaning? numbers = some number) {index : Nat}
    (within : index < operands.length) (depth : Nat) :
    (engine.differentiate depth operation.symbol operands index).Meets allowed
      (Operand.Sound environment · (.number (Dual.partialAt operation.symbol numbers index))) := by
  have accepts : (Library.genericRecord operation).accepts operands.length = true :=
    (Library.genericRecord_accepts operation _).mpr (.inr (by omega))
  have member := Library.genericRecord_mem isArithmetic
  refine meets_differentiate deep (fun remaining depth => ?_) depth
  cases operation with
  | add =>
      refine meets_differentiateCall standard member accepts rfl within ?_
      rw [follow_sumSlope]
      exact meets_slopeConstant 1
  | mul =>
      refine meets_differentiateCall standard member accepts rfl within ?_
      rw [follow_productSlope]
      exact meets_productSlope standard deep sound index remaining (depth + 1)
  | sub =>
      refine meets_differentiateCall standard member accepts rfl within ?_
      rw [follow_differenceSlope]
      match operands, numbers, sound, index with
      | [operand], [number], _, index => exact meets_slopeConstant (-1)
      | first :: second :: rest, left :: right :: others, _, 0 => exact meets_slopeConstant 1
      | first :: second :: rest, left :: right :: others, _, index + 1 =>
          exact meets_slopeConstant (-1)
  | div =>
      refine meets_differentiateCall standard member accepts rfl within ?_
      match operands, numbers, sound, index with
      | [operand], [number], .cons operandSound .nil, index =>
          rw [follow_reciprocalSlope]
          have nonzero : number ≠ 0 := by
            rintro rfl
            cases meant
          exact meets_reciprocalSlope standard deep operandSound nonzero remaining (depth + 1)
      | first :: second :: rest, left :: right :: others, .cons firstSound restSound, index =>
          have nonzero : 0 ∉ right :: others := by
            intro zero
            rw [Operation.arithmeticMeaning?_cons rfl, Operation.foldMeaning?_div, if_pos zero]
              at meant
            cases meant
          cases index with
          | zero =>
              rw [follow_dividendSlope]
              exact meets_dividendSlope standard deep (List.cons_ne_nil _ _) restSound nonzero
                remaining (depth + 1)
          | succ index =>
              obtain ⟨divisor, found, member, divisorSound⟩ :=
                getElem?_related restSound (Nat.lt_of_succ_lt_succ within)
              rw [follow_divisorSlope first second rest index divisor found]
              exact meets_divisorSlope standard deep firstSound restSound divisorSound member
                nonzero remaining (depth + 1)
  | _ => cases isArithmetic

/-- The derivative of a power in its base, also where the power itself is constant. -/
theorem meets_powerSlope (standard : engine.registry = .standard)
    (deep : ∀ operation, allowed (.depth operation engine.ceiling)) {base : Operand} {count : Int}
    (exactly : base.Exactly environment .rational number) (defined : ¬(number = 0 ∧ count < 0))
    (depth : Nat) :
    (engine.differentiate depth "expt" [base, .ofConstant (.integer count)] 0).Meets allowed
      (Operand.Sound environment · (.number (count * number ^ (count - 1)))) := by
  have whole : ∀ count : Int, (Operand.ofConstant (.integer count)).Exactly environment .integer
      (count : Rat) := fun count =>
    ⟨.ofConstant rfl, Value.proves_ofConstant rfl (Value.exactNumber?_integer count)
      (.inr (Rat.den_intCast count))⟩
  have lowers : Operation.sub.meaning? (count : Rat) ((1 : Int) : Rat) =
      some (.number ((count - 1 : Int) : Rat)) := by
    rw [Operation.meaning?, Int.cast_sub]
  have one : (Traced.constant (.integer 1)).Meets allowed
      (Operand.Exactly environment .integer · (1 : Int)) := meets_constant (whole 1)
  refine meets_differentiate deep (fun remaining depth => ?_) depth
  refine meets_differentiateCall standard Library.power_mem rfl rfl (Nat.succ_pos 1) ?_
  rw [follow_powerSlope]
  refine one.bind fun made madeExactly => ?_
  refine (meets_exactlyPair standard deep rfl rfl (.inr (by decide)) (whole count) madeExactly
    lowers remaining (depth + 1)).bind fun lowered loweredExactly => ?_
  by_cases vanishes : number = 0 ∧ count - 1 < 0
  · obtain ⟨rfl, negative⟩ := vanishes
    have positive : 0 ≤ count := not_lt.mp fun below => defined ⟨rfl, below⟩
    obtain rfl : count = 0 := by omega
    refine (meets_zeroPower standard deep exactly loweredExactly negative remaining
      (depth + 1)).bind fun lower typed => ?_
    refine meets_slope ((meets_swallowed standard deep typed remaining (depth + 1)).mono ?_)
    rintro _ rfl
    rw [Int.cast_zero, zero_mul]
    exact .ofConstant (Value.meaning?_eq_number_iff.mpr (Value.exactNumber?_integer 0))
  · refine (meets_exactlyPower standard deep exactly loweredExactly vanishes remaining
      (depth + 1)).bind fun lower lowerExactly => ?_
    have meant : Operation.mul.meaning? (count : Rat) (number ^ (count - 1)) =
      some (.number (count * number ^ (count - 1))) := rfl
    exact meets_slope (meets_pair standard deep rfl (whole count).1 lowerExactly.1 meant remaining
      (depth + 1))

end Engine

end Narrowing
