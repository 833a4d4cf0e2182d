import Mathlib.Data.Rat.Lemmas
import Narrowing.Arithmetic.Generic
import Narrowing.Proofs.Membership

/-
This file gives the exact numbers and truth values that operations on exact numbers compute.
-/

namespace Narrowing

/-- What an exact number or a truth value stands for, whatever its representation. -/
inductive Meaning where
  | number (value : Rat)
  | truth (value : Bool)
deriving DecidableEq

namespace Value

/-- The fraction that an exact number is equal to. -/
def exactNumber? : Value → Option Rat
  | .integer value => some value
  | .ratio value => some value
  | _ => none

def meaning? : Value → Option Meaning
  | .boolean value => some (.truth value)
  | value => value.exactNumber?.map .number

theorem exact_cases {value : Value} {number : Rat} (exact : value.exactNumber? = some number) :
    (∃ whole : Int, value = .integer whole ∧ number = whole) ∨ value = .ratio number := by
  cases value with
  | integer whole => exact .inl ⟨whole, rfl, (Option.some.inj exact).symm⟩
  | ratio fraction => exact .inr (congrArg Value.ratio (Option.some.inj exact))
  | _ => cases exact

theorem meaning?_eq_number_iff {value : Value} {number : Rat} :
    value.meaning? = some (.number number) ↔ value.exactNumber? = some number := by
  cases value <;> simp [meaning?, exactNumber?]

theorem meaning?_eq_truth_iff {value : Value} {truth : Bool} :
    value.meaning? = some (.truth truth) ↔ value = .boolean truth := by
  cases value <;> simp [meaning?, exactNumber?]

@[simp] theorem exactNumber?_integer (value : Int) : (Value.integer value).exactNumber? = some (value : Rat) :=
  rfl

@[simp] theorem exactNumber?_ratio (value : Rat) : (Value.ratio value).exactNumber? = some value := rfl

@[simp] theorem exactNumber?_ofRat (value : Rat) : (ofRat value).exactNumber? = some value := by
  unfold ofRat
  split
  · rename_i whole
    exact congrArg some (Rat.den_eq_one_iff value |>.mp whole)
  · rfl

@[simp] theorem exactNumber?_normalized {value : Value} {number : Rat}
    (exact : value.exactNumber? = some number) : value.normalized.exactNumber? = some number := by
  rcases exact_cases exact with ⟨whole, rfl, rfl⟩ | rfl
  · rfl
  · exact exactNumber?_ofRat number

/-- Whole numbers have the tier of integers in both representations. -/
theorem tier?_of_exact {value : Value} {number : Rat} (exact : value.exactNumber? = some number) :
    value.tier? = some (if number.den = 1 then .integer else .rational) := by
  rcases exact_cases exact with ⟨whole, rfl, rfl⟩ | rfl
  · simp [tier?]
  · rfl

theorem tier?_integer_iff {value : Value} {number : Rat} (exact : value.exactNumber? = some number) :
    value.tier? = some .integer ↔ number.den = 1 := by
  rw [tier?_of_exact exact]
  split <;> simp_all

end Value

namespace Operation

/-- What an operation on two fractions stands for; division by zero stands for nothing. -/
def meaning? : Operation → Rat → Rat → Option Meaning
  | .add, first, second => some (.number (first + second))
  | .sub, first, second => some (.number (first - second))
  | .mul, first, second => some (.number (first * second))
  | .div, first, second => if second = 0 then none else some (.number (first / second))
  | .lt, first, second => some (.truth (first < second))
  | .eq, first, second => some (.truth (first = second))
  | _, _, _ => none

end Operation

namespace Operation

/-- The fraction that an operation makes from one fraction. -/
def unaryMeaning? : Operation → Rat → Option Rat
  | .neg, number => some (-number)
  | .abs, number => some number.abs
  | _, _ => none

end Operation

namespace Value

variable {first second : Value} {left right : Rat}

theorem toRat_exact {value : Value} {number : Rat} (exact : value.exactNumber? = some number) :
    value.toRat = .ok number := by
  rcases exact_cases exact with ⟨whole, rfl, rfl⟩ | rfl <;> rfl

/-- An operator that agrees on integers and on fractions computes with fractions. -/
theorem total_exact {integers : Int → Int → Int} {ratios : Rat → Rat → Rat}
    {doubles : Float → Float → Float} {complexes : ComplexDouble → ComplexDouble → ComplexDouble}
    {elements : ElementRule} {device other : Value → Value → Except Fault Value}
    (agree : ∀ left right : Int, ((integers left right : Int) : Rat) = ratios left right)
    (leftExact : first.exactNumber? = some left) (rightExact : second.exactNumber? = some right) :
    ∃ result, (Operator.arithmetic (.total integers ratios doubles complexes) elements device
        other).apply first second = .ok result ∧
      result.exactNumber? = some (ratios left right) := by
  rcases exact_cases leftExact with ⟨whole, rfl, rfl⟩ | rfl <;>
    rcases exact_cases rightExact with ⟨another, rfl, rfl⟩ | rfl <;>
    rw [Operator.apply_plain _ rfl rfl]
  · exact ⟨_, rfl, congrArg some (agree whole another)⟩
  · exact ⟨_, rfl, rfl⟩
  · exact ⟨_, rfl, rfl⟩
  · exact ⟨_, rfl, rfl⟩

theorem less_exact (leftExact : first.exactNumber? = some left)
    (rightExact : second.exactNumber? = some right) :
    first.less second = .ok (decide (left < right)) := by
  rcases exact_cases leftExact with ⟨whole, rfl, rfl⟩ | rfl <;>
    rcases exact_cases rightExact with ⟨another, rfl, rfl⟩ | rfl <;> rfl

theorem equal_exact (leftExact : first.exactNumber? = some left)
    (rightExact : second.exactNumber? = some right) :
    first.equal second = .ok (decide (left = right)) := by
  have places : ∀ left right : Rat,
      ((left == right) && ((0 : Rat) == 0)) = decide (left = right) := by
    intro left right
    simp [Bool.beq_eq_decide_eq]
  rcases exact_cases leftExact with ⟨whole, rfl, rfl⟩ | rfl <;>
    rcases exact_cases rightExact with ⟨another, rfl, rfl⟩ | rfl <;>
    exact congrArg Except.ok (places _ _)

theorem neg_exact {value : Value} {number : Rat} (exact : value.exactNumber? = some number) :
    ∃ result, value.neg = .ok result ∧ result.exactNumber? = some (-number) := by
  rcases exact_cases exact with ⟨whole, rfl, rfl⟩ | rfl
  · exact ⟨_, rfl, by simp [PlainNumber.neg, PlainNumber.toValue]⟩
  · exact ⟨_, rfl, rfl⟩

theorem abs_intCast (whole : Int) : (whole : Rat).abs = (whole.natAbs : Int) := by
  rcases Int.le_total 0 whole with positive | negative
  · rw [Rat.abs_of_nonneg (by exact_mod_cast positive), Int.natAbs_of_nonneg positive]
  · rw [Rat.abs_of_nonpos (by exact_mod_cast negative), Int.ofNat_natAbs_of_nonpos negative,
      Rat.intCast_neg]

theorem abs_exact {value : Value} {number : Rat} (exact : value.exactNumber? = some number) :
    ∃ result, value.abs = .ok result ∧ result.exactNumber? = some number.abs := by
  rcases exact_cases exact with ⟨whole, rfl, rfl⟩ | rfl
  · exact ⟨_, rfl, congrArg some (abs_intCast whole).symm⟩
  · exact ⟨_, rfl, rfl⟩

/-- An exact number in an exact tier that holds it stays the same number. -/
theorem toTier_exact {value : Value} {number : Rat} {tier : Tier}
    (exact : value.exactNumber? = some number) (isExact : tier.isExact = true)
    (held : tier = .rational ∨ number.den = 1) :
    ∃ result, value.toTier tier = .ok result ∧ result.exactNumber? = some number := by
  cases tier with
  | integer =>
      have whole : number.den = 1 := held.resolve_left (by decide)
      rcases exact_cases exact with ⟨integer, rfl, rfl⟩ | rfl
      · exact ⟨_, rfl, rfl⟩
      · refine ⟨.integer (number.num.tdiv number.den), rfl, congrArg some ?_⟩
        rw [whole, Nat.cast_one, Int.tdiv_one]
        exact Rat.den_eq_one_iff number |>.mp whole
  | rational =>
      rcases exact_cases exact with ⟨integer, rfl, rfl⟩ | rfl
      · exact ⟨_, rfl, rfl⟩
      · exact ⟨_, rfl, exactNumber?_ofRat number⟩
  | _ => cases isExact

end Value

section Pairs

variable {operation : Operation} {first second : Value} {left right : Rat} {meaning : Meaning}

/-- Arithmetic and comparisons of exact tiers compute what their operation stands for. -/
theorem Tier.Exact.binary_exact (leftExact : first.exactNumber? = some left)
    (rightExact : second.exactNumber? = some right) (meant : operation.meaning? left right = some meaning)
    (undivided : operation ≠ .div) :
    ∃ result, Tier.Exact.binary operation first second = .ok result ∧
      result.meaning? = some meaning := by
  cases operation <;> simp only [Operation.meaning?, Option.some.injEq, reduceCtorEq] at meant
  case div => exact absurd rfl undivided
  case add =>
    obtain ⟨result, computed, exact⟩ := Value.total_exact (fun _ _ => Rat.intCast_add _ _)
      leftExact rightExact
    exact ⟨result, computed, meant ▸ Value.meaning?_eq_number_iff.mpr exact⟩
  case sub =>
    obtain ⟨result, computed, exact⟩ := Value.total_exact (fun _ _ => Rat.intCast_sub _ _)
      leftExact rightExact
    exact ⟨result, computed, meant ▸ Value.meaning?_eq_number_iff.mpr exact⟩
  case mul =>
    obtain ⟨result, computed, exact⟩ := Value.total_exact (fun _ _ => Rat.intCast_mul _ _)
      leftExact rightExact
    exact ⟨result, computed, meant ▸ Value.meaning?_eq_number_iff.mpr exact⟩
  case lt =>
    refine ⟨.boolean (left < right), ?_, congrArg some meant⟩
    exact congrArg (Except.map Value.boolean) (Value.less_exact leftExact rightExact)
  case eq =>
    refine ⟨.boolean (left = right), ?_, congrArg some meant⟩
    exact congrArg (Except.map Value.boolean) (Value.equal_exact leftExact rightExact)

theorem Value.meaning?_normalized {value : Value} (meant : value.meaning? = some meaning) :
    value.normalized.meaning? = some meaning := by
  cases meaning with
  | number number =>
      rw [Value.meaning?_eq_number_iff] at meant ⊢
      exact Value.exactNumber?_normalized meant
  | truth truth =>
      rw [Value.meaning?_eq_truth_iff] at meant
      subst meant
      rfl

theorem Tier.binary_exact {tier : Tier} (isExact : tier.isExact = true)
    (offered : tier.offers operation = true) (leftExact : first.exactNumber? = some left)
    (rightExact : second.exactNumber? = some right)
    (meant : operation.meaning? left right = some meaning) :
    ∃ result, tier.binary operation first second = .ok result ∧
      result.meaning? = some meaning := by
  have normalizedResult : operation ≠ .div →
      ∃ result, (Tier.Exact.binary operation first second).map Value.normalized = .ok result ∧
        result.meaning? = some meaning := by
    intro undivided
    obtain ⟨result, computed, same⟩ := Tier.Exact.binary_exact leftExact rightExact meant undivided
    exact ⟨result.normalized, by rw [computed]; rfl, Value.meaning?_normalized same⟩
  cases tier with
  | integer =>
      refine Tier.Exact.binary_exact leftExact rightExact meant ?_
      rintro rfl
      cases offered
  | rational =>
      cases operation with
      | div =>
          simp only [Operation.meaning?] at meant
          split at meant
          · cases meant
          · rename_i filled
            cases meant
            refine ⟨.ofRat (left / right), ?_, ?_⟩
            · simp only [Tier.binary, Tier.Rational.binary, Tier.Rational.quotient,
                Value.toRat_exact leftExact, Value.toRat_exact rightExact]
              exact if_neg filled
            · exact Value.meaning?_eq_number_iff.mpr (Value.exactNumber?_ofRat _)
      | expt => cases meant
      | _ => exact normalizedResult (by decide)
  | _ => cases isExact

theorem Tier.unary_exact {tier : Tier} {value : Value} {number result : Rat}
    (isExact : tier.isExact = true) (exact : value.exactNumber? = some number)
    (meant : operation.unaryMeaning? number = some result) :
    ∃ computed, tier.unary operation value = .ok computed ∧ computed.exactNumber? = some result := by
  have inExact : ∃ computed, Tier.Exact.unary operation value = .ok computed ∧
      computed.exactNumber? = some result := by
    cases operation with
    | neg =>
        cases meant
        exact Value.neg_exact exact
    | abs =>
        cases meant
        exact Value.abs_exact exact
    | _ => cases meant
  cases tier with
  | integer => exact inExact
  | rational =>
      obtain ⟨computed, same, held⟩ := inExact
      exact ⟨computed.normalized, congrArg (Except.map Value.normalized) same,
        Value.exactNumber?_normalized held⟩
  | _ => cases isExact

end Pairs

namespace Tier

theorem isExact_ofDen (den : Nat) :
    (if den = 1 then Tier.integer else .rational).isExact = true := by split <;> rfl

/-- The tier in which an operation on two exact numbers computes. -/
theorem combine_ofDen (left right : Nat) :
    combine (if left = 1 then .integer else .rational) (if right = 1 then .integer else .rational) =
      if left = 1 ∧ right = 1 then .integer else .rational := by
  by_cases leftWhole : left = 1 <;> by_cases rightWhole : right = 1 <;>
    simp [leftWhole, rightWhole] <;> rfl

end Tier

namespace Generic

variable {operation : Operation} {first second : Value} {left right : Rat} {meaning : Meaning}

/-- The tier of exact operands, in which a division computes with fractions. -/
def exactTier (operation : Operation) (left right : Rat) : Tier :=
  if operation ≠ .div ∧ left.den = 1 ∧ right.den = 1 then .integer else .rational

theorem binary_eq_exactTier (leftExact : first.exactNumber? = some left)
    (rightExact : second.exactNumber? = some right)
    (offered : (exactTier operation left right).offers operation = true) :
    ∃ leftValue rightValue, leftValue.exactNumber? = some left ∧ rightValue.exactNumber? = some right ∧
      binary operation first second =
        (exactTier operation left right).binary operation leftValue rightValue := by
  have held : ∀ number : Rat, (left.den = 1 ∧ right.den = 1 → number.den = 1) →
      exactTier operation left right = .rational ∨ number.den = 1 := by
    intro number whole
    unfold exactTier
    split
    · rename_i both
      exact .inr (whole both.2)
    · exact .inl rfl
  have isExact : (exactTier operation left right).isExact = true := by
    unfold exactTier
    split <;> rfl
  obtain ⟨leftValue, leftConverted, leftSame⟩ :=
    Value.toTier_exact leftExact isExact (held left And.left)
  obtain ⟨rightValue, rightConverted, rightSame⟩ :=
    Value.toTier_exact rightExact isExact (held right And.right)
  refine ⟨leftValue, rightValue, leftSame, rightSame, ?_⟩
  have chosen : (if operation = .div ∧
      (if left.den = 1 ∧ right.den = 1 then Tier.integer else .rational) = .integer
      then Tier.rational else if left.den = 1 ∧ right.den = 1 then .integer else .rational) =
      exactTier operation left right := by
    unfold exactTier
    by_cases divides : operation = .div <;>
      by_cases whole : left.den = 1 ∧ right.den = 1 <;> simp [divides, whole]
  simp only [binary, tier, Value.tier?_of_exact leftExact, Value.tier?_of_exact rightExact, orFault]
  change (if (!Tier.offers (if operation = .div ∧ Tier.combine _ _ = .integer then _ else _) _)
    then _ else _) = _
  simp only [Tier.combine_ofDen, chosen, offered, leftConverted, rightConverted]
  rfl

/-- A generic operation computes what it stands for, whatever the representation. -/
theorem binary_exact (leftExact : first.exactNumber? = some left)
    (rightExact : second.exactNumber? = some right)
    (meant : operation.meaning? left right = some meaning) :
    ∃ result, binary operation first second = .ok result ∧ result.meaning? = some meaning := by
  have offered : (exactTier operation left right).offers operation = true := by
    unfold exactTier
    cases operation with
    | add | sub | mul | lt | eq => split <;> rfl
    | div =>
        rw [if_neg (by simp)]
        rfl
    | _ => cases meant
  obtain ⟨leftValue, rightValue, leftSame, rightSame, same⟩ :=
    binary_eq_exactTier leftExact rightExact offered
  have isExact : (exactTier operation left right).isExact = true := by
    unfold exactTier
    split <;> rfl
  rw [same]
  exact Tier.binary_exact isExact offered leftSame rightSame meant

theorem binary_zero_division (leftExact : first.exactNumber? = some left)
    (rightExact : second.exactNumber? = some 0) :
    binary .div first second = .error .zeroDivision := by
  have divided : exactTier .div left 0 = .rational := if_neg (by simp)
  have offered : (exactTier .div left 0).offers .div = true := by rw [divided]; rfl
  obtain ⟨leftValue, rightValue, leftSame, rightSame, same⟩ :=
    binary_eq_exactTier leftExact rightExact offered
  rw [same, divided]
  simp only [Tier.binary, Tier.Rational.binary, Tier.Rational.quotient,
    Value.toRat_exact leftSame, Value.toRat_exact rightSame]
  rfl

/-- Operands of a generic operation that has a value are numbers. -/
theorem numbers_of_binary {result : Value} (computed : binary operation first second = .ok result) :
    first.tier?.isSome = true ∧ second.tier?.isSome = true := by
  unfold binary tier at computed
  cases leftTier : first.tier? with
  | none =>
      rw [leftTier] at computed
      cases computed
  | some left =>
      cases rightTier : second.tier? with
      | none =>
          rw [leftTier, rightTier] at computed
          cases computed
      | some right => exact ⟨rfl, rfl⟩

/-- Negations and sizes of exact numbers are exact. -/
theorem unary_exact {result : Rat} (exact : first.exactNumber? = some left)
    (meant : operation.unaryMeaning? left = some result) :
    ∃ computed, unary operation first = .ok computed ∧ computed.exactNumber? = some result := by
  have keeps : keepsTier operation = true := by
    cases operation with
    | neg | abs => rfl
    | _ => cases meant
  have isExact := Tier.isExact_ofDen left.den
  obtain ⟨value, converted, same⟩ := Value.toTier_exact exact isExact (by split <;> simp_all)
  obtain ⟨computed, finished, held⟩ := Tier.unary_exact isExact same meant
  refine ⟨computed, ?_, held⟩
  simp only [unary, tier, Value.tier?_of_exact exact, orFault]
  change (Value.toTier first (if keepsTier operation then _ else _) >>= fun value =>
    Tier.unary (if keepsTier operation then _ else _) operation value) = _
  simp only [keeps, if_true, converted]
  exact finished

end Generic

namespace Operation

/-- The fraction that operands stand for when they are combined from the left. -/
def foldMeaning? (operation : Operation) : Rat → List Rat → Option Rat
  | first, [] => some first
  | first, second :: rest =>
      match operation.meaning? first second with
      | some (.number result) => foldMeaning? operation result rest
      | _ => none

/-- The fraction that a sum, difference, product or quotient of fractions stands for. -/
def arithmeticMeaning? (operation : Operation) (operands : List Rat) : Option Rat :=
  match operation, operands with
  | .add, operands => foldMeaning? .add 0 operands
  | .mul, operands => foldMeaning? .mul 1 operands
  | .sub, [operand] => some (-operand)
  | .sub, first :: rest => foldMeaning? .sub first rest
  | .div, [operand] => foldMeaning? .div 1 [operand]
  | .div, first :: rest => foldMeaning? .div first rest
  | _, _ => none

/-- The operations with any number of operands. -/
def isArithmetic : Operation → Bool
  | .add | .sub | .mul | .div => true
  | _ => false

theorem arithmeticMeaning?_cons {operation : Operation} (arithmetic : operation.isArithmetic = true)
    (first second : Rat) (rest : List Rat) :
    operation.arithmeticMeaning? (first :: second :: rest) =
      operation.foldMeaning? first (second :: rest) := by
  cases operation with
  | add => simp [arithmeticMeaning?, foldMeaning?, meaning?]
  | mul => simp [arithmeticMeaning?, foldMeaning?, meaning?]
  | sub | div => rfl
  | _ => cases arithmetic

end Operation

namespace Generic

variable {operation : Operation}

/-- The function that a generic operation on any number of operands runs. -/
def arithmetic : Operation → List Value → Except Fault Value
  | .add => add
  | .mul => mul
  | .sub => sub
  | .div => div
  | _ => fun _ => .error .operand

theorem fold_exact (arithmetic : operation.isArithmetic = true) {values : List Value}
    {numbers : List Rat}
    (exact : List.Forall₂ (fun value number => value.exactNumber? = some number) values numbers) :
    ∀ {first : Value} {left : Rat}, first.exactNumber? = some left →
      match operation.foldMeaning? left numbers with
      | some number => ∃ result, fold operation first values = .ok result ∧
          result.exactNumber? = some number
      | none => fold operation first values = .error .zeroDivision := by
  induction exact with
  | nil => exact fun leftExact => ⟨_, rfl, leftExact⟩
  | @cons second right values numbers rightExact _ inductionHypothesis =>
      intro first left leftExact
      have step : (∃ number, operation.meaning? left right = some (.number number)) ∨
          (operation = .div ∧ right = 0 ∧ operation.meaning? left right = none) := by
        cases operation with
        | add | sub | mul => exact .inl ⟨_, rfl⟩
        | div =>
            by_cases zero : right = 0
            · exact .inr ⟨rfl, zero, if_pos zero⟩
            · exact .inl ⟨_, if_neg zero⟩
        | _ => cases arithmetic
      rcases step with ⟨number, meant⟩ | ⟨rfl, rfl, meant⟩
      · obtain ⟨result, computed, same⟩ := binary_exact leftExact rightExact meant
        rw [Operation.foldMeaning?, meant, fold_cons, computed]
        exact inductionHypothesis (Value.meaning?_eq_number_iff.mp same)
      · rw [Operation.foldMeaning?, meant, fold_cons, binary_zero_division leftExact rightExact]
        rfl

theorem fold_single (operation : Operation) (first second : Value) :
    fold operation first [second] = binary operation first second := bind_pure _

/-- A sum, difference, product or quotient of exact numbers is exact, or its fault is foldable. -/
theorem arithmetic_exact (isArithmetic : operation.isArithmetic = true) {values : List Value}
    {numbers : List Rat}
    (exact : List.Forall₂ (fun value number => value.exactNumber? = some number) values numbers) :
    match operation.arithmeticMeaning? numbers with
    | some number => ∃ result, arithmetic operation values = .ok result ∧
        result.exactNumber? = some number
    | none => ∃ fault, arithmetic operation values = .error fault ∧ fault.isFoldable = true := by
  have folded : ∀ {operation : Operation} {first : Value} {left : Rat} {values : List Value}
      {numbers : List Rat}, operation.isArithmetic = true → first.exactNumber? = some left →
      List.Forall₂ (fun value number => value.exactNumber? = some number) values numbers →
      match operation.foldMeaning? left numbers with
      | some number => ∃ result, fold operation first values = .ok result ∧
          result.exactNumber? = some number
      | none => ∃ fault, fold operation first values = .error fault ∧
          fault.isFoldable = true := by
    intro operation first left values numbers isArithmetic leftExact exact
    have whole := fold_exact isArithmetic exact leftExact
    split
    · rename_i number meant
      rwa [meant] at whole
    · rename_i meant
      rw [meant] at whole
      exact ⟨.zeroDivision, whole, rfl⟩
  cases operation with
  | add => exact folded rfl rfl exact
  | mul => exact folded rfl rfl exact
  | sub =>
      cases exact with
      | nil => exact ⟨.operand, rfl, rfl⟩
      | cons firstExact restExact =>
          cases restExact with
          | nil => exact unary_exact firstExact rfl
          | cons secondExact others => exact folded rfl firstExact (.cons secondExact others)
  | div =>
      cases exact with
      | nil => exact ⟨.operand, rfl, rfl⟩
      | cons firstExact restExact =>
          cases restExact with
          | nil =>
              rw [show arithmetic .div [_] = fold .div (.integer 1) [_] from (fold_single _ _ _).symm]
              exact folded rfl rfl (.cons firstExact .nil)
          | cons secondExact others => exact folded rfl firstExact (.cons secondExact others)
  | _ => cases isArithmetic

theorem number_of_unary {value result : Value} (computed : unary operation value = .ok result) :
    value.tier?.isSome = true := by
  unfold unary tier at computed
  cases own : value.tier? with
  | none =>
      rw [own] at computed
      cases computed
  | some tier => rfl

theorem numbers_of_fold {first result : Value} {values : List Value}
    (computed : fold operation first values = .ok result) :
    (values ≠ [] → first.tier?.isSome = true) ∧ ∀ value ∈ values, value.tier?.isSome = true := by
  induction values generalizing first with
  | nil => simp
  | cons second rest inductionHypothesis =>
      rw [fold_cons] at computed
      cases step : binary operation first second with
      | error fault =>
          rw [step] at computed
          cases computed
      | ok middle =>
          rw [step] at computed
          obtain ⟨firstNumber, secondNumber⟩ := numbers_of_binary step
          exact ⟨fun _ => firstNumber, List.forall_mem_cons.mpr
            ⟨secondNumber, (inductionHypothesis computed).2⟩⟩

/-- Operands of a sum, difference, product or quotient that has a value are numbers. -/
theorem numbers_of_arithmetic {result : Value} {values : List Value}
    (computed : arithmetic operation values = .ok result) :
    ∀ value ∈ values, value.tier?.isSome = true := by
  have chained : ∀ {operation : Operation} {first second : Value} {rest : List Value},
      fold operation first (second :: rest) = .ok result →
      ∀ value ∈ first :: second :: rest, value.tier?.isSome = true := by
    intro operation first second rest computed
    obtain ⟨firstNumber, others⟩ := numbers_of_fold computed
    exact List.forall_mem_cons.mpr ⟨firstNumber (by simp), others⟩
  cases operation with
  | add => exact (numbers_of_fold computed).2
  | mul => exact (numbers_of_fold computed).2
  | sub =>
      match values with
      | [] => simp
      | [value] => simpa using number_of_unary computed
      | first :: second :: rest => exact chained computed
  | div =>
      match values with
      | [] => simp
      | [value] => simpa using (numbers_of_binary computed).2
      | first :: second :: rest => exact chained computed
  | _ => cases computed

end Generic

end Narrowing
