import Narrowing.Proofs.ExactCalls
import Narrowing.Proofs.GraphRuns
import Narrowing.Proofs.HostIntegers
import Narrowing.Proofs.TypedOperands

/-
This file compares generic calls on integers with the calls of the integer tier that replace them:
the generic ones convert their operands and are exact, and the others take them as they are.
-/

namespace Narrowing

namespace Generic

open Value

variable {operation : Operation} {first second : Value} {left right exact : Int}

/-- The integer tier is exact on plain integers. -/
theorem integerTier_plain (meant : operation.exactly? [left, right] = some exact) :
    Tier.integer.binary operation (.integer left) (.integer right) = .ok (.integer exact) := by
  cases operation with
  | add | sub | mul =>
      cases meant
      rfl
  | expt =>
      simp only [Operation.exactly?] at meant
      split at meant
      · rename_i positive
        cases meant
        change Tier.Exact.integerPower (.integer left) (.integer right) = _
        rw [Tier.Exact.integerPower, (Represents.integer right).isNegative_eq,
          decide_eq_false (Int.not_lt.mpr positive), ← PlainNumber.wholePower_eq]
        change (PlainNumber.integerPower left right).map PlainNumber.toValue = _
        rw [PlainNumber.integerPower, if_pos positive]
        rfl
      · cases meant
  | _ => cases meant

theorem tier_represented (represented : first.Represents left) :
    tier first = .ok .integer := by
  rw [tier, represented.tier?]
  rfl

theorem toTier_represented (represented : first.Represents left) :
    first.toTier .integer = .ok (.integer left) := by
  rw [Value.toTier, represented.toInteger]
  rfl

/-- A generic operation converts its operands to plain integers. -/
theorem binary_represented (one : first.Represents left) (two : second.Represents right)
    (meant : operation.exactly? [left, right] = some exact) :
    binary operation first second = .ok (.integer exact) := by
  have converts : binary operation first second =
      (first.toTier .integer >>= fun left => second.toTier .integer >>= fun right =>
        Tier.integer.binary operation left right) := by
    simp only [binary, tier_represented one, tier_represented two]
    cases operation with
    | add | sub | mul | expt => rfl
    | _ => cases meant
  rw [converts, toTier_represented one, toTier_represented two]
  exact integerTier_plain meant

/-- A sum or a product starts with the number that changes nothing. -/
theorem fold_represented {identity : Int} (starts : operation.exactly? [identity, left] = some left)
    (one : first.Represents left) (two : second.Represents right)
    (meant : operation.exactly? [left, right] = some exact) :
    fold operation (.integer identity) [first, second] = .ok (.integer exact) := by
  rw [fold_cons, binary_represented (.integer identity) one starts]
  change fold operation (.integer left) [second] = _
  rw [fold_single, binary_represented (.integer left) two meant]

theorem unary_represented (represented : first.Represents left)
    (meant : operation.exactly? [left] = some exact) :
    unary operation first = .ok (.integer exact) := by
  have converts : unary operation first =
      (first.toTier .integer >>= fun left => Tier.integer.unary operation left) := by
    simp only [unary, tier_represented represented]
    cases operation with
    | neg | abs => rfl
    | _ => cases meant
  rw [converts, toTier_represented represented]
  cases operation with
  | neg | abs =>
      cases meant
      rfl
  | _ => cases meant

/-- A power of integers with an exponent that is not negative stays in the integer tier. -/
theorem power_represented (one : first.Represents left) (two : second.Represents right)
    (meant : Operation.expt.exactly? [left, right] = some exact) :
    power first second = .ok (.integer exact) := by
  have positive : 0 ≤ right := by
    by_contra negative
    simp [Operation.exactly?, negative] at meant
  have converts : power first second =
      Tier.integer.binary .expt (.integer left) (.integer right) := by
    simp only [power, tier_represented one, tier_represented two, one.toInteger, two.toInteger]
    exact if_pos ⟨rfl, positive⟩
  rw [converts]
  exact integerTier_plain meant

end Generic

namespace Registry

open Value

variable {operation : Operation} {values : List Value} {numbers : List Int} {exact : Int}

theorem applyOperation_arithmetic (isArithmetic : operation.isArithmetic = true)
    (accepts : (Library.genericRecord operation).accepts values.length = true) :
    standard.applyOperation operation.symbol values = Generic.arithmetic operation values :=
  standard_applyOperation_single (Library.genericRecord_mem isArithmetic) rfl rfl accepts

/-- A generic call on integers has the exact result as a plain integer. -/
theorem applyOperation_represented (represented : List.Forall₂ Represents values numbers)
    (meant : operation.exactly? numbers = some exact) :
    standard.applyOperation operation.symbol values = .ok (.integer exact) := by
  have given := meant
  unfold Operation.exactly? at meant
  split at meant
  case h_1 left right =>
    obtain _ | ⟨one, _ | ⟨two, _ | _⟩⟩ := represented
    refine (applyOperation_arithmetic rfl rfl).trans ?_
    exact Generic.fold_represented (congrArg some (Int.zero_add left)) one two given
  case h_2 left right =>
    obtain _ | ⟨one, _ | ⟨two, _ | _⟩⟩ := represented
    refine (applyOperation_arithmetic rfl rfl).trans ?_
    exact (Generic.fold_single _ _ _).trans (Generic.binary_represented one two given)
  case h_3 left right =>
    obtain _ | ⟨one, _ | ⟨two, _ | _⟩⟩ := represented
    refine (applyOperation_arithmetic rfl rfl).trans ?_
    exact Generic.fold_represented (congrArg some (Int.one_mul left)) one two given
  case h_4 left right =>
    obtain _ | ⟨one, _ | ⟨two, _ | _⟩⟩ := represented
    refine (standard_applyOperation_single Library.power_mem rfl rfl rfl).trans ?_
    exact Generic.power_represented one two given
  case h_5 number =>
    obtain _ | ⟨represented, _ | _⟩ := represented
    have negates (value : Value) : standard.applyOperation Operation.sub.symbol [value] =
        Generic.arithmetic .sub [value] := applyOperation_arithmetic rfl rfl
    exact (negates _).trans (Generic.unary_represented represented given)
  case h_6 number =>
    obtain _ | ⟨represented, _ | _⟩ := represented
    have member : Library.functionRecord .abs ∈ Library.records := Library.function_mem (by decide)
    refine (standard_applyOperation_single member rfl rfl rfl).trans ?_
    exact Generic.unary_represented represented given
  case h_7 => cases meant

end Registry

namespace Engine

open Traced Operand

variable {engine : Engine} {allowed : Fault → Prop} {operation : Operation}
  {first second : Operand} {operands : List Operand}

end Engine

namespace Graph

end Graph

end Narrowing
