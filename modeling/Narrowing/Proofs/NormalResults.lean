import Mathlib.Algebra.Order.Field.Rat
import Mathlib.Tactic.NormNum
import Narrowing.Proofs.DualNumbers
import Narrowing.Proofs.ExactCalls
import Narrowing.Proofs.GenericPowers

/-
This file says what the generic operations of the library give for integers and fractions: the
number that arithmetic on fractions makes, in its one normal representation, or a division by zero.
-/

namespace Narrowing

/-- The number that an operation makes from fractions, and nothing if it would divide by zero. -/
inductive Operation.Makes : Operation → List Rat → Option Rat → Prop
  | sum (numbers : List Rat) : Makes .add numbers (some numbers.sum)
  | product (numbers : List Rat) : Makes .mul numbers (some numbers.prod)
  | negation (number : Rat) : Makes .sub [number] (some (-number))
  | difference (first second : Rat) (rest : List Rat) :
      Makes .sub (first :: second :: rest) (some ((second :: rest).foldl (· - ·) first))
  | reciprocal (number : Rat) : Makes .div [number] (if number = 0 then none else some (1 / number))
  | quotient (first second : Rat) (rest : List Rat) :
      Makes .div (first :: second :: rest)
        (if 0 ∈ second :: rest then none else some ((second :: rest).foldl (· / ·) first))
  | size (number : Rat) : Makes .abs [number] (some |number|)
  | power (base : Rat) (count : Int) :
      Makes .expt [base, count] (if base = 0 ∧ count < 0 then none else some (base ^ count))

/-- Arithmetic has an answer for all operands whose number its record accepts. -/
theorem Operation.exists_makes {operation : Operation} {numbers : List Rat}
    (isArithmetic : operation.isArithmetic = true)
    (accepts : (Library.genericRecord operation).accepts numbers.length = true) :
    ∃ answer, operation.Makes numbers answer := by
  rw [Library.genericRecord_accepts] at accepts
  cases operation with
  | add => exact ⟨_, .sum numbers⟩
  | mul => exact ⟨_, .product numbers⟩
  | sub =>
      rcases numbers with _ | ⟨first, _ | ⟨second, rest⟩⟩
      · simp [identity?] at accepts
      · exact ⟨_, .negation first⟩
      · exact ⟨_, .difference first second rest⟩
  | div =>
      rcases numbers with _ | ⟨first, _ | ⟨second, rest⟩⟩
      · simp [identity?] at accepts
      · exact ⟨_, .reciprocal first⟩
      · exact ⟨_, .quotient first second rest⟩
  | _ => cases isArithmetic

/-- Operands are combined by a function that an operation stands for on each of them. -/
theorem Operation.foldMeaning?_eq_foldl {operation : Operation} {combine : Rat → Rat → Rat}
    {rest : List Rat} (each : ∀ second ∈ rest, ∀ first,
      operation.meaning? first second = some (.number (combine first second))) (first : Rat) :
    operation.foldMeaning? first rest = some (rest.foldl combine first) := by
  induction rest generalizing first with
  | nil => rfl
  | cons second rest inductionHypothesis =>
      rw [foldMeaning?, each second List.mem_cons_self first, List.foldl_cons]
      exact inductionHypothesis (fun other member => each other (List.mem_cons_of_mem _ member)) _

theorem Operation.foldMeaning?_quotient (first : Rat) (rest : List Rat) :
    foldMeaning? .div first rest = if 0 ∈ rest then none else some (rest.foldl (· / ·) first) := by
  by_cases zero : 0 ∈ rest
  · rw [foldMeaning?_div, if_pos zero, if_pos zero]
  · rw [if_neg zero]
    apply foldMeaning?_eq_foldl
    intro second member first
    have divides : second ≠ 0 := by
      rintro rfl
      exact zero member
    exact if_neg divides

theorem Operation.unaryMeaning?_abs (number : Rat) : unaryMeaning? .abs number = some |number| := by
  apply congrArg some
  rcases le_total 0 number with positive | negative
  · rw [Rat.abs_of_nonneg positive, abs_of_nonneg positive]
  · rw [Rat.abs_of_nonpos negative, abs_of_nonpos negative]

namespace Generic

variable {operation : Operation} {values : List Value} {numbers : List Rat}
  {first base exponent : Value} {left number result : Rat} {count : Int} {answer : Option Rat}

/-- Exact operands that are combined from the left give a number in normal form. -/
theorem fold_normal (isArithmetic : operation.isArithmetic = true)
    (exact : List.Forall₂ (fun value number => value.exactNumber? = some number) values numbers)
    (firstExact : first.exactNumber? = some left)
    (reduced : values = [] → first.isReduced = true) :
    fold operation first values =
      orFault ((operation.foldMeaning? left numbers).map .ofRat) .zeroDivision := by
  have folded := fold_exact isArithmetic exact firstExact
  split at folded
  · rename_i number meant
    obtain ⟨result, computed, same⟩ := folded
    have standard : ∀ value ∈ values, value.isStandard = true := by
      intro value member
      obtain ⟨index, inside, rfl⟩ := List.getElem_of_mem member
      exact (Value.inTier_of_exact (exact.get inside (exact.length_eq ▸ inside))).isStandard
    have normal := (fold_inTier isArithmetic standard (Value.inTier_of_exact firstExact) reduced
      computed).2
    rw [computed, meant, Value.eq_ofRat_of_reduced normal same]
    rfl
  · rename_i meant
    rw [folded, meant]
    rfl

/-- Negations and sizes of exact numbers are in normal form. -/
theorem unary_normal (exact : first.exactNumber? = some left)
    (meant : operation.unaryMeaning? left = some result) :
    unary operation first = .ok (.ofRat result) := by
  obtain ⟨value, computed, same⟩ := unary_exact exact meant
  have reduced := (unary_inTier (Value.inTier_of_exact exact) computed).2
  rw [computed, Value.eq_ofRat_of_reduced reduced same]

/-- Powers of exact numbers with whole exponents are in normal form. -/
theorem power_normal (baseExact : base.exactNumber? = some number)
    (exponentExact : exponent.exactNumber? = some (count : Rat)) :
    power base exponent =
      orFault ((if number = 0 ∧ count < 0 then none else some (number ^ count)).map .ofRat)
        .zeroDivision := by
  split
  · rename_i undefined
    obtain ⟨rfl, negative⟩ := undefined
    exact power_zero baseExact exponentExact negative
  · rename_i defined
    obtain ⟨value, computed, _⟩ := power_exact baseExact exponentExact defined
    obtain ⟨same, reduced⟩ := exactPower_reduced baseExact exponentExact computed
    rw [computed, Value.eq_ofRat_of_reduced reduced same]
    rfl

/-- The implementation of a sum, difference, product or quotient gives a number in normal form. -/
theorem arithmetic_normal (isArithmetic : operation.isArithmetic = true)
    (exact : List.Forall₂ (fun value number => value.exactNumber? = some number) values numbers)
    (makes : operation.Makes numbers answer) :
    arithmetic operation values = orFault (answer.map .ofRat) .zeroDivision := by
  cases makes with
  | sum =>
      have folded : add values = _ := fold_normal isArithmetic exact rfl fun _ => rfl
      rw [Operation.foldMeaning?_add, Int.cast_zero, zero_add] at folded
      exact folded
  | product =>
      have folded : mul values = _ := fold_normal isArithmetic exact rfl fun _ => rfl
      rw [Operation.foldMeaning?_mul, Int.cast_one, one_mul] at folded
      exact folded
  | negation number =>
      obtain _ | ⟨firstExact, _ | _⟩ := exact
      exact unary_normal firstExact rfl
  | difference first second rest =>
      obtain _ | ⟨firstExact, _ | ⟨secondExact, others⟩⟩ := exact
      have folded : sub (_ :: _ :: _) = _ :=
        fold_normal isArithmetic (.cons secondExact others) firstExact nofun
      rw [Operation.foldMeaning?_eq_foldl fun _ _ _ => rfl] at folded
      exact folded
  | reciprocal number =>
      obtain _ | ⟨firstExact, _ | _⟩ := exact
      have one : (Value.integer 1).exactNumber? = some 1 := rfl
      have folded : div [_] = _ := (fold_single _ _ _).symm.trans
        (fold_normal isArithmetic (.cons firstExact .nil) one nofun)
      rw [Operation.foldMeaning?_quotient] at folded
      simp only [List.mem_singleton, eq_comm (a := (0 : Rat))] at folded
      exact folded
  | quotient first second rest =>
      obtain _ | ⟨firstExact, _ | ⟨secondExact, others⟩⟩ := exact
      have folded : div (_ :: _ :: _) = _ :=
        fold_normal isArithmetic (.cons secondExact others) firstExact nofun
      rw [Operation.foldMeaning?_quotient] at folded
      exact folded
  | size | power => cases isArithmetic

end Generic

namespace Registry

/-- The library runs the implementation of a record under its name. -/
theorem standard_implementation {record : Record} (member : record ∈ Library.records) :
    (standard.lookup? record.name).bind (·.implementation) = record.implementation := by
  obtain ⟨serial, found⟩ := standard_lookup? member
  rw [found]
  rfl

variable {operation : Operation} {values : List Value} {numbers : List Rat} {answer : Option Rat}

/-- The implementations of the library compute with fractions when the operands are integers and
fractions in any representation: the result is the number that the operation makes from them, an
integer if it is whole and a reduced fraction otherwise, and if the operation would divide by zero,
this is the fault. -/
theorem implementation_normal
    (exact : List.Forall₂ (fun value number => Value.exactNumber? value = some number) values
      numbers) (makes : operation.Makes numbers answer) :
    ∃ implementation : Implementation,
      (standard.lookup? operation.symbol).bind (·.implementation) = some implementation ∧
        implementation values = orFault (answer.map .ofRat) .zeroDivision := by
  by_cases isArithmetic : operation.isArithmetic = true
  · refine ⟨Generic.arithmetic operation, ?_, Generic.arithmetic_normal isArithmetic exact makes⟩
    exact standard_implementation (Library.genericRecord_mem isArithmetic)
  · cases makes with
    | size number =>
        have member : Library.functionRecord .abs ∈ Library.records :=
          Library.function_mem (by decide)
        refine ⟨Generic.ofUnary .abs, standard_implementation member, ?_⟩
        obtain _ | ⟨firstExact, _ | _⟩ := exact
        exact Generic.unary_normal firstExact (Operation.unaryMeaning?_abs number)
    | power base count =>
        refine ⟨Generic.expt, standard_implementation Library.power_mem, ?_⟩
        obtain _ | ⟨baseExact, _ | ⟨countExact, _ | _⟩⟩ := exact
        exact Generic.power_normal baseExact countExact
    | _ => exact absurd rfl isArithmetic

/-- Three over one half over three quarters is the integer eight, also for the fraction three. -/
theorem implementation_normal_quotient :
    ∃ implementation : Implementation,
      (standard.lookup? "/").bind (·.implementation) = some implementation ∧
        implementation [.ratio 3, .ratio (1 / 2), .ratio (3 / 4)] = .ok (.integer 8) := by
  have exact : List.Forall₂ (fun value number => Value.exactNumber? value = some number)
      [.ratio 3, .ratio (1 / 2), .ratio (3 / 4)] [3, 1 / 2, 3 / 4] :=
    .cons rfl (.cons rfl (.cons rfl .nil))
  obtain ⟨implementation, found, computed⟩ :=
    implementation_normal exact (.quotient 3 (1 / 2) [3 / 4])
  have defined : (0 : Rat) ∉ [1 / 2, 3 / 4] := by norm_num
  have eight : List.foldl (· / ·) (3 : Rat) [1 / 2, 3 / 4] = 8 := by norm_num
  rw [if_neg defined, eight] at computed
  exact ⟨implementation, found, computed⟩

end Registry

end Narrowing
