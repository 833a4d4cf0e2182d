import Narrowing.Proofs.DualNumbers
import Narrowing.Proofs.ExactCalls
import Narrowing.Proofs.ExactPowers

/-
This file evaluates rational forms in the dual numbers, beside their exact values.
-/

namespace Narrowing

open TrivSqZeroExt

namespace Form

/-- A rational form has exact literals, arithmetic, and powers with whole literal exponents. -/
inductive IsRational : Form → Prop where
  | constant {value : Value} (exact : value.exactNumber?.isSome = true) : IsRational (.constant value)
  | parameter (name : String) : IsRational (.parameter name)
  | arithmetic {operation : Operation} {operands : List Form}
      (isArithmetic : operation.isArithmetic = true)
      (each : ∀ operand ∈ operands, IsRational operand) :
      IsRational (.call operation.symbol operands)
  | power {base : Form} (count : Int) (rational : IsRational base) :
      IsRational (.call "expt" [base, .constant (.integer count)])

mutual

/-- The dual number of a form at a point where one variable moves and the others rest. -/
def dual (environment : Environment) (name : String) : Form → DualNumber Rat
  | .constant value => inl (value.exactNumber?.getD 0)
  | .parameter other =>
      inl (((environment.lookup other).bind Value.exactNumber?).getD 0) +
        if other = name then DualNumber.eps else 0
  | .call operation operands => Dual.call operation (dualAll environment name operands)

def dualAll (environment : Environment) (name : String) : List Form → List (DualNumber Rat)
  | [] => []
  | form :: rest => dual environment name form :: dualAll environment name rest

end

variable {environment : Environment} {name : String}

theorem dualAll_eq_map (forms : List Form) :
    dualAll environment name forms = forms.map (dual environment name) := by
  induction forms with
  | nil => rfl
  | cons form rest inductionHypothesis => rw [dualAll, List.map_cons, inductionHypothesis]

theorem dual_call (operation : String) (operands : List Form) :
    (call operation operands).dual environment name =
      Dual.call operation (operands.map (dual environment name)) := by
  rw [dual, dualAll_eq_map]

/-- The numbers that a form has in the dual numbers, without their slopes. -/
def fraction (environment : Environment) (name : String) (form : Form) : Rat :=
  (form.dual environment name).fst

/-- The slope of a form where one variable moves. -/
def slope (environment : Environment) (name : String) (form : Form) : Rat :=
  (form.dual environment name).snd

/-- The operands of arithmetic with a value stand for the operands of a fraction. -/
theorem arithmetic_fraction {operation : Operation} {operands : List Form} {values : List Value}
    {value : Value} (isArithmetic : operation.isArithmetic = true)
    (exact : List.Forall₂ (fun operand value =>
      Value.exactNumber? value = some (fraction environment name operand)) operands values)
    (applied : Registry.standard.applyOperation operation.symbol values = .ok value) :
    operation.arithmeticMeaning? (operands.map (fraction environment name)) =
        some ((call operation.symbol operands).fraction environment name) ∧
      value.exactNumber? = some ((call operation.symbol operands).fraction environment name) := by
  obtain ⟨_, computed⟩ := Registry.implementation_of_applyOperation
    (Library.genericRecord_mem isArithmetic) rfl rfl applied
  have numbers : List.Forall₂ (fun value number => Value.exactNumber? value = some number) values
      (operands.map (fraction environment name)) :=
    List.forall₂_map_right_iff.mpr exact.flip
  have expected := Generic.arithmetic_exact isArithmetic numbers
  cases folded : operation.arithmeticMeaning? (operands.map (fraction environment name)) with
  | none =>
      rw [folded] at expected
      obtain ⟨fault, failed, _⟩ := expected
      cases computed.symm.trans failed
  | some number =>
      rw [folded] at expected
      obtain ⟨result, succeeded, same⟩ := expected
      cases computed.symm.trans succeeded
      have whole : (operands.map (dual environment name)).map fst =
          operands.map (fraction environment name) := List.map_map
      rw [← whole] at folded
      have called := (Dual.call_of_meaning isArithmetic folded).1
      rw [← dual_call] at called
      change (call operation.symbol operands).fraction environment name = number at called
      rw [called]
      exact ⟨rfl, same⟩

/-- A power with a value has no negative exponent on zero. -/
theorem power_fraction {base : Form} {count : Int} {values : List Value} {value : Value}
    (exact : List.Forall₂ (fun operand value =>
      Value.exactNumber? value = some (fraction environment name operand))
      [base, .constant (.integer count)] values)
    (applied : Registry.standard.applyOperation "expt" values = .ok value) :
    ¬(base.fraction environment name = 0 ∧ count < 0) ∧
      value.exactNumber? = some (base.fraction environment name ^ count) := by
  obtain ⟨_, computed⟩ :=
    Registry.implementation_of_applyOperation Library.power_mem rfl rfl applied
  match values, exact with
  | [first, second], .cons baseExact (.cons exponentExact .nil) =>
      have whole : second.exactNumber? = some (count : Rat) := exponentExact
      have defined : ¬(base.fraction environment name = 0 ∧ count < 0) := by
        rintro ⟨zero, negative⟩
        rw [zero] at baseExact
        cases computed.symm.trans (Generic.power_zero baseExact whole negative)
      obtain ⟨result, succeeded, same⟩ := Generic.power_exact baseExact whole defined
      cases computed.symm.trans succeeded
      exact ⟨defined, same⟩

theorem fraction_parameter {other : String} {value : Value}
    (bound : environment.lookup other = some value) (exact : value.exactNumber?.isSome = true) :
    value.exactNumber? = some ((parameter other).fraction environment name) := by
  obtain ⟨number, same⟩ := Option.isSome_iff_exists.mp exact
  rw [fraction, dual, bound, Option.bind_some, same, Option.getD_some, fst_add, fst_inl]
  split <;> simp

theorem fraction_constant {value : Value} (exact : value.exactNumber?.isSome = true) :
    value.exactNumber? = some ((constant value).fraction environment name) := by
  obtain ⟨number, same⟩ := Option.isSome_iff_exists.mp exact
  rw [fraction, dual, same]
  rfl

theorem dual_power (base : Form) (count : Int) :
    (call "expt" [base, .constant (.integer count)]).dual environment name =
      Dual.power (base.dual environment name) count := dual_call _ _

theorem fraction_power (base : Form) (count : Int) :
    (call "expt" [base, .constant (.integer count)]).fraction environment name =
      base.fraction environment name ^ count := by
  rw [fraction, dual_power, Dual.fst_power]
  rfl

/-- A rational form has the value that it has in the dual numbers. -/
theorem evaluate_fraction {form : Form} (rational : form.IsRational)
    (exact : ∀ name value, environment.lookup name = some value → value.exactNumber?.isSome = true)
    {value : Value} (evaluated : form.evaluate .standard environment = .ok value) :
    value.exactNumber? = some (form.fraction environment name) := by
  have combined : ∀ {operation : String} {operands : List Form} {value : Value},
      (∀ operand ∈ operands, ∀ {value}, operand.evaluate .standard environment = .ok value →
        value.exactNumber? = some (operand.fraction environment name)) →
      (call operation operands).evaluate .standard environment = .ok value →
      ∃ values, List.Forall₂ (fun operand value =>
          Value.exactNumber? value = some (fraction environment name operand)) operands values ∧
        Registry.standard.applyOperation operation values = .ok value := by
    intro operation operands value each called
    rw [evaluate_call] at called
    cases found : operands.mapM (evaluate .standard environment) with
    | error fault =>
        rw [found] at called
        cases called
    | ok values =>
        rw [found] at called
        refine ⟨values, ?_, called⟩
        exact ((List.forall₂_and_left _ _).mpr ⟨each, mapM_eq_ok_iff.mp found⟩).imp
          fun operand value both => both.1 both.2
  induction rational generalizing value with
  | constant exact =>
      cases evaluated
      exact fraction_constant exact
  | parameter other =>
      have looked := lookup_of_evaluate evaluated
      exact fraction_parameter looked (exact other value looked)
  | arithmetic isArithmetic _ inductionHypothesis =>
      obtain ⟨values, exact, applied⟩ := combined inductionHypothesis evaluated
      exact (arithmetic_fraction isArithmetic exact applied).2
  | @power base count _ inductionHypothesis =>
      obtain ⟨values, exact, applied⟩ := combined (by
        intro operand member
        simp only [List.mem_cons, List.not_mem_nil, or_false] at member
        rcases member with rfl | rfl
        · exact inductionHypothesis
        · intro value evaluated
          cases evaluated
          exact fraction_constant rfl) evaluated
      rw [fraction_power]
      exact (power_fraction exact applied).2

end Form

end Narrowing
