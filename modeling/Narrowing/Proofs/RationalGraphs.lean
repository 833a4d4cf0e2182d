import Narrowing.Proofs.ExactTypes
import Narrowing.Proofs.GraphRuns
import Narrowing.Proofs.RationalForms

/-
This file specializes graphs of rational forms to operands with exact values and exact types.
-/

namespace Narrowing

open TrivSqZeroExt

/-- Every bound variable has an exact number of its declared type of exact numbers. -/
def Environment.IsRational (environment : Environment) (declarations : Declarations) : Prop :=
  ∀ name value, environment.lookup name = some value → value.exactNumber?.isSome = true ∧
    ∃ ntype, declarations.lookup name = some ntype ∧ ntype.proves Tier.rational.ntype = true ∧
      ntype.contains value = true

theorem Form.IsRational.call_cases {operation : String} {operands : List Form}
    (rational : (Form.call operation operands).IsRational) :
    (∃ arithmetic : Operation, arithmetic.isArithmetic = true ∧ operation = arithmetic.symbol ∧
      ∀ operand ∈ operands, operand.IsRational) ∨
    ∃ base count, operation = "expt" ∧ operands = [base, .constant (.integer count)] ∧
      base.IsRational := by
  cases rational with
  | arithmetic isArithmetic each => exact .inl ⟨_, isArithmetic, rfl, each⟩
  | power count rational => exact .inr ⟨_, count, rfl, rfl, rational⟩

namespace Graph

variable {graph : Graph} {environment : Environment} {declarations : Declarations}
  {engine : Engine} {allowed : Fault → Prop} {name : String}

/-- The dual number of the form at a position. -/
def dualAt (graph : Graph) (environment : Environment) (name : String) (position : Nat) :
    DualNumber Rat := (graph.formAt position).dual environment name

def fractionAt (graph : Graph) (environment : Environment) (name : String) (position : Nat) : Rat :=
  (graph.formAt position).fraction environment name

def slopeAt (graph : Graph) (environment : Environment) (name : String) (position : Nat) : Rat :=
  (graph.formAt position).slope environment name

/-- The form at a position is rational and has a value. -/
def Rational (graph : Graph) (environment : Environment) (position : Nat) : Prop :=
  (graph.formAt position).IsRational ∧
    ∃ value, (graph.formAt position).evaluate .standard environment = .ok value

theorem live_rational (root : graph.Rational environment graph.root) :
    Live graph (graph.Rational environment) where
  root := root
  descends := by
    rintro position operation operands calls ⟨rational, value, evaluated⟩ operand member
    obtain ⟨values, related, _⟩ := operands_evaluate calls evaluated
    obtain ⟨result, _, found⟩ := exists_related_of_mem related member
    have among : graph.formAt operand ∈ operands.map graph.formAt := List.mem_map_of_mem member
    refine ⟨?_, result, found⟩
    rw [formAt_call calls] at rational
    rcases rational.call_cases with ⟨_, _, _, each⟩ | ⟨base, count, _, whole, rational⟩
    · exact each _ among
    · rw [whole] at among
      simp only [List.mem_cons, List.not_mem_nil, or_false] at among
      rcases among with same | same <;> rw [same]
      · exact rational
      · exact .constant rfl

/-- A call at a position with a value is arithmetic, or it is a power with a literal exponent. -/
theorem rational_cases
    (exact : ∀ name value, environment.lookup name = some value → value.exactNumber?.isSome = true)
    {position : Nat} {operation : String} {operands : List Nat}
    (alive : graph.Rational environment position)
    (calls : CallsAt graph.nodes position operation operands) :
    (∃ arithmetic : Operation, arithmetic.isArithmetic = true ∧ operation = arithmetic.symbol ∧
      arithmetic.arithmeticMeaning? (operands.map (graph.fractionAt environment name)) =
        some (graph.fractionAt environment name position)) ∨
    ∃ base exponent count, operation = "expt" ∧ operands = [base, exponent] ∧
      graph.formAt exponent = .constant (.integer count) ∧
      ¬(graph.fractionAt environment name base = 0 ∧ count < 0) ∧
      graph.fractionAt environment name position =
        graph.fractionAt environment name base ^ count := by
  obtain ⟨rational, value, evaluated⟩ := alive
  obtain ⟨values, related, applied⟩ := operands_evaluate calls evaluated
  have called := formAt_call calls
  rw [called] at rational
  have numbers : (∀ operand ∈ operands, (graph.formAt operand).IsRational) →
      List.Forall₂ (fun form value => Value.exactNumber? value =
        some (Form.fraction environment name form)) (operands.map graph.formAt) values := by
    intro each
    refine List.forall₂_map_left_iff.mpr ?_
    exact ((List.forall₂_and_left _ _).mpr ⟨each, related⟩).imp
      fun operand value both => Form.evaluate_fraction both.1 exact both.2
  rcases rational.call_cases with ⟨arithmetic, isArithmetic, rfl, each⟩ |
    ⟨base, count, rfl, whole, baseRational⟩
  · left
    have meant := Form.arithmetic_fraction isArithmetic
      (numbers fun operand member => each _ (List.mem_map_of_mem member)) applied
    refine ⟨arithmetic, isArithmetic, rfl, ?_⟩
    rw [fractionAt, called, ← meant.1, List.map_map]
    rfl
  · right
    obtain ⟨first, rest, rfl, rfl, others⟩ := List.map_eq_cons_iff.mp whole
    obtain ⟨second, last, rfl, constant, ended⟩ := List.map_eq_cons_iff.mp others
    obtain rfl := List.map_eq_nil_iff.mp ended
    have exact := numbers (by
      intro operand member
      simp only [List.mem_cons, List.not_mem_nil, or_false] at member
      rcases member with rfl | rfl
      · exact baseRational
      · rw [constant]
        exact .constant rfl)
    simp only [List.map_cons, List.map_nil, constant] at exact called
    refine ⟨first, second, count, rfl, rfl, constant, (Form.power_fraction exact applied).1, ?_⟩
    rw [fractionAt, called, Form.fraction_power]
    rfl

/-- The slope of a call by the chain rule. -/
theorem slopeAt_call
    (exact : ∀ name value, environment.lookup name = some value → value.exactNumber?.isSome = true)
    {position : Nat} {operation : String} {operands : List Nat}
    (alive : graph.Rational environment position)
    (calls : CallsAt graph.nodes position operation operands) :
    graph.slopeAt environment name position =
      Dual.weighted (Dual.partialAt operation (operands.map (graph.fractionAt environment name)))
        (operands.map (graph.dualAt environment name)) := by
  have called : (graph.formAt position).dual environment name =
      Dual.call operation (operands.map (graph.dualAt environment name)) := by
    rw [formAt_call calls, Form.dual_call, List.map_map]
    rfl
  have whole : (operands.map (graph.dualAt environment name)).map fst =
      operands.map (graph.fractionAt environment name) := List.map_map
  rw [slopeAt, Form.slope, called]
  rcases rational_cases exact alive calls with ⟨arithmetic, isArithmetic, rfl, meant⟩ |
    ⟨base, exponent, count, rfl, rfl, constant, defined, _⟩
  · rw [← whole] at meant ⊢
    exact (Dual.call_of_meaning isArithmetic meant).2
  · have literal : graph.dualAt environment name exponent = inl (count : Rat) := by
      rw [dualAt, constant]
      rfl
    simp only [List.map_cons, List.map_nil, literal, Dual.weighted_cons, Dual.weighted_nil, snd_inl,
      mul_zero, add_zero]
    have number : graph.fractionAt environment name exponent = count := by
      rw [fractionAt, constant]
      rfl
    rw [number]
    exact Dual.snd_power _ count defined

/-- An operand with the exact value at a position; a literal is an operand for itself. -/
def StandsExactly (graph : Graph) (environment : Environment) (name : String) (position : Nat)
    (operand : Operand) : Prop :=
  operand.Exactly environment .rational (graph.fractionAt environment name position) ∧
    ∀ value, graph.formAt position = .constant value → operand = .ofConstant value

theorem leaves_exactly (bound : environment.IsRational declarations) :
    Leaves graph declarations (graph.Rational environment)
      (graph.StandsExactly environment name) where
  constants := by
    rintro position literal ⟨rational, _⟩ found
    have same := formAt_constant found
    rw [same] at rational
    cases rational with
    | constant exact =>
        have number : literal.exactNumber? = some ((Form.constant literal).fraction environment name) :=
          Form.fraction_constant exact
        refine ⟨⟨?_, ?_⟩, fun value constant => ?_⟩
        · rw [fractionAt, same]
          exact .ofConstant (Value.meaning?_eq_number_iff.mpr number)
        · exact Value.proves_ofConstant rfl number (.inl rfl)
        · rw [same] at constant
          rw [Form.constant.inj constant]
  parameters := by
    rintro position other ⟨_, value, evaluated⟩ found
    have same := formAt_parameter found
    rw [same] at evaluated
    have looked := Form.lookup_of_evaluate evaluated
    obtain ⟨exact, ntype, declared, proven, typed⟩ := bound other value looked
    have number : value.exactNumber? = some ((Form.parameter other).fraction environment name) :=
      Form.fraction_parameter looked exact
    have own := parameterOperand_ntype declared
    refine ⟨⟨⟨value, ⟨evaluated, own ▸ typed⟩, ?_⟩, own ▸ proven⟩, fun literal constant => ?_⟩
    · rw [fractionAt, same]
      exact Value.meaning?_eq_number_iff.mpr number
    · rw [same] at constant
      cases constant

/-- Operands beside positions are beside their fractions. -/
theorem exactly_fractions {operands : List Nat} {results : List Operand}
    (related : List.Forall₂ (graph.StandsExactly environment name) operands results) :
    List.Forall₂ (Operand.Exactly environment .rational) results
      (operands.map (graph.fractionAt environment name)) :=
  List.forall₂_map_right_iff.mpr (related.flip.imp fun _ _ holds => holds.1)

/-- A literal exponent is a whole number of an integer type. -/
theorem exactly_exponent {position : Nat} {operand : Operand} {count : Int}
    (stands : graph.StandsExactly environment name position operand)
    (constant : graph.formAt position = .constant (.integer count)) :
    operand = .ofConstant (.integer count) ∧ operand.Exactly environment .integer count := by
  have same := stands.2 _ constant
  subst same
  exact ⟨rfl, .ofConstant rfl, Value.proves_ofConstant rfl (Value.exactNumber?_integer count)
    (.inr (Rat.den_intCast count))⟩

/-- All calls of a rational graph specialize to operands with exact values and exact types. -/
theorem meets_rational (standard : engine.registry = .standard)
    (deep : ∀ operation, allowed (.depth operation engine.ceiling))
    (bound : environment.IsRational declarations) (root : graph.Rational environment graph.root) :
    (graph.specializeAll engine declarations).Meets allowed
      (Memoized (graph.StandsExactly environment name) graph.postorder) := by
  refine meets_specializeAll (live_rational root) deep (leaves_exactly bound) ?_
  intro position depth operation operands results alive calls related
  have exact : ∀ name value, environment.lookup name = some value → value.exactNumber?.isSome = true :=
    fun name value looked => (bound name value looked).1
  have noLiteral : ∀ value, graph.formAt position ≠ .constant value := by
    rw [formAt_call calls]
    exact nofun
  suffices exactly : (engine.specialize depth operation results).Meets allowed
      (Operand.Exactly environment .rational · (graph.fractionAt environment name position)) from
    exactly.mono fun operand holds => ⟨holds, fun value same => absurd same (noLiteral value)⟩
  rcases rational_cases exact alive calls with ⟨arithmetic, isArithmetic, rfl, meant⟩ |
    ⟨base, exponent, count, rfl, rfl, constant, defined, power⟩
  · exact Engine.meets_exactlyArithmetic standard deep isArithmetic (exactly_fractions related)
      meant _ depth
  · match results, related with
    | [first, second], .cons baseStands (.cons exponentStands .nil) =>
        rw [power]
        exact Engine.meets_exactlyPower standard deep baseStands.1
          (exactly_exponent exponentStands constant).2 defined _ depth

end Graph

end Narrowing
