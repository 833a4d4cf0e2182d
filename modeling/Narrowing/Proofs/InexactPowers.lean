import Narrowing.Proofs.PowerCalls

/-
This file shows that powers in double precision have no exact values.
-/

namespace Narrowing

variable {environment : Environment}

/-- All values of an operand, and the literal of its type, have a property. -/
structure Operand.Within (environment : Environment) (operand : Operand) (holds : Value → Prop) :
    Prop where
  values : ∀ value, operand.form.evaluate .standard environment = .ok value → holds value
  literal : ∀ member, operand.ntype.constant? = some member → holds member

theorem Ntype.constant?_ofConstant {value member : Value}
    (constant : (ofConstant value).constant? = some member) : member = value := by
  cases value <;> cases constant <;> rfl

namespace Operand.Within

variable {holds : Value → Prop}

theorem ofConstant {value : Value} (held : holds value) :
    (Operand.ofConstant value).Within environment holds where
  values _ evaluated := Except.ok.inj evaluated ▸ held
  literal _ constant := Ntype.constant?_ofConstant constant ▸ held

theorem mono {operand : Operand} {other : Value → Prop}
    (within : operand.Within environment holds) (implied : ∀ value, holds value → other value) :
    operand.Within environment other where
  values value evaluated := implied value (within.values value evaluated)
  literal member constant := implied member (within.literal member constant)

/-- An operand with a meaning has no other values. -/
theorem ofSound {operand : Operand} {meaning : Meaning}
    (sound : operand.Sound environment meaning) :
    operand.Within environment fun value => value.meaning? = some meaning := by
  obtain ⟨value, ⟨evaluated, inside⟩, meant⟩ := sound
  refine ⟨fun other found => ?_, fun member constant => ?_⟩
  · rwa [← Except.ok.inj (evaluated.symm.trans found)]
  · rwa [Operand.Sound.eq_of_constant inside meant constant]

variable {operands : List Operand} {predicates : List (Value → Prop)} {values : List Value}

/-- The values of several operands, each with the property of its operand. -/
theorem values_of_mapM
    (each : List.Forall₂ (fun operand holds => Operand.Within environment operand holds) operands
      predicates)
    (evaluated : (operands.map (·.form)).mapM (Form.evaluate .standard environment) = .ok values) :
    List.Forall₂ (fun value holds => holds value) values predicates := by
  rw [List.mapM_map, mapM_eq_ok_iff] at evaluated
  induction each generalizing values with
  | nil =>
      cases evaluated
      exact .nil
  | cons first _ inductionHypothesis =>
      cases evaluated with
      | cons found others => exact .cons (first.values _ found) (inductionHypothesis others)

theorem values_of_literals
    (each : List.Forall₂ (fun operand holds => Operand.Within environment operand holds) operands
      predicates)
    (literals : Engine.literals? operands = some values) :
    List.Forall₂ (fun value holds => holds value) values predicates := by
  have related := Engine.literals?_related literals
  clear literals
  induction each generalizing values with
  | nil =>
      cases related
      exact .nil
  | cons first _ inductionHypothesis =>
      cases related with
      | cons constant others =>
          exact .cons (first.literal _ constant) (inductionHypothesis others)

end Operand.Within

namespace Engine

open Traced

variable {engine : Engine} {allowed : Fault → Prop} {holds : Value → Prop}

/-- A specialized call has the results of its implementation, or those of the answer of its rule. -/
theorem meets_within (standard : engine.registry = .standard)
    (anyway : ∀ fault, allowed fault) {record : Record} (member : record ∈ Library.records)
    {implementation : Implementation} (implemented : record.implementation = some implementation)
    (single : record.values.isSingle = true)
    (varied : record.values.primary.constant? = none) {depth : Nat} {below : Level}
    {operands : List Operand} (accepts : record.accepts operands.length = true)
    {predicates : List (Value → Prop)}
    (each : List.Forall₂ (fun operand holds => Operand.Within environment operand holds) operands
      predicates)
    (computes : ∀ values value, List.Forall₂ (fun value holds => holds value) values predicates →
      implementation values = .ok value → holds value)
    (answers : (engine.ruleAnswer depth below record operands).Meets allowed
      fun answer => ∀ operand, answer = some operand → operand.Within environment holds) :
    (engine.specializeCall depth below record.name operands).Meets allowed
      (Operand.Within environment · holds) := by
  have plain : (plainCall record operands).Within environment holds := by
    refine ⟨fun value evaluated => ?_, fun member constant => ?_⟩
    · rw [plainCall, Form.evaluate_call] at evaluated
      cases found : (operands.map (·.form)).mapM (Form.evaluate .standard environment) with
      | error fault =>
          rw [found] at evaluated
          cases evaluated
      | ok values =>
          rw [found] at evaluated
          obtain ⟨_, computed⟩ :=
            Registry.implementation_of_applyOperation member implemented single evaluated
          exact computes values value (Operand.Within.values_of_mapM each found) computed
    · have impossible : record.values.primary.constant? = some member := constant
      rw [varied] at impossible
      cases impossible
  refine meets_specializeCall standard member accepts ?_
  unfold fold?
  rw [implemented]
  split
  · rename_i value folded
    split at folded
    · rename_i _ _ same literals
      cases same
      split at folded
      · rename_i result computed
        cases folded
        exact .ofConstant (computes _ _ (Operand.Within.values_of_literals each literals) computed)
      · split at folded <;> cases folded
    · cases folded
  · refine answers.mono fun answer within => ?_
    cases answer with
    | none => exact plain
    | some operand => exact within operand rfl
  · exact anyway _

end Engine

/-- The results of real powers in double precision. -/
theorem PlainNumber.doublePower_inexact {base exponent : Float} {result : PlainNumber}
    (computed : doublePower base exponent = .ok result) : result.toValue.exactNumber? = none := by
  unfold doublePower at computed
  split at computed
  · cases computed
  split at computed
  · unfold complexPower at computed
    cases powered : orFault ((ComplexDouble.ofReal base).pow (.ofReal exponent)) Fault.zeroDivision with
    | error fault =>
        rw [powered] at computed
        cases computed
    | ok power =>
        rw [powered] at computed
        change (if _ then _ else _ : Except Fault PlainNumber) = _ at computed
        split at computed <;> cases computed
        rfl
  · simp only at computed
    split at computed <;> cases computed
    rfl

/-- The value is a real number in double precision. -/
def Value.IsDouble (value : Value) : Prop := ∃ number, value = .double number

theorem Generic.coerce_isDouble {values : List Value} {value : Value}
    (computed : coerce .float64 values = .ok value) : value.IsDouble := by
  match values with
  | [] | _ :: _ :: _ => cases computed
  | [source] =>
      simp only [coerce] at computed
      cases found : tier source with
      | error fault =>
          rw [found] at computed
          cases computed
      | ok own =>
          rw [found] at computed
          change (if _ then _ else _ : Except Fault Value) = _ at computed
          split at computed
          · cases computed
          · change source.toDouble.map .double = .ok value at computed
            cases read : source.toDouble with
            | error fault =>
                rw [read] at computed
                cases computed
            | ok number =>
                rw [read] at computed
                exact ⟨number, (Except.ok.inj computed).symm⟩

/-- A power of doubles is inexact. -/
theorem Tier.power_inexact {base exponent value : Value} (baseDouble : base.IsDouble)
    (exponentDouble : exponent.IsDouble)
    (computed : Tier.float64.compute .expt [base, exponent] = .ok value) : value.exactNumber? = none := by
  obtain ⟨left, rfl⟩ := baseDouble
  obtain ⟨right, rfl⟩ := exponentDouble
  change (PlainNumber.doublePower left right).map PlainNumber.toValue = .ok value at computed
  cases powered : PlainNumber.doublePower left right with
  | error fault =>
      rw [powered] at computed
      cases computed
  | ok result =>
      rw [powered] at computed
      rw [← Except.ok.inj computed]
      exact PlainNumber.doublePower_inexact powered

namespace Engine

open Traced

variable {engine : Engine} {allowed : Fault → Prop} {base exponent : Operand} {number : Rat}
  {count : Int}

/-- An exact operand turns into a double. -/
theorem meets_toDouble (standard : engine.registry = .standard) (anyway : ∀ fault, allowed fault)
    {operand : Operand} (sound : operand.Sound environment (.number number))
    (remaining depth : Nat) :
    (converted (engine.level remaining depth) operand .float64).Meets allowed
      (Operand.Within environment · Value.IsDouble) := by
  have unproven : operand.ntype.proves Tier.float64.ntype = false := by
    by_contra proven
    obtain ⟨value, ⟨_, inside⟩, meant⟩ := sound
    have tiers := Ntype.contains_tier.mp
      (Ntype.contains_of_proves (Bool.not_eq_false _ ▸ proven) inside)
    rw [Value.tier?_of_exact (Value.meaning?_eq_number_iff.mp meant)] at tiers
    rcases tiers with same | ⟨impossible, _⟩
    · split at same <;> cases same
    · cases impossible
  change (if operand.ntype.proves Tier.float64.ntype then _ else _ : Traced Operand).Meets _ _
  rw [unproven]
  have member : Tier.float64 ∈ Library.inexactTiers := by decide
  refine meets_level (fun operation => anyway _) (fun remaining depth => ?_) remaining depth
  refine meets_within standard anyway (Library.coercion_mem member) rfl rfl rfl rfl
    (.cons (Operand.Within.ofSound sound) .nil) (fun _ _ _ => Generic.coerce_isDouble) ?_
  change (engine.follow depth _ (Rule.coercion .float64) [operand]).Meets _ _
  rw [follow_coercion, coercionAnswer, unproven]
  exact meets_pure fun _ impossible => by cases impossible

/-- The powers of doubles have no exact values. -/
theorem meets_doublePower (standard : engine.registry = .standard)
    (anyway : ∀ fault, allowed fault)
    (baseWithin : base.Within environment Value.IsDouble)
    (exponentWithin : exponent.Within environment Value.IsDouble) (remaining depth : Nat) :
    ((engine.level remaining depth).specialize (Tier.float64.operationName .expt)
      [base, exponent]).Meets allowed
      (Operand.Within environment · fun value => value.exactNumber? = none) := by
  have offered : Tier.float64.offers .expt = true := by decide
  have varied : (Library.tierValues .float64 .expt).primary.constant? = none := by decide
  refine meets_level (fun operation => anyway _) (fun remaining depth => ?_) remaining depth
  refine meets_within standard anyway (Library.tier_mem offered) rfl (tierValues_isSingle _ _)
    varied rfl (.cons baseWithin (.cons exponentWithin .nil)) ?_ ?_
  · rintro _ value (_ | ⟨baseDouble, _ | ⟨exponentDouble, _ | _⟩⟩) computed
    exact Tier.power_inexact baseDouble exponentDouble computed
  · exact meets_pure fun _ impossible => by cases impossible

/-- An exponent that need not be whole is no literal, if it is whole. -/
theorem constant?_eq_none (exponentSound : exponent.Sound environment (.number count))
    (unproven : exponent.ntype.proves Tier.integer.ntype = false) :
    exponent.ntype.constant? = none := by
  obtain ⟨value, ⟨_, inside⟩, meant⟩ := exponentSound
  cases constant : exponent.ntype.constant? with
  | none => rfl
  | some member =>
      have same := Operand.Sound.eq_of_constant inside meant constant
      subst same
      have whole : Tier.integer.ntype.contains member = true := by
        refine Ntype.contains_tier.mpr (.inl ?_)
        rw [Value.tier?_of_exact (Value.meaning?_eq_number_iff.mp meant), Rat.den_intCast]
        rfl
      cases single : exponent.ntype with
      | primitive primitive =>
          rw [single] at constant
          cases constant
      | singleton other =>
          rw [single] at constant unproven
          cases constant
          exact absurd (whole.symm.trans unproven) (by decide)

/-- Powers of exact operands that leave the exact tiers have no exact values. -/
theorem meets_lostPower (standard : engine.registry = .standard) (anyway : ∀ fault, allowed fault)
    (baseSound : base.Sound environment (.number number))
    (exponentSound : exponent.Sound environment (.number count))
    (lost : base.ntype.losesPowers exponent.ntype = true) :
    ∀ remaining depth,
      ((engine.level remaining depth).specialize "expt" [base, exponent]).Meets allowed
        (Operand.Within environment · fun value => value.exactNumber? = none) := by
  simp only [Ntype.losesPowers, Bool.and_eq_true, Bool.not_eq_true'] at lost
  obtain ⟨⟨baseExact, exponentExact⟩, unproven⟩ := lost
  have varied := constant?_eq_none exponentSound unproven
  have noLiteral : ∀ number : Int, exponent.isInteger number = false := by
    intro number
    unfold Operand.isInteger Plan.holdsExact
    rw [varied]
  have numbers : (base.isNumber && exponent.isNumber) = true := by
    rw [Operand.isNumber, Operand.isNumber, Ntype.proves_number_of_tier baseExact,
      Ntype.proves_number_of_tier exponentExact]
    rfl
  have met : ∃ tier : Tier, tier.isExact = true ∧ metTier? base exponent = some tier := by
    obtain ⟨value, ⟨_, inside⟩, meant⟩ := baseSound
    obtain ⟨other, ⟨_, otherInside⟩, otherMeant⟩ := exponentSound
    rw [Value.meaning?_eq_number_iff] at meant otherMeant
    obtain ⟨tier, isExact, _, found⟩ := Ntype.contagion_exact rfl baseExact exponentExact
      (Ntype.contains_cover inside) (Ntype.contains_cover otherInside)
      ((Value.atom_tier? value).trans (Value.tier?_of_exact meant))
      ((Value.atom_tier? other).trans (Value.tier?_of_exact otherMeant))
    exact ⟨tier, isExact, found⟩
  obtain ⟨tier, isExact, found⟩ := met
  have chosen : Plan.binaryTier .expt true tier = .float64 := by
    simp [Plan.binaryTier, isExact]
  have contained : engine.registry.contains (Tier.float64.operationName .expt) = true := by
    have offered : Tier.float64.offers .expt = true := by decide
    rw [standard]
    exact Registry.standard_contains (Library.tier_mem offered)
  refine meets_level (fun operation => anyway _) fun remaining depth => ?_
  refine meets_specializeCall standard Library.power_mem rfl ?_
  rw [fold?_eq_none engine _ (List.mem_cons_of_mem _ List.mem_cons_self) varied]
  change (engine.follow depth _ Rule.power [base, exponent]).Meets _ _
  rw [follow_power]
  simp only [powerAnswer, numbers, noLiteral, isExactPower, unproven, Bool.false_and,
    Bool.not_true, Bool.false_eq_true, if_false, binaryAnswer, found, chosen, tierAnswer, contained,
    if_true]
  refine (meets_toDouble standard anyway baseSound remaining (depth + 1)).bind
    fun left leftWithin => ?_
  refine (meets_toDouble standard anyway exponentSound remaining (depth + 1)).bind
    fun right rightWithin => ?_
  exact Meets.map (meets_doublePower standard anyway leftWithin rightWithin remaining (depth + 1))

end Engine

end Narrowing
