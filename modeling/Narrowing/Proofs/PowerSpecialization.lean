import Narrowing.Proofs.GraphRuns
import Narrowing.Proofs.InexactPowers

/-
This file shows for which types the specialized power of two variables stays exact.
-/

namespace Narrowing

/-- The power of two variables. -/
def Form.power (base exponent : String) : Form :=
  .call "expt" [.parameter base, .parameter exponent]

/-- An operand of this type has a value with this meaning. -/
def Operand.Stands (environment : Environment) (ntype : Ntype) (meaning : Meaning)
    (operand : Operand) : Prop := operand.Sound environment meaning ∧ operand.ntype = ntype

namespace Graph

variable {declarations : Declarations} {environment : Environment} {left right : String}

/-- A variable with a value of its type is an operand that takes this value. -/
theorem parameter_stands {name : String} {ntype : Ntype} {value : Value} {meaning : Meaning}
    (declared : declarations.lookup name = some ntype)
    (bound : environment.lookup name = some value) (typed : ntype.contains value = true)
    (meant : value.meaning? = some meaning) :
    (parameterOperand declarations name).Stands environment ntype meaning := by
  have same := parameterOperand_ntype declared
  refine ⟨⟨value, ⟨?_, same ▸ typed⟩, meant⟩, same⟩
  change environment.bound name = .ok value
  rw [Environment.bound, bound]
  rfl

/-- The specialized power of two variables keeps an exact power that the generic operation has
for a whole exponent, unless both types are exact and the exponent need not be whole. -/
theorem specialize_power_exact_iff (engine : Engine) (standard : engine.registry = .standard)
    (graph : Graph) (whole : graph.toForm = .power left right) (declarations : Declarations)
    (environment : Environment) (base exponent : Ntype)
    (baseDeclared : declarations.lookup left = some base)
    (exponentDeclared : declarations.lookup right = some exponent) (first second : Value)
    (baseBound : environment.lookup left = some first)
    (exponentBound : environment.lookup right = some second)
    (baseTyped : base.contains first = true) (exponentTyped : exponent.contains second = true)
    (baseExact : first.exactNumber?.isSome = true) (count : Int)
    (exponentWhole : second.exactNumber? = some (count : Rat)) (value : Value) (power : Rat)
    (computed : Generic.expt [first, second] = .ok value) (exact : value.exactNumber? = some power)
    (shallow : ∀ operation ceiling,
      (graph.specialize engine declarations).run.2 ≠ .error (.depth operation ceiling)) :
    (∃ operand result, (graph.specialize engine declarations).run.2 = .ok operand ∧
      (ofForm operand.form).evaluate .standard environment = .ok result ∧
      result.exactNumber? = some power) ↔ base.losesPowers exponent = false := by
  obtain ⟨number, baseNumber⟩ := Option.isSome_iff_exists.mp baseExact
  have defined : ¬(number = 0 ∧ count < 0) := by
    rintro ⟨rfl, negative⟩
    have failed := Generic.power_zero baseNumber exponentWhole negative
    cases computed.symm.trans failed
  have raised : power = number ^ count := by
    obtain ⟨result, succeeded, same⟩ := Generic.power_exact baseNumber exponentWhole defined
    cases computed.symm.trans succeeded
    exact Option.some.inj (exact.symm.trans same)
  have baseTakes := parameter_stands baseDeclared baseBound baseTyped
    (Value.meaning?_eq_number_iff.mpr baseNumber)
  have exponentTakes := parameter_stands exponentDeclared exponentBound exponentTyped
    (Value.meaning?_eq_number_iff.mpr exponentWhole)
  have called : graph.toForm = .call "expt" ([left, right].map .parameter) := whole
  constructor
  · rintro ⟨operand, result, yields, evaluated, kept⟩
    by_contra lost
    rw [Bool.not_eq_false] at lost
    have inexact : (graph.specialize engine declarations).Meets (fun _ => True)
        (Operand.Within environment · fun value => value.exactNumber? = none) := by
      refine meets_variableCall called (fun _ => trivial) fun depth => ?_
      exact Engine.meets_lostPower standard (fun _ => trivial) baseTakes.1 exponentTakes.1
        (by rw [baseTakes.2, exponentTakes.2, lost]) _ depth
    rw [evaluate_ofForm_iff] at evaluated
    have none := (inexact.of_yields yields).values result evaluated
    cases none.symm.trans kept
  · intro kept
    have stays : (graph.specialize engine declarations).Meets Fault.IsDepth
        (Operand.Sound environment · (.number (number ^ count))) := by
      refine meets_variableCall called (fun operation => Fault.isDepth_depth operation _)
        fun depth => ?_
      exact Engine.meets_power standard (fun operation => Fault.isDepth_depth operation _)
        baseTakes.1 exponentTakes.1 defined (by rw [baseTakes.2, exponentTakes.2, kept]) _ depth
    obtain ⟨operand, yields, result, ⟨evaluated, _⟩, meant⟩ := stays.exists_yields
      fun fault ⟨operation, ceiling, same⟩ => same ▸ shallow operation ceiling
    refine ⟨operand, result, yields, (evaluate_ofForm_iff _ _ _ _).mpr evaluated, ?_⟩
    rw [raised]
    exact Value.meaning?_eq_number_iff.mp meant

theorem powerForm_postorder : (ofForm (.power "x" "y")).postorder = [⟨2, 0⟩] := by cbv

/-- The square of three stays exact for an integer exponent and is inexact for a rational one. -/
theorem specialize_power_exact_iff_square :
    (∃ operand result, ((ofForm (.power "x" "y")).specialize ⟨.standard, 16, true⟩
        [("x", .primitive .rational), ("y", Tier.integer.ntype)]).run.2 = .ok operand ∧
      (ofForm operand.form).evaluate .standard [("x", .integer 3), ("y", .integer 2)] = .ok result ∧
      result.exactNumber? = some 9) ∧
    ¬∃ operand result, ((ofForm (.power "x" "y")).specialize ⟨.standard, 16, true⟩
        [("x", .primitive .rational), ("y", .primitive .rational)]).run.2 = .ok operand ∧
      (ofForm operand.form).evaluate .standard [("x", .integer 3), ("y", .integer 2)] = .ok result ∧
      result.exactNumber? = some 9 := by
  have succeeds : ∀ exponent ∈ [Tier.integer.ntype, .primitive .rational],
      ((ofForm (.power "x" "y")).specialize ⟨.standard, 16, true⟩
        [("x", .primitive .rational), ("y", exponent)]).run.2.isOk = true := by
    simp only [specialize, specializeAll, checkedVisits, powerForm_postorder]
    decide +kernel
  have shallow : ∀ exponent ∈ [Tier.integer.ntype, .primitive .rational], ∀ operation ceiling,
      ((ofForm (.power "x" "y")).specialize ⟨.standard, 16, true⟩
        [("x", .primitive .rational), ("y", exponent)]).run.2 ≠ .error (.depth operation ceiling) := by
    intro exponent member operation ceiling failed
    have succeeded := succeeds exponent member
    rw [failed] at succeeded
    cases succeeded
  have computed : Generic.expt [.integer 3, .integer 2] = .ok (.integer 9) := by rfl
  have each : ∀ exponent ∈ [Tier.integer.ntype, .primitive .rational], _ := fun exponent member =>
    specialize_power_exact_iff ⟨.standard, 16, true⟩ rfl (ofForm (.power "x" "y"))
      (toForm_ofForm _) [("x", .primitive .rational), ("y", exponent)]
      [("x", .integer 3), ("y", .integer 2)] (.primitive .rational) exponent rfl rfl (.integer 3)
      (.integer 2) rfl rfl (by decide) (by revert exponent; decide) rfl 2 rfl (.integer 9) 9 computed
      rfl (shallow exponent member)
  refine ⟨(each _ List.mem_cons_self).mpr (by decide), fun kept => ?_⟩
  exact absurd ((each _ (List.mem_cons_of_mem _ List.mem_cons_self)).mp kept) (by decide)

end Graph

end Narrowing
