import Narrowing.Proofs.RunnableCalls

/-
This file shows that the derivative rules of the library make only calls that run.
-/

namespace Narrowing

namespace Plan

variable {First Result : Type}

/-- The plan asks for literals and for calls of generic operations only. -/
inductive IsGeneric {Result : Type} : Plan Result → Prop where
  | done (result : Result) : IsGeneric (.done result)
  | fail (fault : Fault) : IsGeneric (.fail fault)
  | constant {value : Value} {next : Handle → Plan Result}
      (rest : ∀ handle, IsGeneric (next handle)) : IsGeneric (.constant value next)
  | call (record : Record) {handles : List Handle} {next : Handle → Plan Result}
      (member : record ∈ Library.plainRecords) (accepts : record.accepts handles.length = true)
      (rest : ∀ handle, IsGeneric (next handle)) : IsGeneric (.call record.name handles next)

namespace IsGeneric

theorem bind {plan : Plan First} {next : First → Plan Result} (generic : plan.IsGeneric)
    (rest : ∀ result, (next result).IsGeneric) : (plan >>= next).IsGeneric := by
  induction generic with
  | done result => exact rest result
  | fail fault => exact .fail fault
  | constant _ inductionHypothesis => exact .constant inductionHypothesis
  | call record member accepts _ inductionHypothesis =>
      exact .call record member accepts inductionHypothesis

theorem map {plan : Plan Handle} (generic : plan.IsGeneric) :
    (some <$> plan : Plan (Option Handle)).IsGeneric :=
  generic.bind fun handle => .done (some handle)

theorem ofConstant (value : Value) : (Plan.ofConstant value).IsGeneric :=
  .constant fun handle => .done handle

theorem ofArithmetic (operation : Operation) (isArithmetic : operation.isArithmetic = true)
    {handles : List Handle} (accepts : operation.identity?.isSome = true ∨ 0 < handles.length) :
    (Plan.ofCall operation.symbol handles).IsGeneric := by
  have member := Library.arithmetic_plain (Library.genericRecord_arithmetic isArithmetic)
  refine .call (Library.genericRecord operation) member ?_ fun handle => .done handle
  exact (Library.genericRecord_accepts operation handles.length).mpr accepts

theorem ofCons (operation : Operation) (isArithmetic : operation.isArithmetic = true)
    (handle : Handle) (rest : List Handle) :
    (Plan.ofCall operation.symbol (handle :: rest)).IsGeneric :=
  ofArithmetic operation isArithmetic (.inr (Nat.succ_pos rest.length))

theorem ofFunction (operation : Operation) (isFunction : operation ∈ Library.functions)
    (handle : Handle) : (Plan.ofCall operation.symbol [handle]).IsGeneric :=
  .call (Library.functionRecord operation) (Library.function_plain isFunction) rfl
    fun handle => .done handle

theorem ofPower (base exponent : Handle) : (Plan.ofCall "expt" [base, exponent]).IsGeneric :=
  .call Library.powerRecord Library.power_plain rfl fun handle => .done handle

end IsGeneric

end Plan

namespace Derivative

open Plan

variable {index : Nat} {handles : List Handle}

theorem isGeneric_product : (product index handles).IsGeneric := by
  unfold product
  split
  · exact (IsGeneric.ofConstant _).map
  · exact (IsGeneric.ofArithmetic .mul rfl (.inl rfl)).map

theorem isGeneric_quotient : (quotient index handles).IsGeneric := by
  unfold quotient
  split
  · refine (IsGeneric.ofConstant _).bind fun negative => ?_
    refine (IsGeneric.ofCons .mul rfl _ _).bind fun square => ?_
    exact (IsGeneric.ofCons .div rfl _ _).map
  split
  · refine (IsGeneric.ofConstant _).bind fun one => ?_
    exact (IsGeneric.ofCons .div rfl _ _).map
  split
  · exact .fail _
  · rename_i divisor found
    have filled : 0 < handles.length :=
      Nat.lt_of_le_of_lt (Nat.zero_le index) (List.getElem?_eq_some_iff.mp found).1
    refine (IsGeneric.ofArithmetic .div rfl (.inr filled)).bind fun whole => ?_
    refine (IsGeneric.ofCons .div rfl _ _).bind fun divided => ?_
    exact (IsGeneric.ofCons .sub rfl _ _).map

theorem isGeneric_ofFunction {plan : Handle → Plan Handle}
    (generic : ∀ handle, (plan handle).IsGeneric) :
    (ofFunction plan index handles).IsGeneric := by
  unfold ofFunction
  split
  · exact (generic _).map
  · exact .fail _

theorem isGeneric_power : (power index handles).IsGeneric := by
  unfold power
  split
  · split
    · refine (IsGeneric.ofConstant _).bind fun one => ?_
      refine (IsGeneric.ofCons .sub rfl _ _).bind fun lowered => ?_
      refine (IsGeneric.ofPower _ lowered).bind fun lower => ?_
      exact (IsGeneric.ofCons .mul rfl _ _).map
    · refine (IsGeneric.ofFunction .log (by decide) _).bind fun logarithm => ?_
      refine (IsGeneric.ofPower _ _).bind fun same => ?_
      exact (IsGeneric.ofCons .mul rfl _ _).map
  · exact .fail _

/-- All derivative rules ask for generic calls only. -/
theorem isGeneric_rule {operation : Operation} {rule : DerivativeRule}
    (found : rule? operation = some rule) : (rule index handles).IsGeneric := by
  cases operation with
  | lt | eq => cases found
  | add =>
      cases found
      exact (IsGeneric.ofConstant _).map
  | sub =>
      cases found
      unfold difference
      split <;> exact (IsGeneric.ofConstant _).map
  | mul =>
      cases found
      exact isGeneric_product
  | div =>
      cases found
      exact isGeneric_quotient
  | expt =>
      cases found
      exact isGeneric_power
  | neg =>
      cases found
      exact isGeneric_ofFunction fun _ => .ofConstant _
  | abs =>
      cases found
      refine isGeneric_ofFunction fun handle => ?_
      refine (IsGeneric.ofFunction .abs (by decide) handle).bind fun size => ?_
      exact .ofCons .div rfl _ _
  | sqrt =>
      cases found
      refine isGeneric_ofFunction fun handle => (IsGeneric.ofConstant _).bind fun one => ?_
      refine (IsGeneric.ofConstant _).bind fun two => ?_
      refine (IsGeneric.ofFunction .sqrt (by decide) handle).bind fun root => ?_
      refine (IsGeneric.ofCons .mul rfl _ _).bind fun double => ?_
      exact .ofCons .div rfl _ _
  | exp =>
      cases found
      exact isGeneric_ofFunction (.ofFunction .exp (by decide))
  | log =>
      cases found
      refine isGeneric_ofFunction fun handle => (IsGeneric.ofConstant _).bind fun one => ?_
      exact .ofCons .div rfl _ _
  | sin =>
      cases found
      exact isGeneric_ofFunction (.ofFunction .cos (by decide))
  | cos =>
      cases found
      refine isGeneric_ofFunction fun handle => ?_
      refine (IsGeneric.ofFunction .sin (by decide) handle).bind fun sine => ?_
      exact .ofCons .sub rfl _ _
  | tan =>
      cases found
      refine isGeneric_ofFunction fun handle => ?_
      refine (IsGeneric.ofFunction .tan (by decide) handle).bind fun tangent => ?_
      refine (IsGeneric.ofConstant _).bind fun one => ?_
      refine (IsGeneric.ofCons .mul rfl _ _).bind fun square => ?_
      exact .ofCons .add rfl _ _

end Derivative

/-- The rules of all records ask for generic calls only. -/
theorem Library.isGeneric_differentiator {record : Record} (member : record ∈ plainRecords)
    {rule : DerivativeRule} (found : record.differentiator = some rule) (index : Nat)
    (handles : List Handle) : (rule index handles).IsGeneric := by
  rcases plain_cases member with ⟨operation, _, _, _, rfl⟩ | ⟨operation, _, rfl⟩ | rfl | rfl |
    ⟨operation, _, rfl⟩ | ⟨tier, _, rfl⟩
  · exact Derivative.isGeneric_rule found
  · exact Derivative.isGeneric_rule found
  · cases found
    exact Derivative.isGeneric_power
  · cases found
  · cases found
  · cases found
    exact Derivative.isGeneric_ofFunction fun _ => .ofConstant _

namespace Engine

open Traced

variable {declarations : Declarations} {engine : Engine} {depth : Nat} {below : Level}
  {known operands : List Operand}

/-- Handles name as many operands, all of them known. -/
theorem ensures_operandsOf (known : List Operand) (handles : List Handle) :
    (Traced.ofExcept (operandsOf known handles)).Ensures fun operands =>
      operands.length = handles.length ∧ ∀ operand ∈ operands, operand ∈ known := by
  refine meets_ofExcept ?_
  split
  · rename_i operands found
    have related := mapM_eq_ok_iff.mp found
    refine ⟨related.length_eq.symm, fun operand member => ?_⟩
    obtain ⟨handle, _, named⟩ := exists_related_of_mem related.flip member
    exact List.mem_of_getElem? (eq_some_of_orFault named)
  · trivial

/-- A generic plan keeps all known operands such that they run. -/
theorem ensures_runPlan {Result : Type} (emits : below.Emits declarations) {plan : Plan Result}
    (generic : plan.IsGeneric) (runs : ∀ operand ∈ known, operand.Runs declarations) :
    (engine.runPlan depth below plan known).Ensures fun outcome =>
      ∀ operand ∈ outcome.2, operand.Runs declarations := by
  have extended : ∀ {known : List Operand} {made : Operand},
      (∀ operand ∈ known, operand.Runs declarations) → made.Runs declarations →
        ∀ operand ∈ known ++ [made], operand.Runs declarations := by
    intro known made runs madeRuns
    exact List.forall_mem_append.mpr ⟨runs, List.forall_mem_singleton.mpr madeRuns⟩
  induction generic generalizing known with
  | done result => exact meets_pure runs
  | fail fault => exact meets_throw trivial
  | constant _ inductionHypothesis =>
      refine (ensures_constant declarations _).bind fun made madeRuns => ?_
      exact inductionHypothesis _ (extended runs madeRuns)
  | @call record handles next member accepts _ inductionHypothesis =>
      refine (ensures_operandsOf known handles).bind fun operands named => ?_
      have each : ∀ operand ∈ operands, operand.Runs declarations :=
        fun operand among => runs operand (named.2 operand among)
      have taken : record.Takes declarations operands :=
        .plain member (named.1 ▸ accepts) each
      refine (emits.runs record operands taken).bind fun made madeRuns => ?_
      exact inductionHypothesis _ (extended runs madeRuns)

theorem ensures_follow (emits : below.Emits declarations)
    {plan : List Handle → Plan (Option Handle)}
    (generic : (plan (List.range operands.length)).IsGeneric)
    (runs : ∀ operand ∈ operands, operand.Runs declarations) :
    (engine.follow depth below plan operands).Ensures (AnswerRuns declarations) := by
  refine (ensures_runPlan emits generic runs).bind fun outcome outcomeRuns => ?_
  obtain ⟨result, known⟩ := outcome
  cases result with
  | none => exact meets_pure answerRuns_none
  | some handle =>
      have named : (Traced.ofExcept (orFault known[handle]? .missingPart)).Ensures
          (Operand.Runs declarations) := by
        refine meets_ofExcept ?_
        split
        · rename_i found
          exact outcomeRuns _ (List.mem_of_getElem? (eq_some_of_orFault found))
        · trivial
      exact named.bind fun made madeRuns => meets_pure (answerRuns_some madeRuns)

/-- The derivative of a generic call runs. -/
theorem ensures_differentiate (standard : engine.registry = .standard) {record : Record}
    (member : record ∈ Library.plainRecords) (accepts : record.accepts operands.length = true)
    (runs : ∀ operand ∈ operands, operand.Runs declarations) (depth : Nat) (index : Int) :
    (engine.differentiate depth record.name operands index).Ensures
      (Operand.Runs declarations) := by
  have answers : ((engine.levelAt depth).differentiate record.name operands index).Ensures
      (AnswerRuns declarations) := by
    unfold levelAt
    cases (engine.ceiling + 1 - depth).toNat with
    | zero => exact meets_throw trivial
    | succ remaining =>
        rw [level_succ_differentiate]
        obtain ⟨serial, checked⟩ := Registry.standard_check (Library.plain_mem member) accepts
        unfold differentiateCall
        rw [standard, checked]
        simp only
        split
        · exact meets_throw trivial
        split
        · exact meets_throw trivial
        · rename_i rule found
          exact ensures_follow (emits_level standard declarations remaining (depth + 1))
            (Library.isGeneric_differentiator member found _ _) runs
  refine answers.bind fun answer answered => ?_
  cases answer with
  | none => exact meets_throw trivial
  | some made => exact meets_pure (answered made rfl)

end Engine

end Narrowing
