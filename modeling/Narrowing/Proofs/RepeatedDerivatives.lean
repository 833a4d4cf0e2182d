import Narrowing.Proofs.RepeatedRuns
import Narrowing.Proofs.RunnableDerivatives

/-
This file shows that the derivative of a call in an operand depends on the operands alone, and not
on the depth of the call.
-/

namespace Narrowing

/-- A generic plan is direct. -/
theorem Plan.IsGeneric.isDirect {Result : Type} {plan : Plan Result} (generic : plan.IsGeneric) :
    plan.IsDirect := by
  induction generic with
  | done result => exact .done result
  | fail fault => exact .fail fault
  | constant _ inductionHypothesis => exact .constant inductionHypothesis
  | call _ _ _ _ inductionHypothesis => exact .call inductionHypothesis

/-- All derivative rules of the library are direct. -/
theorem Library.isDirect_differentiator {record : Record} (member : record ∈ records)
    {rule : DerivativeRule} (ruled : record.differentiator = some rule) (index : Nat)
    (handles : List Handle) : (rule index handles).IsDirect := by
  rcases mem_cases member with plain | ⟨tier, operation, _, rfl⟩
  · exact (isGeneric_differentiator plain ruled index handles).isDirect
  · exact (Derivative.isGeneric_rule ruled).isDirect

theorem Registry.isDirect_differentiator_of_check {operation : String} {count : Int}
    {record : Record} (checked : standard.check operation count = .ok record)
    {rule : DerivativeRule} (ruled : record.differentiator = some rule) (index : Nat)
    (handles : List Handle) : (rule index handles).IsDirect := by
  rcases cases_of_check checked with rfl | ⟨original, member, serial, rfl⟩
  · cases ruled
  · exact Library.isDirect_differentiator member ruled index handles

namespace Engine

open Traced

variable {engine : Engine} {allowed : Fault → Prop} {first second : Level}

/-- A derivative is the same on two levels when the calls below them do the same. -/
theorem agrees_differentiateCall (standard : engine.registry = .standard)
    (below : ∀ operation operands,
      Agrees allowed (first.specialize operation operands) (second.specialize operation operands))
    (depth other : Nat) (operation : String) (operands : List Operand) (index : Int) :
    Agrees allowed (engine.differentiateCall depth first operation operands index)
      (engine.differentiateCall other second operation operands index) := by
  unfold differentiateCall
  rw [standard]
  cases checked : Registry.standard.check operation operands.length with
  | error fault => exact agrees_throw fault
  | ok record =>
      dsimp only
      split
      · exact agrees_throw _
      · cases ruled : record.differentiator with
        | none => exact agrees_throw _
        | some rule =>
            exact agrees_follow (Registry.isDirect_differentiator_of_check checked ruled _) below
              depth other operands

variable {depth other : Nat}

/-- A call does the same at a smaller depth, unless there is no level left for it. -/
theorem agrees_specialize (standard : engine.registry = .standard)
    (deep : ∀ operation, allowed (.depth operation engine.ceiling)) (higher : other ≤ depth)
    (operation : String) (operands : List Operand) :
    Agrees allowed (engine.specialize depth operation operands)
      (engine.specialize other operation operands) :=
  agrees_level standard deep (by omega) depth other operation operands

/-- The derivative of a call is the same at a smaller depth, unless there is no level left. -/
theorem agrees_differentiate (standard : engine.registry = .standard)
    (deep : ∀ operation, allowed (.depth operation engine.ceiling)) (higher : other ≤ depth)
    (operation : String) (operands : List Operand) (index : Int) :
    Agrees allowed (engine.differentiate depth operation operands index)
      (engine.differentiate other operation operands index) := by
  have answers : Agrees allowed ((engine.levelAt depth).differentiate operation operands index)
      ((engine.levelAt other).differentiate operation operands index) := by
    unfold levelAt
    have room : (engine.ceiling + 1 - depth).toNat ≤ (engine.ceiling + 1 - other).toNat := by omega
    revert room
    cases (engine.ceiling + 1 - depth).toNat with
    | zero => exact fun _ _ => follows_allowed (deep operation) _
    | succ remaining =>
        cases (engine.ceiling + 1 - other).toNat with
        | zero => exact fun room => absurd room (Nat.not_succ_le_zero remaining)
        | succ others =>
            intro room
            rw [level_succ_differentiate, level_succ_differentiate]
            exact agrees_differentiateCall standard (agrees_level standard deep
              (Nat.le_of_succ_le_succ room) (depth + 1) (other + 1)) depth other operation operands
                index
  refine answers.bind fun answer => ?_
  cases answer with
  | none => exact agrees_throw _
  | some made => exact agrees_pure made

end Engine

end Narrowing
