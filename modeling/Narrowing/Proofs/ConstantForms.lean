import Narrowing.Proofs.GraphRuns
import Narrowing.Proofs.LiteralResults

/-
This file shows that a graph without variables specializes to the literal of its value.
-/

namespace Narrowing

namespace Engine

open Traced

variable {engine : Engine} {allowed : Fault → Prop} {operands : List Operand}
  {values : List Value} {value : Value}

end Engine

namespace Graph

open Traced

variable {graph : Graph} {engine : Engine} {environment : Environment}

/-- An operand is the literal of the value of the form at a position. -/
def HoldsValue (graph : Graph) (environment : Environment) (position : Nat) (operand : Operand) :
    Prop :=
  ∃ value, (graph.formAt position).evaluate .standard environment = .ok value ∧
    value.isLiteral = true ∧ operand = .ofConstant value

theorem HoldsValue.exists_values {positions : List Nat} {operands : List Operand}
    (related : List.Forall₂ (graph.HoldsValue environment) positions operands) :
    ∃ values : List Value, operands = values.map .ofConstant ∧
      (∀ value ∈ values, value.isLiteral = true) ∧
      List.Forall₂ (fun position value =>
        (graph.formAt position).evaluate .standard environment = .ok value) positions values := by
  induction related with
  | nil => exact ⟨[], rfl, nofun, .nil⟩
  | cons first _ inductionHypothesis =>
      obtain ⟨value, evaluated, isLiteral, rfl⟩ := first
      obtain ⟨values, rfl, literals, others⟩ := inductionHypothesis
      exact ⟨value :: values, rfl, List.forall_mem_cons.mpr ⟨isLiteral, literals⟩,
        .cons evaluated others⟩

end Graph

end Narrowing
