import Narrowing.Library.Standard
import Narrowing.Proofs.FirstPaths
import Narrowing.Proofs.GraphRuns

/-
This file says which graphs are too deep for a ceiling: those with a first path that is too long.
A call that is reached on a short path first and on a long one later does not count.
-/

namespace Narrowing

namespace Engine

open Traced

theorem check_empty (operation : String) (count : Nat) :
    Registry.empty.check operation count = .ok (.unknown operation) := by
  have accepts : (Record.unknown operation).accepts count = true := by
    simp [Record.accepts, Record.unknown]
  unfold Registry.check
  exact if_pos accepts

/-- An operation without a record stays as it is on every level. -/
theorem meets_unknown {ceiling : Int} {folds : Bool} {depth : Nat} (room : depth ≤ ceiling)
    (operation : String) (operands : List Operand) :
    (specialize ⟨.empty, ceiling, folds⟩ depth operation operands).Meets (fun _ => False)
      fun _ => True := by
  obtain ⟨remaining, left⟩ : ∃ remaining, (ceiling + 1 - depth).toNat = remaining + 1 :=
    ⟨(ceiling - depth).toNat, by omega⟩
  have unfolded : fold? ⟨.empty, ceiling, folds⟩ (.unknown operation) operands = .ok none := by
    cases folds <;> rfl
  unfold specialize levelAt
  rw [left, level_succ_specialize, specializeCall, check_empty]
  simp only [unfolded]
  exact meets_call trivial

end Engine

namespace Graph

open Traced

/-- Whatever the operations are, specialization and differentiation under the ceiling fail for the
depth of a call, and they fail before they make anything. -/
def IsRejected (graph : Graph) (ceiling : Int) : Prop :=
  ∀ (registry : Registry) (folds : Bool) (declarations : Declarations) (name : String),
    ∃ operation,
      (graph.specialize ⟨registry, ceiling, folds⟩ declarations).run =
        ([], .error (.depth operation ceiling)) ∧
      (graph.differentiate ⟨registry, ceiling, folds⟩ declarations name).run =
        ([], .error (.depth operation ceiling))

variable {graph : Graph} {ceiling : Int}

/-- Without records, the only fault of a graph is the depth of a visit. -/
theorem meets_unknownCalls (shallow : ∀ visit ∈ graph.postorder, ¬ceiling < visit.depth)
    (checked : graph.checkedVisits ⟨.empty, ceiling, true⟩ = .ok graph.postorder) :
    (graph.specialize ⟨.empty, ceiling, true⟩ []).Meets (fun _ => False) fun _ => True := by
  have lives : Live graph fun _ => True := ⟨trivial, fun _ _ _ _ _ _ _ => trivial⟩
  have leaves : Leaves graph [] (fun _ => True) fun _ _ => True :=
    ⟨fun _ _ _ _ => trivial, fun _ _ _ _ => trivial⟩
  unfold specialize specializeAll
  rw [checked]
  refine (meets_specializeVisits lives leaves fun visit member operation _ results _ _ _ =>
    Engine.meets_unknown (Int.not_lt.mp (shallow visit member)) operation results).bind
      fun memo memoized => ?_
  exact meets_operandAt leaves memoized trivial fun _ _ calls => root_visited calls

/-- A graph is rejected just when some visit lies too deep. -/
theorem isRejected_iff_visit :
    graph.IsRejected ceiling ↔ ∃ visit ∈ graph.postorder, ceiling < visit.depth := by
  constructor
  · intro rejected
    rcases graph.checkedVisits_cases ⟨.empty, ceiling, true⟩ with ⟨shallow, checked⟩ | ⟨deep, _⟩
    · obtain ⟨operation, failed, _⟩ := rejected .empty true [] ""
      have met := (meets_unknownCalls shallow checked).of_run
      rw [failed] at met
      cases met
    · exact deep
  · intro deep registry folds declarations name
    rcases graph.checkedVisits_cases ⟨registry, ceiling, folds⟩ with ⟨shallow, _⟩ |
      ⟨_, _, ⟨operation, rfl⟩, failed⟩
    · obtain ⟨visit, member, deep⟩ := deep
      exact absurd deep (shallow visit member)
    · refine ⟨operation, ?_, ?_⟩
      · simp only [specialize, specializeAll, failed]
        rfl
      · simp only [differentiate, specializeAll, failed]
        rfl

theorem isRejected_iff_firstPath : graph.IsRejected ceiling ↔
    ∃ path target, FirstPath graph.nodes graph.root path target ∧ ceiling < path.length := by
  rw [isRejected_iff_visit]
  constructor
  · rintro ⟨visit, member, deep⟩
    obtain ⟨path, first, same⟩ := mem_postorder_iff.mp member
    exact ⟨path, visit.position, first, same ▸ deep⟩
  · rintro ⟨path, target, first, deep⟩
    exact ⟨⟨target, path.length⟩, mem_postorder_iff.mpr ⟨path, first, rfl⟩, deep⟩

/-- A graph is rejected just when the first path to some call has more calls than the ceiling
allows; a form without shared parts is rejected just when any path has. -/
theorem isRejected_iff (ceiling : Int) :
    (∀ graph : Graph, graph.IsRejected ceiling ↔
      ∃ path target, FirstPath graph.nodes graph.root path target ∧ ceiling < path.length) ∧
    ∀ form : Form, (ofForm form).IsRejected ceiling ↔
      ∃ path target, Path (ofForm form).nodes (ofForm form).root path target ∧
        ceiling < path.length := by
  refine ⟨fun graph => isRejected_iff_firstPath, fun form => ?_⟩
  simp only [isRejected_iff_firstPath, firstPath_ofForm_iff]

/-- The sum of a sine and of the cosine of the same sine. -/
def sharedSine : Graph where
  nodes := #[.parameter "x", .call "sin" [0], .call "cos" [1], .call "+" [1, 2]]
  ordered := by
    unfold Ordered
    decide
  root := 3
  rooted := by decide

theorem sharedSine_postorder : sharedSine.postorder = [⟨1, 1⟩, ⟨2, 1⟩, ⟨3, 0⟩] := by cbv

/-- The sine lies in two calls, the sum and the cosine, and a ceiling of one accepts it. -/
theorem sharedSine_accepted :
    Path sharedSine.nodes sharedSine.root [1, 0] 1 ∧
      (sharedSine.specialize ⟨.standard, 1, true⟩ []).run.2 =
        .ok ⟨sharedSine.toForm, .single .number⟩ := by
  refine ⟨.through rfl rfl (.through rfl rfl (.here rfl)), ?_⟩
  simp only [specialize, specializeAll, checkedVisits, sharedSine_postorder]
  rfl

end Graph

end Narrowing
