import Mathlib.Data.List.Nodup
import Narrowing.Proofs.FirstPaths

/-
This file shows that the visits of a graph list its calls in a topological order.
-/

namespace Narrowing

namespace Graph

variable {nodes : Array Node}

/-- A search from a position visits no call twice and nothing above the position. -/
theorem visitFrom_distinct (ordered : Ordered nodes) (position depth : Nat) (visits : List Visit)
    (distinct : (visits.map (·.position)).Nodup) :
    ((visitFrom nodes position depth visits).map (·.position)).Nodup ∧
      ∀ visit ∈ visitFrom nodes position depth visits,
        visit ∈ visits ∨ visit.position ≤ position := by
  revert distinct
  refine search_induction ordered
    (fun position _ visits result => (visits.map (·.position)).Nodup →
      (result.map (·.position)).Nodup ∧
        ∀ visit ∈ result, visit ∈ visits ∨ visit.position ≤ position)
    (fun operands _ visits result => (visits.map (·.position)).Nodup →
      (result.map (·.position)).Nodup ∧
        ∀ visit ∈ result, visit ∈ visits ∨ ∃ operand ∈ operands, visit.position ≤ operand)
    ?_ ?_ ?_ ?_ ?_ position depth visits
  · exact fun _ _ _ _ distinct => ⟨distinct, fun _ member => .inl member⟩
  · intro position depth visits result operation operands calls fresh operandsKept distinct
    obtain ⟨resultDistinct, below⟩ := operandsKept distinct
    have lower : ∀ visit ∈ result, visit ∈ visits ∨ visit.position < position := by
      intro visit member
      refine (below visit member).imp_right fun ⟨operand, among, le⟩ => ?_
      exact Nat.lt_of_le_of_lt le (calls.operand_lt ordered among)
    refine ⟨List.nodup_cons.mpr ⟨fun again => ?_, resultDistinct⟩, ?_⟩
    · -- the call is not among its operands, nor below them
      obtain ⟨visit, member, same⟩ := List.mem_map.mp again
      rcases lower visit member with earlier | less
      · exact fresh ⟨visit, earlier, same⟩
      · exact absurd same (Nat.ne_of_lt less)
    · refine List.forall_mem_cons.mpr ⟨.inr (Nat.le_refl _), fun visit member => ?_⟩
      exact (lower visit member).imp_right Nat.le_of_lt
  · exact fun _ _ _ _ distinct => ⟨distinct, fun _ member => .inl member⟩
  · exact fun _ _ distinct => ⟨distinct, fun _ member => .inl member⟩
  · intro operand rest depth visits result first others distinct
    obtain ⟨middleDistinct, middleBelow⟩ := first distinct
    obtain ⟨resultDistinct, resultBelow⟩ := others middleDistinct
    refine ⟨resultDistinct, fun visit member => ?_⟩
    rcases resultBelow visit member with middle | ⟨other, among, le⟩
    · exact (middleBelow visit middle).imp_right fun le => ⟨operand, List.mem_cons_self, le⟩
    · exact .inr ⟨other, List.mem_cons_of_mem operand among, le⟩

/-- The positions that are visited, in the order of the visits. -/
def visited (graph : Graph) : List Nat := graph.postorder.map (·.position)

variable {graph : Graph}

theorem mem_visited {position : Nat} :
    position ∈ graph.visited ↔ Visited graph.postorder position := List.mem_map

theorem nodup_visited : graph.visited.Nodup := by
  rw [visited, postorder_eq_reverse_visitFrom, List.map_reverse, List.nodup_reverse]
  exact (visitFrom_distinct graph.ordered graph.root 0 [] List.nodup_nil).1

/-- The calls that the root holds are visited, and no other ones. -/
theorem mem_visited_iff {target : Nat} :
    target ∈ graph.visited ↔ Holds graph.nodes graph.root target := by
  rw [mem_visited]
  constructor
  · rintro ⟨visit, member, rfl⟩
    obtain ⟨path, first, _⟩ := mem_postorder_iff.mp member
    exact ⟨path, first.isPath⟩
  · rintro ⟨path, leads⟩
    have closed := visitFrom_closed graph.ordered graph.root 0 [] .nil
    exact (leads.visited closed.1 closed.2.2).mono fun _ => mem_postorder.mpr

/-- A root that is a call is visited last. -/
theorem getLast?_visited {operation : String} {operands : List Nat}
    (calls : CallsAt graph.nodes graph.root operation operands) :
    graph.visited.getLast? = some graph.root := by
  have fresh : ¬Visited [] graph.root := fun ⟨_, member, _⟩ => List.not_mem_nil member
  rw [visited, postorder_eq_reverse_visitFrom, visitFrom_fresh calls fresh, List.map_reverse,
    List.map_cons, List.getLast?_reverse, List.head?_cons]

/-- The visits of a graph, whatever parts it shares, are a topological order of its calls: every
call that the root holds is visited once, and nothing else is; a visit comes after the visits of the
calls among its operands; a root that is a call comes last; and the depth of a visit is the number
of calls around it on some path from the root. -/
theorem postorder_topological (graph : Graph) :
    graph.visited.Nodup ∧
      (∀ target, target ∈ graph.visited ↔ Holds graph.nodes graph.root target) ∧
      (∀ before visit after, graph.postorder = before ++ visit :: after →
        OperandsVisited graph.nodes before visit.position) ∧
      (∀ operation operands, CallsAt graph.nodes graph.root operation operands →
        graph.visited.getLast? = some graph.root) ∧
      ∀ visit ∈ graph.postorder, ∃ path,
        Path graph.nodes graph.root path visit.position ∧ path.length = visit.depth := by
  refine ⟨nodup_visited, fun _ => mem_visited_iff, fun _ _ _ => operandsVisited_of_split,
    fun _ _ => getLast?_visited, fun visit member => ?_⟩
  obtain ⟨path, first, deep⟩ := mem_postorder_iff.mp member
  exact ⟨path, first.isPath, deep⟩

end Graph

end Narrowing
