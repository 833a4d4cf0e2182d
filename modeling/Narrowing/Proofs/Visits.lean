import Narrowing.Proofs.Walks

/-
This file shows that the visits of a graph reach the root, with operands before callers.
-/

namespace Narrowing

namespace Graph

variable {nodes : Array Node}

/-- The operands of the call at a position that are calls themselves were visited. -/
def OperandsVisited (nodes : Array Node) (visits : List Visit) (position : Nat) : Prop :=
  ∀ operation operands, CallsAt nodes position operation operands → ∀ operand ∈ operands,
    ∀ inner further, CallsAt nodes operand inner further → Visited visits operand

/-- Each visit comes after the visits of its operands; the last visit stands first. -/
inductive Closed (nodes : Array Node) : List Visit → Prop where
  | nil : Closed nodes []
  | cons {visit : Visit} {visits : List Visit} : Closed nodes visits →
      OperandsVisited nodes visits visit.position → Closed nodes (visit :: visits)

theorem Closed.of_append {later visits : List Visit} (closed : Closed nodes (later ++ visits)) :
    Closed nodes visits := by
  induction later with
  | nil => exact closed
  | cons visit later inductionHypothesis =>
      cases closed with
      | cons rest _ => exact inductionHypothesis rest

/-- A search keeps earlier visits, stays closed and reaches its start. -/
theorem visitFrom_closed (ordered : Ordered nodes) (position depth : Nat) (visits : List Visit)
    (closed : Closed nodes visits) :
    Closed nodes (visitFrom nodes position depth visits) ∧
      visits ⊆ visitFrom nodes position depth visits ∧
      ∀ operation operands, CallsAt nodes position operation operands →
        Visited (visitFrom nodes position depth visits) position := by
  revert closed
  refine search_induction ordered
    (fun position _ visits result => Closed nodes visits → Closed nodes result ∧
      visits ⊆ result ∧ ∀ operation operands, CallsAt nodes position operation operands →
        Visited result position)
    (fun operands _ visits result => Closed nodes visits → Closed nodes result ∧
      visits ⊆ result ∧ ∀ operand ∈ operands, ∀ operation further,
        CallsAt nodes operand operation further → Visited result operand)
    ?_ ?_ ?_ ?_ ?_ position depth visits
  · intro position depth visits seen closed
    exact ⟨closed, List.Subset.refl visits, fun _ _ _ => seen⟩
  · intro position depth visits result operation operands calls fresh operandsKept closed
    obtain ⟨resultClosed, subset, visited⟩ := operandsKept closed
    refine ⟨.cons resultClosed ?_, fun visit member => List.mem_cons_of_mem _ (subset member), ?_⟩
    · intro other others found operand member inner further innerCalls
      have same := Option.some.inj (found.symm.trans calls)
      cases same
      exact visited operand member inner further innerCalls
    · intro _ _ _
      exact ⟨⟨position, depth⟩, List.mem_cons_self, rfl⟩
  · intro position depth visits leaf closed
    exact ⟨closed, List.Subset.refl visits, fun operation operands calls =>
      absurd calls (leaf operation operands)⟩
  · intro depth visits closed
    exact ⟨closed, List.Subset.refl visits, fun operand member => by cases member⟩
  · intro operand rest depth visits result first others closed
    obtain ⟨middleClosed, middleSubset, operandVisited⟩ := first closed
    obtain ⟨resultClosed, resultSubset, othersVisited⟩ := others middleClosed
    refine ⟨resultClosed, List.Subset.trans middleSubset resultSubset, ?_⟩
    intro position member operation further calls
    rcases List.mem_cons.mp member with same | later
    · subst same
      exact (operandVisited operation further calls).mono resultSubset
    · exact othersVisited position later operation further calls

/-- A property that passes from callers to their operands holds at all visits of a search. -/
theorem visitFrom_holds (ordered : Ordered nodes) {holds : Nat → Prop}
    (descends : ∀ position operation operands, CallsAt nodes position operation operands →
      holds position → ∀ operand ∈ operands, holds operand)
    (position depth : Nat) (visits : List Visit) (start : holds position)
    (before : ∀ visit ∈ visits, holds visit.position) :
    ∀ visit ∈ visitFrom nodes position depth visits, holds visit.position := by
  revert start before
  refine search_induction ordered
    (fun position _ visits result => holds position →
      (∀ visit ∈ visits, holds visit.position) → ∀ visit ∈ result, holds visit.position)
    (fun operands _ visits result => (∀ operand ∈ operands, holds operand) →
      (∀ visit ∈ visits, holds visit.position) → ∀ visit ∈ result, holds visit.position)
    ?_ ?_ ?_ ?_ ?_ position depth visits
  · intro position depth visits _ _ before
    exact before
  · intro position depth visits result operation operands calls _ operandsKept start before visit
      member
    rcases List.mem_cons.mp member with same | later
    · subst same
      exact start
    · exact operandsKept (descends position operation operands calls start) before visit later
  · intro position depth visits _ _ before
    exact before
  · intro depth visits _ before
    exact before
  · intro operand rest depth visits result first others starts before
    exact others (fun later member => starts later (List.mem_cons_of_mem operand member))
      (first (starts operand List.mem_cons_self) before)

variable {graph : Graph}

theorem postorder_closed : Closed graph.nodes graph.postorder.reverse := by
  rw [postorder_eq_reverse_visitFrom, List.reverse_reverse]
  exact (visitFrom_closed graph.ordered graph.root 0 [] .nil).1

/-- The operands of a visited call were visited before it. -/
theorem operandsVisited_of_split {before after : List Visit} {visit : Visit}
    (whole : graph.postorder = before ++ visit :: after) :
    OperandsVisited graph.nodes before visit.position := by
  have closed : Closed graph.nodes graph.postorder.reverse := postorder_closed
  rw [whole, List.reverse_append, List.reverse_cons, List.append_assoc] at closed
  cases closed.of_append with
  | cons _ visited =>
      intro operation operands calls operand member inner further innerCalls
      have reached := visited operation operands calls operand member inner further innerCalls
      exact reached.mono fun _ member => List.mem_reverse.mp member

/-- The operands of a visited call are all visited in the end. -/
theorem operandsVisited_postorder {before after : List Visit} {visit : Visit}
    (whole : graph.postorder = before ++ visit :: after) :
    OperandsVisited graph.nodes graph.postorder visit.position := by
  intro operation operands calls operand member inner further innerCalls
  refine (operandsVisited_of_split whole operation operands calls operand member inner further
    innerCalls).mono ?_
  rw [whole]
  exact List.subset_append_left _ _

/-- A root that is a call was visited. -/
theorem root_visited {operation : String} {operands : List Nat}
    (calls : CallsAt graph.nodes graph.root operation operands) :
    Visited graph.postorder graph.root := by
  have reached := (visitFrom_closed graph.ordered graph.root 0 [] .nil).2.2 operation operands calls
  exact reached.mono fun _ member => mem_postorder.mpr member

/-- Only calls are visited. -/
theorem visit_calls {visit : Visit} (member : visit ∈ graph.postorder) :
    ∃ operation operands, CallsAt graph.nodes visit.position operation operands := by
  refine search_induction graph.ordered
    (fun _ _ visits result => (∀ visit ∈ visits, ∃ operation operands,
      CallsAt graph.nodes visit.position operation operands) → ∀ visit ∈ result,
        ∃ operation operands, CallsAt graph.nodes visit.position operation operands)
    (fun _ _ visits result => (∀ visit ∈ visits, ∃ operation operands,
      CallsAt graph.nodes visit.position operation operands) → ∀ visit ∈ result,
        ∃ operation operands, CallsAt graph.nodes visit.position operation operands)
    ?_ ?_ ?_ ?_ ?_ graph.root 0 [] (by simp) visit (mem_postorder.mp member)
  · intro position depth visits _ before
    exact before
  · intro position depth visits result operation operands calls _ kept before visit member
    rcases List.mem_cons.mp member with same | later
    · subst same
      exact ⟨operation, operands, calls⟩
    · exact kept before visit later
  · intro position depth visits _ before
    exact before
  · intro depth visits before
    exact before
  · intro operand rest depth visits result first others before
    exact others (first before)

/-- A property of the root that passes from callers to operands holds at every visit. -/
theorem postorder_holds (holds : Nat → Prop)
    (descends : ∀ position operation operands, CallsAt graph.nodes position operation operands →
      holds position → ∀ operand ∈ operands, holds operand)
    (start : holds graph.root) : ∀ visit ∈ graph.postorder, holds visit.position := by
  intro visit member
  exact visitFrom_holds graph.ordered descends graph.root 0 [] start (by simp) visit
    (mem_postorder.mp member)

theorem call?_eq_some_iff {position : Nat} {operation : String} {operands : List Nat} :
    graph.call? position = some ⟨operation, operands⟩ ↔
      CallsAt graph.nodes position operation operands := by
  unfold call? CallsAt
  split
  · rename_i other others found
    rw [found]
    simp
  · rename_i noCall
    constructor
    · intro impossible
      cases impossible
    · intro found
      exact absurd found (noCall operation operands)

theorem node_of_callsAt {position : Nat} {operation : String} {operands : List Nat}
    (calls : CallsAt graph.nodes position operation operands) :
    graph.node position = .call operation operands := by
  unfold node
  rw [show graph.nodes[position]? = some (.call operation operands) from calls]
  rfl

theorem callsAt_of_node {position : Nat} {operation : String} {operands : List Nat}
    (found : graph.node position = .call operation operands) :
    CallsAt graph.nodes position operation operands := by
  unfold node at found
  cases present : graph.nodes[position]? with
  | none =>
      rw [present] at found
      cases found
  | some node =>
      rw [present] at found
      exact present.trans (congrArg some found)

/-- A loop comes to its end, or it ends with the allowed fault of one of its steps. -/
theorem loop_cases {Item Result : Type} {stops : Item → Prop} {allowed : Fault → Prop}
    (result : Result) (body : Item → PUnit → Except Fault (ForInStep PUnit)) (items : List Item)
    (each : ∀ item ∈ items, ¬stops item ∧ body item .unit = .ok (.yield .unit) ∨
      stops item ∧ ∃ fault, allowed fault ∧ body item .unit = .error fault) :
    (∀ item ∈ items, ¬stops item) ∧
        (forIn items PUnit.unit body >>= fun _ => pure result) = .ok result ∨
      (∃ item ∈ items, stops item) ∧ ∃ fault, allowed fault ∧
        (forIn items PUnit.unit body >>= fun _ => pure result) = .error fault := by
  induction items with
  | nil => exact .inl ⟨nofun, rfl⟩
  | cons item rest inductionHypothesis =>
      obtain ⟨first, others⟩ := List.forall_mem_cons.mp each
      rw [List.forIn_cons, List.forall_mem_cons]
      rcases first with ⟨goes, finished⟩ | ⟨stops, fault, holds, failed⟩
      · rw [finished]
        rcases inductionHypothesis others with ⟨later, ended⟩ | ⟨⟨other, member, stops⟩, failed⟩
        · exact .inl ⟨⟨goes, later⟩, ended⟩
        · exact .inr ⟨⟨other, List.mem_cons_of_mem item member, stops⟩, failed⟩
      · rw [failed]
        exact .inr ⟨⟨item, List.mem_cons_self, stops⟩, fault, holds, rfl⟩

/-- No visit lies too deep, or the fault is one of depth. -/
theorem checkedVisits_cases (graph : Graph) (engine : Engine) :
    (∀ visit ∈ graph.postorder, ¬engine.ceiling < visit.depth) ∧
        graph.checkedVisits engine = .ok graph.postorder ∨
      (∃ visit ∈ graph.postorder, engine.ceiling < visit.depth) ∧
        ∃ fault, (∃ operation, fault = .depth operation engine.ceiling) ∧
          graph.checkedVisits engine = .error fault := by
  refine loop_cases graph.postorder _ graph.postorder fun visit member => ?_
  obtain ⟨operation, operands, calls⟩ := visit_calls member
  by_cases deep : engine.ceiling < visit.depth
  · simp only [deep, call?_eq_some_iff.mpr calls, if_true]
    exact .inr ⟨trivial, _, ⟨operation, rfl⟩, rfl⟩
  · simp only [deep, if_false]
    exact .inl ⟨not_false, rfl⟩

end Graph

end Narrowing
