import Narrowing.Evaluation
import Narrowing.Proofs.Outcomes
import Narrowing.Proofs.Visits

/-
This file shows that a graph has the value of the form that it shares the parts of.
-/

namespace Narrowing

namespace Form

mutual

/-- The value of a form, by recursion on its parts. -/
def evaluate (registry : Registry) (environment : Environment) : Form → Except Fault Value
  | .constant value => .ok value
  | .parameter name => environment.bound name
  | .call operation operands => do
      registry.applyOperation operation (← evaluateAll registry environment operands)

def evaluateAll (registry : Registry) (environment : Environment) :
    List Form → Except Fault (List Value)
  | [] => .ok []
  | form :: rest => do
      let value ← evaluate registry environment form
      let values ← evaluateAll registry environment rest
      .ok (value :: values)

end

theorem evaluateAll_eq_mapM (registry : Registry) (environment : Environment)
    (forms : List Form) :
    evaluateAll registry environment forms = forms.mapM (evaluate registry environment) := by
  induction forms with
  | nil => rfl
  | cons form rest inductionHypothesis =>
      rw [evaluateAll, List.mapM_cons, inductionHypothesis]
      rfl

theorem evaluate_call (registry : Registry) (environment : Environment) (operation : String)
    (operands : List Form) :
    (call operation operands).evaluate registry environment =
      operands.mapM (evaluate registry environment) >>= registry.applyOperation operation := by
  rw [evaluate, evaluateAll_eq_mapM]

/-- A call of variables takes their values. -/
theorem evaluate_variableCall {registry : Registry} {environment : Environment}
    {names : List String} {values : List Value}
    (bound : List.Forall₂ (fun name value => environment.lookup name = some value) names values)
    (operation : String) :
    (call operation (names.map .parameter)).evaluate registry environment =
      registry.applyOperation operation values := by
  have taken : (names.map .parameter).mapM (evaluate registry environment) = .ok values := by
    rw [List.mapM_map]
    refine mapM_eq_ok_iff.mpr (bound.imp fun name value looked => ?_)
    change environment.bound name = .ok value
    rw [Environment.bound, looked]
    rfl
  rw [evaluate_call, taken]
  rfl

/-- A variable with a value is bound to it. -/
theorem lookup_of_evaluate {registry : Registry} {environment : Environment} {name : String}
    {value : Value} (evaluated : (parameter name).evaluate registry environment = .ok value) :
    environment.lookup name = some value := by
  simp only [evaluate, Environment.bound, orFault] at evaluated
  split at evaluated
  · rename_i found present
    rw [present, Except.ok.inj evaluated]
  · cases evaluated

end Form

/-- The nodes before the last one are in order among themselves. -/
theorem Ordered.of_push {nodes : Array Node} {node : Node} (ordered : Ordered (nodes.push node)) :
    Ordered nodes := by
  intro position within operand member
  refine ordered position (by rw [Array.size_push]; omega) operand ?_
  rwa [Array.getElem_push_lt within]

namespace Graph

/-- The form that the node at a position stands for. -/
def formAt (graph : Graph) (position : Nat) : Form :=
  ((unfoldAll graph.nodes)[position]?).getD default

theorem toForm_eq_formAt (graph : Graph) : graph.toForm = graph.formAt graph.root := rfl

theorem unfoldAll_push (nodes : Array Node) (node : Node) :
    unfoldAll (nodes.push node) = (unfoldAll nodes).push (unfoldNode (unfoldAll nodes) node) :=
  Array.foldl_push

/-- A statement about all arrays of nodes follows the order in which the nodes came. -/
theorem push_induction {holds : Array Node → Prop} (empty : holds #[])
    (push : ∀ nodes node, holds nodes → holds (nodes.push node)) (nodes : Array Node) :
    holds nodes := by
  generalize count : nodes.size = size
  induction size generalizing nodes with
  | zero => rwa [Array.eq_empty_of_size_eq_zero count]
  | succ size inductionHypothesis =>
      obtain ⟨earlier, node, rfl⟩ := @Array.eq_push_of_size_ne_zero _ nodes (by omega)
      refine push earlier node (inductionHypothesis earlier ?_)
      rw [Array.size_push] at count
      omega

theorem size_unfoldAll (nodes : Array Node) : (unfoldAll nodes).size = nodes.size := by
  induction nodes using push_induction with
  | empty => rfl
  | push nodes node inductionHypothesis =>
      rw [unfoldAll_push, Array.size_push, Array.size_push, inductionHypothesis]

/-- A later form does not change the meaning of a reference to an earlier one. -/
theorem unfoldNode_push {earlier : Array Form} {node : Node} (form : Form)
    (within : ∀ operand ∈ node.operands, operand < earlier.size) :
    unfoldNode (earlier.push form) node = unfoldNode earlier node := by
  cases node with
  | constant value => rfl
  | parameter name => rfl
  | call operation operands =>
      simp only [unfoldNode, Form.call.injEq, true_and]
      refine List.map_congr_left fun operand member => ?_
      have before : operand < earlier.size := within operand member
      rw [Array.getElem?_push_lt before, Array.getElem?_eq_getElem before]

/-- Every form consists of the forms at its operands, also when all nodes are unfolded. -/
theorem getElem?_unfoldAll {nodes : Array Node} (ordered : Ordered nodes) {position : Nat}
    (within : position < nodes.size) :
    (unfoldAll nodes)[position]? = some (unfoldNode (unfoldAll nodes) nodes[position]) := by
  induction nodes using push_induction with
  | empty => exact absurd within (Nat.not_lt_zero position)
  | push nodes node inductionHypothesis =>
      have operandsWithin : ∀ operand ∈ (nodes.push node)[position].operands,
          operand < (unfoldAll nodes).size := by
        intro operand member
        have earlier := ordered position within operand member
        rw [Array.size_push] at within
        rw [size_unfoldAll]
        omega
      rw [unfoldAll_push, unfoldNode_push _ operandsWithin]
      by_cases old : position < nodes.size
      · rw [Array.getElem?_push_lt (by rw [size_unfoldAll]; exact old)]
        rw [← Array.getElem?_eq_getElem, inductionHypothesis ordered.of_push old]
        simp only [Array.getElem_push_lt old]
      · have last : position = nodes.size := by
          rw [Array.size_push] at within
          omega
        subst last
        have newest : (nodes.push node)[nodes.size] = node := Array.getElem_push_eq
        rw [newest, ← size_unfoldAll nodes, Array.getElem?_push_size]

variable {graph : Graph}

theorem formAt_eq_unfoldNode (graph : Graph) (position : Nat) :
    graph.formAt position = unfoldNode (unfoldAll graph.nodes) (graph.node position) := by
  by_cases within : position < graph.nodes.size
  · rw [formAt, getElem?_unfoldAll graph.ordered within, node, Array.getElem?_eq_getElem within]
    rfl
  · have outside : (unfoldAll graph.nodes)[position]? = none := by
      rw [Array.getElem?_eq_none_iff, size_unfoldAll]
      omega
    rw [formAt, node, outside, Array.getElem?_eq_none (by omega)]
    rfl

theorem formAt_constant {position : Nat} {value : Value}
    (found : graph.node position = .constant value) : graph.formAt position = .constant value := by
  rw [formAt_eq_unfoldNode, found]
  rfl

theorem formAt_parameter {position : Nat} {name : String}
    (found : graph.node position = .parameter name) :
    graph.formAt position = .parameter name := by
  rw [formAt_eq_unfoldNode, found]
  rfl

theorem formAt_call {position : Nat} {operation : String} {operands : List Nat}
    (calls : CallsAt graph.nodes position operation operands) :
    graph.formAt position = .call operation (operands.map graph.formAt) := by
  rw [formAt_eq_unfoldNode, node_of_callsAt calls]
  rfl

/-- The value of a call comes from the values of the forms at its operands. -/
theorem evaluate_formAt_call {registry : Registry} {environment : Environment} {position : Nat}
    {operation : String} {operands : List Nat}
    (calls : CallsAt graph.nodes position operation operands) :
    (graph.formAt position).evaluate registry environment =
      operands.mapM (fun operand => (graph.formAt operand).evaluate registry environment) >>=
        registry.applyOperation operation := by
  rw [formAt_call calls, Form.evaluate_call, List.mapM_map]
  rfl

/-- Each visited position has a stored result that satisfies a relation. -/
def Memoized {Result : Type} (holds : Nat → Result → Prop) (visits : List Visit)
    (memo : Memo Result) : Prop :=
  ∀ position, Visited visits position →
    ∃ result, memo.lookup position = some result ∧ holds position result

theorem Memoized.nil {Result : Type} {holds : Nat → Result → Prop} : Memoized holds [] [] := by
  rintro position ⟨visit, member, _⟩
  cases member

theorem Memoized.snoc {Result : Type} {holds : Nat → Result → Prop} {visits : List Visit}
    {memo : Memo Result} (memoized : Memoized holds visits memo) {visit : Visit} {result : Result}
    (newest : holds visit.position result) :
    Memoized holds (visits ++ [visit]) ((visit.position, result) :: memo) := by
  rintro position ⟨other, member, same⟩
  by_cases new : position = visit.position
  · subst new
    exact ⟨result, by simp, newest⟩
  · rcases List.mem_append.mp member with old | last
    · obtain ⟨stored, found, related⟩ := memoized position ⟨other, old, same⟩
      refine ⟨stored, ?_, related⟩
      rw [List.lookup_cons, beq_false_of_ne new, found]
    · rw [List.mem_singleton.mp last] at same
      exact absurd same.symm new

/-- The stored values are the values of the forms at the visited positions. -/
abbrev Valued (graph : Graph) (registry : Registry) (environment : Environment) :
    List Visit → Memo Value → Prop :=
  Memoized fun position value =>
    (graph.formAt position).evaluate registry environment = .ok value

theorem valueAt_eq_evaluate {registry : Registry} {environment : Environment} {position : Nat}
    {visits : List Visit} {memo : Memo Value}
    (valued : Valued graph registry environment visits memo)
    (visited : ∀ operation operands, CallsAt graph.nodes position operation operands →
      Visited visits position) :
    graph.valueAt (leafValue environment) memo position =
      (graph.formAt position).evaluate registry environment := by
  unfold valueAt
  cases found : graph.node position with
  | constant value =>
      rw [formAt_constant found, Form.evaluate]
      rfl
  | parameter name =>
      rw [formAt_parameter found, Form.evaluate]
      rfl
  | call operation operands =>
      obtain ⟨value, stored, evaluated⟩ :=
        valued position (visited operation operands (callsAt_of_node found))
      simp only [stored, orFault, evaluated]

/-- A step of the evaluation stores the value of the form at the visit. -/
theorem foldVisit_eq {registry : Registry} {environment : Environment} {before : List Visit}
    {memo : Memo Value} {visit : Visit} {operation : String} {operands : List Nat}
    (valued : Valued graph registry environment before memo)
    (calls : CallsAt graph.nodes visit.position operation operands)
    (visited : OperandsVisited graph.nodes before visit.position) :
    graph.foldVisit (leafValue environment) registry.applyOperation memo visit =
      (graph.formAt visit.position).evaluate registry environment >>= fun value =>
        .ok ((visit.position, value) :: memo) := by
  have same : operands.mapM (graph.valueAt (leafValue environment) memo) =
      operands.mapM fun operand => (graph.formAt operand).evaluate registry environment :=
    mapM_congr_left fun operand member =>
      valueAt_eq_evaluate valued (visited operation operands calls operand member)
  unfold foldVisit
  rw [call?_eq_some_iff.mpr calls, evaluate_formAt_call calls, bind_assoc]
  simp only [same]

/-- The values that an evaluation stores are the values of the forms. -/
theorem valued_of_foldVisits {registry : Registry} {environment : Environment}
    {after : List Visit} (before : List Visit) (memo final : Memo Value)
    (whole : graph.postorder = before ++ after)
    (valued : Valued graph registry environment before memo)
    (finished : after.foldlM (graph.foldVisit (leafValue environment) registry.applyOperation)
      memo = .ok final) : Valued graph registry environment graph.postorder final := by
  induction after generalizing before memo with
  | nil =>
      cases finished
      rwa [whole, List.append_nil]
  | cons visit after inductionHypothesis =>
      have member : visit ∈ graph.postorder := by rw [whole]; simp
      obtain ⟨operation, operands, calls⟩ := visit_calls member
      rw [List.foldlM_cons, foldVisit_eq valued calls (operandsVisited_of_split whole)] at finished
      cases evaluated : (graph.formAt visit.position).evaluate registry environment with
      | error fault =>
          rw [evaluated] at finished
          cases finished
      | ok value =>
          rw [evaluated] at finished
          exact inductionHypothesis (before ++ [visit]) ((visit.position, value) :: memo)
            (by simp [whole]) (valued.snoc evaluated) finished

/-- An evaluation ends when the forms at all visits have values. -/
theorem exists_foldVisits {registry : Registry} {environment : Environment}
    {after : List Visit} (before : List Visit) (memo : Memo Value)
    (whole : graph.postorder = before ++ after)
    (valued : Valued graph registry environment before memo)
    (each : ∀ visit ∈ after, ∃ value,
      (graph.formAt visit.position).evaluate registry environment = .ok value) :
    ∃ final, after.foldlM (graph.foldVisit (leafValue environment) registry.applyOperation)
      memo = .ok final := by
  induction after generalizing before memo with
  | nil => exact ⟨memo, rfl⟩
  | cons visit after inductionHypothesis =>
      have member : visit ∈ graph.postorder := by rw [whole]; simp
      obtain ⟨operation, operands, calls⟩ := visit_calls member
      obtain ⟨value, evaluated⟩ := each visit List.mem_cons_self
      rw [List.foldlM_cons, foldVisit_eq valued calls (operandsVisited_of_split whole), evaluated]
      exact inductionHypothesis (before ++ [visit]) ((visit.position, value) :: memo)
        (by simp [whole]) (valued.snoc evaluated)
        fun later member => each later (List.mem_cons_of_mem visit member)

/-- The forms at the operands of a call have values when the call has one. -/
theorem operands_evaluate {registry : Registry} {environment : Environment} {position : Nat}
    {operation : String} {operands : List Nat} {value : Value}
    (calls : CallsAt graph.nodes position operation operands)
    (evaluated : (graph.formAt position).evaluate registry environment = .ok value) :
    ∃ values, List.Forall₂ (fun operand value =>
        (graph.formAt operand).evaluate registry environment = .ok value) operands values ∧
      registry.applyOperation operation values = .ok value := by
  rw [evaluate_formAt_call calls] at evaluated
  cases outcome : operands.mapM fun operand =>
      (graph.formAt operand).evaluate registry environment with
  | error fault =>
      rw [outcome] at evaluated
      cases evaluated
  | ok values =>
      rw [outcome] at evaluated
      exact ⟨values, mapM_eq_ok_iff.mp outcome, evaluated⟩

/-- A graph has a value just when its form has this value. -/
theorem evaluate_eq_ok_iff (graph : Graph) (registry : Registry) (environment : Environment)
    (value : Value) :
    graph.evaluate registry environment = .ok value ↔
      graph.toForm.evaluate registry environment = .ok value := by
  rw [evaluate, fold, toForm_eq_formAt]
  constructor
  · intro evaluated
    cases finished : graph.postorder.foldlM
        (graph.foldVisit (leafValue environment) registry.applyOperation) [] with
    | error fault =>
        rw [finished] at evaluated
        cases evaluated
    | ok memo =>
        rw [finished] at evaluated
        have valued := valued_of_foldVisits [] [] memo (List.nil_append _).symm .nil finished
        rw [← valueAt_eq_evaluate valued fun _ _ calls => root_visited calls]
        exact evaluated
  · intro evaluated
    have each : ∀ visit ∈ graph.postorder, ∃ value,
        (graph.formAt visit.position).evaluate registry environment = .ok value := by
      refine postorder_holds (fun position => ∃ value,
        (graph.formAt position).evaluate registry environment = .ok value) ?_ ⟨value, evaluated⟩
      rintro position operation operands calls ⟨result, evaluated⟩ operand member
      obtain ⟨values, related, _⟩ := operands_evaluate calls evaluated
      obtain ⟨value, _, found⟩ := exists_related_of_mem related member
      exact ⟨value, found⟩
    obtain ⟨memo, finished⟩ := exists_foldVisits [] [] (List.nil_append _).symm .nil each
    have valued := valued_of_foldVisits [] [] memo (List.nil_append _).symm .nil finished
    rw [finished]
    refine (valueAt_eq_evaluate valued fun _ _ calls => root_visited calls).trans evaluated

/-- The forms of the first nodes stay as they are. -/
def Keeps (first second : Array Node) : Prop :=
  ∀ position, position < first.size → (unfoldAll second)[position]? = (unfoldAll first)[position]?

theorem Keeps.refl (nodes : Array Node) : Keeps nodes nodes := fun _ _ => rfl

theorem Keeps.trans {first second third : Array Node} (before : Keeps first second)
    (grown : first.size ≤ second.size) (after : Keeps second third) : Keeps first third := by
  intro position within
  rw [after position (by omega), before position within]

theorem Keeps.push (nodes : Array Node) (node : Node) : Keeps nodes (nodes.push node) := by
  intro position within
  rw [unfoldAll_push, Array.getElem?_push_lt (by rwa [size_unfoldAll]),
    ← Array.getElem?_eq_getElem]

/-- The last node stands for the form over the forms of the nodes before it. -/
theorem getElem?_unfoldAll_push (nodes : Array Node) (node : Node) :
    (unfoldAll (nodes.push node))[nodes.size]? = some (unfoldNode (unfoldAll nodes) node) := by
  rw [unfoldAll_push, ← size_unfoldAll nodes, Array.getElem?_push_size]

mutual

/-- The nodes of a form stand for this form and change no form before it. -/
theorem place_keeps (nodes : Array Node) (ordered : Ordered nodes) : (form : Form) →
    Keeps nodes (place nodes ordered form).nodes ∧
      (unfoldAll (place nodes ordered form).nodes)[(place nodes ordered form).position]? = some form
  | .constant value => ⟨.push nodes _, getElem?_unfoldAll_push nodes _⟩
  | .parameter name => ⟨.push nodes _, getElem?_unfoldAll_push nodes _⟩
  | .call operation operands => by
      obtain ⟨keeps, found⟩ := placeAll_keeps nodes ordered operands
      have grown := (placeAll nodes ordered operands).grown
      refine ⟨keeps.trans grown (.push _ _), (getElem?_unfoldAll_push _ _).trans ?_⟩
      rw [unfoldNode]
      refine congrArg (fun forms => some (Form.call operation forms)) ?_
      have same : ((placeAll nodes ordered operands).positions.map fun position =>
          ((unfoldAll (placeAll nodes ordered operands).nodes)[position]?).getD default) =
          (operands.map some).map (·.getD default) := by
        rw [← found, List.map_map]
        rfl
      rw [same, List.map_map]
      exact List.map_id operands

theorem placeAll_keeps (nodes : Array Node) (ordered : Ordered nodes) : (forms : List Form) →
    Keeps nodes (placeAll nodes ordered forms).nodes ∧
      ((placeAll nodes ordered forms).positions.map fun position =>
        (unfoldAll (placeAll nodes ordered forms).nodes)[position]?) = forms.map some
  | [] => ⟨.refl nodes, rfl⟩
  | form :: rest => by
      obtain ⟨firstKeeps, firstFound⟩ := place_keeps nodes ordered form
      let first := place nodes ordered form
      obtain ⟨restKeeps, restFound⟩ := placeAll_keeps first.nodes first.ordered rest
      refine ⟨firstKeeps.trans first.grown restKeeps, ?_⟩
      refine List.cons_eq_cons.mpr ⟨?_, restFound⟩
      exact (restKeeps first.position first.within).trans firstFound

end

/-- A form as a graph and back. -/
theorem toForm_ofForm (form : Form) : (ofForm form).toForm = form := by
  have found := (place_keeps #[] Ordered.empty form).2
  exact congrArg (·.getD default) found

/-- A form as a graph keeps its value. -/
theorem evaluate_ofForm_iff (form : Form) (registry : Registry) (environment : Environment)
    (value : Value) :
    (ofForm form).evaluate registry environment = .ok value ↔
      form.evaluate registry environment = .ok value := by
  rw [evaluate_eq_ok_iff, toForm_ofForm]

end Graph

end Narrowing
