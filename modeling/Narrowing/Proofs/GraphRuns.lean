import Narrowing.Proofs.FormEvaluation

/-
This file carries a relation between positions and specialized operands through a whole graph.
-/

namespace Narrowing

namespace Graph

open Traced

variable {graph : Graph} {engine : Engine} {declarations : Declarations}
  {allowed : Fault → Prop} {live : Nat → Prop} {holds : Nat → Operand → Prop}

theorem parameterOperand_ntype {name : String} {ntype : Ntype}
    (declared : declarations.lookup name = some ntype) :
    (parameterOperand declarations name).ntype = ntype := by
  change (declarations.lookup name).getD .universal = ntype
  rw [declared]
  rfl

/-- The leaves of a graph, each in relation to the operand that stands for it. -/
structure Leaves (graph : Graph) (declarations : Declarations) (live : Nat → Prop)
    (holds : Nat → Operand → Prop) : Prop where
  constants : ∀ position value, live position → graph.node position = .constant value →
    holds position (.ofConstant value)
  parameters : ∀ position name, live position → graph.node position = .parameter name →
    holds position (parameterOperand declarations name)

/-- The live positions are those of the root and of the operands of live calls. -/
structure Live (graph : Graph) (live : Nat → Prop) : Prop where
  root : live graph.root
  descends : ∀ position operation operands, CallsAt graph.nodes position operation operands →
    live position → ∀ operand ∈ operands, live operand

theorem Live.visit (lives : Live graph live) {visit : Visit} (member : visit ∈ graph.postorder) :
    live visit.position := postorder_holds live lives.descends lives.root visit member

/-- A stored operand or a new leaf stands for a position in the way that the relation says. -/
theorem meets_operandAt (leaves : Leaves graph declarations live holds) {visits : List Visit}
    {memo : Memo Operand} (memoized : Memoized holds visits memo) {position : Nat}
    (alive : live position)
    (visited : ∀ operation operands, CallsAt graph.nodes position operation operands →
      Visited visits position) :
    (graph.operandAt declarations memo position).Meets allowed (holds position) := by
  unfold operandAt
  cases found : graph.node position with
  | constant value => exact meets_constant (leaves.constants position value alive found)
  | parameter name => exact meets_pure (leaves.parameters position name alive found)
  | call operation operands =>
      obtain ⟨operand, stored, related⟩ :=
        memoized position (visited operation operands (callsAt_of_node found))
      simp only [stored, orFault]
      exact meets_ofExcept related

/-- The operands of a call stand for their positions, when all of them have been visited. -/
theorem meets_operands (leaves : Leaves graph declarations live holds) {visits : List Visit}
    {memo : Memo Operand} (memoized : Memoized holds visits memo) {position : Nat}
    {operation : String} {operands : List Nat}
    (calls : CallsAt graph.nodes position operation operands)
    (alive : ∀ operand ∈ operands, live operand)
    (visited : OperandsVisited graph.nodes visits position) :
    (operands.mapM (graph.operandAt declarations memo)).Meets allowed
      (List.Forall₂ holds operands) :=
  meets_mapM fun operand among => meets_operandAt leaves memoized (alive operand among)
    (visited operation operands calls operand among)

/-- The visits are those of the whole graph, unless one of them is too deep. -/
theorem meets_checkedVisits (deep : ∀ operation, allowed (.depth operation engine.ceiling)) :
    (Traced.ofExcept (graph.checkedVisits engine)).Meets allowed (· = graph.postorder) := by
  rcases graph.checkedVisits_cases engine with ⟨_, succeeded⟩ | ⟨_, _, ⟨operation, rfl⟩, failed⟩
  · rw [succeeded]
    exact meets_ofExcept rfl
  · rw [failed]
    exact meets_ofExcept (deep operation)

/-- A relation that every visited call keeps holds for all specialized calls. -/
theorem meets_specializeVisits (lives : Live graph live)
    (leaves : Leaves graph declarations live holds)
    (calls : ∀ visit ∈ graph.postorder, ∀ operation operands results, live visit.position →
      CallsAt graph.nodes visit.position operation operands → List.Forall₂ holds operands results →
      (engine.specialize visit.depth operation results).Meets allowed (holds visit.position)) :
    (graph.postorder.foldlM (graph.specializeVisit engine declarations) []).Meets allowed
      (Memoized holds graph.postorder) := by
  refine meets_foldlM .nil fun before visit after memo whole memoized => ?_
  have member : visit ∈ graph.postorder := by rw [whole]; simp
  obtain ⟨operation, operands, callsAt⟩ := visit_calls member
  have alive := lives.visit member
  unfold specializeVisit
  rw [call?_eq_some_iff.mpr callsAt]
  refine (meets_operands leaves memoized callsAt
    (lives.descends visit.position operation operands callsAt alive)
    (operandsVisited_of_split whole)).bind fun results related => ?_
  refine (calls visit member operation operands results alive callsAt related).bind
    fun result newest => ?_
  exact meets_pure (memoized.snoc newest)

/-- A relation that every single call keeps holds for all specialized calls. -/
theorem meets_specializeAll (lives : Live graph live)
    (deep : ∀ operation, allowed (.depth operation engine.ceiling))
    (leaves : Leaves graph declarations live holds)
    (calls : ∀ position depth operation operands results, live position →
      CallsAt graph.nodes position operation operands → List.Forall₂ holds operands results →
      (engine.specialize depth operation results).Meets allowed (holds position)) :
    (graph.specializeAll engine declarations).Meets allowed
      (Memoized holds graph.postorder) := by
  refine (meets_checkedVisits deep).bind fun visits same => ?_
  subst same
  exact meets_specializeVisits lives leaves fun visit _ => calls visit.position visit.depth

/-- The specialized graph is in the same relation to the root. -/
theorem meets_specialize (lives : Live graph live)
    (deep : ∀ operation, allowed (.depth operation engine.ceiling))
    (leaves : Leaves graph declarations live holds)
    (calls : ∀ position depth operation operands results, live position →
      CallsAt graph.nodes position operation operands → List.Forall₂ holds operands results →
      (engine.specialize depth operation results).Meets allowed (holds position)) :
    (graph.specialize engine declarations).Meets allowed (holds graph.root) := by
  refine (meets_specializeAll lives deep leaves calls).bind fun memo memoized => ?_
  exact meets_operandAt leaves memoized lives.root fun _ _ callsAt => root_visited callsAt

/-- The operands that stand for variables are those of the declarations. -/
theorem operands_of_parameters {operands : List Nat} {results : List Operand} {names : List String}
    (related : List.Forall₂ (fun position operand => ∀ name,
      graph.formAt position = .parameter name → operand = parameterOperand declarations name)
        operands results)
    (parts : operands.map graph.formAt = names.map .parameter) :
    results = names.map (parameterOperand declarations) := by
  induction related generalizing names with
  | nil =>
      cases names with
      | nil => rfl
      | cons => cases parts
  | cons first _ inductionHypothesis =>
      cases names with
      | nil => cases parts
      | cons name names =>
          obtain ⟨same, others⟩ := List.cons.inj parts
          rw [List.map_cons, first name same, inductionHypothesis others]

/-- What holds of a call of such operands holds of the specialized call of some variables. -/
theorem meets_variableCall {operation : String} {names : List String}
    (whole : graph.toForm = .call operation (names.map .parameter))
    (deep : ∀ operation, allowed (.depth operation engine.ceiling)) {outcome : Operand → Prop}
    (calls : ∀ depth, (engine.specialize depth operation
      (names.map (parameterOperand declarations))).Meets allowed outcome) :
    (graph.specialize engine declarations).Meets allowed outcome := by
  let root := Form.call operation (names.map .parameter)
  have lives : Live graph fun position =>
      graph.formAt position = root ∨ graph.formAt position ∈ names.map Form.parameter := by
    refine ⟨.inl whole, fun position other operands callsAt alive operand member => ?_⟩
    rw [formAt_call callsAt] at alive
    rcases alive with same | among
    · refine .inr ?_
      rw [← (Form.call.inj same).2]
      exact List.mem_map_of_mem member
    · obtain ⟨name, _, impossible⟩ := List.mem_map.mp among
      cases impossible
  -- a variable stands for itself, and only the root has to be shown anything else
  have leaves : Leaves graph declarations (fun position =>
      graph.formAt position = root ∨ graph.formAt position ∈ names.map Form.parameter)
      fun position operand =>
        (∀ name, graph.formAt position = .parameter name →
          operand = parameterOperand declarations name) ∧
        (graph.formAt position = root → outcome operand) := by
    refine ⟨fun position value alive found => ?_, fun position name _ found => ?_⟩
    · rw [formAt_constant found] at alive
      simp [root] at alive
    · rw [formAt_parameter found]
      exact ⟨fun other same => by cases same; rfl, nofun⟩
  refine (meets_specialize lives deep leaves ?_).mono fun operand holds => holds.2 whole
  intro position depth other operands results alive callsAt related
  have called := formAt_call callsAt
  rw [called] at alive ⊢
  obtain ⟨rfl, parts⟩ : other = operation ∧ operands.map graph.formAt = names.map .parameter := by
    refine Form.call.inj (alive.resolve_right fun among => ?_)
    obtain ⟨name, _, impossible⟩ := List.mem_map.mp among
    cases impossible
  rw [operands_of_parameters (related.imp fun _ _ holds => holds.1) parts]
  exact (calls depth).mono fun operand holds => ⟨nofun, fun _ => holds⟩

end Graph

end Narrowing
