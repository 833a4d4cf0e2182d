import Narrowing.Proofs.CertainCalls
import Narrowing.Proofs.SharedForms

/-
This file shows when a graph has a derivative: unless a call depends on the variable while its
operation has no rule for the derivative, whatever other operations there are.
-/

namespace Narrowing

namespace Form

mutual

/-- Some call has an operand that depends on the variable, and its operation has no derivative. -/
def isBlocked (name : String) : Form → Bool
  | .constant _ => false
  | .parameter _ => false
  | .call operation operands =>
      anyBlocked name operands ||
        (anyDependsOn name operands && Registry.lacksDerivative operation)

def anyBlocked (name : String) : List Form → Bool
  | [] => false
  | form :: rest => form.isBlocked name || anyBlocked name rest

end

mutual

/-- Nothing in a form without the variable is blocked. -/
theorem isBlocked_of_independent (name : String) : (form : Form) → form.dependsOn name = false →
    form.isBlocked name = false
  | .constant _, _ => rfl
  | .parameter _, _ => rfl
  | .call _ operands, independent => by
      rw [dependsOn] at independent
      rw [isBlocked, anyBlocked_of_independent name operands independent, independent]
      rfl

theorem anyBlocked_of_independent (name : String) : (forms : List Form) →
    anyDependsOn name forms = false → anyBlocked name forms = false
  | [], _ => rfl
  | form :: rest, independent => by
      obtain ⟨first, others⟩ := Bool.or_eq_false_iff.mp independent
      rw [anyBlocked, isBlocked_of_independent name form first,
        anyBlocked_of_independent name rest others]
      rfl

end

end Form

namespace Graph

open Traced

variable {graph : Graph} {engine : Engine} {declarations : Declarations} {name : String}
  {allowed : Fault → Prop} {position : Nat} {operation : String} {operands : List Nat}
  {visits : List Visit} {memo derivatives : Memo Operand}

/-- The operation of the call at a visit, if the call depends on the variable through an operand and
the operation has no derivative. -/
def blocker? (graph : Graph) (name : String) (visit : Visit) : Option String :=
  match graph.call? visit.position with
  | none => none
  | some call =>
      if call.operands.any (fun operand => (graph.formAt operand).dependsOn name) &&
          Registry.lacksDerivative call.operation then some call.operation
      else none

/-- The operation of the first such call. -/
def firstBlocker? (graph : Graph) (name : String) : Option String :=
  graph.postorder.findSome? (graph.blocker? name)

theorem dependsOn_formAt_call (calls : CallsAt graph.nodes position operation operands) :
    (graph.formAt position).dependsOn name =
      operands.any fun operand => (graph.formAt operand).dependsOn name := by
  rw [formAt_call calls, Form.dependsOn, Form.anyDependsOn_eq_any, List.any_map]
  rfl

theorem blocker?_eq {visit : Visit}
    (calls : CallsAt graph.nodes visit.position operation operands) :
    graph.blocker? name visit =
      if (graph.formAt visit.position).dependsOn name && Registry.lacksDerivative operation then
        some operation
      else none := by
  rw [blocker?, call?_eq_some_iff.mpr calls, dependsOn_formAt_call calls]

/-- The live positions are the leaves and the visited calls. -/
theorem live_visited (graph : Graph) : Live graph fun position => ∀ operation operands,
    CallsAt graph.nodes position operation operands → Visited graph.postorder position where
  root _ _ := root_visited
  descends position operation operands calls alive operand member inner further innerCalls := by
    obtain ⟨visit, among, rfl⟩ := alive operation operands calls
    obtain ⟨before, after, whole⟩ := List.append_of_mem among
    exact operandsVisited_postorder whole operation operands calls operand member inner further
      innerCalls

/-- The library accepts the numbers of operands of the visited calls. -/
def IsAccepted (graph : Graph) (visits : List Visit) : Prop :=
  ∀ visit ∈ visits, ∀ operation operands,
    CallsAt graph.nodes visit.position operation operands →
      Registry.Accepts operation operands.length

theorem IsAccepted.snoc (accepted : graph.IsAccepted visits) {visit : Visit}
    (calls : CallsAt graph.nodes visit.position operation operands)
    (takes : Registry.Accepts operation operands.length) :
    graph.IsAccepted (visits ++ [visit]) := by
  refine List.forall_mem_append.mpr ⟨accepted, List.forall_mem_singleton.mpr ?_⟩
  intro other others otherCalls
  cases otherCalls.symm.trans calls
  exact takes

theorem leaves_anything (live : Nat → Prop) :
    Leaves graph declarations live fun _ _ => True where
  constants _ _ _ _ := trivial
  parameters _ _ _ _ := trivial

/-- All accepted calls are specialized. -/
theorem meets_specializeAll_accepted (standard : engine.registry = .standard)
    (accepted : graph.IsAccepted graph.postorder) :
    (graph.specializeAll engine declarations).Meets Fault.IsDepth
      (Memoized (fun _ _ => True) graph.postorder) := by
  refine meets_specializeAll (live_visited graph) (Fault.isDepth_depth · engine.ceiling)
    (leaves_anything _) ?_
  intro position depth operation operands results alive calls related
  obtain ⟨visit, member, rfl⟩ := alive operation operands calls
  exact Engine.meets_specialize_accepted standard
    (related.length_eq ▸ accepted visit member operation operands calls) depth

/-- What a derivative fails with: it lies too deep, or it blames the first blocked call. -/
def Refuses (graph : Graph) (name : String) (fault : Fault) : Prop :=
  fault.IsDepth ∨
    ∃ operation, fault = .notDifferentiable operation ∧ graph.firstBlocker? name = some operation

/-- No visit so far was blocked, and the derivatives so far tell which calls depend on the
variable. -/
structure Clears (graph : Graph) (name : String) (visits : List Visit)
    (derivatives : Memo Operand) : Prop extends Tracks graph name visits derivatives where
  unblocked : ∀ visit ∈ visits, graph.blocker? name visit = none

/-- The derivative of a node is at hand, and it is zero without the variable. -/
theorem Tracks.meets_derivativeAt (tracks : Tracks graph name visits derivatives) (position : Nat) :
    (graph.derivativeAt name derivatives position).Meets allowed fun slope =>
      (graph.formAt position).dependsOn name = false → slope = .ofConstant (.integer 0) := by
  unfold derivativeAt
  cases found : graph.node position with
  | constant value => exact meets_constant fun _ => rfl
  | parameter other =>
      rw [formAt_parameter found]
      refine meets_constant fun independent => ?_
      rw [if_neg (beq_eq_false_iff_ne.mp independent)]
  | call operation operands =>
      dsimp only
      cases stored : derivatives.lookup position with
      | none => exact meets_constant fun _ => rfl
      | some derivative =>
          refine meets_pure fun independent => ?_
          cases independent.symm.trans (tracks.sound position (by rw [stored]; rfl))

/-- The part of a derivative that comes through one operand exists if the operation has a
derivative. -/
theorem Tracks.meets_derivativeTerm (tracks : Tracks graph name visits derivatives)
    (standard : engine.registry = .standard) {results : List Operand}
    (accepted : Registry.Accepts operation results.length) {index : Nat}
    (within : index < results.length) (depth : Nat) :
    (graph.derivativeTerm engine name derivatives depth ⟨operation, operands⟩ results index).Meets
      (Engine.MissesDerivative operation) fun _ => Registry.lacksDerivative operation = false := by
  refine (Engine.meets_differentiate_accepted standard accepted within (depth + 1)).bind
    fun partialDerivative free => ?_
  refine (tracks.meets_derivativeAt (operands.getD index graph.root)).bind fun inner _ => ?_
  have accepts : Registry.Accepts "*" 2 := @Registry.accepts_arithmetic .mul rfl 2 (.inl rfl)
  exact ((Engine.meets_specialize_accepted standard accepts (depth + 1)).widen
    fun fault deep => .inl deep).mono fun _ _ => free

/-- The first term decides about all of them, since they come from one operation. -/
theorem Tracks.meets_terms (tracks : Tracks graph name visits derivatives)
    (standard : engine.registry = .standard) {results : List Operand}
    (accepted : Registry.Accepts operation results.length) {indices : List Nat}
    (within : ∀ index ∈ indices, index < results.length) (filled : indices ≠ []) (depth : Nat) :
    (indices.mapM (graph.derivativeTerm engine name derivatives depth ⟨operation, operands⟩
      results)).Meets (Engine.MissesDerivative operation) fun _ =>
        Registry.lacksDerivative operation = false := by
  refine (meets_mapM fun index among =>
    tracks.meets_derivativeTerm standard accepted (within index among) depth).mono
      fun terms related => ?_
  obtain ⟨index, among⟩ := List.exists_mem_of_ne_nil indices filled
  obtain ⟨_, _, free⟩ := exists_related_of_mem related among
  exact free

/-- The sum of some terms always exists. -/
theorem meets_slopeSum (standard : engine.registry = .standard) (depth : Nat)
    (terms : List Operand) :
    (Form.slopeSum engine depth terms).Meets Fault.IsDepth fun _ => True := by
  unfold Form.slopeSum
  split
  · exact meets_pure trivial
  · exact Engine.meets_specialize_accepted standard
      (@Registry.accepts_arithmetic .add rfl _ (.inl rfl)) depth

section Clears

variable {visit : Visit} (clears : Clears graph name visits derivatives)
include clears

theorem Clears.skip (calls : CallsAt graph.nodes visit.position operation operands)
    (independent : (graph.formAt visit.position).dependsOn name = false) :
    Clears graph name (visits ++ [visit]) derivatives where
  toTracks := clears.toTracks.skip independent
  unblocked := by
    refine List.forall_mem_append.mpr ⟨clears.unblocked, List.forall_mem_singleton.mpr ?_⟩
    rw [blocker?_eq calls, independent]
    rfl

theorem Clears.snoc (calls : CallsAt graph.nodes visit.position operation operands)
    (depends : (graph.formAt visit.position).dependsOn name = true)
    (free : Registry.lacksDerivative operation = false) (derivative : Operand) :
    Clears graph name (visits ++ [visit]) ((visit.position, derivative) :: derivatives) where
  toTracks := clears.toTracks.snoc depends derivative
  unblocked := by
    refine List.forall_mem_append.mpr ⟨clears.unblocked, List.forall_mem_singleton.mpr ?_⟩
    rw [blocker?_eq calls, free, Bool.and_false]
    rfl

/-- The next call is the first blocked one if it is blocked at all. -/
theorem Clears.firstBlocker?_eq {after : List Visit}
    (whole : graph.postorder = visits ++ visit :: after)
    (calls : CallsAt graph.nodes visit.position operation operands)
    (depends : (graph.formAt visit.position).dependsOn name = true)
    (lacks : Registry.lacksDerivative operation = true) :
    graph.firstBlocker? name = some operation := by
  have own : graph.blocker? name visit = some operation := by
    rw [blocker?_eq calls, depends, lacks]
    rfl
  rw [firstBlocker?, whole, List.findSome?_append,
    List.findSome?_eq_none_iff.mpr clears.unblocked, Option.none_or, List.findSome?_cons, own]

/-- A visit comes to its end, unless its call is the first blocked one. -/
theorem Clears.meets_differentiateVisit (standard : engine.registry = .standard)
    (accepted : graph.IsAccepted graph.postorder)
    (memoized : Memoized (fun _ _ => True) graph.postorder memo) {after : List Visit}
    (whole : graph.postorder = visits ++ visit :: after) :
    (graph.differentiateVisit engine declarations memo name derivatives visit).Meets
      (graph.Refuses name) (Clears graph name (visits ++ [visit])) := by
  have member : visit ∈ graph.postorder := by rw [whole]; simp
  obtain ⟨operation, operands, calls⟩ := visit_calls member
  have dependence := clears.toTracks.dependents_eq calls (operandsVisited_of_split whole)
  rw [differentiateVisit_eq calls dependence]
  have deep : ∀ fault, fault.IsDepth → graph.Refuses name fault := fun _ => .inl
  split
  · rename_i independent
    refine meets_pure (clears.skip calls ?_)
    rw [formAt_call calls]
    exact (Form.dependents_isEmpty_iff name).mp independent
  · rename_i dependent
    have depends : (graph.formAt visit.position).dependsOn name = true := by
      rw [formAt_call calls]
      exact Bool.of_not_eq_false (mt (Form.dependents_isEmpty_iff name).mpr dependent)
    refine (meets_operands (leaves_anything fun _ => True) memoized calls (fun _ _ => trivial)
      (operandsVisited_postorder whole)).bind fun results related => ?_
    have takes : Registry.Accepts operation results.length :=
      related.length_eq ▸ accepted visit member operation operands calls
    refine Meets.bind ?_ fun sum (free : Registry.lacksDerivative operation = false) =>
      meets_pure (clears.snoc calls depends free sum)
    refine ((clears.toTracks.meets_terms standard takes (fun index among => ?_)
      (mt List.isEmpty_iff.mpr dependent) visit.depth).widen ?_).bind fun terms free => ?_
    · have inRange := List.mem_range.mp (List.mem_filter.mp among).1
      rwa [List.length_map, related.length_eq] at inRange
    · rintro fault (isDepth | ⟨rfl, lacks⟩)
      · exact .inl isDepth
      · exact .inr ⟨operation, rfl, clears.firstBlocker?_eq whole calls depends lacks⟩
    · exact ((meets_slopeSum standard _ terms).widen deep).mono fun _ _ => free

end Clears

/-- What comes of the derivative of a graph whose calls are accepted. -/
theorem meets_differentiate_accepted (standard : engine.registry = .standard)
    (accepted : graph.IsAccepted graph.postorder) :
    (graph.differentiate engine declarations name).Meets (graph.Refuses name) fun slope =>
      graph.firstBlocker? name = none ∧
        (graph.toForm.dependsOn name = false → slope = .ofConstant (.integer 0)) := by
  have deep : ∀ fault, fault.IsDepth → graph.Refuses name fault := fun _ => .inl
  refine ((meets_specializeAll_accepted standard accepted).widen deep).bind fun memo memoized => ?_
  refine (meets_operandAt (leaves_anything fun _ => True) memoized trivial fun _ _ =>
    root_visited).bind fun _ _ => ?_
  refine (meets_checkedVisits fun operation => deep _ (Fault.isDepth_depth operation _)).bind
    fun visits same => ?_
  subst same
  have folded : (graph.postorder.foldlM (graph.differentiateVisit engine declarations memo name)
      []).Meets (graph.Refuses name) (Clears graph name graph.postorder) :=
    meets_foldlM ⟨tracks_nil, nofun⟩ fun before visit after derivatives whole clears =>
      clears.meets_differentiateVisit standard accepted memoized whole
  refine folded.bind fun derivatives clears => ?_
  exact (clears.toTracks.meets_derivativeAt graph.root).mono fun slope zero =>
    ⟨List.findSome?_eq_none_iff.mpr clears.unblocked, zero⟩

def doubles : Declarations := [("x", Tier.float64.ntype), ("y", Tier.float64.ntype)]

end Graph

end Narrowing
