import Narrowing.Proofs.GraphRuns
import Narrowing.Proofs.RepeatedDerivatives

/-
This file shows that a form with shared parts is specialized, evaluated and differentiated like the
form with all its parts written out.
-/

namespace Narrowing

namespace Form

mutual

/-- The narrowest form, by recursion on the parts. -/
def specialize (engine : Engine) (declarations : Declarations) : Form → Except Fault Operand
  | .constant value => .ok (.ofConstant value)
  | .parameter name => .ok (Graph.parameterOperand declarations name)
  | .call operation operands => do
      let results ← specializeEach engine declarations operands
      (engine.specialize 0 operation results).run.2

def specializeEach (engine : Engine) (declarations : Declarations) :
    List Form → Except Fault (List Operand)
  | [] => .ok []
  | form :: rest => do
      let result ← specialize engine declarations form
      let results ← specializeEach engine declarations rest
      .ok (result :: results)

end

/-- The operands that depend on a variable. -/
def dependents (name : String) (operands : List Form) : List Nat :=
  (List.range operands.length).filter fun index => (operands.getD index default).dependsOn name

/-- The derivative of all that does not depend on the variable. -/
def flat : Operand := .ofConstant (.integer 0)

/-- The part of a derivative that comes through one operand, with the derivatives of all of them. -/
def slopeTerm (engine : Engine) (operation : String) (results slopes : List Operand) (index : Nat) :
    Traced Operand := do
  let partialDerivative ← engine.differentiate 1 operation results index
  engine.specialize 1 "*" [partialDerivative, slopes.getD index flat]

/-- A single part is the whole derivative; several ones are added up. -/
def slopeSum (engine : Engine) (depth : Nat) (terms : List Operand) : Traced Operand :=
  match terms with
  | [term] => pure term
  | terms => engine.specialize depth "+" terms

mutual

/-- The derivative of a form in a variable, by recursion on the parts. -/
def derivative (engine : Engine) (declarations : Declarations) (name : String) :
    Form → Except Fault Operand
  | .constant _ => .ok flat
  | .parameter other => .ok (.ofConstant (.integer (if other = name then 1 else 0)))
  | .call operation operands => do
      let slopes ← derivativeEach engine declarations name operands
      let indices := dependents name operands
      if indices.isEmpty then .ok flat
      else do
        let results ← specializeEach engine declarations operands
        (indices.mapM (slopeTerm engine operation results slopes) >>= slopeSum engine 1).run.2

def derivativeEach (engine : Engine) (declarations : Declarations) (name : String) :
    List Form → Except Fault (List Operand)
  | [] => .ok []
  | form :: rest => do
      let slope ← derivative engine declarations name form
      let slopes ← derivativeEach engine declarations name rest
      .ok (slope :: slopes)

end

/-- The derivative of a form that can be specialized. -/
def differentiate (engine : Engine) (declarations : Declarations) (name : String) (form : Form) :
    Except Fault Operand := do
  let _ ← form.specialize engine declarations
  form.derivative engine declarations name

variable (engine : Engine) (declarations : Declarations) (name : String)

theorem specializeEach_eq_mapM (forms : List Form) :
    specializeEach engine declarations forms = forms.mapM (specialize engine declarations) := by
  induction forms with
  | nil => rfl
  | cons form rest inductionHypothesis =>
      rw [specializeEach, List.mapM_cons, inductionHypothesis]
      rfl

theorem derivativeEach_eq_mapM (forms : List Form) :
    derivativeEach engine declarations name forms =
      forms.mapM (derivative engine declarations name) := by
  induction forms with
  | nil => rfl
  | cons form rest inductionHypothesis =>
      rw [derivativeEach, List.mapM_cons, inductionHypothesis]
      rfl

/-- A call depends on a variable when one of its operands does. -/
theorem dependents_isEmpty_iff {operation : String} {operands : List Form} :
    (dependents name operands).isEmpty = true ↔
      (call operation operands).dependsOn name = false := by
  rw [dependsOn, anyDependsOn_eq_any, List.any_eq_false, List.forall_mem_iff_forall_getElem,
    List.isEmpty_iff, dependents, List.filter_eq_nil_iff]
  simp only [List.mem_range]
  refine forall_congr' fun index => forall_congr' fun within => ?_
  rw [List.getD_eq_getElem?_getD, List.getElem?_eq_getElem within, Option.getD_some]

mutual

/-- The derivative of a form without the variable is zero. -/
theorem derivative_of_independent : (form : Form) → form.dependsOn name = false →
    form.derivative engine declarations name = .ok flat
  | .constant _, _ => rfl
  | .parameter other, independent => by
      have different : other ≠ name := beq_eq_false_iff_ne.mp independent
      rw [derivative, if_neg different]
      rfl
  | .call operation operands, independent => by
      obtain ⟨slopes, found⟩ := exists_slopes_of_independent operands independent
      rw [derivative, found]
      exact if_pos ((dependents_isEmpty_iff name).mpr independent)

theorem exists_slopes_of_independent : (forms : List Form) → anyDependsOn name forms = false →
    ∃ slopes, derivativeEach engine declarations name forms = .ok slopes
  | [], _ => ⟨[], rfl⟩
  | form :: rest, independent => by
      obtain ⟨first, others⟩ := Bool.or_eq_false_iff.mp independent
      obtain ⟨slopes, found⟩ := exists_slopes_of_independent rest others
      refine ⟨flat :: slopes, ?_⟩
      rw [derivativeEach, derivative_of_independent form first, found]
      rfl

end

end Form

/-- One failure among some computations is a failure of all of them. -/
theorem exists_error_of_mem {Item Result : Type} {items : List Item}
    (run : Item → Except Fault Result) {item : Item} {fault : Fault} (member : item ∈ items)
    (failed : run item = .error fault) : ∃ other, items.mapM run = .error other := by
  cases outcome : items.mapM run with
  | error other => exact ⟨other, rfl⟩
  | ok results =>
      obtain ⟨result, _, succeeded⟩ := exists_related_of_mem (mapM_eq_ok_iff.mp outcome) member
      cases failed.symm.trans succeeded

namespace Graph

open Traced

variable {graph : Graph} {engine : Engine} {declarations : Declarations} {name : String}
  {allowed : Fault → Prop} {position : Nat} {operation : String} {operands : List Nat}

theorem specialize_formAt_call (calls : CallsAt graph.nodes position operation operands) :
    (graph.formAt position).specialize engine declarations =
      operands.mapM (fun operand => (graph.formAt operand).specialize engine declarations) >>=
        fun results => (engine.specialize 0 operation results).run.2 := by
  rw [formAt_call calls, Form.specialize, Form.specializeEach_eq_mapM, List.mapM_map]
  rfl

/-- A failure at a position is a failure of the root. -/
def Blames {Result : Type} (graph : Graph) (run : Form → Except Fault Result) (position : Nat) :
    Prop :=
  ∀ fault, run (graph.formAt position) = .error fault → ∃ other, run graph.toForm = .error other

/-- A failure of an operand is a failure of the call. -/
theorem live_blames {Result : Type} {run : Form → Except Fault Result}
    (descends : ∀ {position operation operands}, CallsAt graph.nodes position operation operands →
      ∀ {fault}, operands.mapM (fun operand => run (graph.formAt operand)) = .error fault →
        ∃ other, run (graph.formAt position) = .error other) : Live graph (graph.Blames run) where
  root fault failed := ⟨fault, failed⟩
  descends position operation operands calls blames operand member fault failed := by
    obtain ⟨other, failedAll⟩ :=
      exists_error_of_mem (fun operand => run (graph.formAt operand)) member failed
    obtain ⟨further, failedCall⟩ := descends calls failedAll
    exact blames further failedCall

theorem live_specialize (graph : Graph) (engine : Engine) (declarations : Declarations) :
    Live graph (graph.Blames (Form.specialize engine declarations)) := by
  refine live_blames fun calls fault failed => ⟨fault, ?_⟩
  rw [specialize_formAt_call calls, failed]
  rfl

/-- The operand is the narrowest form for a position. -/
abbrev SpecializesTo (graph : Graph) (engine : Engine) (declarations : Declarations)
    (position : Nat) (operand : Operand) : Prop :=
  (graph.formAt position).specialize engine declarations = .ok operand

theorem leaves_specialize {live : Nat → Prop} :
    Leaves graph declarations live (graph.SpecializesTo engine declarations) where
  constants position value _ found := by
    rw [SpecializesTo, formAt_constant found]
    rfl
  parameters position name _ found := by
    rw [SpecializesTo, formAt_parameter found]
    rfl

/-- All specialized calls are those of the recursion, at whatever depth they were visited. -/
theorem meets_specializeAll_recursive (standard : engine.registry = .standard)
    (deep : ∀ fault, fault.IsDepth → allowed fault)
    (fails : ∀ fault, graph.toForm.specialize engine declarations = .error fault →
      ∀ other, allowed other) :
    (graph.specializeAll engine declarations).Meets allowed
      (Memoized (graph.SpecializesTo engine declarations) graph.postorder) := by
  refine meets_specializeAll (live_specialize graph engine declarations)
    (fun _ => deep _ ⟨_, _, rfl⟩) leaves_specialize ?_
  intro position depth operation operands results blames calls related
  have whole : (graph.formAt position).specialize engine declarations =
      (engine.specialize 0 operation results).run.2 := by
    rw [specialize_formAt_call calls, mapM_eq_ok_iff.mpr related]
    rfl
  rw [show graph.SpecializesTo engine declarations position = fun operand =>
    (engine.specialize 0 operation results).run.2 = .ok operand by
      funext operand
      rw [SpecializesTo, whole]]
  refine (Engine.agrees_specialize standard (fun _ => ⟨_, _, rfl⟩) (Nat.zero_le depth) operation
    results).meets deep fun fault failed => ?_
  obtain ⟨other, failedRoot⟩ := blames fault (whole.trans failed)
  exact fails other failedRoot

theorem derivative_formAt_call (calls : CallsAt graph.nodes position operation operands) :
    (graph.formAt position).derivative engine declarations name =
      operands.mapM (fun operand => (graph.formAt operand).derivative engine declarations name) >>=
        fun slopes =>
          let indices := Form.dependents name (operands.map graph.formAt)
          if indices.isEmpty then .ok Form.flat
          else
            operands.mapM (fun operand => (graph.formAt operand).specialize engine declarations) >>=
              fun results => (indices.mapM (Form.slopeTerm engine operation results slopes) >>=
                Form.slopeSum engine 1).run.2 := by
  rw [formAt_call calls, Form.derivative, Form.derivativeEach_eq_mapM, List.mapM_map,
    Form.specializeEach_eq_mapM, List.mapM_map]
  rfl

theorem live_derivative (graph : Graph) (engine : Engine) (declarations : Declarations)
    (name : String) : Live graph (graph.Blames (Form.derivative engine declarations name)) := by
  refine live_blames fun calls fault failed => ⟨fault, ?_⟩
  rw [derivative_formAt_call calls, failed]
  rfl

/-- The derivative of the form at a position. -/
def slopeFormAt (graph : Graph) (engine : Engine) (declarations : Declarations) (name : String)
    (position : Nat) : Operand :=
  ((graph.formAt position).derivative engine declarations name).toOption.getD Form.flat

variable {visits : List Visit} {derivatives : Memo Operand}

/-- Only calls that depend on the variable have a stored derivative, and no visited one is without
it. -/
structure Tracks (graph : Graph) (name : String) (visits : List Visit)
    (derivatives : Memo Operand) : Prop where
  sound : ∀ position, (derivatives.lookup position).isSome = true →
    (graph.formAt position).dependsOn name = true
  complete : ∀ position, Visited visits position →
    (graph.formAt position).dependsOn name = true → (derivatives.lookup position).isSome = true

theorem tracks_nil : Tracks graph name [] [] where
  sound := nofun
  complete := by
    rintro position ⟨visit, member, _⟩
    cases member

section Tracks

variable (tracks : Tracks graph name visits derivatives)
include tracks

theorem Tracks.skip {visit : Visit}
    (independent : (graph.formAt visit.position).dependsOn name = false) :
    Tracks graph name (visits ++ [visit]) derivatives where
  sound := tracks.sound
  complete := by
    rintro position ⟨other, member, rfl⟩ depends
    rcases List.mem_append.mp member with old | last
    · exact tracks.complete other.position ⟨other, old, rfl⟩ depends
    · cases List.mem_singleton.mp last
      cases independent.symm.trans depends

theorem Tracks.snoc {visit : Visit}
    (depends : (graph.formAt visit.position).dependsOn name = true) (derivative : Operand) :
    Tracks graph name (visits ++ [visit]) ((visit.position, derivative) :: derivatives) where
  sound := by
    intro position stored
    by_cases same : position = visit.position
    · exact same ▸ depends
    · rw [List.lookup_cons, beq_false_of_ne same] at stored
      exact tracks.sound position stored
  complete := by
    rintro position ⟨other, member, rfl⟩ otherDepends
    by_cases same : other.position = visit.position
    · rw [same, List.lookup_cons_self]
      rfl
    · rw [List.lookup_cons, beq_false_of_ne same]
      rcases List.mem_append.mp member with old | last
      · exact tracks.complete other.position ⟨other, old, rfl⟩ otherDepends
      · exact absurd (congrArg Visit.position (List.mem_singleton.mp last)) same

/-- A stored derivative tells that a call depends on the variable. -/
theorem Tracks.mentions_eq
    (visited : ∀ operation operands, CallsAt graph.nodes position operation operands →
      Visited visits position) :
    graph.mentions name derivatives position = (graph.formAt position).dependsOn name := by
  unfold mentions
  cases found : graph.node position with
  | constant value =>
      rw [formAt_constant found]
      rfl
  | parameter other =>
      rw [formAt_parameter found]
      rfl
  | call operation operands =>
      have seen := visited operation operands (callsAt_of_node found)
      exact Bool.eq_iff_iff.mpr ⟨tracks.sound position, tracks.complete position seen⟩

theorem Tracks.dependents_eq (calls : CallsAt graph.nodes position operation operands)
    (visited : OperandsVisited graph.nodes visits position) :
    graph.dependents name derivatives ⟨operation, operands⟩ =
      Form.dependents name (operands.map graph.formAt) := by
  unfold dependents Form.dependents
  rw [List.length_map]
  refine List.filter_congr fun index member => ?_
  have within := List.mem_range.mp member
  simp only [List.getD_eq_getElem?_getD, List.getElem?_map, List.getElem?_eq_getElem within,
    Option.map_some, Option.getD_some]
  exact tracks.mentions_eq (visited operation operands calls _ (List.getElem_mem within))

end Tracks

/-- The stored derivatives are those of the recursion, and no visited call that depends on the
variable is without one. -/
structure Recorded (graph : Graph) (engine : Engine) (declarations : Declarations) (name : String)
    (visits : List Visit) (derivatives : Memo Operand) : Prop where
  sound : ∀ position derivative, derivatives.lookup position = some derivative →
    (graph.formAt position).dependsOn name = true ∧
      (graph.formAt position).derivative engine declarations name = .ok derivative
  complete : ∀ position, Visited visits position →
    (graph.formAt position).dependsOn name = true → (derivatives.lookup position).isSome = true

theorem Recorded.tracks (recorded : Recorded graph engine declarations name visits derivatives) :
    Tracks graph name visits derivatives where
  sound position stored := by
    obtain ⟨derivative, found⟩ := Option.isSome_iff_exists.mp stored
    exact (recorded.sound position derivative found).1
  complete := recorded.complete

theorem recorded_nil : Recorded graph engine declarations name [] [] where
  sound := nofun
  complete := tracks_nil.complete

theorem Recorded.skip (recorded : Recorded graph engine declarations name visits derivatives)
    {visit : Visit} (independent : (graph.formAt visit.position).dependsOn name = false) :
    Recorded graph engine declarations name (visits ++ [visit]) derivatives where
  sound := recorded.sound
  complete := (recorded.tracks.skip independent).complete

theorem Recorded.snoc (recorded : Recorded graph engine declarations name visits derivatives)
    {visit : Visit} {derivative : Operand}
    (depends : (graph.formAt visit.position).dependsOn name = true)
    (found : (graph.formAt visit.position).derivative engine declarations name = .ok derivative) :
    Recorded graph engine declarations name (visits ++ [visit])
      ((visit.position, derivative) :: derivatives) where
  sound := by
    intro position other stored
    by_cases same : position = visit.position
    · subst same
      rw [List.lookup_cons_self] at stored
      cases stored
      exact ⟨depends, found⟩
    · rw [List.lookup_cons, beq_false_of_ne same] at stored
      exact recorded.sound position other stored
  complete := (recorded.tracks.snoc depends derivative).complete

section Recorded

variable (recorded : Recorded graph engine declarations name visits derivatives)
include recorded

/-- The derivative of a visited position is stored, or it is the one of a leaf or of a call without
the variable. -/
theorem Recorded.agrees_derivativeAt
    (visited : ∀ operation operands, CallsAt graph.nodes position operation operands →
      Visited visits position) :
    (graph.formAt position).derivative engine declarations name =
        .ok (graph.slopeFormAt engine declarations name position) ∧
      Agrees Fault.IsDepth (graph.derivativeAt name derivatives position)
        (pure (graph.slopeFormAt engine declarations name position)) := by
  have literal (value : Value) :
      Agrees Fault.IsDepth (Traced.constant value) (pure (.ofConstant value)) :=
    fun _ => follows_ok_iff.mpr (meets_constant rfl)
  suffices known : ∃ slope,
      (graph.formAt position).derivative engine declarations name = .ok slope ∧
        Agrees Fault.IsDepth (graph.derivativeAt name derivatives position) (pure slope) by
    obtain ⟨slope, derived, agrees⟩ := known
    rw [slopeFormAt, derived]
    exact ⟨rfl, agrees⟩
  unfold derivativeAt
  cases found : graph.node position with
  | constant value =>
      rw [formAt_constant found]
      exact ⟨_, rfl, literal _⟩
  | parameter other =>
      rw [formAt_parameter found]
      exact ⟨_, rfl, literal _⟩
  | call operation operands =>
      dsimp only
      cases stored : derivatives.lookup position with
      | some derivative =>
          exact ⟨derivative, (recorded.sound position derivative stored).2, agrees_pure derivative⟩
      | none =>
          have seen := visited operation operands (callsAt_of_node found)
          refine ⟨Form.flat, Form.derivative_of_independent engine declarations name _ ?_,
            literal _⟩
          refine Bool.eq_false_iff.mpr fun depends => ?_
          have present := recorded.complete position seen depends
          rw [stored] at present
          cases present

/-- The part of a derivative that comes through one operand, at whatever depth. -/
theorem Recorded.agrees_derivativeTerm (standard : engine.registry = .standard)
    (calls : CallsAt graph.nodes position operation operands)
    (visited : OperandsVisited graph.nodes visits position) (depth : Nat) (results : List Operand)
    {index : Nat} (within : index < operands.length) :
    Agrees Fault.IsDepth
      (graph.derivativeTerm engine name derivatives depth ⟨operation, operands⟩ results index)
      (Form.slopeTerm engine operation results
        (operands.map (graph.slopeFormAt engine declarations name)) index) := by
  have operand : operands.getD index graph.root = operands[index] := by
    rw [List.getD_eq_getElem?_getD, List.getElem?_eq_getElem within, Option.getD_some]
  have inner : (operands.map (graph.slopeFormAt engine declarations name)).getD index Form.flat =
      graph.slopeFormAt engine declarations name operands[index] := by
    rw [List.getD_eq_getElem?_getD, List.getElem?_map, List.getElem?_eq_getElem within,
      Option.map_some, Option.getD_some]
  have deep (operation : String) : (Fault.depth operation engine.ceiling).IsDepth := ⟨_, _, rfl⟩
  have higher : 1 ≤ depth + 1 := Nat.le_add_left 1 depth
  unfold derivativeTerm Form.slopeTerm
  rw [operand, inner]
  refine (Engine.agrees_differentiate standard deep higher operation results index).bind
    fun partialDerivative => ?_
  have agrees := (recorded.agrees_derivativeAt
    (visited operation operands calls _ (List.getElem_mem within))).2.bind fun slope =>
      Engine.agrees_specialize standard deep higher "*" [partialDerivative, slope]
  rwa [pure_bind] at agrees

end Recorded

/-- A sum of terms is the same at a smaller depth. -/
theorem agrees_slopeSum (standard : engine.registry = .standard) {depth other : Nat}
    (higher : other ≤ depth) (terms : List Operand) :
    Agrees Fault.IsDepth (Form.slopeSum engine depth terms) (Form.slopeSum engine other terms) := by
  unfold Form.slopeSum
  split
  · exact agrees_pure _
  · exact Engine.agrees_specialize standard (fun _ => ⟨_, _, rfl⟩) higher "+" terms

/-- A visit of a call that depends on the variable stores the sum of its terms. -/
theorem differentiateVisit_eq {memo : Memo Operand} {visit : Visit}
    (calls : CallsAt graph.nodes visit.position operation operands) {indices : List Nat}
    (found : graph.dependents name derivatives ⟨operation, operands⟩ = indices) :
    graph.differentiateVisit engine declarations memo name derivatives visit =
      if indices.isEmpty then pure derivatives
      else operands.mapM (graph.operandAt declarations memo) >>= fun results =>
        (indices.mapM (graph.derivativeTerm engine name derivatives visit.depth
          ⟨operation, operands⟩ results) >>= Form.slopeSum engine (visit.depth + 1)) >>= fun sum =>
            pure ((visit.position, sum) :: derivatives) := by
  unfold differentiateVisit
  rw [call?_eq_some_iff.mpr calls]
  simp only [found, bind_assoc]
  refine ite_congr rfl (fun _ => rfl) fun _ => ?_
  refine bind_congr fun results => bind_congr fun terms => ?_
  rcases terms with _ | ⟨term, _ | ⟨next, rest⟩⟩ <;> rfl

/-- A visit keeps the record of the derivatives. -/
theorem meets_differentiateVisit_recursive (standard : engine.registry = .standard)
    (deep : ∀ fault, fault.IsDepth → allowed fault) {memo : Memo Operand}
    (memoized : Memoized (graph.SpecializesTo engine declarations) graph.postorder memo)
    {before after : List Visit} {visit : Visit}
    (whole : graph.postorder = before ++ visit :: after)
    (fails : ∀ fault, (graph.formAt visit.position).derivative engine declarations name =
      .error fault → ∀ other, allowed other)
    (recorded : Recorded graph engine declarations name before derivatives) :
    (graph.differentiateVisit engine declarations memo name derivatives visit).Meets allowed
      (Recorded graph engine declarations name (before ++ [visit])) := by
  obtain ⟨operation, operands, calls⟩ : ∃ operation operands,
      CallsAt graph.nodes visit.position operation operands :=
    visit_calls (by rw [whole]; simp)
  have visited := operandsVisited_of_split whole
  have slopes : operands.mapM (fun operand =>
      (graph.formAt operand).derivative engine declarations name) =
        .ok (operands.map (graph.slopeFormAt engine declarations name)) := by
    refine mapM_eq_ok_iff.mpr (List.forall₂_map_right_iff.mpr (List.forall₂_same.mpr ?_))
    intro operand member
    exact (recorded.agrees_derivativeAt (visited operation operands calls operand member)).1
  rw [differentiateVisit_eq calls (recorded.tracks.dependents_eq calls visited)]
  split
  · rename_i independent
    refine meets_pure (recorded.skip ?_)
    rw [formAt_call calls]
    exact (Form.dependents_isEmpty_iff name).mp independent
  · rename_i dependent
    refine (meets_operands leaves_specialize memoized calls (fun _ _ => trivial)
      (operandsVisited_postorder whole)).bind fun results related => ?_
    have derived : (graph.formAt visit.position).derivative engine declarations name =
        ((Form.dependents name (operands.map graph.formAt)).mapM (Form.slopeTerm engine operation
          results (operands.map (graph.slopeFormAt engine declarations name))) >>=
            Form.slopeSum engine 1).run.2 := by
      rw [derivative_formAt_call calls, slopes]
      refine (if_neg dependent).trans ?_
      rw [mapM_eq_ok_iff.mpr related]
      rfl
    have agrees : Agrees Fault.IsDepth
        ((Form.dependents name (operands.map graph.formAt)).mapM (graph.derivativeTerm engine name
          derivatives visit.depth ⟨operation, operands⟩ results) >>=
            Form.slopeSum engine (visit.depth + 1))
        ((Form.dependents name (operands.map graph.formAt)).mapM (Form.slopeTerm engine operation
          results (operands.map (graph.slopeFormAt engine declarations name))) >>=
            Form.slopeSum engine 1) := by
      refine (agrees_mapM fun index among => ?_).bind
        (agrees_slopeSum standard (Nat.le_add_left 1 visit.depth))
      have within := List.mem_range.mp (List.mem_filter.mp among).1
      rw [List.length_map] at within
      exact recorded.agrees_derivativeTerm standard calls visited visit.depth results within
    refine (agrees.meets deep fun fault failed => fails fault (derived.trans failed)).bind
      fun sum found => meets_pure (recorded.snoc ?_ (derived.trans found))
    rw [formAt_call calls]
    exact Bool.not_eq_false _ ▸ fun independent =>
      dependent ((Form.dependents_isEmpty_iff name).mpr independent)

/-- The derivative of a graph is the one of the recursion, at whatever depth its calls were
visited. -/
theorem meets_differentiate_recursive (standard : engine.registry = .standard)
    (deep : ∀ fault, fault.IsDepth → allowed fault)
    (fails : ∀ fault, graph.toForm.differentiate engine declarations name = .error fault →
      ∀ other, allowed other) :
    (graph.differentiate engine declarations name).Meets allowed fun operand =>
      graph.toForm.differentiate engine declarations name = .ok operand := by
  have specialized : (graph.specializeAll engine declarations).Meets allowed
      (Memoized (graph.SpecializesTo engine declarations) graph.postorder) := by
    refine meets_specializeAll_recursive standard deep fun fault failed => fails fault ?_
    rw [Form.differentiate, failed]
    rfl
  refine specialized.bind fun memo memoized => ?_
  refine (meets_operandAt leaves_specialize memoized
    (live_specialize graph engine declarations).root
      fun _ _ calls => root_visited calls).bind fun operand settled => ?_
  have derived : graph.toForm.differentiate engine declarations name =
      graph.toForm.derivative engine declarations name := by
    rw [Form.differentiate, toForm_eq_formAt, settled]
    rfl
  rw [derived] at fails ⊢
  refine (meets_checkedVisits fun _ => deep _ ⟨_, _, rfl⟩).bind fun visits same => ?_
  subst same
  refine (meets_foldlM recorded_nil fun before visit after derivatives whole recorded =>
    meets_differentiateVisit_recursive standard deep memoized whole (fun fault failed => ?_)
      recorded).bind fun derivatives recorded => ?_
  · have member : visit ∈ graph.postorder := by rw [whole]; simp
    obtain ⟨other, failedRoot⟩ :=
      (live_derivative graph engine declarations name).visit member fault failed
    exact fails other failedRoot
  · obtain ⟨found, agrees⟩ := recorded.agrees_derivativeAt fun _ _ calls => root_visited calls
    refine (agrees.meets deep nofun).mono fun operand same => ?_
    rw [toForm_eq_formAt, found]
    exact same

/-- The narrowest form of a graph is the one of the recursion. -/
theorem meets_specialize_recursive (standard : engine.registry = .standard)
    (deep : ∀ fault, fault.IsDepth → allowed fault)
    (fails : ∀ fault, graph.toForm.specialize engine declarations = .error fault →
      ∀ other, allowed other) :
    (graph.specialize engine declarations).Meets allowed fun operand =>
      graph.toForm.specialize engine declarations = .ok operand := by
  refine (meets_specializeAll_recursive standard deep fails).bind fun memo memoized => ?_
  exact meets_operandAt leaves_specialize memoized
    (live_specialize graph engine declarations).root fun _ _ calls => root_visited calls

/-- A run that fails only for its depth, or when there is no outcome, has this outcome. -/
theorem yields_iff_of_meets {traced : Traced Operand} {outcome : Except Fault Operand}
    (meets : traced.Meets (fun fault => fault.IsDepth ∨ ∃ other, outcome = .error other)
      fun operand => outcome = .ok operand)
    (shallow : ∀ operation ceiling, traced.run.2 ≠ .error (.depth operation ceiling))
    (operand : Operand) : traced.run.2 = .ok operand ↔ outcome = .ok operand := by
  refine ⟨meets.of_yields, fun computed => ?_⟩
  obtain ⟨result, yields, same⟩ := meets.exists_yields fun fault excused => by
    rcases excused with ⟨operation, ceiling, rfl⟩ | ⟨other, failed⟩
    · exact shallow operation ceiling
    · cases computed.symm.trans failed
  cases computed.symm.trans same
  exact yields

/-- A graph that is not too deep has the derivative of its form. -/
theorem differentiate_eq_ok_iff (standard : engine.registry = .standard)
    (shallow : ∀ operation ceiling, (graph.differentiate engine declarations name).run.2 ≠
      .error (.depth operation ceiling)) (operand : Operand) :
    (graph.differentiate engine declarations name).run.2 = .ok operand ↔
      graph.toForm.differentiate engine declarations name = .ok operand :=
  yields_iff_of_meets (meets_differentiate_recursive standard (fun _ => .inl)
    fun fault failed _ => .inr ⟨fault, failed⟩) shallow operand

/-- Unless a call lies too deep, a graph is specialized like its form by recursion on the parts, it
is evaluated like its form, and it is differentiated like its form without shared parts. -/
theorem sharing_transparent (engine : Engine) (standard : engine.registry = .standard)
    (graph : Graph) (declarations : Declarations) (environment : Environment) (name : String) :
    ((∀ operation ceiling, (graph.specialize engine declarations).run.2 ≠
        .error (.depth operation ceiling)) →
      ∀ operand, (graph.specialize engine declarations).run.2 = .ok operand ↔
        graph.toForm.specialize engine declarations = .ok operand) ∧
    (∀ value, graph.evaluate .standard environment = .ok value ↔
      graph.toForm.evaluate .standard environment = .ok value) ∧
    ((∀ operation ceiling, (graph.differentiate engine declarations name).run.2 ≠
        .error (.depth operation ceiling)) →
      (∀ operation ceiling, ((ofForm graph.toForm).differentiate engine declarations name).run.2 ≠
        .error (.depth operation ceiling)) →
      ∀ operand, (graph.differentiate engine declarations name).run.2 = .ok operand ↔
        ((ofForm graph.toForm).differentiate engine declarations name).run.2 = .ok operand) := by
  refine ⟨fun shallow operand => ?_, evaluate_eq_ok_iff graph .standard environment,
    fun shallow apart operand => ?_⟩
  · exact yields_iff_of_meets (meets_specialize_recursive standard (fun _ => .inl)
      fun fault failed _ => .inr ⟨fault, failed⟩) shallow operand
  · rw [differentiate_eq_ok_iff standard shallow, differentiate_eq_ok_iff standard apart,
      toForm_ofForm]

/-- The square of a sine, and the sine again. -/
def squaredSine : Graph where
  nodes := #[.parameter "x", .call "sin" [0], .call "*" [1, 1], .call "+" [2, 1]]
  ordered := by
    unfold Ordered
    decide
  root := 3
  rooted := by decide

/-- The same with three sines of its own. -/
def writtenSine : Form :=
  let sine := Form.call "sin" [.parameter "x"]
  .call "+" [.call "*" [sine, sine], sine]

theorem squaredSine_toForm : squaredSine.toForm = writtenSine := by rfl

theorem squaredSine_postorder : squaredSine.postorder = [⟨1, 2⟩, ⟨2, 1⟩, ⟨3, 0⟩] := by cbv

theorem writtenSine_nodes : (ofForm writtenSine).nodes =
    #[.parameter "x", .call "sin" [0], .parameter "x", .call "sin" [2], .call "*" [1, 3],
      .parameter "x", .call "sin" [5], .call "+" [4, 6]] := by rfl

theorem writtenSine_postorder :
    (ofForm writtenSine).postorder = [⟨1, 2⟩, ⟨3, 2⟩, ⟨4, 1⟩, ⟨6, 1⟩, ⟨7, 0⟩] := by
  rw [postorder, writtenSine_nodes, show (ofForm writtenSine).root = 7 from rfl]
  cbv

def sineTypes : Declarations := [("x", Tier.float64.ntype)]

/-- The shared sine is specialized once and its derivative is found once. -/
theorem sharing_transparent_sine :
    ∃ narrowest slope, squaredSine.toForm.specialize ⟨.standard, 16, true⟩ sineTypes =
        .ok narrowest ∧
      (squaredSine.differentiate ⟨.standard, 16, true⟩ sineTypes "x").run.2 = .ok slope ∧
      ((ofForm squaredSine.toForm).differentiate ⟨.standard, 16, true⟩ sineTypes "x").run.2 =
        .ok slope := by
  have specializes : (squaredSine.specialize ⟨.standard, 16, true⟩ sineTypes).run.2.isOk =
      true := by
    simp only [specialize, specializeAll, checkedVisits, squaredSine_postorder]
    decide +kernel
  have derives : (squaredSine.differentiate ⟨.standard, 16, true⟩ sineTypes "x").run.2.isOk =
      true := by
    simp only [differentiate, specializeAll, checkedVisits, squaredSine_postorder]
    decide +kernel
  have derivesApart : ((ofForm squaredSine.toForm).differentiate ⟨.standard, 16, true⟩ sineTypes
      "x").run.2.isOk = true := by
    rw [squaredSine_toForm]
    simp only [differentiate, specializeAll, checkedVisits, writtenSine_postorder]
    decide +kernel
  obtain ⟨narrowest, specialized⟩ := exists_of_isOk specializes
  obtain ⟨slope, derived⟩ := exists_of_isOk derives
  obtain ⟨other, derivedApart⟩ := exists_of_isOk derivesApart
  obtain ⟨specialization, _, differentiation⟩ :=
    sharing_transparent ⟨.standard, 16, true⟩ rfl squaredSine sineTypes [] "x"
  refine ⟨narrowest, slope, (specialization ?_ narrowest).mp specialized, derived,
    (differentiation ?_ ?_ slope).mp derived⟩ <;> intro operation ceiling failed
  · cases specialized.symm.trans failed
  · cases derived.symm.trans failed
  · cases derivedApart.symm.trans failed

end Graph

end Narrowing
