import Narrowing.Proofs.GraphRuns
import Narrowing.Proofs.RepeatedRuns

/-
This file shows that a specialized graph specializes to itself.
-/

namespace Narrowing

/-- Every call in the form of a settled operand is what the engine makes of this call, on some
level and with settled operands. -/
inductive Operand.IsSettled (engine : Engine) (declarations : Declarations) : Operand → Prop where
  | constant (value : Value) : IsSettled engine declarations (.ofConstant value)
  | parameter (name : String) :
      IsSettled engine declarations (Graph.parameterOperand declarations name)
  | call {remaining depth : Nat} {operation : String} {operands : List Operand}
      {values : ValuesNtype} (each : ∀ operand ∈ operands, IsSettled engine declarations operand)
      (stays : ((engine.level remaining depth).specialize operation operands).Reaches
        ⟨.call operation (operands.map (·.form)), values⟩) :
      IsSettled engine declarations ⟨.call operation (operands.map (·.form)), values⟩

namespace Engine

open Traced Operand

variable {engine : Engine} {declarations : Declarations} {below : Level} {depth : Nat}

/-- The operands that handles name are known ones. -/
theorem meets_operandsOf (known : List Operand) (handles : List Handle) :
    (Traced.ofExcept (operandsOf known handles)).Meets (fun _ => True) fun operands =>
      ∀ operand ∈ operands, operand ∈ known := by
  apply meets_ofExcept
  cases present : operandsOf known handles with
  | error fault => trivial
  | ok operands =>
      intro operand member
      obtain ⟨handle, _, found⟩ := exists_related_of_mem (mapM_eq_ok_iff.mp present).flip member
      exact List.mem_of_getElem? (eq_some_of_orFault found)

/-- The calls of a level make settled operands from settled ones. -/
def Level.Settles (engine : Engine) (declarations : Declarations) (below : Level) : Prop :=
  ∀ operation operands, (∀ operand ∈ operands, operand.IsSettled engine declarations) →
    (below.specialize operation operands).Meets (fun _ => True)
      (Operand.IsSettled engine declarations)

/-- A direct plan with settled operands makes settled operands when the calls below it do. -/
theorem settled_runPlan {Result : Type} {plan : Plan Result} (direct : plan.IsDirect)
    (settles : below.Settles engine declarations) {known : List Operand}
    (settled : ∀ operand ∈ known, operand.IsSettled engine declarations) :
    (engine.runPlan depth below plan known).Meets (fun _ => True) fun final =>
      ∀ operand ∈ final.2, operand.IsSettled engine declarations := by
  have grown {known : List Operand} {made : Operand}
      (settled : ∀ operand ∈ known, operand.IsSettled engine declarations)
      (newest : made.IsSettled engine declarations) :
      ∀ operand ∈ known ++ [made], operand.IsSettled engine declarations := by
    intro operand member
    rcases List.mem_append.mp member with earlier | last
    · exact settled operand earlier
    · exact List.mem_singleton.mp last ▸ newest
  induction direct generalizing known with
  | done result => exact meets_pure settled
  | fail fault => exact meets_throw trivial
  | @constant value _ _ inductionHypothesis =>
      have literal : (Operand.ofConstant value).IsSettled engine declarations := .constant value
      exact (meets_constant literal).bind fun made newest =>
        inductionHypothesis _ (grown settled newest)
  | @call operation handles _ _ inductionHypothesis =>
      refine (meets_operandsOf known handles).bind fun operands among => ?_
      refine (settles operation operands fun operand member =>
        settled operand (among operand member)).bind fun made newest => ?_
      exact inductionHypothesis _ (grown settled newest)
  | ntype _ inductionHypothesis =>
      exact (meets_reaches (fun _ => trivial) _).bind fun _ _ => inductionHypothesis _ settled
  | registered _ inductionHypothesis => exact inductionHypothesis _ settled

theorem settled_follow {rule : SpecializationRule} (direct : ∀ handles, (rule handles).IsDirect)
    (settles : below.Settles engine declarations) {operands : List Operand}
    (settled : ∀ operand ∈ operands, operand.IsSettled engine declarations) :
    (engine.follow depth below rule operands).Meets (fun _ => True) fun answer =>
      ∀ made, answer = some made → made.IsSettled engine declarations := by
  refine (settled_runPlan (direct _) settles settled).bind fun final known => ?_
  obtain ⟨result, operands⟩ := final
  cases result with
  | none => exact meets_pure nofun
  | some handle =>
      have found : (Traced.ofExcept (orFault operands[handle]? .missingPart)).Meets (fun _ => True)
          (Operand.IsSettled engine declarations) := by
        apply meets_ofExcept
        cases present : operands[handle]? with
        | none => trivial
        | some operand => exact known operand (List.mem_of_getElem? present)
      refine found.bind fun made settled => meets_pure ?_
      rintro other same
      exact Option.some.inj same ▸ settled

theorem settled_or_stays_answered (operation : String) (operands : List Operand)
    (values : ValuesNtype) (answer : Option Operand) :
    (∀ made, answer = some made → made.IsSettled engine declarations) →
    (match answer with
      | some operand => pure operand
      | none => Traced.call operation operands values : Traced Operand).Meets (fun _ => True)
      fun made => made.IsSettled engine declarations ∨
        made.form = .call operation (operands.map (·.form)) := by
  intro rewritten
  cases answer with
  | some operand => exact meets_pure (.inl (rewritten operand rfl))
  | none => exact meets_call (.inr rfl)

/-- A call that no rule rewrites stays as it is, and all other calls come from settled ones. -/
theorem settled_or_stays (standard : engine.registry = .standard)
    (settles : below.Settles engine declarations) {operation : String} {operands : List Operand}
    (settled : ∀ operand ∈ operands, operand.IsSettled engine declarations) :
    (engine.specializeCall depth below operation operands).Meets (fun _ => True) fun made =>
      made.IsSettled engine declarations ∨
        made.form = .call operation (operands.map (·.form)) := by
  unfold specializeCall
  rw [standard]
  cases checked : Registry.standard.check operation operands.length with
  | error fault => exact meets_throw trivial
  | ok record =>
      refine (meets_reaches (fun _ => trivial) _).bind fun folded _ => ?_
      cases folded with
      | some value => exact meets_constant (.inl (.constant value))
      | none =>
          cases ruled : record.specializer with
          | none => exact settled_or_stays_answered operation operands record.values none nofun
          | some rule =>
              exact (settled_follow (Registry.isDirect_rule_of_check checked ruled) settles
                settled).bind (settled_or_stays_answered operation operands record.values)

/-- On every level the calls make settled operands. -/
theorem settles_level (standard : engine.registry = .standard) (remaining depth : Nat) :
    (engine.level remaining depth).Settles engine declarations := by
  induction remaining generalizing depth with
  | zero => exact fun _ _ _ => meets_throw trivial
  | succ remaining inductionHypothesis =>
      intro operation operands settled
      have reached := meets_reaches (fun _ => trivial)
        ((engine.level (remaining + 1) depth).specialize operation operands)
      refine (reached.and (settled_or_stays standard (inductionHypothesis (depth + 1))
        settled)).mono ?_
      rintro ⟨form, values⟩ ⟨reaches, made | rfl⟩
      · exact made
      · exact .call settled reaches

end Engine

namespace Operand

open Traced

variable {engine : Engine} {declarations : Declarations}

theorem eq_of_forms {operands others : List Operand} (settled : Operand → Prop)
    (unique : ∀ operand ∈ operands, ∀ other, settled other → operand.form = other.form →
      operand = other)
    (each : ∀ other ∈ others, settled other)
    (same : operands.map (·.form) = others.map (·.form)) : operands = others := by
  induction operands generalizing others with
  | nil => exact (List.map_eq_nil_iff.mp same.symm).symm
  | cons operand rest inductionHypothesis =>
      cases others with
      | nil => cases same
      | cons other others =>
          obtain ⟨sameForm, sameForms⟩ := List.cons.inj same
          obtain ⟨own, later⟩ := List.forall_mem_cons.mp each
          rw [unique operand List.mem_cons_self other own sameForm, inductionHypothesis
            (fun operand member => unique operand (List.mem_cons_of_mem _ member)) later sameForms]

/-- No two settled operands have the same form. -/
theorem IsSettled.unique (standard : engine.registry = .standard) {first second : Operand}
    (settled : first.IsSettled engine declarations)
    (other : second.IsSettled engine declarations) (same : first.form = second.form) :
    first = second := by
  induction settled generalizing second with
  | constant value =>
      cases other with
      | constant value =>
          cases same
          rfl
      | parameter | call => cases same
  | parameter name =>
      cases other with
      | parameter name =>
          cases same
          rfl
      | constant | call => cases same
  | @call remaining depth operation operands values each stays inductionHypothesis =>
      cases other with
      | constant | parameter => cases same
      | @call others level _ otherOperands _ otherEach otherStays =>
          obtain ⟨rfl, sameForms⟩ := Form.call.inj same
          have sameOperands : operands = otherOperands := by
            refine eq_of_forms (Operand.IsSettled engine declarations) ?_ otherEach sameForms
            exact fun operand member other settled same =>
              inductionHypothesis operand member settled same
          subst sameOperands
          have repeated := @Engine.repeats_level engine (fun _ => True) standard
            (fun _ => trivial) remaining others depth level operation operands _ stays
          exact (repeated.of_reaches otherStays).symm

end Operand

namespace Graph

open Traced

variable {graph : Graph} {engine : Engine} {declarations : Declarations}

/-- What a graph specializes to is settled. -/
theorem settled_of_run (standard : engine.registry = .standard) {operand : Operand}
    (specialized : (graph.specialize engine declarations).run.2 = .ok operand) :
    operand.IsSettled engine declarations := by
  have meets : (graph.specialize engine declarations).Meets (fun _ => True)
      (Operand.IsSettled engine declarations) := by
    apply @meets_specialize _ _ _ _ (fun _ => True)
      (fun _ made => made.IsSettled engine declarations)
    · exact ⟨trivial, fun _ _ _ _ _ _ _ => trivial⟩
    · exact fun _ => trivial
    · exact ⟨fun _ value _ _ => .constant value, fun _ name _ _ => .parameter name⟩
    · intro position depth operation operands results _ _ related
      refine Engine.settles_level standard _ depth operation results fun made member => ?_
      obtain ⟨_, _, settled⟩ := exists_related_of_mem related.flip member
      exact settled
  exact meets.of_yields specialized

/-- The form at a position is that of some settled operand. -/
def IsSettledAt (graph : Graph) (engine : Engine) (declarations : Declarations) (position : Nat) :
    Prop :=
  ∃ operand : Operand, operand.IsSettled engine declarations ∧
    operand.form = graph.formAt position

/-- A settled operand has the form at a position. -/
def SettlesAt (graph : Graph) (engine : Engine) (declarations : Declarations) (position : Nat)
    (operand : Operand) : Prop :=
  operand.IsSettled engine declarations ∧ operand.form = graph.formAt position

/-- The parts of a settled form are settled. -/
theorem live_settled (settled : graph.IsSettledAt engine declarations graph.root) :
    Live graph (graph.IsSettledAt engine declarations) where
  root := settled
  descends := by
    rintro position operation operands calls ⟨whole, settled, same⟩ operand member
    rw [formAt_call calls] at same
    cases settled with
    | constant | parameter => cases same
    | @call _ _ _ parts _ each _ =>
        obtain ⟨rfl, sameForms⟩ := Form.call.inj same
        have found : graph.formAt operand ∈ parts.map (·.form) :=
          sameForms ▸ List.mem_map_of_mem member
        obtain ⟨part, among, sameForm⟩ := List.mem_map.mp found
        exact ⟨part, each part among, sameForm⟩

theorem leaves_settled : Leaves graph declarations (graph.IsSettledAt engine declarations)
    (graph.SettlesAt engine declarations) where
  constants := by
    intro position value _ found
    exact ⟨.constant value, (formAt_constant found).symm⟩
  parameters := by
    intro position name _ found
    exact ⟨.parameter name, (formAt_parameter found).symm⟩

theorem SettlesAt.forms {positions : List Nat} {operands : List Operand}
    (related : List.Forall₂ (graph.SettlesAt engine declarations) positions operands) :
    operands.map (·.form) = positions.map graph.formAt := by
  induction related with
  | nil => rfl
  | cons first _ inductionHypothesis =>
      rw [List.map_cons, List.map_cons, first.2, inductionHypothesis]

/-- A call with a settled form stays as it is. -/
theorem meets_settledCall {allowed : Fault → Prop} (standard : engine.registry = .standard)
    (deep : ∀ operation, allowed (.depth operation engine.ceiling)) {position depth : Nat}
    {operation : String} {operands : List Nat} {results : List Operand}
    (settled : graph.IsSettledAt engine declarations position)
    (calls : CallsAt graph.nodes position operation operands)
    (related : List.Forall₂ (graph.SettlesAt engine declarations) operands results) :
    (engine.specialize depth operation results).Meets allowed
      (graph.SettlesAt engine declarations position) := by
  obtain ⟨whole, settled, same⟩ := settled
  have forms := SettlesAt.forms related
  have each : ∀ result ∈ results, result.IsSettled engine declarations := by
    intro result member
    obtain ⟨_, _, settled, _⟩ := exists_related_of_mem related.flip member
    exact settled
  unfold SettlesAt
  rw [formAt_call calls] at same ⊢
  cases settled with
  | constant | parameter => cases same
  | @call remaining level _ parts values partsSettled stays =>
      obtain ⟨rfl, partForms⟩ := Form.call.inj same
      have sameParts : parts = results := by
        refine Operand.eq_of_forms (Operand.IsSettled engine declarations) ?_ each
          (partForms.trans forms.symm)
        exact fun part member other settled same =>
          (partsSettled part member).unique standard settled same
      subst sameParts
      have repeated := Engine.repeats_level standard deep remaining
        (engine.ceiling + 1 - depth).toNat level depth _ parts _ stays
      apply repeated.mono
      rintro made rfl
      exact ⟨.call partsSettled stays, congrArg _ partForms⟩

/-- A graph with the form of a settled operand specializes to this operand. -/
theorem meets_settled (allowed : Fault → Prop) (standard : engine.registry = .standard)
    (deep : ∀ operation, allowed (.depth operation engine.ceiling)) {operand : Operand}
    (settled : operand.IsSettled engine declarations) (same : graph.toForm = operand.form) :
    (graph.specialize engine declarations).Meets allowed (· = operand) := by
  have meets : (graph.specialize engine declarations).Meets allowed
      (graph.SettlesAt engine declarations graph.root) :=
    meets_specialize (live_settled ⟨operand, settled, same.symm⟩) deep leaves_settled
      fun position depth operation operands results settled calls related =>
        meets_settledCall standard deep settled calls related
  exact meets.mono fun made ⟨madeSettled, madeForm⟩ =>
    madeSettled.unique standard settled (madeForm.trans same)

/-- A graph with the form of a specialized graph specializes to the same operand, of the same types,
unless one of its calls lies too deep. -/
theorem specialize_idempotent (engine : Engine) (standard : engine.registry = .standard)
    (graph : Graph) (declarations : Declarations) (operand : Operand)
    (specialized : (graph.specialize engine declarations).run.2 = .ok operand) (again : Graph)
    (same : again.toForm = operand.form)
    (shallow : ∀ operation, (again.specialize engine declarations).run.2 ≠
      .error (.depth operation engine.ceiling)) :
    (again.specialize engine declarations).run.2 = .ok operand := by
  have meets := meets_settled (fun fault => ∃ operation, fault = .depth operation engine.ceiling)
    standard (fun operation => ⟨operation, rfl⟩) (settled_of_run standard specialized) same
  obtain ⟨made, yields, rfl⟩ := meets.exists_yields
    fun fault ⟨operation, same⟩ => same ▸ shallow operation
  exact yields

/-- The root of a sum, times a variable of any type. -/
def mixedRoot : Form :=
  .call "*" [.call "sqrt" [.call "+" [.parameter "x", .parameter "y"]], .parameter "z"]

/-- The sum and the root have a tier of their own, and the product stays generic. -/
def narrowRoot : Form :=
  .call "*" [.call "float32.sqrt"
    [.call "float32.add" [.parameter "x", .call "float32" [.parameter "y"]]], .parameter "z"]

def mixedTypes : Declarations := [("x", Tier.float32.ntype), ("y", Tier.integer.ntype)]

theorem mixedRoot_postorder :
    (ofForm mixedRoot).postorder = [⟨2, 2⟩, ⟨3, 1⟩, ⟨5, 0⟩] := by cbv

theorem narrowRoot_postorder :
    (ofForm narrowRoot).postorder = [⟨2, 3⟩, ⟨3, 2⟩, ⟨4, 1⟩, ⟨6, 0⟩] := by cbv

/-- A second specialization tries the rules again and leaves all calls as they are. -/
theorem specialize_idempotent_root :
    ((ofForm mixedRoot).specialize ⟨.standard, 16, true⟩ mixedTypes).run.2 =
        .ok ⟨narrowRoot, .single .number⟩ ∧
      ((ofForm narrowRoot).specialize ⟨.standard, 16, true⟩ mixedTypes).run.2 =
        .ok ⟨narrowRoot, .single .number⟩ := by
  have specialized : ((ofForm mixedRoot).specialize ⟨.standard, 16, true⟩ mixedTypes).run.2 =
      .ok ⟨narrowRoot, .single .number⟩ := by
    simp only [specialize, specializeAll, checkedVisits, mixedRoot_postorder]
    rfl
  have succeeds : ((ofForm narrowRoot).specialize ⟨.standard, 16, true⟩
      mixedTypes).run.2.isOk = true := by
    simp only [specialize, specializeAll, checkedVisits, narrowRoot_postorder]
    decide +kernel
  obtain ⟨operand, again⟩ := exists_of_isOk succeeds
  refine ⟨specialized, specialize_idempotent ⟨.standard, 16, true⟩ rfl (ofForm mixedRoot)
    mixedTypes _ specialized (ofForm narrowRoot) (toForm_ofForm narrowRoot) ?_⟩
  intro operation failed
  rw [again] at failed
  cases failed

end Graph

end Narrowing
