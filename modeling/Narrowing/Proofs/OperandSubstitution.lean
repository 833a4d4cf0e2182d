import Narrowing.Proofs.RepeatedDerivatives

/-
This file shows that calls see nothing of their operands but the types: forms that take the places of
variables come out in the places of these variables.
-/

namespace Narrowing

namespace Form

mutual

/-- Forms take the places of the variables, all at once. -/
def substitute (replace : String → Form) : Form → Form
  | .constant value => .constant value
  | .parameter name => replace name
  | .call operation operands => .call operation (substituteAll replace operands)

def substituteAll (replace : String → Form) : List Form → List Form
  | [] => []
  | form :: rest => form.substitute replace :: substituteAll replace rest

end

theorem substituteAll_eq_map (replace : String → Form) (forms : List Form) :
    substituteAll replace forms = forms.map (substitute replace) := by
  induction forms with
  | nil => rfl
  | cons form rest inductionHypothesis => rw [substituteAll, inductionHypothesis, List.map_cons]

end Form

namespace Operand

/-- Forms take the places of the variables in an operand, which keeps its types. -/
def substitute (replace : String → Form) (operand : Operand) : Operand :=
  ⟨operand.form.substitute replace, operand.values⟩

end Operand

variable {replace : String → Form}

namespace Traced

variable {First Second : Type}

theorem ofExcept_map (change : First → Second) (outcome : Except Fault First) :
    ofExcept (outcome.map change) = change <$> ofExcept outcome := by
  cases outcome <;> rfl

/-- A changed result comes after the same events, and a fault stays as it is. -/
theorem run_map (change : First → Second) (traced : Traced First) :
    (change <$> traced).run = traced.run.map id (Except.map change) := by
  simp only [run, ExceptT.run_map, StateT.run_map]
  rfl

/-- A literal has no variables. -/
theorem constant_substitute (value : Value) :
    Operand.substitute replace <$> constant value = constant value := rfl

theorem call_substitute (operation : String) (operands : List Operand) (values : ValuesNtype) :
    call operation (operands.map (Operand.substitute replace)) values =
      Operand.substitute replace <$> call operation operands values := by
  have forms : (operands.map (Operand.substitute replace)).map (·.form) =
      Form.substituteAll replace (operands.map (·.form)) := by
    rw [Form.substituteAll_eq_map, List.map_map, List.map_map]
    rfl
  unfold call
  rw [List.length_map, forms]
  rfl

end Traced

namespace Engine

open Traced

variable {Result : Type} {engine : Engine} {below : Level}

/-- The calls of a level see nothing of their operands but the types. -/
structure Level.SeesTypes (replace : String → Form) (level : Level) : Prop where
  specialize : ∀ operation operands,
    level.specialize operation (operands.map (Operand.substitute replace)) =
      Operand.substitute replace <$> level.specialize operation operands
  differentiate : ∀ operation operands index,
    level.differentiate operation (operands.map (Operand.substitute replace)) index =
      Option.map (Operand.substitute replace) <$> level.differentiate operation operands index

theorem known_substitute (known : List Operand) (handle : Handle) (fault : Fault) :
    orFault (known.map (Operand.substitute replace))[handle]? fault =
      (orFault known[handle]? fault).map (Operand.substitute replace) := by
  rw [List.getElem?_map]
  cases known[handle]? <;> rfl

theorem operandsOf_substitute (known : List Operand) (handles : List Handle) :
    operandsOf (known.map (Operand.substitute replace)) handles =
      (operandsOf known handles).map (List.map (Operand.substitute replace)) := by
  unfold operandsOf
  induction handles with
  | nil => rfl
  | cons handle handles inductionHypothesis =>
      rw [List.mapM_cons, List.mapM_cons, inductionHypothesis, known_substitute]
      cases orFault known[handle]? Fault.missingPart with
      | error fault => rfl
      | ok operand =>
          cases handles.mapM fun handle => orFault known[handle]? Fault.missingPart <;> rfl

/-- A direct plan gives the same result when forms take the places of variables, and it knows the
same operands but for these forms. -/
theorem runPlan_substitute (sees : below.SeesTypes replace) {plan : Plan Result}
    (direct : plan.IsDirect) (depth : Nat) (known : List Operand) :
    engine.runPlan depth below plan (known.map (Operand.substitute replace)) =
      (fun final => (final.1, final.2.map (Operand.substitute replace))) <$>
        engine.runPlan depth below plan known := by
  induction direct generalizing known with
  | done result => rfl
  | fail fault => rfl
  | constant rest inductionHypothesis =>
      rw [runPlan, runPlan, map_bind, ← constant_substitute, bind_map_left, List.length_map]
      refine bind_congr fun made => ?_
      rw [← inductionHypothesis, List.map_append, List.map_singleton]
  | call rest inductionHypothesis =>
      rw [runPlan, runPlan, map_bind, operandsOf_substitute, ofExcept_map, bind_map_left,
        List.length_map]
      refine bind_congr fun operands => ?_
      rw [map_bind, sees.specialize, bind_map_left]
      refine bind_congr fun made => ?_
      rw [← inductionHypothesis, List.map_append, List.map_singleton]
  | ntype rest inductionHypothesis =>
      rw [runPlan, runPlan, map_bind, known_substitute, ofExcept_map, bind_map_left]
      exact bind_congr fun operand => inductionHypothesis operand.ntype known
  | registered rest inductionHypothesis => exact inductionHypothesis _ known

theorem follow_substitute (sees : below.SeesTypes replace) {rule : SpecializationRule}
    (direct : ∀ handles, (rule handles).IsDirect) (depth : Nat) (operands : List Operand) :
    engine.follow depth below rule (operands.map (Operand.substitute replace)) =
      Option.map (Operand.substitute replace) <$> engine.follow depth below rule operands := by
  unfold follow
  rw [List.length_map, runPlan_substitute sees (direct _), bind_map_left, map_bind]
  refine bind_congr fun final => ?_
  obtain ⟨result, known⟩ := final
  cases result with
  | none => rfl
  | some handle =>
      dsimp only
      rw [known_substitute, ofExcept_map, bind_map_left, map_bind]
      rfl

theorem literals?_substitute (operands : List Operand) :
    literals? (operands.map (Operand.substitute replace)) = literals? operands := by
  unfold literals?
  rw [List.mapM_map]
  rfl

theorem fold?_substitute (record : Record) (operands : List Operand) :
    engine.fold? record (operands.map (Operand.substitute replace)) =
      engine.fold? record operands := by
  unfold fold?
  rw [literals?_substitute]

theorem specializeCall_substitute (standard : engine.registry = .standard)
    (sees : below.SeesTypes replace) (depth : Nat) (operation : String) (operands : List Operand) :
    engine.specializeCall depth below operation (operands.map (Operand.substitute replace)) =
      Operand.substitute replace <$> engine.specializeCall depth below operation operands := by
  unfold specializeCall
  rw [standard, List.length_map]
  cases checked : Registry.standard.check operation operands.length with
  | error fault => rfl
  | ok record =>
      dsimp only
      rw [fold?_substitute, map_bind]
      refine bind_congr fun folded => ?_
      cases folded with
      | some value => exact (constant_substitute value).symm
      | none =>
          cases ruled : record.specializer with
          | none => exact call_substitute operation operands record.values
          | some rule =>
              dsimp only
              rw [follow_substitute sees (Registry.isDirect_rule_of_check checked ruled),
                bind_map_left, map_bind]
              refine bind_congr fun answer => ?_
              cases answer with
              | some operand => rfl
              | none => exact call_substitute operation operands record.values

theorem differentiateCall_substitute (standard : engine.registry = .standard)
    (sees : below.SeesTypes replace) (depth : Nat) (operation : String) (operands : List Operand)
    (index : Int) :
    engine.differentiateCall depth below operation (operands.map (Operand.substitute replace)) index =
      Option.map (Operand.substitute replace) <$>
        engine.differentiateCall depth below operation operands index := by
  unfold differentiateCall
  rw [standard, List.length_map]
  cases checked : Registry.standard.check operation operands.length with
  | error fault => rfl
  | ok record =>
      dsimp only
      split
      · rfl
      · cases ruled : record.differentiator with
        | none => rfl
        | some rule =>
            exact follow_substitute sees (Registry.isDirect_differentiator_of_check checked ruled _)
              depth operands

/-- No level of the engine sees anything of the operands but the types. -/
theorem seesTypes_level (standard : engine.registry = .standard) (remaining depth : Nat) :
    (engine.level remaining depth).SeesTypes replace := by
  induction remaining generalizing depth with
  | zero => exact ⟨fun operation operands => rfl, fun operation operands index => rfl⟩
  | succ remaining inductionHypothesis =>
      have below := inductionHypothesis (depth + 1)
      exact ⟨specializeCall_substitute standard below depth,
        differentiateCall_substitute standard below depth⟩

theorem specialize_substitute (standard : engine.registry = .standard) (depth : Nat)
    (operation : String) (operands : List Operand) :
    engine.specialize depth operation (operands.map (Operand.substitute replace)) =
      Operand.substitute replace <$> engine.specialize depth operation operands :=
  (seesTypes_level standard _ depth).specialize operation operands

theorem differentiate_substitute (standard : engine.registry = .standard) (depth : Nat)
    (operation : String) (operands : List Operand) (index : Int) :
    engine.differentiate depth operation (operands.map (Operand.substitute replace)) index =
      Operand.substitute replace <$> engine.differentiate depth operation operands index := by
  have sees : (engine.levelAt depth).SeesTypes replace := seesTypes_level standard _ depth
  unfold differentiate
  rw [sees.differentiate, bind_map_left, map_bind]
  refine bind_congr fun answer => ?_
  cases answer <;> rfl

end Engine

/-- A variable that holds the place of a form, with the types of both. -/
structure Placeholder where
  name : String
  form : Form
  values : ValuesNtype

namespace Placeholder

/-- The operand with the variable in the place. -/
def vacant (placeholder : Placeholder) : Operand :=
  ⟨.parameter placeholder.name, placeholder.values⟩

/-- The operand with the form in the place. -/
def filled (placeholder : Placeholder) : Operand := ⟨placeholder.form, placeholder.values⟩

/-- The form whose place a variable holds; other variables stay. -/
def formOf (placeholders : List Placeholder) (name : String) : Form :=
  ((placeholders.find? (·.name == name)).map (·.form)).getD (.parameter name)

variable {placeholder : Placeholder} {placeholders : List Placeholder}

theorem formOf_name (distinct : (placeholders.map (·.name)).Nodup)
    (member : placeholder ∈ placeholders) :
    formOf placeholders placeholder.name = placeholder.form := by
  unfold formOf
  induction placeholders with
  | nil => cases member
  | cons first rest inductionHypothesis =>
      rw [List.map_cons, List.nodup_cons] at distinct
      rcases List.mem_cons.mp member with same | later
      · rw [← same, List.find?_cons_of_pos (by simp), Option.map_some, Option.getD_some]
      · have apart : first.name ≠ placeholder.name :=
          fun same => distinct.1 (same ▸ List.mem_map_of_mem later)
        rw [List.find?_cons_of_neg (by simpa using apart)]
        exact inductionHypothesis distinct.2 later

/-- Forms in the places of their variables fill the operands. -/
theorem substitute_vacant (distinct : (placeholders.map (·.name)).Nodup) :
    (placeholders.map vacant).map (Operand.substitute (formOf placeholders)) =
      placeholders.map filled := by
  rw [List.map_map]
  refine List.map_congr_left fun placeholder member => ?_
  rw [Function.comp_apply, vacant, Operand.substitute, Form.substitute, formOf_name distinct member,
    filled]

end Placeholder

namespace Engine

open Placeholder

/-- A call and a derivative of the library look at their operands through the types alone. With forms
in the places of distinct variables of the same types, a run makes the same literals and calls, and
it fails with the same fault or gives the same operand with the forms in these places. -/
theorem calls_see_types_only {engine : Engine} (standard : engine.registry = .standard)
    {placeholders : List Placeholder} (distinct : (placeholders.map (·.name)).Nodup) (depth : Nat)
    (operation : String) :
    (engine.specialize depth operation (placeholders.map filled)).run =
        (engine.specialize depth operation (placeholders.map vacant)).run.map id
          (Except.map (Operand.substitute (formOf placeholders))) ∧
      ∀ index : Int, (engine.differentiate depth operation (placeholders.map filled) index).run =
        (engine.differentiate depth operation (placeholders.map vacant) index).run.map id
          (Except.map (Operand.substitute (formOf placeholders))) := by
  rw [← substitute_vacant distinct]
  refine ⟨?_, fun index => ?_⟩
  · rw [specialize_substitute standard, Traced.run_map]
  · rw [differentiate_substitute standard, Traced.run_map]

/-- The square of any fraction is specialized and differentiated like that of a variable. -/
theorem calls_see_types_only_square :
    let places : List Placeholder := [
      ⟨"x", .call "/" [.parameter "z", .constant (.integer 3)], .single Tier.rational.ntype⟩,
      ⟨"y", .call "abs" [.constant (.integer (-2))], .single (.singleton (.integer 2))⟩]
    let engine : Engine := ⟨.standard, 16, true⟩
    (places.map (·.name)).Nodup ∧
      ∃ square slope,
        (engine.specialize 0 "expt" (places.map vacant)).run.2 = .ok square ∧
        (engine.specialize 0 "expt" (places.map filled)).run.2 =
          .ok (square.substitute (formOf places)) ∧
        (engine.differentiate 0 "expt" (places.map vacant) 0).run.2 = .ok slope ∧
        (engine.differentiate 0 "expt" (places.map filled) 0).run.2 =
          .ok (slope.substitute (formOf places)) := by
  intro places engine
  have distinct : (places.map (·.name)).Nodup := by decide
  have specializes : (engine.specialize 0 "expt" (places.map vacant)).run.2.isOk = true := by
    decide +kernel
  have derives : (engine.differentiate 0 "expt" (places.map vacant) 0).run.2.isOk = true := by
    decide +kernel
  obtain ⟨square, specialized⟩ := exists_of_isOk specializes
  obtain ⟨slope, derived⟩ := exists_of_isOk derives
  have sees := @calls_see_types_only engine rfl places distinct 0 "expt"
  refine ⟨distinct, square, slope, specialized, ?_, derived, ?_⟩
  · rw [sees.1, Prod.map_snd, specialized]
    rfl
  · rw [sees.2 0, Prod.map_snd, derived]
    rfl

end Engine

end Narrowing
