import Mathlib.Logic.Function.Iterate
import Narrowing.Proofs.PlanAnswers

/-
This file runs nested calls on a stack of rules that wait for answers. Nothing counts the steps of
such a run: a rule may ask for its own operation, and only the height of the stack is compared with
the ceiling. Every run comes to an end, with the outcome of the engine.
-/

namespace Narrowing

/-- What a rule may ask the engine for. -/
inductive Engine.Request where
  | specialize (operation : String) (operands : List Operand)
  | differentiate (operation : String) (operands : List Operand) (index : Int)

/-- The work on a request has ended, or it waits for the answer to another request. -/
inductive Stage where
  | ended (outcome : Except Fault (Option Operand))
  | waits (request : Engine.Request) (resume : Option Operand → Stage)

/-- The work on the innermost request, and the rules around it that wait for its answer. -/
structure Stack where
  waiting : List (Option Operand → Stage)
  stage : Stage

namespace Stage

/-- The work goes on with a result, and a fault ends it. -/
def after {Result : Type} (outcome : Except Fault Result) (next : Result → Stage) : Stage :=
  match outcome with
  | .ok result => next result
  | .error fault => ended (.error fault)

end Stage

namespace Engine

/-- The work of a plan up to its next request; its answer is changed in the end. -/
def planStage (engine : Engine) (depth : Nat) (change : Option Operand → Option Operand) :
    Plan (Option Handle) → List Operand → Stage
  | .done none, _ => .ended (.ok (change none))
  | .done (some handle), known =>
      .after (orFault known[handle]? .missingPart) fun operand =>
        .ended (.ok (change (some operand)))
  | .fail fault, _ => .ended (.error fault)
  | .constant value next, known =>
      planStage engine depth change (next known.length) (known ++ [.ofConstant value])
  | .call operation handles next, known =>
      .after (operandsOf known handles) fun operands =>
        .waits (.specialize operation operands) fun answer =>
          .after (orFault answer .missingPart) fun made =>
            planStage engine depth change (next known.length) (known ++ [made])
  | .emit operation handles values next, known =>
      .after (operandsOf known handles) fun operands =>
        .after (engine.registry.check operation operands.length) fun record =>
          planStage engine depth change (next known.length) (known ++
            [⟨.call operation (operands.map (·.form)), values.getD record.values⟩])
  | .differentiate operation handles index next, known =>
      .after (operandsOf known handles) fun operands =>
        .waits (.differentiate operation operands index) fun answer =>
          match answer with
          | none => planStage engine depth change (next none) known
          | some made => planStage engine depth change (next (some known.length)) (known ++ [made])
  | .ntype handle next, known =>
      .after (orFault known[handle]? .missingPart) fun operand =>
        planStage engine depth change (next operand.ntype) known
  | .literal handle next, known =>
      .after (orFault known[handle]? .missingPart) fun operand =>
        match operand.ntype.constant? with
        | some value => planStage engine depth change (next value) known
        | none => .ended (.error (.notConstant operand.written))
  | .depth next, known => planStage engine depth change (next depth) known
  | .registered operation next, known =>
      planStage engine depth change (next (engine.registry.contains operation)) known

/-- The work on a request with this many calls around it: only here the ceiling matters. -/
def stage (engine : Engine) (depth : Nat) : Request → Stage
  | .specialize operation operands =>
      if engine.ceiling < depth then .ended (.error (.depth operation engine.ceiling))
      else
        .after (engine.registry.check operation operands.length) fun record =>
          .after (engine.fold? record operands) fun folded =>
            let generic : Operand := ⟨.call operation (operands.map (·.form)), record.values⟩
            match folded, record.specializer with
            | some value, _ => .ended (.ok (some (.ofConstant value)))
            | none, none => .ended (.ok (some generic))
            | none, some rule =>
                planStage engine depth (fun answer => some (answer.getD generic))
                  (rule (List.range operands.length)) operands
  | .differentiate operation operands index =>
      if engine.ceiling < depth then .ended (.error (.depth operation engine.ceiling))
      else
        .after (engine.registry.check operation operands.length) fun record =>
          if index < 0 ∨ operands.length ≤ index then
            .ended (.error (.argumentIndex operation index operands.length))
          else
            match record.differentiator with
            | none => .ended (.error (.notDifferentiable operation))
            | some rule =>
                planStage engine depth id (rule index.toNat (List.range operands.length)) operands

/-- One step: a request goes on top of the stack, an answer goes to the rule that waits for it, and
a fault takes this rule from the stack. Without waiting rules the work has ended. -/
def advance (engine : Engine) (base : Nat) : Stack → Stack
  | ⟨waiting, .waits request resume⟩ =>
      ⟨resume :: waiting, engine.stage (base + waiting.length + 1) request⟩
  | ⟨resume :: waiting, .ended (.ok answer)⟩ => ⟨waiting, resume answer⟩
  | ⟨_ :: waiting, .ended (.error fault)⟩ => ⟨waiting, .ended (.error fault)⟩
  | ⟨[], .ended outcome⟩ => ⟨[], .ended outcome⟩

/-- After some number of steps the first stack is the last one. -/
def Leads (engine : Engine) (base : Nat) (first last : Stack) : Prop :=
  ∃ count, (engine.advance base)^[count] first = last

/-- The work on a request ends with this outcome. -/
def Halts (engine : Engine) (depth : Nat) (request : Request)
    (outcome : Except Fault (Option Operand)) : Prop :=
  engine.Leads depth ⟨[], engine.stage depth request⟩ ⟨[], .ended outcome⟩

variable {engine : Engine} {base : Nat} {first second last : Stack}

theorem Leads.refl (stack : Stack) : engine.Leads base stack stack := ⟨0, rfl⟩

theorem Leads.trans (before : engine.Leads base first second)
    (after : engine.Leads base second last) : engine.Leads base first last := by
  obtain ⟨count, rfl⟩ := before
  obtain ⟨further, rfl⟩ := after
  exact ⟨further + count, Function.iterate_add_apply _ _ _ _⟩

theorem Leads.step (after : engine.Leads base (engine.advance base first) last) :
    engine.Leads base first last := by
  obtain ⟨count, rfl⟩ := after
  exact ⟨count + 1, rfl⟩

end Engine

namespace Traced

variable {Result Next : Type} {traced : Traced Result} {next : Result → Traced Next}

/-- The run has this outcome after whatever events. -/
def Ends (traced : Traced Result) (outcome : Except Fault Result) : Prop :=
  ∀ events, traced.outcome events = outcome

theorem ends_pure (result : Result) : (pure result : Traced Result).Ends (.ok result) :=
  fun _ => rfl

theorem ends_throw (fault : Fault) : (throw fault : Traced Result).Ends (.error fault) :=
  fun _ => rfl

theorem ends_constant (value : Value) : (constant value).Ends (.ok (.ofConstant value)) :=
  fun _ => rfl

theorem ends_call (operation : String) (operands : List Operand) (values : ValuesNtype) :
    (call operation operands values).Ends
      (.ok ⟨.call operation (operands.map (·.form)), values⟩) := fun _ => rfl

theorem Ends.bind_ok {result : Result} {outcome : Except Fault Next}
    (ends : traced.Ends (.ok result)) (continues : (next result).Ends outcome) :
    (traced >>= next).Ends outcome := by
  intro events
  obtain ⟨later, continued⟩ := exists_outcome_bind traced next events
  rw [continued, ends events]
  exact continues later

theorem Ends.bind_error {fault : Fault} (ends : traced.Ends (.error fault)) :
    (traced >>= next).Ends (.error fault) := by
  intro events
  obtain ⟨later, continued⟩ := exists_outcome_bind traced next events
  rw [continued, ends events]
  rfl

end Traced

namespace Engine

open Traced

variable {engine : Engine} {base depth : Nat} {waiting : List (Option Operand → Stage)}
  {below : Level} {change : Option Operand → Option Operand}

/-- On top of a rule that waits, every request comes to the outcome that the level below has for
it. -/
structure Serves (engine : Engine) (base : Nat) (waiting : List (Option Operand → Stage))
    (below : Level) : Prop where
  specialize : ∀ operation operands resume, ∃ outcome, (below.specialize operation operands).Ends
    outcome ∧ engine.Leads base
      ⟨resume :: waiting, engine.stage (base + waiting.length + 1) (.specialize operation operands)⟩
      ⟨resume :: waiting, .ended (outcome.map some)⟩
  differentiate : ∀ operation operands index resume, ∃ outcome,
    (below.differentiate operation operands index).Ends outcome ∧ engine.Leads base
      ⟨resume :: waiting,
        engine.stage (base + waiting.length + 1) (.differentiate operation operands index)⟩
      ⟨resume :: waiting, .ended outcome⟩

/-- The work of a stage and a run end together. -/
def Matches (engine : Engine) (base : Nat) (waiting : List (Option Operand → Stage))
    (change : Option Operand → Option Operand) (stage : Stage) (traced : Traced (Option Operand)) :
    Prop :=
  ∃ outcome, traced.Ends outcome ∧
    engine.Leads base ⟨waiting, stage⟩ ⟨waiting, .ended (outcome.map change)⟩

theorem matches_throw (fault : Fault) :
    engine.Matches base waiting change (.ended (.error fault)) (throw fault) :=
  ⟨_, ends_throw fault, .refl _⟩

/-- A run that goes on with a result matches the work that does. -/
theorem Matches.after {Result : Type} {outcome : Except Fault Result} {next : Result → Stage}
    {later : Result → Traced (Option Operand)}
    (continues : ∀ result, engine.Matches base waiting change (next result) (later result)) :
    engine.Matches base waiting change (.after outcome next)
      (Traced.ofExcept outcome >>= later) := by
  cases outcome with
  | ok result =>
      obtain ⟨final, ends, leads⟩ := continues result
      exact ⟨final, (ends_pure result).bind_ok ends, leads⟩
  | error fault => exact ⟨.error fault, (ends_throw fault).bind_error, .refl _⟩

/-- A plan comes to its end on the stack when its requests do. -/
theorem matches_plan (depth : Nat) (change : Option Operand → Option Operand)
    (serves : engine.Serves base waiting below) (plan : Plan (Option Handle))
    (known : List Operand) :
    engine.Matches base waiting change (engine.planStage depth change plan known)
      (engine.answer depth below plan known) := by
  induction plan generalizing known with
  | done result =>
      cases result with
      | none => exact ⟨.ok none, ends_pure none, .refl _⟩
      | some handle =>
          simp only [answer, runPlan, pure_bind]
          exact .after fun operand => ⟨.ok (some operand), ends_pure _, .refl _⟩
  | fail fault => exact matches_throw fault
  | constant value next inductionHypothesis =>
      obtain ⟨final, ends, leads⟩ :=
        inductionHypothesis known.length (known ++ [.ofConstant value])
      rw [answer_constant]
      exact ⟨final, (ends_constant value).bind_ok ends, leads⟩
  | call operation handles next inductionHypothesis =>
      simp only [answer, runPlan, bind_assoc]
      refine .after fun operands => ?_
      let resume (answer : Option Operand) : Stage :=
        .after (orFault answer .missingPart) fun made =>
          planStage engine depth change (next known.length) (known ++ [made])
      obtain ⟨outcome, ends, leads⟩ := serves.specialize operation operands resume
      cases outcome with
      | ok made =>
          obtain ⟨final, continues, finishes⟩ :=
            inductionHypothesis known.length (known ++ [made])
          exact ⟨final, ends.bind_ok continues, (leads.trans (.step finishes)).step⟩
      | error fault =>
          exact ⟨.error fault, ends.bind_error, (leads.trans (.step (.refl _))).step⟩
  | emit operation handles values next inductionHypothesis =>
      simp only [answer, runPlan, bind_assoc]
      refine .after fun operands => .after fun record => ?_
      obtain ⟨final, ends, leads⟩ := inductionHypothesis known.length (known ++
        [⟨.call operation (operands.map (·.form)), values.getD record.values⟩])
      exact ⟨final, (ends_call operation operands _).bind_ok ends, leads⟩
  | differentiate operation handles index next inductionHypothesis =>
      simp only [answer, runPlan, bind_assoc]
      refine .after fun operands => ?_
      let resume (answer : Option Operand) : Stage :=
        match answer with
        | none => planStage engine depth change (next none) known
        | some made => planStage engine depth change (next (some known.length)) (known ++ [made])
      obtain ⟨outcome, ends, leads⟩ := serves.differentiate operation operands index resume
      rcases outcome with fault | _ | made
      · exact ⟨.error fault, ends.bind_error, (leads.trans (.step (.refl _))).step⟩
      · obtain ⟨final, continues, finishes⟩ := inductionHypothesis none known
        exact ⟨final, ends.bind_ok continues, (leads.trans (.step finishes)).step⟩
      · obtain ⟨final, continues, finishes⟩ :=
          inductionHypothesis (some known.length) (known ++ [made])
        exact ⟨final, ends.bind_ok continues, (leads.trans (.step finishes)).step⟩
  | ntype handle next inductionHypothesis =>
      simp only [answer, runPlan, bind_assoc]
      exact .after fun operand => inductionHypothesis operand.ntype known
  | literal handle next inductionHypothesis =>
      rw [planStage]
      simp only [answer, runPlan, bind_assoc]
      refine .after fun operand => ?_
      cases operand.ntype.constant? with
      | none => exact ⟨_, (ends_throw _).bind_error, .refl _⟩
      | some value => exact inductionHypothesis value known
  | depth next inductionHypothesis => exact inductionHypothesis depth known
  | registered operation next inductionHypothesis =>
      exact inductionHypothesis (engine.registry.contains operation) known

/-- The work on a call comes to the outcome of the engine when its requests do. -/
theorem leads_specializeCall (serves : engine.Serves base waiting below)
    (room : ¬engine.ceiling < depth) (operation : String) (operands : List Operand) :
    ∃ outcome, (engine.specializeCall depth below operation operands).Ends outcome ∧
      engine.Leads base ⟨waiting, engine.stage depth (.specialize operation operands)⟩
        ⟨waiting, .ended (outcome.map some)⟩ := by
  rw [stage, if_neg room, specializeCall]
  cases engine.registry.check operation operands.length with
  | error fault => exact ⟨.error fault, ends_throw fault, .refl _⟩
  | ok record =>
      dsimp only [Stage.after]
      cases engine.fold? record operands with
      | error fault => exact ⟨.error fault, (ends_throw fault).bind_error, .refl _⟩
      | ok folded =>
          cases folded with
          | some value =>
              exact ⟨_, (ends_pure _).bind_ok (ends_constant value), .refl _⟩
          | none =>
              have generic := ends_call operation operands record.values
              cases record.specializer with
              | none =>
                  exact ⟨_, (ends_pure none).bind_ok ((ends_pure none).bind_ok generic), .refl _⟩
              | some rule =>
                  obtain ⟨outcome, ends, leads⟩ := matches_plan depth
                    (fun answer => some (answer.getD
                      ⟨.call operation (operands.map (·.form)), record.values⟩))
                    serves (rule (List.range operands.length)) operands
                  rcases outcome with fault | _ | made
                  · exact ⟨.error fault, (ends_pure none).bind_ok ends.bind_error, leads⟩
                  · exact ⟨_, (ends_pure none).bind_ok (ends.bind_ok generic), leads⟩
                  · refine ⟨.ok made, (ends_pure none).bind_ok (ends.bind_ok ?_), leads⟩
                    exact ends_pure made

theorem leads_differentiateCall (serves : engine.Serves base waiting below)
    (room : ¬engine.ceiling < depth) (operation : String) (operands : List Operand) (index : Int) :
    ∃ outcome, (engine.differentiateCall depth below operation operands index).Ends outcome ∧
      engine.Leads base ⟨waiting, engine.stage depth (.differentiate operation operands index)⟩
        ⟨waiting, .ended outcome⟩ := by
  rw [stage, if_neg room, differentiateCall]
  cases engine.registry.check operation operands.length with
  | error fault => exact ⟨.error fault, ends_throw fault, .refl _⟩
  | ok record =>
      dsimp only [Stage.after]
      split
      · exact ⟨_, ends_throw _, .refl _⟩
      · cases record.differentiator with
        | none => exact ⟨_, ends_throw _, .refl _⟩
        | some rule =>
            obtain ⟨outcome, ends, leads⟩ := matches_plan depth id serves
              (rule index.toNat (List.range operands.length)) operands
            refine ⟨outcome, ends, ?_⟩
            cases outcome <;> exact leads

/-- Below the ceiling there are only so many levels, and without one left a request fails at
once. -/
theorem serves_level (engine : Engine) (base : Nat) {remaining : Nat}
    (waiting : List (Option Operand → Stage))
    (left : (engine.ceiling + 1 - (base + waiting.length + 1 : Nat)).toNat = remaining) :
    engine.Serves base waiting (engine.level remaining (base + waiting.length + 1)) := by
  induction remaining generalizing waiting with
  | zero =>
      have deep : engine.ceiling < (base + waiting.length + 1 : Nat) := by omega
      refine ⟨fun operation operands resume => ⟨_, ends_throw _, ?_⟩,
        fun operation operands index resume => ⟨_, ends_throw _, ?_⟩⟩ <;>
      · rw [stage, if_pos deep]
        exact .refl _
  | succ remaining inductionHypothesis =>
      have room : ¬engine.ceiling < (base + waiting.length + 1 : Nat) := by omega
      have below (resume : Option Operand → Stage) : engine.Serves base (resume :: waiting)
          (engine.level remaining (base + waiting.length + 1 + 1)) :=
        inductionHypothesis (resume :: waiting) (by
          rw [List.length_cons]
          omega)
      exact ⟨fun operation operands resume =>
          leads_specializeCall (below resume) room operation operands,
        fun operation operands index resume =>
          leads_differentiateCall (below resume) room operation operands index⟩

/-- Under every ceiling a specialization comes to its end, with the outcome of the engine. -/
theorem exists_halts_specialize (engine : Engine) (depth : Nat) (operation : String)
    (operands : List Operand) :
    ∃ outcome, (engine.specialize depth operation operands).Ends outcome ∧
      engine.Halts depth (.specialize operation operands) (outcome.map some) := by
  unfold specialize levelAt
  cases left : (engine.ceiling + 1 - depth).toNat with
  | zero =>
      have deep : engine.ceiling < depth := by omega
      refine ⟨_, ends_throw _, ?_⟩
      rw [Halts, stage, if_pos deep]
      exact .refl _
  | succ remaining =>
      exact leads_specializeCall (serves_level engine depth []
        (by rw [List.length_nil]; omega)) (by omega) operation operands

/-- Under every ceiling a differentiation comes to its end, with the outcome of the engine. -/
theorem exists_halts_differentiate (engine : Engine) (depth : Nat) (operation : String)
    (operands : List Operand) (index : Int) :
    ∃ outcome, ((engine.levelAt depth).differentiate operation operands index).Ends outcome ∧
      engine.Halts depth (.differentiate operation operands index) outcome := by
  unfold levelAt
  cases left : (engine.ceiling + 1 - depth).toNat with
  | zero =>
      have deep : engine.ceiling < depth := by omega
      refine ⟨_, ends_throw _, ?_⟩
      rw [Halts, stage, if_pos deep]
      exact .refl _
  | succ remaining =>
      exact leads_differentiateCall (serves_level engine depth []
        (by rw [List.length_nil]; omega)) (by omega) operation operands index

end Engine

end Narrowing
