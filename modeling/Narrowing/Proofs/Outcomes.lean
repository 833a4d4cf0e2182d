import Mathlib.Data.List.Forall2
import Narrowing.Engine

/-
This file states properties of every outcome of a traced run.
-/

namespace Narrowing

section Lists

variable {Item Result : Type} {items : List Item} {results : List Result}

theorem mapM_congr_left {first second : Item → Except Fault Result}
    (same : ∀ item ∈ items, first item = second item) : items.mapM first = items.mapM second := by
  induction items with
  | nil => rfl
  | cons item rest inductionHypothesis =>
      rw [List.mapM_cons, List.mapM_cons, same item List.mem_cons_self,
        inductionHypothesis fun later member => same later (List.mem_cons_of_mem item member)]

/-- A list of computations succeeds just when each of them does. -/
theorem mapM_eq_ok_iff {run : Item → Except Fault Result} :
    items.mapM run = .ok results ↔
      List.Forall₂ (fun item result => run item = .ok result) items results := by
  induction items generalizing results with
  | nil =>
      rw [List.mapM_nil, List.forall₂_nil_left_iff]
      exact ⟨fun same => (Except.ok.inj same).symm, fun same => congrArg Except.ok same.symm⟩
  | cons item rest inductionHypothesis =>
      rw [List.mapM_cons, List.forall₂_cons_left_iff]
      cases first : run item with
      | error fault =>
          constructor
          · intro impossible
            cases impossible
          · rintro ⟨result, others, impossible, _⟩
            cases impossible
      | ok result =>
          constructor
          · intro succeeded
            cases outcome : rest.mapM run with
            | error fault =>
                rw [outcome] at succeeded
                cases succeeded
            | ok others =>
                rw [outcome] at succeeded
                exact ⟨result, others, rfl, inductionHypothesis.mp outcome,
                  (Except.ok.inj succeeded).symm⟩
          · rintro ⟨result, others, same, related, rfl⟩
            cases same
            rw [inductionHypothesis.mpr related]
            rfl

theorem exists_related_of_mem {relates : Item → Result → Prop}
    (related : List.Forall₂ relates items results) {item : Item} (member : item ∈ items) :
    ∃ result ∈ results, relates item result := by
  induction related with
  | nil => cases member
  | cons first _ inductionHypothesis =>
      rcases List.mem_cons.mp member with same | later
      · subst same
        exact ⟨_, List.mem_cons_self, first⟩
      · obtain ⟨result, found, holds⟩ := inductionHypothesis later
        exact ⟨result, List.mem_cons_of_mem _ found, holds⟩

end Lists

theorem exists_of_isOk {Result : Type} {outcome : Except Fault Result}
    (succeeds : outcome.isOk = true) : ∃ result, outcome = .ok result := by
  cases outcome with
  | ok result => exact ⟨result, rfl⟩
  | error fault => cases succeeds

/-- A computation with a result went through all its steps. -/
theorem exists_of_bind {First Result : Type} {outcome : Except Fault First}
    {next : First → Except Fault Result} {result : Result}
    (computed : outcome >>= next = .ok result) :
    ∃ first, outcome = .ok first ∧ next first = .ok result := by
  cases outcome with
  | ok first => exact ⟨first, rfl, computed⟩
  | error fault => cases computed

theorem exists_of_map {First Result : Type} {outcome : Except Fault First}
    {change : First → Result} {result : Result} (computed : outcome.map change = .ok result) :
    ∃ first, outcome = .ok first ∧ change first = result := by
  cases outcome with
  | ok first => exact ⟨first, rfl, Except.ok.inj computed⟩
  | error fault => cases computed

theorem eq_some_of_orFault {Result : Type} {option : Option Result} {fault : Fault}
    {result : Result} (found : orFault option fault = .ok result) : option = some result := by
  cases option with
  | some value => exact congrArg some (Except.ok.inj found)
  | none => cases found

/-- A call lay too deep. -/
def Fault.IsDepth (fault : Fault) : Prop := ∃ operation ceiling, fault = .depth operation ceiling

theorem Fault.isDepth_depth (operation : String) (ceiling : Int) :
    (Fault.depth operation ceiling).IsDepth := ⟨operation, ceiling, rfl⟩

namespace Traced

variable {Result Next : Type}

/-- The outcome of a run that comes after some events. -/
def outcome (traced : Traced Result) (events : List Event) : Except Fault Result :=
  ((ExceptT.run traced).run events).1

/-- Every result has the property, and every fault is an allowed one. -/
def Meets (allowed : Fault → Prop) (property : Result → Prop) (traced : Traced Result) : Prop :=
  ∀ events,
    match traced.outcome events with
    | .ok result => property result
    | .error fault => allowed fault

/-- A run ends with this result. -/
def Yields (traced : Traced Result) (result : Result) : Prop := traced.run.2 = .ok result

/-- A run may end with this result, after some events. -/
def Reaches (traced : Traced Result) (result : Result) : Prop :=
  ∃ events, traced.outcome events = .ok result

variable {allowed : Fault → Prop} {property : Result → Prop} {nextProperty : Next → Prop}

theorem Meets.of_run {traced : Traced Result} (meets : traced.Meets allowed property) :
    match traced.run.2 with
    | .ok result => property result
    | .error fault => allowed fault := meets []

/-- What a run yields has the property. -/
theorem Meets.of_yields {traced : Traced Result} {result : Result}
    (meets : traced.Meets allowed property) (yields : traced.Yields result) : property result := by
  have reached := meets.of_run
  rw [show traced.run.2 = .ok result from yields] at reached
  exact reached

theorem meets_reaches (anyway : ∀ fault, allowed fault) (traced : Traced Result) :
    traced.Meets allowed traced.Reaches := by
  intro events
  cases final : traced.outcome events with
  | ok result => exact ⟨events, final⟩
  | error fault => exact anyway fault

/-- What a run may end with has the property. -/
theorem Meets.of_reaches {traced : Traced Result} {result : Result}
    (meets : traced.Meets allowed property) (reaches : traced.Reaches result) :
    property result := by
  obtain ⟨events, final⟩ := reaches
  have reached := meets events
  rw [final] at reached
  exact reached

/-- A run that has only allowed faults and none of them yields a result. -/
theorem Meets.exists_yields {traced : Traced Result} (meets : traced.Meets allowed property)
    (avoids : ∀ fault, allowed fault → traced.run.2 ≠ .error fault) :
    ∃ result, traced.Yields result ∧ property result := by
  have reached := meets.of_run
  cases final : traced.run.2 with
  | ok result =>
      rw [final] at reached
      exact ⟨result, final, reached⟩
  | error fault =>
      rw [final] at reached
      exact absurd final (avoids fault reached)

theorem Meets.mono {traced : Traced Result} {weaker : Result → Prop}
    (meets : traced.Meets allowed property) (implies : ∀ result, property result → weaker result) :
    traced.Meets allowed weaker := by
  intro events
  have reached := meets events
  cases final : traced.outcome events with
  | ok result =>
      rw [final] at reached
      exact implies result reached
  | error fault =>
      rw [final] at reached
      exact reached

/-- A run that has only allowed faults is one that has only faults of a wider kind. -/
theorem Meets.widen {traced : Traced Result} {wider : Fault → Prop}
    (meets : traced.Meets allowed property) (implies : ∀ fault, allowed fault → wider fault) :
    traced.Meets wider property := by
  intro events
  have reached := meets events
  cases final : traced.outcome events with
  | ok result =>
      rw [final] at reached
      exact reached
  | error fault =>
      rw [final] at reached
      exact implies fault reached

/-- A run has two properties at once; the faults are those that one of them allows. -/
theorem Meets.and {traced : Traced Result} {other : Result → Prop} {otherAllowed : Fault → Prop}
    (meets : traced.Meets allowed property) (also : traced.Meets otherAllowed other) :
    traced.Meets allowed fun result => property result ∧ other result := by
  intro events
  have reached := meets events
  have alsoReached := also events
  cases final : traced.outcome events with
  | ok result =>
      rw [final] at reached alsoReached
      exact ⟨reached, alsoReached⟩
  | error fault =>
      rw [final] at reached
      exact reached

theorem meets_pure {result : Result} (holds : property result) :
    (pure result : Traced Result).Meets allowed property := fun _ => holds

theorem meets_throw {fault : Fault} (holds : allowed fault) :
    (throw fault : Traced Result).Meets allowed property := fun _ => holds

/-- A run goes on from its first result, after the events so far. -/
theorem exists_outcome_bind (traced : Traced Result) (next : Result → Traced Next)
    (events : List Event) : ∃ later, (traced >>= next).outcome events =
      traced.outcome events >>= fun result => (next result).outcome later := by
  refine ⟨((ExceptT.run traced).run events).2, ?_⟩
  simp only [outcome, ExceptT.run_bind, StateT.run_bind]
  generalize (ExceptT.run traced).run events = final
  obtain ⟨result, later⟩ := final
  cases result <;> rfl

/-- The rest of a run meets what it promises for every result of the first part. -/
theorem Meets.bind {traced : Traced Result} {next : Result → Traced Next}
    (meets : traced.Meets allowed property)
    (continues : ∀ result, property result → (next result).Meets allowed nextProperty) :
    (traced >>= next).Meets allowed nextProperty := by
  intro events
  have reached := meets events
  obtain ⟨later, continued⟩ := exists_outcome_bind traced next events
  rw [continued]
  cases final : traced.outcome events with
  | ok result =>
      rw [final] at reached
      exact continues result reached later
  | error fault =>
      rw [final] at reached
      exact reached

theorem Meets.map {traced : Traced Result} {change : Result → Next}
    (meets : traced.Meets allowed fun result => nextProperty (change result)) :
    (change <$> traced).Meets allowed nextProperty := by
  rw [map_eq_pure_bind]
  exact meets.bind fun result holds => meets_pure holds

theorem meets_ofExcept {outcome : Except Fault Result}
    (holds : match outcome with
      | .ok result => property result
      | .error fault => allowed fault) : (ofExcept outcome).Meets allowed property := by
  cases outcome with
  | ok result => exact meets_pure holds
  | error fault => exact meets_throw holds

theorem meets_constant {value : Value} {holdsOperand : Operand → Prop}
    (holds : holdsOperand (.ofConstant value)) :
    (constant value).Meets allowed holdsOperand := fun _ => holds

theorem meets_call {operation : String} {operands : List Operand} {values : ValuesNtype}
    {holdsOperand : Operand → Prop}
    (holds : holdsOperand ⟨.call operation (operands.map (·.form)), values⟩) :
    (call operation operands values).Meets allowed holdsOperand := fun _ => holds

/-- A list of runs meets a property that all its members meet in turn. -/
theorem meets_mapM {Item : Type} {items : List Item} {run : Item → Traced Result}
    {relates : Item → Result → Prop}
    (each : ∀ item ∈ items, (run item).Meets allowed (relates item)) :
    (items.mapM run).Meets allowed fun results => List.Forall₂ relates items results := by
  induction items with
  | nil => exact meets_pure .nil
  | cons item rest inductionHypothesis =>
      rw [List.mapM_cons]
      refine (each item (by simp)).bind fun result holds => ?_
      refine (inductionHypothesis fun later member => each later (by simp [member])).bind
        fun results others => ?_
      exact meets_pure (.cons holds others)

/-- A fold keeps an invariant that every step keeps. -/
theorem meets_foldlM {Item State : Type} {items : List Item} {step : State → Item → Traced State}
    {invariant : List Item → State → Prop} {start : State} (initially : invariant [] start)
    (kept : ∀ before item after state, items = before ++ item :: after → invariant before state →
      (step state item).Meets allowed (invariant (before ++ [item]))) :
    (items.foldlM step start).Meets allowed (invariant items) := by
  suffices general : ∀ after before state, items = before ++ after → invariant before state →
      (after.foldlM step state).Meets allowed (invariant items) from
    general items [] start rfl initially
  intro after
  induction after with
  | nil =>
      intro before state whole holds
      rw [List.append_nil] at whole
      subst whole
      exact meets_pure holds
  | cons item after inductionHypothesis =>
      intro before state whole holds
      rw [List.foldlM_cons]
      refine (kept before item after state whole holds).bind fun next further => ?_
      exact inductionHypothesis (before ++ [item]) next (by simp [whole]) further

end Traced

end Narrowing
