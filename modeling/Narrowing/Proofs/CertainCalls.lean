import Narrowing.Proofs.CertainPlans
import Narrowing.Proofs.LibraryFaults
import Narrowing.Proofs.RepeatedRuns

/-
This file shows that a call with as many operands as the library accepts specializes, unless it
needs too many levels, and that its derivatives exist if its operation has a rule for them.
-/

namespace Narrowing

namespace Registry

variable {operation : String} {count : Nat}

/-- The library has no rule for the derivative of the operation. -/
def lacksDerivative (operation : String) : Bool :=
  (standard.ensure operation).differentiator.isNone

/-- The registry hands out the record of an operation for the numbers of operands it accepts. -/
theorem check_of_accepts (accepted : Accepts operation count) :
    standard.check operation count = .ok (standard.ensure operation) := if_pos accepted

/-- An operation is unknown, or its record is one of the library, but for its number. -/
theorem ensure_cases (operation : String) :
    standard.ensure operation = .unknown operation ∨ ∃ original ∈ Library.records, ∃ serial,
      standard.ensure operation = { original with serial := some serial } := by
  unfold ensure
  cases found : standard.lookup? operation with
  | none => exact .inl rfl
  | some record => exact .inr (exists_of_standard_lookup found)

/-- The rules of an operation are certain for as many operands as the library accepts. -/
theorem isCertain_specializer {rule : SpecializationRule}
    (ruled : (standard.ensure operation).specializer = some rule)
    (accepted : Accepts operation count) :
    (rule (List.range count)).IsCertain Plan.MayAnswer count := by
  unfold Accepts at accepted
  rcases ensure_cases operation with unknown | ⟨original, member, serial, same⟩
  · rw [unknown] at ruled
    cases ruled
  · rw [same] at ruled accepted
    refine Library.isCertain_rule member ruled ?_ fun handle => List.mem_range.mp
    rwa [List.length_range]

theorem isCertain_differentiator {rule : DerivativeRule} {index : Nat}
    (ruled : (standard.ensure operation).differentiator = some rule)
    (accepted : Accepts operation count) (within : index < count) :
    (rule index (List.range count)).IsCertain Plan.DoesAnswer count := by
  unfold Accepts at accepted
  rcases ensure_cases operation with unknown | ⟨original, member, serial, same⟩
  · rw [unknown] at ruled
    cases ruled
  · rw [same] at ruled accepted
    refine Library.isCertain_differentiator member ruled ?_ ?_ fun handle => List.mem_range.mp
    · rwa [List.length_range]
    · rwa [List.length_range]

end Registry

namespace Engine

open Plan Traced

variable {engine : Engine} {operation : String} {operands known : List Operand} {depth : Nat}
  {below : Level}

/-- Calls that the library accepts fail on this level only because they lie too deep. -/
def Level.IsCertain (below : Level) : Prop :=
  ∀ operation operands, Registry.Accepts operation operands.length →
    (below.specialize operation operands).Meets Fault.IsDepth fun _ => True

/-- Known handles name operands. -/
theorem exists_operandsOf {handles : List Handle}
    (named : ∀ handle ∈ handles, handle < known.length) :
    ∃ operands, operandsOf known handles = .ok operands ∧ operands.length = handles.length := by
  induction handles with
  | nil => exact ⟨[], rfl, rfl⟩
  | cons handle rest inductionHypothesis =>
      obtain ⟨first, others⟩ := List.forall_mem_cons.mp named
      obtain ⟨operands, present, sized⟩ := inductionHypothesis others
      exact ⟨_, operandsOf_cons (List.getElem?_eq_getElem first) present, congrArg Nat.succ sized⟩

/-- A certain plan runs to its end, with as many known operands as its end speaks of. -/
theorem meets_runPlan {Result : Type} {ends : Nat → Result → Prop} {plan : Plan Result}
    {count : Nat} (certain : plan.IsCertain ends count) (certainBelow : below.IsCertain)
    (sized : known.length = count) :
    (engine.runPlan depth below plan known).Meets Fault.IsDepth fun outcome =>
      ends outcome.2.length outcome.1 := by
  have extended {known : List Operand} {count : Nat} (sized : known.length = count)
      (made : Operand) : (known ++ [made]).length = count + 1 := by
    rw [List.length_append, sized]
    rfl
  induction certain generalizing known with
  | done holds => exact meets_pure (sized ▸ holds)
  | constant _ inductionHypothesis =>
      subst sized
      exact Meets.bind (meets_constant trivial) fun made (_ : True) =>
        inductionHypothesis (extended rfl made)
  | call named accepted _ inductionHypothesis =>
      subst sized
      obtain ⟨operands, present, same⟩ := exists_operandsOf named
      rw [runPlan, present]
      exact (certainBelow _ operands (same ▸ accepted)).bind fun made _ =>
        inductionHypothesis (extended rfl made)
  | ntype named _ inductionHypothesis =>
      subst sized
      rw [runPlan, List.getElem?_eq_getElem named]
      exact inductionHypothesis _ rfl
  | registered _ inductionHypothesis => exact inductionHypothesis _ sized

theorem meets_follow_certain {plan : List Handle → Plan (Option Handle)}
    (certain : (plan (List.range operands.length)).IsCertain MayAnswer operands.length)
    (certainBelow : below.IsCertain) :
    (engine.follow depth below plan operands).Meets Fault.IsDepth fun _ => True := by
  refine (meets_runPlan certain certainBelow rfl).bind fun outcome ended => ?_
  obtain ⟨answer, known⟩ := outcome
  cases answer with
  | none => exact meets_pure trivial
  | some handle =>
      dsimp only
      rw [List.getElem?_eq_getElem (ended handle rfl)]
      exact meets_pure trivial

/-- A rule that never gives up answers with an operand. -/
theorem meets_follow_answer {plan : List Handle → Plan (Option Handle)}
    (certain : (plan (List.range operands.length)).IsCertain DoesAnswer operands.length)
    (certainBelow : below.IsCertain) :
    (engine.follow depth below plan operands).Meets Fault.IsDepth fun answer =>
      ∃ operand, answer = some operand := by
  refine (meets_runPlan certain certainBelow rfl).bind fun outcome ended => ?_
  obtain ⟨answer, known⟩ := outcome
  obtain ⟨handle, rfl, named⟩ := ended
  dsimp only
  rw [List.getElem?_eq_getElem named]
  exact meets_pure ⟨_, rfl⟩

/-- Folding passes over all failures of the library. -/
theorem exists_fold? (engine : Engine) (operation : String) (operands : List Operand) :
    ∃ folded, engine.fold? (Registry.standard.ensure operation) operands = .ok folded := by
  unfold fold?
  split
  · rename_i implementation values _ implemented _
    have foldable : Foldable (implementation values) := by
      rcases Registry.ensure_cases operation with unknown | ⟨original, member, serial, same⟩
      · rw [unknown] at implemented
        cases implemented
      · rw [same] at implemented
        exact Library.foldable_implementation member implemented values
    split
    · exact ⟨_, rfl⟩
    · rename_i fault failed
      rw [if_pos (foldable fault failed)]
      exact ⟨none, rfl⟩
  · exact ⟨none, rfl⟩

theorem meets_answer (operation : String) (operands : List Operand) (values : ValuesNtype)
    (answer : Option Operand) :
    (match answer with
      | some operand => pure operand
      | none => Traced.call operation operands values : Traced Operand).Meets Fault.IsDepth
        fun _ => True := by
  cases answer with
  | some operand => exact meets_pure trivial
  | none => exact meets_call trivial

/-- A call that the library accepts specializes above a level on which all such calls do. -/
theorem meets_specializeCall_accepted (standard : engine.registry = .standard)
    (accepted : Registry.Accepts operation operands.length) (certainBelow : below.IsCertain) :
    (engine.specializeCall depth below operation operands).Meets Fault.IsDepth fun _ => True := by
  obtain ⟨folded, outcome⟩ := engine.exists_fold? operation operands
  unfold specializeCall
  rw [standard, Registry.check_of_accepts accepted]
  dsimp only
  rw [outcome]
  cases folded with
  | some value => exact meets_constant trivial
  | none =>
      have answered := meets_answer operation operands (Registry.standard.ensure operation).values
      cases ruled : (Registry.standard.ensure operation).specializer with
      | none => exact answered none
      | some rule =>
          have certain := Registry.isCertain_specializer ruled accepted
          exact (meets_follow_certain certain certainBelow).bind fun answer _ => answered answer

/-- On the last level every call lies too deep, and the others stand above it. -/
theorem isCertain_level (standard : engine.registry = .standard) (remaining depth : Nat) :
    (engine.level remaining depth).IsCertain := by
  induction remaining generalizing depth with
  | zero => exact fun operation _ _ => meets_throw (Fault.isDepth_depth operation _)
  | succ remaining inductionHypothesis =>
      exact fun _ _ accepted =>
        meets_specializeCall_accepted standard accepted (inductionHypothesis (depth + 1))

theorem meets_specialize_accepted (standard : engine.registry = .standard)
    (accepted : Registry.Accepts operation operands.length) (depth : Nat) :
    (engine.specialize depth operation operands).Meets Fault.IsDepth fun _ => True :=
  isCertain_level standard _ depth operation operands accepted

/-- What a derivative may fail with: it lies too deep, or the operation has no rule for it. -/
def MissesDerivative (operation : String) (fault : Fault) : Prop :=
  fault.IsDepth ∨
    fault = .notDifferentiable operation ∧ Registry.lacksDerivative operation = true

/-- The derivative in an operand of a call that the library accepts exists if there is a rule. -/
theorem meets_differentiate_accepted (standard : engine.registry = .standard)
    (accepted : Registry.Accepts operation operands.length) {index : Nat}
    (within : index < operands.length) (depth : Nat) :
    (engine.differentiate depth operation operands index).Meets (MissesDerivative operation)
      fun _ => Registry.lacksDerivative operation = false := by
  have answers : ((engine.levelAt depth).differentiate operation operands index).Meets
      (MissesDerivative operation) fun answer => (∃ operand, answer = some operand) ∧
        Registry.lacksDerivative operation = false := by
    unfold levelAt
    cases (engine.ceiling + 1 - depth).toNat with
    | zero => exact meets_throw (.inl (Fault.isDepth_depth operation _))
    | succ remaining =>
        rw [level_succ_differentiate]
        unfold differentiateCall
        rw [standard, Registry.check_of_accepts accepted]
        dsimp only
        rw [if_neg (by omega)]
        cases ruled : (Registry.standard.ensure operation).differentiator with
        | none =>
            refine meets_throw (.inr ⟨rfl, ?_⟩)
            rw [Registry.lacksDerivative, ruled]
            rfl
        | some rule =>
            have certain := Registry.isCertain_differentiator ruled accepted within
            have certainBelow := isCertain_level standard remaining (depth + 1)
            have present : Registry.lacksDerivative operation = false := by
              rw [Registry.lacksDerivative, ruled]
              rfl
            exact ((meets_follow_answer certain certainBelow).widen fun fault deep =>
              .inl deep).mono fun answer found => ⟨found, present⟩
  refine answers.bind fun answer answered => ?_
  obtain ⟨⟨operand, rfl⟩, ruled⟩ := answered
  exact meets_pure ruled

end Engine

end Narrowing
