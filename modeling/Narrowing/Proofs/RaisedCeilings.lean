import Narrowing.Proofs.CallStacks
import Narrowing.Proofs.RepeatedRuns
import Narrowing.Proofs.Visits

/-
This file compares runs under two ceilings. Whatever the rules are, a higher ceiling keeps every
answer and every fault but those of depth, which no rule can catch.
-/

namespace Narrowing

namespace Engine

/-- The engine with another ceiling. -/
def withCeiling (engine : Engine) (ceiling : Int) : Engine := { engine with ceiling := ceiling }

theorem withCeiling_registry (engine : Engine) (higher : Int) :
    (engine.withCeiling higher).registry = engine.registry := rfl

/-- Calls and derivatives of the first level end as those of the second one do, unless they fail
for their depth. -/
structure Level.Underlies (first second : Level) : Prop where
  specialize : ∀ operation operands, Traced.Agrees Fault.IsDepth
    (first.specialize operation operands) (second.specialize operation operands)
  differentiate : ∀ operation operands index, Traced.Agrees Fault.IsDepth
    (first.differentiate operation operands index) (second.differentiate operation operands index)

open Traced

variable {engine : Engine} {higher : Int} {first second : Level} {depth : Nat}

/-- A plan cannot see the ceiling: it asks for the same operands under both. -/
theorem agrees_runPlan_withCeiling {Result : Type} (underlies : first.Underlies second)
    (plan : Plan Result) (known : List Operand) :
    Agrees Fault.IsDepth (engine.runPlan depth first plan known)
      ((engine.withCeiling higher).runPlan depth second plan known) := by
  induction plan generalizing known with
  | done result => exact agrees_pure _
  | fail fault => exact agrees_throw fault
  | constant value next inductionHypothesis =>
      exact (agrees_constant value).bind fun made => inductionHypothesis _ _
  | call operation handles next inductionHypothesis =>
      exact (agrees_ofExcept _).bind fun operands =>
        (underlies.specialize operation operands).bind fun made => inductionHypothesis _ _
  | emit operation handles values next inductionHypothesis =>
      exact (agrees_ofExcept _).bind fun operands => (agrees_ofExcept _).bind fun record =>
        (agrees_call operation operands _).bind fun made => inductionHypothesis _ _
  | differentiate operation handles index next inductionHypothesis =>
      refine (agrees_ofExcept _).bind fun operands =>
        (underlies.differentiate operation operands index).bind fun answer => ?_
      cases answer with
      | none => exact inductionHypothesis _ _
      | some made => exact inductionHypothesis _ _
  | ntype handle next inductionHypothesis =>
      exact (agrees_ofExcept _).bind fun operand => inductionHypothesis _ _
  | literal handle next inductionHypothesis =>
      rw [runPlan, runPlan]
      refine (agrees_ofExcept _).bind fun operand => ?_
      cases operand.ntype.constant? with
      | none => exact agrees_throw _
      | some value => exact inductionHypothesis _ _
  | depth next inductionHypothesis => exact inductionHypothesis _ _
  | registered operation next inductionHypothesis => exact inductionHypothesis _ _

theorem agrees_follow_withCeiling (underlies : first.Underlies second)
    (plan : List Handle → Plan (Option Handle)) (operands : List Operand) :
    Agrees Fault.IsDepth (engine.follow depth first plan operands)
      ((engine.withCeiling higher).follow depth second plan operands) := by
  refine (agrees_runPlan_withCeiling underlies _ operands).bind fun final => ?_
  obtain ⟨result, known⟩ := final
  cases result with
  | none => exact agrees_pure none
  | some handle => exact (agrees_ofExcept _).bind fun made => agrees_pure (some made)

/-- Folding, too, is the same under both ceilings. -/
theorem agrees_specializeCall_withCeiling (underlies : first.Underlies second) (operation : String)
    (operands : List Operand) :
    Agrees Fault.IsDepth (engine.specializeCall depth first operation operands)
      ((engine.withCeiling higher).specializeCall depth second operation operands) := by
  unfold specializeCall
  rw [withCeiling_registry]
  cases engine.registry.check operation operands.length with
  | error fault => exact agrees_throw fault
  | ok record =>
      refine (agrees_ofExcept _).bind fun folded => ?_
      cases folded with
      | some value => exact agrees_constant value
      | none =>
          cases record.specializer with
          | none => exact (agrees_pure none).bind (agrees_answered operation operands record.values)
          | some rule =>
              exact (agrees_follow_withCeiling underlies rule operands).bind
                (agrees_answered operation operands record.values)

theorem agrees_differentiateCall_withCeiling (underlies : first.Underlies second)
    (operation : String) (operands : List Operand) (index : Int) :
    Agrees Fault.IsDepth (engine.differentiateCall depth first operation operands index)
      ((engine.withCeiling higher).differentiateCall depth second operation operands index) := by
  unfold differentiateCall
  rw [withCeiling_registry]
  cases engine.registry.check operation operands.length with
  | error fault => exact agrees_throw fault
  | ok record =>
      dsimp only
      split
      · exact agrees_throw _
      · cases record.differentiator with
        | none => exact agrees_throw _
        | some rule => exact agrees_follow_withCeiling underlies (rule index.toNat) operands

/-- A level does what it does with more levels left, unless it comes to the end of the fewer. -/
theorem level_underlies (engine : Engine) (higher : Int) {remaining others : Nat}
    (room : remaining ≤ others) (depth : Nat) :
    (engine.level remaining depth).Underlies ((engine.withCeiling higher).level others depth) := by
  induction remaining generalizing others depth with
  | zero =>
      exact ⟨fun operation _ _ => follows_allowed (Fault.isDepth_depth operation _) _,
        fun operation _ _ _ => follows_allowed (Fault.isDepth_depth operation _) _⟩
  | succ remaining inductionHypothesis =>
      obtain ⟨others, rfl⟩ := Nat.exists_eq_add_of_lt room
      have below := inductionHypothesis (Nat.le_add_right remaining others) (depth + 1)
      exact ⟨agrees_specializeCall_withCeiling below, agrees_differentiateCall_withCeiling below⟩

theorem agrees_specialize_withCeiling (raised : engine.ceiling ≤ higher) (depth : Nat)
    (operation : String) (operands : List Operand) :
    Agrees Fault.IsDepth (engine.specialize depth operation operands)
      ((engine.withCeiling higher).specialize depth operation operands) := by
  have room : (engine.ceiling + 1 - depth).toNat ≤ (higher + 1 - depth).toNat := by omega
  exact (level_underlies engine higher room depth).specialize operation operands

theorem agrees_differentiate_withCeiling (raised : engine.ceiling ≤ higher) (depth : Nat)
    (operation : String) (operands : List Operand) (index : Int) :
    Agrees Fault.IsDepth (engine.differentiate depth operation operands index)
      ((engine.withCeiling higher).differentiate depth operation operands index) := by
  have room : (engine.ceiling + 1 - depth).toNat ≤ (higher + 1 - depth).toNat := by omega
  refine ((level_underlies engine higher room depth).differentiate operation operands index).bind
    fun answer => ?_
  cases answer with
  | none => exact agrees_throw _
  | some made => exact agrees_pure made

end Engine

/-- The second outcome is the first one, unless that is a fault of depth. -/
structure Outlasts (first second : Except Fault Operand) : Prop where
  operand : ∀ operand, first = .ok operand → second = .ok operand
  fault : ∀ fault, ¬fault.IsDepth → first = .error fault → second = .error fault

namespace Traced

variable {allowed : Fault → Prop}

theorem Agrees.outlasts {first second : Traced Operand}
    (agrees : Agrees Fault.IsDepth first second) : Outlasts first.run.2 second.run.2 := by
  have follows : first.Follows Fault.IsDepth (· = ·) second.run.2 := agrees []
  cases final : second.run.2 with
  | ok other =>
      rw [final] at follows
      have met := (follows_ok_iff.mp follows).of_run
      refine ⟨fun operand ended => ?_, fun fault shallow ended => ?_⟩ <;> rw [ended] at met
      · exact congrArg Except.ok met.symm
      · exact absurd met shallow
  | error other =>
      rw [final] at follows
      have met := (follows_error_iff.mp follows).of_run
      refine ⟨fun operand ended => ?_, fun fault shallow ended => ?_⟩ <;> rw [ended] at met
      · exact met.elim
      · exact congrArg Except.error (met.resolve_right shallow).symm

/-- Folds agree when their steps do. -/
theorem agrees_foldlM {Item State : Type} {first second : State → Item → Traced State}
    (each : ∀ state item, Agrees allowed (first state item) (second state item))
    (items : List Item) (start : State) :
    Agrees allowed (items.foldlM first start) (items.foldlM second start) := by
  induction items generalizing start with
  | nil => exact agrees_pure start
  | cons item rest inductionHypothesis =>
      rw [List.foldlM_cons, List.foldlM_cons]
      exact (each start item).bind inductionHypothesis

end Traced

namespace Graph

open Traced

variable {graph : Graph} {engine : Engine} {higher : Int} {declarations : Declarations}
  {name : String}

theorem agrees_operandAt (memo : Memo Operand) (position : Nat) :
    Agrees Fault.IsDepth (graph.operandAt declarations memo position)
      (graph.operandAt declarations memo position) := by
  unfold operandAt
  split
  · exact agrees_constant _
  · exact agrees_pure _
  · exact agrees_ofExcept _

theorem agrees_derivativeAt (derivatives : Memo Operand) (position : Nat) :
    Agrees Fault.IsDepth (graph.derivativeAt name derivatives position)
      (graph.derivativeAt name derivatives position) := by
  unfold derivativeAt
  split
  · exact agrees_constant _
  · exact agrees_constant _
  · split
    · exact agrees_pure _
    · exact agrees_constant _

/-- No visit that the lower ceiling has room for is too deep for the higher one. -/
theorem agrees_checkedVisits (raised : engine.ceiling ≤ higher) :
    Agrees Fault.IsDepth (Traced.ofExcept (graph.checkedVisits engine))
      (Traced.ofExcept (graph.checkedVisits (engine.withCeiling higher))) := by
  rcases graph.checkedVisits_cases engine with ⟨shallow, visited⟩ |
    ⟨_, _, ⟨operation, rfl⟩, failed⟩
  · rcases graph.checkedVisits_cases (engine.withCeiling higher) with ⟨_, again⟩ | ⟨deep, _⟩
    · rw [visited, again]
      exact agrees_pure _
    · obtain ⟨visit, member, deep⟩ := deep
      exact absurd (Int.lt_of_le_of_lt raised deep) (shallow visit member)
  · rw [failed]
    exact fun _ => follows_allowed (Fault.isDepth_depth operation _) _

theorem agrees_specializeVisit (raised : engine.ceiling ≤ higher) (memo : Memo Operand)
    (visit : Visit) :
    Agrees Fault.IsDepth (graph.specializeVisit engine declarations memo visit)
      (graph.specializeVisit (engine.withCeiling higher) declarations memo visit) := by
  unfold specializeVisit
  split
  · exact agrees_pure memo
  · exact (agrees_mapM fun operand _ => agrees_operandAt memo operand).bind fun operands =>
      (Engine.agrees_specialize_withCeiling raised visit.depth _ operands).bind fun result =>
        agrees_pure _

theorem agrees_specializeAll (raised : engine.ceiling ≤ higher) :
    Agrees Fault.IsDepth (graph.specializeAll engine declarations)
      (graph.specializeAll (engine.withCeiling higher) declarations) :=
  (agrees_checkedVisits raised).bind fun visits =>
    agrees_foldlM (agrees_specializeVisit raised) visits []

/-- A specialization ends under a higher ceiling as it does under a lower one. -/
theorem agrees_specialize (raised : engine.ceiling ≤ higher) :
    Agrees Fault.IsDepth (graph.specialize engine declarations)
      (graph.specialize (engine.withCeiling higher) declarations) :=
  (agrees_specializeAll raised).bind fun memo => agrees_operandAt memo graph.root

theorem agrees_derivativeTerm (raised : engine.ceiling ≤ higher) (derivatives : Memo Operand)
    (depth : Nat) (call : Call) (operands : List Operand) (index : Nat) :
    Agrees Fault.IsDepth
      (graph.derivativeTerm engine name derivatives depth call operands index)
      (graph.derivativeTerm (engine.withCeiling higher) name derivatives depth call operands
        index) :=
  (Engine.agrees_differentiate_withCeiling raised (depth + 1) _ operands index).bind fun _ =>
    (agrees_derivativeAt derivatives _).bind fun _ =>
      Engine.agrees_specialize_withCeiling raised (depth + 1) "*" _

theorem agrees_differentiateVisit (raised : engine.ceiling ≤ higher)
    (memo derivatives : Memo Operand) (visit : Visit) :
    Agrees Fault.IsDepth
      (graph.differentiateVisit engine declarations memo name derivatives visit)
      (graph.differentiateVisit (engine.withCeiling higher) declarations memo name derivatives
        visit) := by
  unfold differentiateVisit
  split
  · exact agrees_pure derivatives
  · dsimp only
    split
    · exact agrees_pure derivatives
    refine (agrees_mapM fun operand _ => agrees_operandAt memo operand).bind fun operands =>
      (agrees_mapM fun index _ => agrees_derivativeTerm raised derivatives visit.depth _ operands
        index).bind fun terms => ?_
    split
    · exact agrees_pure _
    · exact (Engine.agrees_specialize_withCeiling raised (visit.depth + 1) "+" _).bind fun sum =>
        agrees_pure _

/-- A differentiation ends under a higher ceiling as it does under a lower one. -/
theorem agrees_differentiate (raised : engine.ceiling ≤ higher) :
    Agrees Fault.IsDepth (graph.differentiate engine declarations name)
      (graph.differentiate (engine.withCeiling higher) declarations name) :=
  (agrees_specializeAll raised).bind fun memo => (agrees_operandAt memo graph.root).bind fun _ =>
    (agrees_checkedVisits raised).bind fun visits =>
      (agrees_foldlM (agrees_differentiateVisit raised memo) visits []).bind fun derivatives =>
        agrees_derivativeAt derivatives graph.root

/-- The ceiling only decides between an answer and a fault. Whatever the rules are, what comes of a
graph under one ceiling comes of it under a higher one, and under every ceiling the work on a call
or on a derivative comes to its end. -/
theorem ceiling_decides (registry : Registry) (folds : Bool) :
    (∀ ceiling higher : Int, ceiling ≤ higher →
      ∀ (graph : Graph) (declarations : Declarations) (name : String),
        Outlasts (graph.specialize ⟨registry, ceiling, folds⟩ declarations).run.2
          (graph.specialize ⟨registry, higher, folds⟩ declarations).run.2 ∧
        Outlasts (graph.differentiate ⟨registry, ceiling, folds⟩ declarations name).run.2
          (graph.differentiate ⟨registry, higher, folds⟩ declarations name).run.2) ∧
    ∀ (ceiling : Int) (depth : Nat) (operation : String) (operands : List Operand),
      (∃ outcome,
        (Engine.specialize ⟨registry, ceiling, folds⟩ depth operation operands).run.2 = outcome ∧
        Engine.Halts ⟨registry, ceiling, folds⟩ depth (.specialize operation operands)
          (outcome.map some)) ∧
      ∀ index, ∃ outcome,
        (Engine.differentiate ⟨registry, ceiling, folds⟩ depth operation operands index).run.2 =
          (outcome >>= (orFault · .missingPart)) ∧
        Engine.Halts ⟨registry, ceiling, folds⟩ depth (.differentiate operation operands index)
          outcome := by
  refine ⟨fun ceiling higher raised graph declarations name => ?_,
    fun ceiling depth operation operands => ⟨?_, fun index => ?_⟩⟩
  · have above : Engine.ceiling ⟨registry, ceiling, folds⟩ ≤ higher := raised
    exact ⟨(agrees_specialize above).outlasts, (agrees_differentiate above).outlasts⟩
  · obtain ⟨outcome, ends, halts⟩ := Engine.exists_halts_specialize ⟨registry, ceiling, folds⟩
      depth operation operands
    exact ⟨outcome, ends [], halts⟩
  · obtain ⟨outcome, ends, halts⟩ := Engine.exists_halts_differentiate ⟨registry, ceiling, folds⟩
      depth operation operands index
    refine ⟨outcome, ?_, halts⟩
    rcases outcome with fault | _ | made
    · exact ends.bind_error []
    · exact ends.bind_ok (ends_throw _) []
    · exact ends.bind_ok (ends_pure made) []

/-- An operation whose rule asks for it twice, the second time for the answer of the first time. -/
def forking : Registry where
  records := [{ Record.unknown "fork" with
    specializer := some fun _ =>
      .call "fork" [] fun first => .call "fork" [first] fun second => .done (some second) }]
  frozen := false

/-- One call of another operation. -/
def leaf : Graph where
  nodes := #[.call "leaf" []]
  ordered := by
    unfold Ordered
    decide
  root := 0
  rooted := by decide

theorem leaf_postorder : leaf.postorder = [⟨0, 0⟩] := by cbv

/-- The rule that asks for its own operation ends with a fault of depth, and beside it another call
keeps its answer under a higher ceiling. -/
theorem ceiling_decides_forking :
    (leaf.specialize ⟨forking, 5, true⟩ []).run.2 = .ok ⟨.call "leaf" [], .any⟩ ∧
      Engine.Halts ⟨forking, 3, true⟩ 0 (.specialize "fork" []) (.error (.depth "fork" 3)) := by
  obtain ⟨raises, ends⟩ := ceiling_decides forking true
  have answer : (leaf.specialize ⟨forking, 0, true⟩ []).run.2 =
      .ok ⟨.call "leaf" [], .any⟩ := by
    simp only [specialize, specializeAll, checkedVisits, leaf_postorder]
    rfl
  refine ⟨(raises 0 5 (by decide) leaf [] "x").1.operand _ answer, ?_⟩
  obtain ⟨outcome, ended, halts⟩ := (ends 3 0 "fork" []).1
  have failed : (Engine.specialize ⟨forking, 3, true⟩ 0 "fork" []).run.2 =
      .error (.depth "fork" 3) := by rfl
  obtain rfl : outcome = .error (.depth "fork" 3) := ended.symm.trans failed
  exact halts

end Graph

end Narrowing
