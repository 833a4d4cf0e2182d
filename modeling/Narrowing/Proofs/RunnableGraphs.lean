import Narrowing.Proofs.GraphRuns
import Narrowing.Proofs.RunnableDerivatives

/-
This file shows that specialized graphs and derivatives of graphs have only calls that run.
-/

namespace Narrowing

namespace Form

/-- The calls in the form are calls of generic operations with an accepted number of operands. -/
inductive IsAccepted : Form → Prop where
  | constant (value : Value) : IsAccepted (.constant value)
  | parameter (name : String) : IsAccepted (.parameter name)
  | call {operation : String} {operands : List Form} (member : operation ∈ genericOperations)
      (accepts : (Registry.standard.ensure operation).accepts operands.length = true)
      (each : ∀ operand ∈ operands, IsAccepted operand) : IsAccepted (.call operation operands)

end Form

namespace Graph

open Traced

variable {graph : Graph} {engine : Engine} {declarations : Declarations} {name : String}
  {position : Nat}

/-- An accepted call names a plain record that accepts its operands, which are accepted too. -/
theorem accepted_cases {operation : String} {operands : List Nat}
    (accepted : (graph.formAt position).IsAccepted)
    (calls : CallsAt graph.nodes position operation operands) :
    (∃ record ∈ Library.plainRecords, record.name = operation ∧
      record.accepts operands.length = true) ∧
      ∀ operand ∈ operands, (graph.formAt operand).IsAccepted := by
  rw [formAt_call calls] at accepted
  cases accepted with
  | call member accepts each =>
      obtain ⟨record, plain, rfl⟩ := Library.exists_plain member
      rw [Registry.standard_ensure_accepts (Library.plain_mem plain), List.length_map] at accepts
      exact ⟨⟨record, plain, rfl, accepts⟩, List.forall_mem_map.mp each⟩

theorem live_accepted (accepted : graph.toForm.IsAccepted) :
    Live graph fun position => (graph.formAt position).IsAccepted where
  root := accepted
  descends _ _ _ calls alive := (accepted_cases alive calls).2

theorem leaves_run (inhabited : declarations.AreInhabited) :
    Leaves graph declarations (fun position => (graph.formAt position).IsAccepted)
      fun _ operand => operand.Runs declarations where
  constants _ value _ _ := .ofConstant value
  parameters _ name _ _ := .ofParameter inhabited name

theorem forall_of_related {operands : List Nat} {results : List Operand} {holds : Operand → Prop}
    (related : List.Forall₂ (fun _ result => holds result) operands results) :
    ∀ result ∈ results, holds result := by
  intro result member
  obtain ⟨_, _, holdsResult⟩ := exists_related_of_mem related.flip member
  exact holdsResult

/-- A call of the graph runs after it has been specialized. -/
theorem ensures_call (standard : engine.registry = .standard) {operation : String}
    {operands : List Nat} {results : List Operand}
    (accepted : (graph.formAt position).IsAccepted)
    (calls : CallsAt graph.nodes position operation operands)
    (related : List.Forall₂ (fun _ result => result.Runs declarations) operands results)
    (depth : Nat) :
    (engine.specialize depth operation results).Ensures (Operand.Runs declarations) := by
  obtain ⟨⟨record, plain, rfl, accepts⟩, _⟩ := accepted_cases accepted calls
  refine (Engine.emits_level standard declarations _ depth).runs record results (.plain plain ?_
    (forall_of_related related))
  rw [← related.length_eq]
  exact accepts

/-- The derivatives that have been stored run. -/
def DerivativesRun (declarations : Declarations) (derivatives : Memo Operand) : Prop :=
  ∀ position derivative, derivatives.lookup position = some derivative →
    derivative.Runs declarations

variable {derivatives : Memo Operand}

theorem DerivativesRun.cons (stored : DerivativesRun declarations derivatives) {newest : Operand}
    (runs : newest.Runs declarations) :
    DerivativesRun declarations ((position, newest) :: derivatives) := by
  intro other derivative found
  rw [List.lookup_cons] at found
  split at found
  · cases found
    exact runs
  · exact stored other derivative found

theorem ensures_derivativeAt (stored : DerivativesRun declarations derivatives) (position : Nat) :
    (graph.derivativeAt name derivatives position).Ensures (Operand.Runs declarations) := by
  unfold derivativeAt
  split
  · exact Engine.ensures_constant declarations _
  · exact Engine.ensures_constant declarations _
  · split
    · rename_i derivative found
      exact meets_pure (stored position derivative found)
    · exact Engine.ensures_constant declarations _

/-- The part of a derivative that comes through one operand runs. -/
theorem ensures_derivativeTerm (standard : engine.registry = .standard) {operation : String}
    {operands : List Nat} {results : List Operand}
    (accepted : (graph.formAt position).IsAccepted)
    (calls : CallsAt graph.nodes position operation operands)
    (related : List.Forall₂ (fun _ result => result.Runs declarations) operands results)
    (stored : DerivativesRun declarations derivatives) (depth index : Nat) :
    (graph.derivativeTerm engine name derivatives depth ⟨operation, operands⟩ results
      index).Ensures (Operand.Runs declarations) := by
  obtain ⟨⟨record, plain, rfl, accepts⟩, _⟩ := accepted_cases accepted calls
  rw [related.length_eq] at accepts
  refine (Engine.ensures_differentiate standard plain accepts (forall_of_related related)
    (depth + 1) index).bind fun slope slopeRuns => ?_
  refine (ensures_derivativeAt stored _).bind fun inner innerRuns => ?_
  have emits := Engine.emits_level standard declarations
    (engine.ceiling + 1 - (depth + 1 : Nat)).toNat (depth + 1)
  exact emits.ensures_arithmeticPair .mul rfl slopeRuns innerRuns

theorem ensures_sum (standard : engine.registry = .standard) {terms : List Operand}
    (runs : ∀ term ∈ terms, term.Runs declarations) (depth : Nat) :
    (engine.specialize depth "+" terms).Ensures (Operand.Runs declarations) :=
  (Engine.emits_level standard declarations _ depth).ensures_arithmetic .add rfl
    (.inl rfl) runs

/-- A visit keeps the stored derivatives such that they run. -/
theorem ensures_differentiateVisit (standard : engine.registry = .standard)
    (inhabited : declarations.AreInhabited) (accepted : graph.toForm.IsAccepted)
    {memo : Memo Operand}
    (memoized : Memoized (fun _ operand => operand.Runs declarations) graph.postorder memo)
    {before after : List Visit} {visit : Visit}
    (whole : graph.postorder = before ++ visit :: after)
    (stored : DerivativesRun declarations derivatives) :
    (graph.differentiateVisit engine declarations memo name derivatives visit).Ensures
      (DerivativesRun declarations) := by
  have member : visit ∈ graph.postorder := by rw [whole]; simp
  obtain ⟨operation, operands, callsAt⟩ := visit_calls member
  have lives := live_accepted accepted
  have alive := lives.visit member
  have earlier : OperandsVisited graph.nodes graph.postorder visit.position :=
    operandsVisited_postorder whole
  unfold differentiateVisit
  rw [call?_eq_some_iff.mpr callsAt]
  simp only
  split
  · exact meets_pure stored
  · refine (meets_operands (leaves_run inhabited) memoized callsAt
      (lives.descends _ _ _ callsAt alive) earlier).bind fun results related => ?_
    refine (meets_mapM fun index _ => ensures_derivativeTerm standard alive callsAt related stored
      visit.depth index).bind fun terms termsRun => ?_
    have each := forall_of_related termsRun
    split
    · exact meets_pure (stored.cons (each _ List.mem_cons_self))
    · refine (ensures_sum standard each (visit.depth + 1)).bind fun sum sumRuns => ?_
      exact meets_pure (stored.cons sumRuns)

/--
Specialization and differentiation of a form of generic calls, with variables of types that are not
empty, make only calls that run.
-/
theorem emitted_runs (engine : Engine) (standard : engine.registry = .standard) (graph : Graph)
    (accepted : graph.toForm.IsAccepted) (declarations : Declarations)
    (inhabited : declarations.AreInhabited) (operand : Operand) :
    ((graph.specialize engine declarations).run.2 = .ok operand →
      operand.Runs declarations) ∧
    ∀ name, (graph.differentiate engine declarations name).run.2 = .ok operand →
      operand.Runs declarations := by
  have lives := live_accepted accepted
  have specialized : (graph.specializeAll engine declarations).Ensures
      (Memoized (fun _ operand => operand.Runs declarations) graph.postorder) :=
    meets_specializeAll lives (fun _ => trivial) (leaves_run inhabited)
      fun _ depth _ _ _ alive calls related => ensures_call standard alive calls related depth
  constructor
  · have meets : (graph.specialize engine declarations).Ensures (Operand.Runs declarations) :=
      specialized.bind fun memo memoized => meets_operandAt (leaves_run inhabited) memoized
        lives.root fun _ _ callsAt => root_visited callsAt
    exact meets.of_yields
  · intro name
    have meets : (graph.differentiate engine declarations name).Ensures
        (Operand.Runs declarations) := by
      refine specialized.bind fun memo memoized => ?_
      refine (meets_operandAt (leaves_run inhabited) memoized lives.root
        fun _ _ callsAt => root_visited callsAt).bind fun _ _ => ?_
      refine (meets_checkedVisits fun _ => trivial).bind fun visits same => ?_
      subst same
      have nothing : DerivativesRun declarations [] := nofun
      have kept : ∀ before visit after derivatives, graph.postorder = before ++ visit :: after →
          DerivativesRun declarations derivatives →
            (graph.differentiateVisit engine declarations memo name derivatives visit).Ensures
              (DerivativesRun declarations) := fun _ _ _ _ whole stored =>
        ensures_differentiateVisit standard inhabited accepted memoized whole stored
      have folded : (graph.postorder.foldlM
          (graph.differentiateVisit engine declarations memo name) []).Ensures
            (DerivativesRun declarations) := meets_foldlM nothing kept
      exact folded.bind fun _ stored => ensures_derivativeAt stored graph.root
    exact meets.of_yields

/-- A third of a variable, scaled by an exponential. -/
def scaledThird : Form :=
  .call "*" [.call "exp" [.parameter "x"], .call "/" [.parameter "y", .constant (.integer 3)]]

theorem scaledThird_isAccepted : scaledThird.IsAccepted := by
  have exponential : (Form.call "exp" [.parameter "x"]).IsAccepted :=
    .call (by decide) (by decide +kernel) (List.forall_mem_singleton.mpr (.parameter "x"))
  have third : (Form.call "/" [.parameter "y", .constant (.integer 3)]).IsAccepted :=
    .call (by decide) (by decide +kernel) (List.forall_mem_cons.mpr
      ⟨.parameter "y", List.forall_mem_singleton.mpr (.constant (.integer 3))⟩)
  exact .call (by decide) (by decide +kernel)
    (List.forall_mem_cons.mpr ⟨exponential, List.forall_mem_singleton.mpr third⟩)

theorem scaledThird_postorder :
    (ofForm scaledThird).postorder = [⟨1, 1⟩, ⟨4, 1⟩, ⟨5, 0⟩] := by cbv

/-- A single for the exponential and an integer for the third. -/
def scaledTypes : Declarations := [("x", Tier.float32.ntype), ("y", Tier.integer.ntype)]

theorem scaledTypes_areInhabited : scaledTypes.AreInhabited := by
  intro name ntype declared
  simp only [scaledTypes, List.lookup_cons, List.lookup_nil] at declared
  split at declared
  · cases declared
    rfl
  split at declared
  · cases declared
    rfl
  · cases declared

/-- The third is a fraction that turns into a single before the product; so does its slope. -/
theorem emitted_runs_scaledThird :
    (∃ operand, ((ofForm scaledThird).specialize ⟨.standard, 16, true⟩ scaledTypes).run.2 =
      .ok operand ∧ operand.Runs scaledTypes) ∧
    ∃ operand, ((ofForm scaledThird).differentiate ⟨.standard, 16, true⟩ scaledTypes "y").run.2 =
      .ok operand ∧ operand.Runs scaledTypes := by
  have accepted : (ofForm scaledThird).toForm.IsAccepted := by
    rw [toForm_ofForm]
    exact scaledThird_isAccepted
  have specializes : ((ofForm scaledThird).specialize ⟨.standard, 16, true⟩
      scaledTypes).run.2.isOk = true := by
    simp only [specialize, specializeAll, checkedVisits, scaledThird_postorder]
    decide +kernel
  have differentiates : ((ofForm scaledThird).differentiate ⟨.standard, 16, true⟩
      scaledTypes "y").run.2.isOk = true := by
    simp only [differentiate, specializeAll, checkedVisits, scaledThird_postorder]
    decide +kernel
  have runs := emitted_runs ⟨.standard, 16, true⟩ rfl (ofForm scaledThird) accepted scaledTypes
    scaledTypes_areInhabited
  obtain ⟨operand, specialized⟩ := exists_of_isOk specializes
  obtain ⟨derivative, differentiated⟩ := exists_of_isOk differentiates
  exact ⟨⟨operand, specialized, (runs operand).1 specialized⟩,
    ⟨derivative, differentiated, (runs derivative).2 "y" differentiated⟩⟩

end Graph

end Narrowing
