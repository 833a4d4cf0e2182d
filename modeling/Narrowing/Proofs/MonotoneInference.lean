import Narrowing.Proofs.NarrowerChains
import Narrowing.Proofs.NarrowerPowers
import Narrowing.Proofs.TypeSoundness

/-
This file shows that variables of narrower types do not widen the type that specialization finds.
Products of more than three operands may start again after a zero.
-/

namespace Narrowing

/-- Two lists that relate to the same items relate to each other. -/
theorem forall₂_of_common {Item First Second : Type} {left : Item → First → Prop}
    {right : Item → Second → Prop} {relates : First → Second → Prop} {items : List Item}
    {firsts : List First} {seconds : List Second} (lefts : List.Forall₂ left items firsts)
    (rights : List.Forall₂ right items seconds)
    (holds : ∀ item first second, left item first → right item second → relates first second) :
    List.Forall₂ relates firsts seconds := by
  induction lefts generalizing seconds with
  | nil =>
      cases rights
      exact .nil
  | cons leftHolds _ inductionHypothesis =>
      cases rights with
      | cons rightHolds rights =>
          exact .cons (holds _ _ _ leftHolds rightHolds) (inductionHypothesis rights)

namespace Engine

open Traced Ntype

variable {engine : Engine} {operation : String} {results others : List Operand} {made wide : Operand}

/-- A call on narrower operands has a narrower type, unless products have started again. -/
theorem call_monotone (standard : engine.registry = .standard) (folds : engine.folds = true)
    (member : operation ∈ Form.genericOperations) {depth wideDepth : Nat}
    (narrows : List.Forall₂ Narrows (results.map (·.ntype)) (others.map (·.ntype)))
    (reaches : (engine.specialize depth operation results).Reaches made)
    (wideReaches : (engine.specialize wideDepth operation others).Reaches wide)
    (steady : operation = "*" → ¬Operand.Restarts others wide) : Narrows made.ntype wide.ntype := by
  -- Both runs have the type that is inferred from their operands, whatever the depth.
  have anyway : ∀ fault : Fault, True := fun _ => trivial
  simp only [Form.genericOperations, List.mem_append, or_assoc] at member
  rcases member with arithmetic | function | single | comparison | conversion
  · obtain ⟨operation, found, rfl⟩ := List.mem_map.mp arithmetic
    have isArithmetic : operation.isArithmetic = true := by
      revert found
      cases operation <;> decide
    have type := (meets_inferredArithmetic standard folds anyway isArithmetic _ _).of_reaches reaches
    have wideType :=
      (meets_inferredArithmetic standard folds anyway isArithmetic _ _).of_reaches wideReaches
    rw [type, wideType]
    refine Inference.arithmetic_monotone isArithmetic narrows ?_
    rintro ⟨rfl, longer, ⟨_, typeAmong, absent⟩, literal⟩
    obtain ⟨operand, among, rfl⟩ := List.mem_map.mp typeAmong
    refine steady rfl ⟨by simpa using longer, ⟨operand, among, absent⟩, ?_⟩
    unfold Operand.IsComplexLiteral
    rwa [wideType]
  · obtain ⟨operation, found, rfl⟩ := List.mem_map.mp function
    rw [(meets_inferredFunction standard folds anyway found _ _).of_reaches reaches,
      (meets_inferredFunction standard folds anyway found _ _).of_reaches wideReaches]
    exact Inference.function_monotone found narrows
  · simp only [List.mem_cons, List.not_mem_nil, or_false] at single
    rcases single with rfl | rfl
    · rw [(meets_inferredPower standard folds anyway _ _).of_reaches reaches,
        (meets_inferredPower standard folds anyway _ _).of_reaches wideReaches]
      exact Inference.power_monotone narrows
    · rw [(meets_inferredFloor standard folds anyway _ _).of_reaches reaches,
        (meets_inferredFloor standard folds anyway _ _).of_reaches wideReaches]
      exact (isProper_tier .integer).refl
  · obtain ⟨operation, found, rfl⟩ := List.mem_map.mp comparison
    rw [(meets_inferredComparison standard folds anyway found _ _).of_reaches reaches,
      (meets_inferredComparison standard folds anyway found _ _).of_reaches wideReaches]
    have compares : operation.isComparison = true := by
      revert found
      cases operation <;> decide
    exact Inference.comparison_monotone compares narrows
  · obtain ⟨tier, found, rfl⟩ := List.mem_map.mp conversion
    have inexact : tier.isExact = false := by
      revert found
      cases tier <;> decide
    rw [(meets_inferredConversion standard folds anyway inexact _ _).of_reaches reaches,
      (meets_inferredConversion standard folds anyway inexact _ _).of_reaches wideReaches]
    exact Inference.conversion_monotone inexact narrows

end Engine

/-- All variables are declared with types that lie in the types of the other declarations. -/
def Declarations.Narrows (narrow wide : Declarations) : Prop :=
  ∀ name, Ntype.Narrows ((narrow.lookup name).getD .universal) ((wide.lookup name).getD .universal)

theorem Declarations.narrows_single (name : String) {inner outer : Ntype}
    (narrows : Ntype.Narrows inner outer) :
    Declarations.Narrows [(name, inner)] [(name, outer)] := by
  intro other
  by_cases same : other = name
  · subst same
    simpa only [List.lookup_cons, beq_self_eq_true, Option.getD_some] using narrows
  · simp only [List.lookup_cons, beq_false_of_ne same, List.lookup_nil]
    exact (Ntype.isProper_primitive (by decide)).refl

namespace Form

/-- A form of generic operations has no fractions with denominator one among its literals. -/
inductive IsInferable : Form → Prop where
  | constant {value : Value} (broken : value.IsBroken) : IsInferable (.constant value)
  | parameter (name : String) : IsInferable (.parameter name)
  | call {operation : String} {operands : List Form} (member : operation ∈ genericOperations)
      (each : ∀ operand ∈ operands, IsInferable operand) : IsInferable (.call operation operands)

variable {engine : Engine} {narrow wide : Declarations}

/-- A form has a narrower type when its variables do, unless products have started again. -/
theorem Specializes.monotone (standard : engine.registry = .standard) (folds : engine.folds = true)
    (narrows : narrow.Narrows wide) {form : Form} {made other : Operand}
    (specializes : form.Specializes engine narrow made) (inferable : form.IsInferable)
    (others : form.Specializes engine wide other) (steady : ¬form.Restarts engine wide) :
    Ntype.Narrows made.ntype other.ntype := by
  -- The induction follows the narrow run, and the wide run is inverted along with it.
  induction specializes generalizing other with
  | constant value =>
      cases inferable with
      | constant broken =>
          cases others
          exact (Ntype.isProper_ofConstant broken).refl
  | parameter name =>
      cases others
      exact narrows name
  | @call depth operation operands results made same each specialized inductionHypothesis =>
      cases inferable with
      | call member operandsInferable =>
          cases others with
          | @call wideDepth _ _ wideResults _ wideSame wideEach wideSpecialized =>
              have wides : List.Forall₂ (Specializes engine wide) operands wideResults :=
                List.forall₂_iff_zip.mpr ⟨wideSame, fun among => wideEach _ among⟩
              have bounds : List.Forall₂ (fun form result => ∀ other,
                  form.Specializes engine wide other → Ntype.Narrows result.ntype other.ntype)
                  operands results := by
                refine List.forall₂_iff_zip.mpr ⟨same, fun {form result} among other others => ?_⟩
                have member := (List.of_mem_zip among).1
                exact inductionHypothesis (form, result) among (operandsInferable form member) others
                  fun restarts => steady (.within member restarts)
              have operandsNarrow : List.Forall₂ Ntype.Narrows (results.map (·.ntype))
                  (wideResults.map (·.ntype)) :=
                List.forall₂_map_left_iff.mpr (List.forall₂_map_right_iff.mpr
                  (forall₂_of_common bounds wides fun _ _ other bound => bound other))
              apply Engine.call_monotone standard folds member operandsNarrow specialized
                wideSpecialized
              rintro rfl restarts
              exact steady (.product wides wideSpecialized restarts)

end Form

namespace Graph

/--
Variables of narrower types have a graph with a narrower type, unless some product of more than
three operands has started again.
-/
theorem specialize_monotone (engine : Engine) (standard : engine.registry = .standard)
    (folds : engine.folds = true) (graph : Graph) (inferable : graph.toForm.IsInferable)
    (narrow wide : Declarations) (narrows : narrow.Narrows wide)
    (steady : ¬graph.toForm.Restarts engine wide) (first second : Operand)
    (specialized : (graph.specialize engine narrow).run.2 = .ok first)
    (wideSpecialized : (graph.specialize engine wide).run.2 = .ok second) :
    first.ntype.proves second.ntype = true :=
  ((specializes_of_run specialized).monotone standard folds narrows inferable
    (specializes_of_run wideSpecialized) steady).proven

theorem swallowedForm_isInferable {later : List Form}
    (each : ∀ form ∈ later, form.IsInferable) : (swallowedForm later).IsInferable := by
  apply Form.IsInferable.call (by decide)
  simp only [List.cons_append, List.nil_append, List.forall_mem_cons]
  exact ⟨.parameter "x", .constant nofun, .constant nofun, each⟩

theorem three_narrows : Ntype.Narrows (.singleton (.integer 3)) (.primitive .rational) :=
  ⟨by decide, @Ntype.isProper_ofConstant (.integer 3) nofun,
    Ntype.isProper_primitive (by decide)⟩

/-- The product is computed for a variable that is three, and simplified for a rational one. -/
theorem specialize_monotone_swallowed :
    ∃ first second,
      ((ofForm (swallowedForm [])).specialize ⟨.standard, 16, true⟩
        [("x", .singleton (.integer 3))]).run.2 = .ok first ∧
      ((ofForm (swallowedForm [])).specialize ⟨.standard, 16, true⟩
        [("x", .primitive .rational)]).run.2 = .ok second ∧
      first.ntype.proves second.ntype = true := by
  have succeeds : ((ofForm (swallowedForm [])).specialize ⟨.standard, 16, true⟩
      [("x", .singleton (.integer 3))]).run.2.isOk = true := by
    simp only [specialize, specializeAll, checkedVisits, swallowedForm_postorder]
    decide +kernel
  have wideSucceeds : ((ofForm (swallowedForm [])).specialize ⟨.standard, 16, true⟩
      [("x", .primitive .rational)]).run.2.isOk = true := by
    simp only [specialize, specializeAll, checkedVisits, swallowedForm_postorder]
    decide +kernel
  obtain ⟨first, specialized⟩ := exists_of_isOk succeeds
  obtain ⟨second, wideSpecialized⟩ := exists_of_isOk wideSucceeds
  have inferable : (ofForm (swallowedForm [])).toForm.IsInferable := by
    rw [toForm_ofForm]
    exact swallowedForm_isInferable (List.forall_mem_nil _)
  have steady : ¬(ofForm (swallowedForm [])).toForm.Restarts ⟨.standard, 16, true⟩
      [("x", .primitive .rational)] := by
    rw [toForm_ofForm]
    exact swallowedForm_steady _ _
  exact ⟨first, second, specialized, wideSpecialized,
    specialize_monotone ⟨.standard, 16, true⟩ rfl rfl (ofForm (swallowedForm [])) inferable _ _
      (Declarations.narrows_single "x" three_narrows) steady first second specialized
      wideSpecialized⟩

/-- With one more factor the two literals have zeros of different signs. -/
theorem specialize_widens_restarted :
    ∃ first second,
      ((ofForm (swallowedForm [.constant (.integer (-1))])).specialize ⟨.standard, 16, true⟩
        [("x", .singleton (.integer 3))]).run.2 = .ok first ∧
      ((ofForm (swallowedForm [.constant (.integer (-1))])).specialize ⟨.standard, 16, true⟩
        [("x", .primitive .rational)]).run.2 = .ok second ∧
      first.ntype.proves second.ntype = false := by
  apply exists_both
  simp only [specialize, specializeAll, checkedVisits, restartedForm_postorder]
  decide +kernel

end Graph

end Narrowing
