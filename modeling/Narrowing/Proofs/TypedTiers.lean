import Narrowing.Proofs.ExactCalls
import Narrowing.Proofs.GenericPowers
import Narrowing.Proofs.TypedOperands

/-
This file carries types through conversions and through the operations of one tier.
-/

namespace Narrowing

namespace Library

theorem tierValues_constant? (tier : Tier) (operation : Operation) :
    (tierValues tier operation).primary.constant? = none := by
  unfold tierValues
  split
  · rfl
  · split
    · rfl
    · split
      · cases tier <;> rfl
      · rfl

end Library

/-- The library holds just the operations that the tiers offer. -/
theorem Registry.standard_contains_tier (tier : Tier) (operation : Operation) :
    standard.contains (tier.operationName operation) = tier.offers operation := by
  cases offered : tier.offers operation with
  | true => exact standard_contains (Library.tier_mem offered)
  | false =>
      have each : ∀ tier ∈ Tier.all, ∀ operation ∈ Operation.all, tier.offers operation = false →
          standard.contains (tier.operationName operation) = false := by decide +kernel
      exact each tier tier.mem_all operation operation.mem_all offered

namespace Tier

/-- Operands that meet in an exact tier are numbers of this tier. -/
theorem covers_of_met {left right tier : Tier} (isExact : tier.isExact = true)
    (met : left.combine right = tier ∨ (tier = .rational ∧ left.combine right = .integer)) :
    tier.covers left = true ∧ tier.covers right = true := by
  have swapped := met
  rw [combine_comm] at swapped
  exact ⟨covers_iff.mpr (eq_of_combine_exact isExact met),
    covers_iff.mpr (eq_of_combine_exact isExact swapped)⟩

/-- An exact tier of a call is the one that the generic operation chooses. -/
theorem binaryTier_exact {operation : Operation} {inexact : Bool} {tier : Tier}
    (isExact : (Plan.binaryTier operation inexact tier).isExact = true) :
    Plan.binaryTier operation inexact tier = chosen operation tier ∧ tier.isExact = true := by
  have same : Plan.binaryTier operation inexact tier = chosen operation tier := by
    change (if inexact && (chosen operation tier).isExact then float64 else _) = _
    change (if inexact && (chosen operation tier).isExact then float64 else _).isExact = _ at isExact
    split at isExact
    · cases isExact
    · rename_i kept
      rw [if_neg kept]
      rfl
  rw [same, isExact_chosen] at isExact
  exact ⟨same, isExact⟩

theorem chosen_covers (operation : Operation) (tier : Tier) :
    (chosen operation tier).covers tier = true := by
  unfold chosen
  split
  · rename_i both
    rw [both.2]
    rfl
  · exact tier.covers_self

theorem offers_unaryTier {operation : Operation} (isUnary : operation.isUnary = true)
    (tier : Tier) : (Plan.unaryTier operation tier).offers operation = true := by
  cases operation with
  | neg | abs | sqrt | exp | log | sin | cos | tan => cases tier <;> rfl
  | _ => cases isUnary

theorem unaryTier_exact {operation : Operation} {tier : Tier}
    (isExact : (Plan.unaryTier operation tier).isExact = true) :
    Plan.unaryTier operation tier = tier := by
  unfold Plan.unaryTier at isExact ⊢
  split
  · rfl
  · rename_i leaves
    rw [if_neg leaves] at isExact
    cases tier <;> cases isExact

end Tier

namespace Operand

variable {environment : Environment} {tier : Tier} {operand : Operand} {operands : List Operand}

/-- All values that operands admit together are numbers of a tier. -/
def WithinTier (tier : Tier) (operands : List Operand) : Prop :=
  ∀ values, List.Forall₂ Admits operands values →
    ∀ value ∈ values, ∃ own, value.InTier own ∧ tier.covers own = true

theorem WithinTier.cons (first : WithinTier tier [operand]) (rest : WithinTier tier operands) :
    WithinTier tier (operand :: operands) := by
  rintro _ (_ | ⟨admits, others⟩)
  refine List.forall_mem_cons.mpr ⟨?_, rest _ others⟩
  exact first [_] (.cons admits .nil) _ List.mem_cons_self

theorem within_of_each (each : ∀ value, operand.Admits value →
    ∃ own, value.InTier own ∧ tier.covers own = true) : WithinTier tier [operand] := by
  rintro _ (_ | ⟨admits, _ | _⟩)
  exact List.forall_mem_singleton.mpr (each _ admits)

theorem within_of_proves (proven : operand.ntype.proves tier.ntype = true) :
    WithinTier tier [operand] := by
  apply within_of_each
  intro value admits
  exact Ntype.exists_inTier_of_contains admits.2 (Ntype.contains_of_proves proven admits.1)

theorem within_of_ntype (type : operand.ntype = tier.ntype) : WithinTier tier [operand] := by
  apply within_of_each
  intro value admits
  exact Ntype.exists_inTier_of_contains admits.2 (type ▸ admits.1)

/-- A literal of a tier is the one value that its type holds. -/
theorem within_of_constant {literal : Value} (type : operand.ntype = .ofConstant literal)
    (inside : literal.InTier tier) : WithinTier tier [operand] := by
  apply within_of_each
  intro value admits
  have isLiteral : literal.isLiteral = true := by cases inside <;> rfl
  have constant : operand.ntype.constant? = some literal := by
    rw [type, Value.ofConstant_literal isLiteral]
    rfl
  rw [Ntype.eq_of_constant constant isLiteral admits.1]
  exact ⟨tier, inside, tier.covers_self⟩

end Operand

namespace Engine

open Traced Operand

variable {environment : Environment} {engine : Engine} {allowed : Fault → Prop}
  {operands : List Operand} {operand first second : Operand} {tier : Tier} {operation : Operation}

theorem varied_singleton : Varied [operand] ↔ operand.ntype.constant? = none := by simp [Varied]

theorem varied_pair :
    Varied [first, second] ↔ first.ntype.constant? = none ∨ second.ntype.constant? = none := by
  simp [Varied]

/-- The tier in which the values of two operands meet, as far as their types tell. -/
theorem exists_met {left right : Value} (firstNumber : first.isNumber = true)
    (secondNumber : second.isNumber = true) (found : metTier? first second = some tier)
    (firstAdmits : first.Admits left) (secondAdmits : second.Admits right) :
    ∃ leftTier rightTier, left.InTier leftTier ∧ right.InTier rightTier ∧
      (leftTier.combine rightTier = tier ∨
        (tier = .rational ∧ leftTier.combine rightTier = .integer)) := by
  obtain ⟨leftTier, leftInside⟩ := Value.exists_inTier firstAdmits.2
    (Ntype.contains_number.mp (Ntype.contains_of_proves firstNumber firstAdmits.1))
  obtain ⟨rightTier, rightInside⟩ := Value.exists_inTier secondAdmits.2
    (Ntype.contains_number.mp (Ntype.contains_of_proves secondNumber secondAdmits.1))
  exact ⟨leftTier, rightTier, leftInside, rightInside, Ntype.tier_of_contagion found firstAdmits.1
    secondAdmits.1 leftInside.tier? rightInside.tier?⟩

theorem runs_tier (offered : tier.offers operation = true) :
    Runs (Library.tierRecord tier operation) (tier.compute operation) where
  member := Library.tier_mem offered
  implemented := rfl
  single := tierValues_isSingle tier operation
  foldable := rfl
  primitive := Library.tierValues_constant? tier operation

theorem runs_coercion (inexact : tier.isExact = false) :
    Runs (Library.coercionRecord tier) (Generic.coerce tier) where
  member := by
    apply Library.coercion_mem
    cases tier with
    | integer | rational => cases inexact
    | _ => decide
  implemented := rfl
  single := rfl
  foldable := rfl
  primitive := rfl

theorem computes_tier (within : WithinTier tier operands) :
    Computes (Library.tierRecord tier operation) (tier.compute operation) operands := by
  intro values result primary admitted computed first
  rw [Registry.primaryValue_single (tierValues_isSingle tier operation)] at first
  cases first
  have each := within values admitted
  exact ⟨Tier.contains_of_compute each computed,
    fun reduced => Tier.compute_reduced each reduced computed⟩

/-- A conversion of admitted values to an inexact tier gives a number of this tier. -/
theorem inTier_of_coerce {values : List Value} {result : Value} (inexact : tier.isExact = false)
    (admitted : List.Forall₂ Admits operands values)
    (computed : Generic.coerce tier values = .ok result) : result.InTier tier := by
  obtain ⟨value, rfl⟩ : ∃ value, values = [value] := by
    match values with
    | [value] => exact ⟨value, rfl⟩
    | [] | _ :: _ :: _ => cases computed
  obtain ⟨operand, _, admits⟩ := exists_related_of_mem admitted.flip List.mem_cons_self
  exact Generic.coerce_inTier inexact admits.2 computed

theorem computes_coercion (inexact : tier.isExact = false) :
    Computes (Library.coercionRecord tier) (Generic.coerce tier) operands := by
  intro values result primary admitted computed first
  cases first
  have inside := inTier_of_coerce inexact admitted computed
  exact ⟨⟨Ntype.contains_tier_of_inTier inside tier.covers_self, inside.isStandard⟩,
    fun _ => Value.isReduced_of_inexact inside inexact⟩

/-- A conversion leaves its operand as it is, or it stays and has the type of its tier. -/
def Converts (tier : Tier) (operand made : Operand) : Prop :=
  (made = operand ∧ operand.ntype.proves tier.ntype = true) ∨ made.ntype = tier.ntype

/-- A converted operand is a number of the tier, and a literal only if it was one before. -/
structure Converted (environment : Environment) (tier : Tier) (operand made : Operand) : Prop where
  typed : made.Typed environment
  within : WithinTier tier [made]
  varied : operand.ntype.constant? = none → made.ntype.constant? = none

variable (standard : engine.registry = .standard) (folds : engine.folds = true)
  (anyway : ∀ fault, allowed fault)

include standard folds anyway

/-- The operations of a tier have no rule, so a call that stays has the declared type. -/
theorem meets_typedTier (offered : tier.offers operation = true)
    (typed : ∀ operand ∈ operands, operand.Typed environment) (within : WithinTier tier operands) :
    ∀ remaining depth,
      ((engine.level remaining depth).specialize (tier.operationName operation) operands).Meets
        allowed (Stems environment (tier.compute operation) operands fun made =>
          made.ntype = (Library.tierValues tier operation).primary) := by
  refine meets_level (fun _ => anyway _) fun remaining depth => ?_
  exact meets_stems standard folds anyway (runs_tier offered) typed (computes_tier within) rfl
    (meets_pure .ofNone)

theorem meets_typedCoercion (inexact : tier.isExact = false)
    (typed : operand.Typed environment) :
    ∀ remaining depth, ((engine.level remaining depth).specialize tier.name [operand]).Meets
      allowed (Stems environment (Generic.coerce tier) [operand] (Converts tier operand)) := by
  refine meets_level (fun _ => anyway _) fun remaining depth => ?_
  refine meets_stems standard folds anyway (runs_coercion inexact)
    (List.forall_mem_singleton.mpr typed) (computes_coercion inexact) (.inr rfl) ?_
  change (engine.follow depth _ (Rule.coercion tier) [operand]).Meets _ _
  rw [follow_coercion]
  simp only [coercionAnswer]
  split
  · rename_i proven
    exact meets_pure (.ofSome typed (.inl ⟨rfl, proven⟩))
  · exact meets_pure .ofNone

/-- A conversion to an inexact tier gives a number of this tier. -/
theorem meets_typedConverted (inexact : tier.isExact = false) (typed : operand.Typed environment)
    (remaining depth : Nat) :
    (converted (engine.level remaining depth) operand tier).Meets allowed
      (Converted environment tier operand) := by
  have named : tier.coercion? = some tier.name := by simp [Tier.coercion?, inexact]
  simp only [converted, named]
  split
  · rename_i proven
    exact meets_pure ⟨typed, within_of_proves proven, id⟩
  apply (meets_typedCoercion standard folds anyway inexact typed remaining depth).mono
  intro made stems
  refine ⟨stems.typed, ?_, ?_⟩
  · rcases stems.outcome with ⟨value, ⟨literals, found, computed⟩, _, type⟩ | ⟨_, converts⟩
    · obtain ⟨admitted, _⟩ := admits_of_literals (List.forall_mem_singleton.mpr typed) found
      exact within_of_constant type (inTier_of_coerce inexact admitted computed)
    · rcases converts with ⟨rfl, proven⟩ | type
      · exact within_of_proves proven
      · exact within_of_ntype type
  · intro isVaried
    rcases stems.varied (varied_singleton.mpr isVaried) with ⟨rfl, _⟩ | type
    · exact isVaried
    · rw [type]
      rfl

/-- The call of a tier on two operands that are converted to it. -/
theorem meets_tierAnswer (firstTyped : first.Typed environment)
    (secondTyped : second.Typed environment)
    (exactly : tier.isExact = true → WithinTier tier [first, second]) (remaining depth : Nat) :
    (engine.tierAnswer (engine.level remaining depth) tier operation first second).Meets allowed
      (Answers environment fun made => Varied [first, second] →
        made.ntype = (Library.tierValues tier operation).primary) := by
  rw [tierAnswer, standard, Registry.standard_contains_tier]
  cases offered : tier.offers operation with
  | false => exact meets_pure .ofNone
  | true =>
      rw [if_pos rfl]
      have called : ∀ left right, left.Typed environment → right.Typed environment →
          WithinTier tier [left, right] → (Varied [first, second] → Varied [left, right]) →
          (some <$> (engine.level remaining depth).specialize (tier.operationName operation)
            [left, right]).Meets allowed (Answers environment fun made => Varied [first, second] →
              made.ntype = (Library.tierValues tier operation).primary) := by
        intro left right leftTyped rightTyped within varied
        apply Meets.map
        apply (meets_typedTier standard folds anyway offered (List.forall_mem_cons.mpr
          ⟨leftTyped, List.forall_mem_singleton.mpr rightTyped⟩) within remaining depth).mono
        intro made stems
        exact .ofSome stems.typed fun isVaried => stems.varied (varied isVaried)
      cases exact : tier.isExact with
      | true =>
          simp only [converted_exact exact, pure_bind]
          exact called first second firstTyped secondTyped (exactly exact) id
      | false =>
          refine (meets_typedConverted standard folds anyway exact firstTyped remaining
            depth).bind fun left leftConverted => ?_
          refine (meets_typedConverted standard folds anyway exact secondTyped remaining
            depth).bind fun right rightConverted => ?_
          apply called left right leftConverted.typed rightConverted.typed
            (leftConverted.within.cons rightConverted.within)
          rw [varied_pair, varied_pair]
          exact Or.imp leftConverted.varied rightConverted.varied

/-- The narrowest call on two numbers has the type that the tier of the call declares. -/
theorem meets_typedBinary {inexact : Bool} (firstTyped : first.Typed environment)
    (secondTyped : second.Typed environment) (firstNumber : first.isNumber = true)
    (secondNumber : second.isNumber = true) (remaining depth : Nat) :
    (engine.binaryAnswer (engine.level remaining depth) operation inexact first second).Meets
      allowed (Answers environment fun made => Varied [first, second] →
        ∃ tier, metTier? first second = some tier ∧
          made.ntype = (Library.tierValues (Plan.binaryTier operation inexact tier)
            operation).primary) := by
  unfold binaryAnswer
  cases found : metTier? first second with
  | none => exact meets_pure .ofNone
  | some tier =>
      refine (meets_tierAnswer standard folds anyway firstTyped secondTyped ?_ remaining
        depth).mono fun answer answers => answers.mono fun made type varied =>
          ⟨tier, rfl, type varied⟩
      rintro exact _ (_ | ⟨firstAdmits, _ | ⟨secondAdmits, _ | _⟩⟩)
      obtain ⟨leftTier, rightTier, leftInside, rightInside, met⟩ :=
        exists_met firstNumber secondNumber found firstAdmits secondAdmits
      obtain ⟨chosen, tierExact⟩ := Tier.binaryTier_exact exact
      obtain ⟨leftCovered, rightCovered⟩ := Tier.covers_of_met tierExact met
      rw [chosen]
      have wider := Tier.chosen_covers operation tier
      refine List.forall_mem_cons.mpr ⟨⟨leftTier, leftInside, ?_⟩, ?_⟩
      · exact Tier.covers_trans wider leftCovered
      · exact List.forall_mem_singleton.mpr
          ⟨rightTier, rightInside, Tier.covers_trans wider rightCovered⟩

/-- The narrowest call on one number has the type that the tier of the call declares. -/
theorem meets_typedUnary (isUnary : operation.isUnary = true) (typed : operand.Typed environment)
    (remaining depth : Nat) :
    (unaryAnswer (engine.level remaining depth) operation operand).Meets allowed
      (Answers environment fun made => operand.ntype.constant? = none →
        ∃ tier, operand.ntype.tier? = some tier ∧
          made.ntype = (Library.tierValues (Plan.unaryTier operation tier) operation).primary) := by
  unfold unaryAnswer
  cases found : operand.ntype.tier? with
  | none => exact meets_pure .ofNone
  | some tier =>
      have offered := Tier.offers_unaryTier isUnary tier
      have called : ∀ argument, argument.Typed environment →
          WithinTier (Plan.unaryTier operation tier) [argument] →
          (operand.ntype.constant? = none → argument.ntype.constant? = none) →
          (some <$> (engine.level remaining depth).specialize
            ((Plan.unaryTier operation tier).operationName operation) [argument]).Meets allowed
            (Answers environment fun made => operand.ntype.constant? = none →
              ∃ own, some tier = some own ∧ made.ntype =
                (Library.tierValues (Plan.unaryTier operation own) operation).primary) := by
        intro argument argumentTyped within varied
        apply Meets.map
        apply (meets_typedTier standard folds anyway offered
          (List.forall_mem_singleton.mpr argumentTyped) within remaining depth).mono
        intro made stems
        exact .ofSome stems.typed fun isVaried =>
          ⟨tier, rfl, stems.varied (varied_singleton.mpr (varied isVaried))⟩
      simp only
      cases exact : (Plan.unaryTier operation tier).isExact with
      | true =>
          have same := Tier.unaryTier_exact exact
          rw [converted_exact exact, pure_bind]
          apply called operand typed ?_ id
          rw [same]
          exact within_of_proves (Ntype.proves_of_tier? found)
      | false =>
          refine (meets_typedConverted standard folds anyway exact typed remaining
            depth).bind fun argument converted => ?_
          exact called argument converted.typed converted.within converted.varied

end Engine

end Narrowing
