import Narrowing.Proofs.LiteralCalls

/-
This file bounds the types of the calls that rules make, and orders them by the types of their
operands.
-/

namespace Narrowing

namespace Library

theorem tierValues_inhabited (tier : Tier) (operation : Operation) :
    (tierValues tier operation).primary.isEmpty = false := by
  have each : ∀ tier ∈ Tier.all, ∀ operation ∈ Operation.all,
      (tierValues tier operation).primary.isEmpty = false := by decide +kernel
  exact each tier tier.mem_all operation operation.mem_all

/-- The operations of tiers give numbers, unless they compare them. -/
theorem tierValues_number {operation : Operation} (computes : operation.isComparison = false)
    (tier : Tier) : (tierValues tier operation).primary.proves .number = true := by
  have each : ∀ tier ∈ Tier.all, ∀ operation ∈ Operation.all, operation.isComparison = false →
      (tierValues tier operation).primary.proves .number = true := by decide +kernel
  exact each tier tier.mem_all operation operation.mem_all computes

variable {tier narrower : Tier}

/-- A call in a narrower tier is offered too, and it declares fewer values. -/
theorem tierValues_binary (operation : Operation) (inexact : Bool)
    (covers : tier.covers narrower = true) :
    (tierValues (Plan.binaryTier operation inexact narrower) operation).primary.proves
        (tierValues (Plan.binaryTier operation inexact tier) operation).primary = true ∧
      (Plan.binaryTier operation inexact narrower).offers operation =
        (Plan.binaryTier operation inexact tier).offers operation := by
  have each : ∀ inexact ∈ [false, true], ∀ operation ∈ Operation.all, ∀ tier ∈ Tier.all,
      ∀ narrower ∈ Tier.all, tier.covers narrower = true →
        (tierValues (Plan.binaryTier operation inexact narrower) operation).primary.proves
            (tierValues (Plan.binaryTier operation inexact tier) operation).primary = true ∧
          (Plan.binaryTier operation inexact narrower).offers operation =
            (Plan.binaryTier operation inexact tier).offers operation := by decide +kernel
  exact each inexact (by cases inexact <;> decide) operation operation.mem_all tier tier.mem_all
    narrower narrower.mem_all covers

theorem tierValues_unary (operation : Operation) (covers : tier.covers narrower = true) :
    (tierValues (Plan.unaryTier operation narrower) operation).primary.proves
      (tierValues (Plan.unaryTier operation tier) operation).primary = true := by
  have each : ∀ operation ∈ Operation.all, ∀ tier ∈ Tier.all, ∀ narrower ∈ Tier.all,
      tier.covers narrower = true →
        (tierValues (Plan.unaryTier operation narrower) operation).primary.proves
          (tierValues (Plan.unaryTier operation tier) operation).primary = true := by decide +kernel
  exact each operation operation.mem_all tier tier.mem_all narrower narrower.mem_all covers

end Library

namespace Ntype

variable {type : Ntype}

theorem isProper_of_varied (varied : type.constant? = none) (inhabited : type.isEmpty = false) :
    type.IsProper := by
  cases type with
  | singleton member => cases varied
  | primitive primitive => exact ⟨trivial, inhabited, nofun⟩

theorem isProper_tierValues (tier : Tier) (operation : Operation) :
    (Library.tierValues tier operation).primary.IsProper :=
  isProper_of_varied (Library.tierValues_constant? tier operation)
    (Library.tierValues_inhabited tier operation)

theorem narrows_ofConstant {value : Value} (isLiteral : value.isLiteral = true)
    (broken : value.IsBroken) (inside : type.contains value = true) (proper : type.IsProper) :
    Narrows (ofConstant value) type :=
  ⟨ofConstant_proves isLiteral inside, isProper_ofConstant broken, proper⟩

theorem narrows_number {value : Value} {own : Tier} (inside : value.InTier own)
    (reduced : value.isReduced = true) : Narrows (ofConstant value) .number := by
  refine narrows_ofConstant inside.isLiteral (Value.isBroken_of_reduced reduced) ?_ isProper_number
  rw [contains_number, inside.tier?]
  rfl

end Ntype

namespace Inference

open Ntype Plan

variable {operation : Operation} {implementation : Implementation} {types : List Ntype}
  {type otherwise first second : Ntype} {value : Value} {tier own : Tier} {inexact : Bool}

theorem literals?_related {literals : List Value} (found : literals? types = some literals) :
    List.Forall₂ (fun type literal => type.constant? = some literal) types literals := by
  have same := Engine.literals?_eq_inference (types.map Operand.ofType)
  rw [List.map_map] at same
  have related := Engine.literals?_related (same.trans (List.map_id types ▸ found))
  exact List.forall₂_map_left_iff.mp related

theorem literals?_varied (member : type ∈ types) (varied : type.constant? = none) :
    literals? types = none := by
  cases found : literals? types with
  | none => rfl
  | some literals =>
      obtain ⟨literal, _, constant⟩ := exists_related_of_mem (literals?_related found) member
      cases varied.symm.trans constant

/-- An implementation has a value on literals. -/
def FoldsTo (implementation : Implementation) (types : List Ntype) (value : Value) : Prop :=
  ∃ literals, literals? types = some literals ∧ implementation literals = .ok value

theorem FoldsTo.single (folds : FoldsTo implementation [type] value) :
    ∃ literal, type.constant? = some literal ∧ implementation [literal] = .ok value := by
  obtain ⟨literals, found, computed⟩ := folds
  rcases literals?_related found with _ | ⟨constant, _ | _⟩
  exact ⟨_, constant, computed⟩

theorem FoldsTo.pair (folds : FoldsTo implementation [first, second] value) :
    ∃ left right, first.constant? = some left ∧ second.constant? = some right ∧
      implementation [left, right] = .ok value := by
  obtain ⟨literals, found, computed⟩ := folds
  rcases literals?_related found with _ | ⟨firstConstant, _ | ⟨secondConstant, _ | _⟩⟩
  exact ⟨_, _, firstConstant, secondConstant, computed⟩

theorem foldsTo_pair {left right : Value} (firstConstant : first.constant? = some left)
    (secondConstant : second.constant? = some right)
    (computed : implementation [left, right] = .ok value) :
    FoldsTo implementation [first, second] value := by
  refine ⟨[left, right], ?_, computed⟩
  simp only [literals?, List.mapM_cons, firstConstant, secondConstant]
  rfl

theorem foldsTo_single {literal : Value} (constant : type.constant? = some literal)
    (computed : implementation [literal] = .ok value) : FoldsTo implementation [type] value := by
  refine ⟨[literal], ?_, computed⟩
  simp only [literals?, List.mapM_cons, constant]
  rfl

/-- A call folds, or it has the type that it has otherwise. -/
theorem folded_cases (implementation : Implementation) (types : List Ntype) (otherwise : Ntype) :
    (∃ value, FoldsTo implementation types value ∧
        folded implementation types otherwise = .ofConstant value) ∨
      ((∀ value, ¬FoldsTo implementation types value) ∧
        folded implementation types otherwise = otherwise) := by
  cases found : literals? types with
  | none =>
      refine .inr ⟨?_, folded_of_none found⟩
      rintro value ⟨literals, same, _⟩
      cases found.symm.trans same
  | some literals =>
      cases computed : implementation literals with
      | ok value => exact .inl ⟨value, ⟨literals, found, computed⟩, folded_of_ok found computed⟩
      | error fault =>
          refine .inr ⟨?_, folded_of_error found computed⟩
          rintro value ⟨others, same, impossible⟩
          cases found.symm.trans same
          cases computed.symm.trans impossible

/-- A conversion gives numbers of its tier. -/
theorem coercion_narrows (isInexact : tier.isExact = false) (proper : type.IsProper) :
    Narrows (coercion tier type) tier.ntype := by
  unfold coercion
  rcases folded_cases (Generic.coerce tier) [type]
    (if type.proves tier.ntype then type else tier.ntype) with ⟨value, folds, same⟩ | ⟨_, same⟩
  · rw [same]
    obtain ⟨literal, constant, computed⟩ := folds.single
    obtain ⟨own, found, _⟩ := exists_of_bind computed
    have number := eq_some_of_orFault found
    have standard := Value.inTier_standardized (proper.isLiteral constant number) number
    have inside := Generic.coerce_inTier isInexact standard.isStandard
      (Generic.coerce_standardized computed)
    exact narrows_ofConstant inside.isLiteral (Value.isBroken_of_inexact inside.tier? isInexact)
      (contains_tier_of_inTier inside tier.covers_self) (isProper_tier tier)
  · rw [same]
    split
    · rename_i proven
      exact ⟨proven, proper, isProper_tier tier⟩
    · exact (isProper_tier tier).refl

theorem converted_exact (isExact : tier.isExact = true) (type : Ntype) :
    converted tier type = type := by
  unfold converted
  rw [isExact]
  rfl

theorem converted_narrows (isInexact : tier.isExact = false) (proper : type.IsProper) :
    Narrows (converted tier type) tier.ntype := by
  unfold converted
  split
  · rename_i proven
    rw [isInexact, Bool.false_or] at proven
    exact ⟨proven, proper, isProper_tier tier⟩
  · exact coercion_narrows isInexact proper

theorem converted_varied (tier : Tier) (varied : type.constant? = none) :
    (converted tier type).constant? = none := by
  unfold converted coercion
  split
  · exact varied
  · rw [folded_of_none (literals?_varied List.mem_cons_self varied)]
    split
    · exact varied
    · rfl

/-- A call of an inexact tier on numbers of the tier gives values that it declares. -/
theorem tierCall_narrows (isInexact : tier.isExact = false)
    (each : ∀ type ∈ types, Narrows type tier.ntype) :
    Narrows (tierCall tier operation types) (Library.tierValues tier operation).primary := by
  have proper := isProper_tierValues tier operation
  unfold tierCall
  rcases folded_cases (tier.compute operation) types (Library.tierValues tier operation).primary
    with ⟨value, ⟨literals, found, computed⟩, same⟩ | ⟨_, same⟩
  · rw [same]
    have literal : ∀ literal ∈ literals, literal.isLiteral = true ∧ literal.tier? = some tier := by
      intro literal member
      obtain ⟨type, among, constant⟩ :=
        exists_related_of_mem (literals?_related found).flip member
      have narrows := each type among
      obtain ⟨own, number⟩ :=
        exists_tier_of_constant (proves_number_of_tier narrows.proven) constant
      have isLiteral := narrows.innerProper.isLiteral constant number
      refine ⟨isLiteral, ?_⟩
      have inside := contains_of_proves narrows.proven (contains_constant constant isLiteral)
      refine (contains_tier.mp inside).resolve_right fun impossible => ?_
      rw [impossible.1] at isInexact
      cases isInexact
    obtain ⟨inside, isLiteral, broken⟩ := Tier.contains_of_literals isInexact literal computed
    exact narrows_ofConstant isLiteral broken inside proper
  · rw [same]
    exact proper.refl

theorem tierCall_of_stays (stays : ∀ value, ¬FoldsTo (tier.compute operation) types value) :
    tierCall tier operation types = (Library.tierValues tier operation).primary := by
  unfold tierCall
  rcases folded_cases (tier.compute operation) types (Library.tierValues tier operation).primary
    with ⟨value, folds, _⟩ | ⟨_, same⟩
  · exact absurd folds (stays value)
  · exact same

theorem tierCall_of_varied (member : type ∈ types) (varied : type.constant? = none) :
    tierCall tier operation types = (Library.tierValues tier operation).primary :=
  folded_of_none (literals?_varied member varied)

/-- An exact tier in which two types meet computes nothing on their literals. -/
def Steady (operation : Operation) (inexact : Bool) (first second : Ntype) : Prop :=
  ∀ met, (first.contagion second).ntype.tier? = some met →
    (binaryTier operation inexact met).isExact = true →
      ∀ value, ¬FoldsTo ((binaryTier operation inexact met).compute operation) [first, second] value

/-- The narrowest call on two operands gives values that its tier declares. -/
theorem binaryCall_narrows {met : Tier} (firstProper : first.IsProper)
    (secondProper : second.IsProper) (steady : Steady operation inexact first second)
    (found : (first.contagion second).ntype.tier? = some met)
    (offered : (binaryTier operation inexact met).offers operation = true) :
    ∃ call, binaryCall operation inexact first second = some call ∧
      Narrows call (Library.tierValues (binaryTier operation inexact met) operation).primary := by
  unfold binaryCall
  simp only [found, offered, if_true, Option.some.injEq, exists_eq_left']
  cases exact : (binaryTier operation inexact met).isExact with
  | false =>
      apply tierCall_narrows exact
      simp only [List.forall_mem_cons, List.not_mem_nil, false_implies, implies_true, and_true]
      exact ⟨converted_narrows exact firstProper, converted_narrows exact secondProper⟩
  | true =>
      rw [converted_exact exact, converted_exact exact, tierCall_of_stays (steady met found exact)]
      exact (isProper_tierValues _ _).refl

/-- The narrowest call on two operands gives a number, unless it compares them. -/
theorem binaryCall_bounded {call : Ntype} (computes : operation.isComparison = false)
    (firstProper : first.IsProper) (secondProper : second.IsProper)
    (steady : Steady operation inexact first second)
    (called : binaryCall operation inexact first second = some call) : Narrows call .number := by
  cases found : (first.contagion second).ntype.tier? with
  | none =>
      simp only [binaryCall, found] at called
      cases called
  | some met =>
      cases offered : (binaryTier operation inexact met).offers operation with
      | false =>
          simp only [binaryCall, found, offered] at called
          cases called
      | true =>
          obtain ⟨other, same, bounded⟩ :=
            binaryCall_narrows firstProper secondProper steady found offered
          cases called.symm.trans same
          exact bounded.trans ⟨Library.tierValues_number computes _, isProper_tierValues _ _,
            isProper_number⟩

/-- The call on operands that are not both known declares the values of its tier. -/
theorem binaryCall_of_varied {call : Ntype}
    (varied : first.constant? = none ∨ second.constant? = none)
    (called : binaryCall operation inexact first second = some call) :
    ∃ met, (first.contagion second).ntype.tier? = some met ∧
      (binaryTier operation inexact met).offers operation = true ∧
        call = (Library.tierValues (binaryTier operation inexact met) operation).primary := by
  unfold binaryCall at called
  cases found : (first.contagion second).ntype.tier? with
  | none =>
      rw [found] at called
      cases called
  | some met =>
      simp only [found] at called
      split at called
      · rename_i offered
        refine ⟨met, rfl, offered, (Option.some.inj called).symm.trans ?_⟩
        rcases varied with absent | absent
        · exact tierCall_of_varied List.mem_cons_self (converted_varied _ absent)
        · exact tierCall_of_varied (List.mem_cons_of_mem _ List.mem_cons_self)
            (converted_varied _ absent)
      · cases called

/-- Narrower operands have a narrower call. -/
theorem binaryCall_monotone {wideFirst wideSecond wide : Ntype}
    (narrows : Narrows first wideFirst) (others : Narrows second wideSecond)
    (firstNumber : wideFirst.proves .number = true)
    (secondNumber : wideSecond.proves .number = true)
    (varied : wideFirst.constant? = none ∨ wideSecond.constant? = none)
    (steady : Steady operation inexact first second)
    (called : binaryCall operation inexact wideFirst wideSecond = some wide) :
    ∃ call, binaryCall operation inexact first second = some call ∧ Narrows call wide := by
  obtain ⟨met, found, offered, rfl⟩ := binaryCall_of_varied varied called
  obtain ⟨narrower, narrowerFound, covers⟩ :=
    narrows.exists_met others firstNumber secondNumber found
  obtain ⟨declared, sameOffer⟩ := Library.tierValues_binary operation inexact covers
  obtain ⟨call, made, bounded⟩ := binaryCall_narrows narrows.innerProper others.innerProper steady
    narrowerFound (sameOffer.trans offered)
  exact ⟨call, made, bounded.trans
    ⟨declared, isProper_tierValues _ _, isProper_tierValues _ _⟩⟩

/-- The narrowest call on one operand gives values that its tier declares. -/
theorem unaryCall_narrows (proper : type.IsProper) (found : type.tier? = some own)
    (steady : (unaryTier operation own).isExact = true →
      ∀ value, ¬FoldsTo ((unaryTier operation own).compute operation) [type] value) :
    ∃ call, unaryCall operation type = some call ∧
      Narrows call (Library.tierValues (unaryTier operation own) operation).primary := by
  unfold unaryCall
  simp only [found, Option.some.injEq, exists_eq_left']
  cases exact : (unaryTier operation own).isExact with
  | false =>
      apply tierCall_narrows exact
      exact List.forall_mem_singleton.mpr (converted_narrows exact proper)
  | true =>
      rw [converted_exact exact, tierCall_of_stays (steady exact)]
      exact (isProper_tierValues _ _).refl

theorem unaryCall_of_varied {call : Ntype} (varied : type.constant? = none)
    (called : unaryCall operation type = some call) :
    ∃ own, type.tier? = some own ∧
      call = (Library.tierValues (unaryTier operation own) operation).primary := by
  unfold unaryCall at called
  cases found : type.tier? with
  | none =>
      rw [found] at called
      cases called
  | some own =>
      simp only [found] at called
      refine ⟨own, rfl, (Option.some.inj called).symm.trans ?_⟩
      exact tierCall_of_varied List.mem_cons_self (converted_varied _ varied)

end Inference

end Narrowing
