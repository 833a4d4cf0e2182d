import Narrowing.Proofs.PowerCalls
import Narrowing.Proofs.TypedArithmetic

/-
This file carries types through powers.
-/

namespace Narrowing

namespace Generic

variable {base exponent result : Value} {left right : Tier}

/-- A power of standard values is one of numbers. -/
theorem inTier_of_power (baseStandard : base.isStandard = true)
    (exponentStandard : exponent.isStandard = true) (computed : power base exponent = .ok result) :
    ∃ left right, base.InTier left ∧ exponent.InTier right := by
  obtain ⟨left, leftTier, computed⟩ := exists_of_bind computed
  obtain ⟨right, rightTier, _⟩ := exists_of_bind computed
  exact ⟨left, right, Value.inTier_of_tier? baseStandard (eq_some_of_orFault leftTier),
    Value.inTier_of_tier? exponentStandard (eq_some_of_orFault rightTier)⟩

/-- A square is as good as a product. -/
theorem exists_square (inside : base.InTier left) (computed : power base (.integer 2) = .ok result) :
    ∃ product, binary .mul base base = .ok product ∧ product.Resembles result ∧
      result.isReduced = true := by
  cases exact : left.isExact with
  | true =>
      obtain ⟨number, baseExact⟩ := inside.exists_exact exact
      obtain ⟨powerExact, reduced⟩ := @exactPower_reduced _ _ _ _ 2 baseExact rfl computed
      have square : number ^ (2 : Int) = number * number := by rw [zpow_ofNat, pow_two]
      obtain ⟨product, multiplied, meant⟩ := @binary_exact .mul _ _ _ _ _ baseExact baseExact rfl
      refine ⟨product, multiplied, ?_, reduced⟩
      exact Value.resembles_of_exact (Value.meaning?_eq_number_iff.mp meant) (square ▸ powerExact)
  | false =>
      have resultInside := smallPower_inTier inside exact (by decide) computed
      obtain ⟨converted, toTier⟩ := Value.exists_toTier inside exact exact id
      have met : left.combine left = left := Tier.combine_self left
      rw [← met] at exact toTier
      obtain ⟨product, multiplied, productInside⟩ :=
        @binary_total .mul _ _ _ _ _ _ rfl inside inside exact toTier toTier
      rw [met] at exact productInside
      exact ⟨product, multiplied, Value.resembles_of_inexact productInside resultInside exact,
        Value.isReduced_of_inexact resultInside exact⟩

/-- The first power of a number is the number, but for its bits. -/
theorem firstPower_resembles (inside : base.InTier left)
    (computed : power base (.integer 1) = .ok result) : base.Resembles result := by
  cases exact : left.isExact with
  | true =>
      obtain ⟨number, baseExact⟩ := inside.exists_exact exact
      obtain ⟨powerExact, _⟩ := @exactPower_reduced _ _ _ _ 1 baseExact rfl computed
      rw [zpow_one] at powerExact
      exact Value.resembles_of_exact baseExact powerExact
  | false =>
      exact Value.resembles_of_inexact inside (smallPower_inTier inside exact (by decide) computed)
        exact

end Generic

namespace Engine

open Traced Operand

variable {environment : Environment} {engine : Engine} {allowed : Fault → Prop}
  {operands : List Operand} {base exponent made : Operand} {tier : Tier}

theorem runs_power : Runs Library.powerRecord Generic.expt where
  member := Library.power_mem
  implemented := rfl
  single := rfl
  foldable := rfl
  primitive := rfl

theorem computes_power : Computes Library.powerRecord Generic.expt operands := by
  intro values result primary admitted computed first
  rw [@Registry.primaryValue_single Library.powerRecord rfl] at first
  cases first
  match values with
  | [] | [_] | _ :: _ :: _ :: _ => cases computed
  | [value, other] =>
      have standard := standard_of_admits admitted
      obtain ⟨left, right, baseInside, exponentInside⟩ :=
        Generic.inTier_of_power (standard value List.mem_cons_self) (standard other (by simp))
          computed
      obtain ⟨⟨own, inside⟩, reduced⟩ := Generic.power_inTier baseInside exponentInside computed
      refine ⟨⟨Ntype.contains_number.mpr ?_, inside.isStandard⟩, fun _ => reduced⟩
      rw [inside.tier?]
      rfl

/-- A product that joins two bases covers their square. -/
theorem covers_square (two : exponent.ntype.constant? = some (.integer 2))
    (joins : Joins .mul base base made) : Covers Generic.expt [base, exponent] made := by
  rintro _ result (_ | ⟨baseAdmits, _ | ⟨exponentAdmits, _ | _⟩⟩) computed
  have same := Ntype.eq_of_constant two rfl exponentAdmits.1
  subst same
  obtain ⟨left, _, inside, _⟩ := Generic.inTier_of_power baseAdmits.2 rfl computed
  obtain ⟨product, multiplied, resembles, reduced⟩ := Generic.exists_square inside computed
  exact (joins.admits _ _ product baseAdmits baseAdmits multiplied).of_loose joins.loose resembles
    reduced

/-- A base that is no literal covers its first power. -/
theorem covers_firstPower (one : exponent.ntype.constant? = some (.integer 1))
    (varied : base.ntype.constant? = none) : Covers Generic.expt [base, exponent] base := by
  rintro _ result (_ | ⟨baseAdmits, _ | ⟨exponentAdmits, _ | _⟩⟩) computed
  have same := Ntype.eq_of_constant one rfl exponentAdmits.1
  subst same
  obtain ⟨left, _, inside, _⟩ := Generic.inTier_of_power baseAdmits.2 rfl computed
  exact baseAdmits.of_resembles varied (Generic.firstPower_resembles inside computed)

/-- The tier of an exact power holds the base and the exponent. -/
theorem within_powerTier (exact : isExactPower base exponent = true) :
    WithinTier (powerTier base exponent) [base, exponent] := by
  rw [isExactPower, Bool.and_eq_true] at exact
  obtain ⟨integral, rational⟩ := exact
  unfold powerTier
  split
  · rename_i proven
    rw [Bool.and_eq_true] at proven
    exact (within_of_proves proven.1).cons (within_of_proves integral)
  · apply (within_of_proves rational).cons
    apply within_of_each
    intro value admits
    obtain ⟨own, inside, covers⟩ :=
      within_of_proves integral _ (.cons admits .nil) _ List.mem_cons_self
    exact ⟨own, inside, @Tier.covers_trans .rational .integer own rfl covers⟩

/-- The tier of an exact power covers it. -/
theorem covers_exactPower (exact : isExactPower base exponent = true)
    (type : made.ntype = (powerTier base exponent).ntype) :
    Covers Generic.expt [base, exponent] made := by
  have isExact := powerTier_isExact base exponent
  have within := within_powerTier exact
  rw [isExactPower, Bool.and_eq_true] at exact
  rintro _ result (_ | ⟨baseAdmits, _ | ⟨exponentAdmits, _ | _⟩⟩) computed
  rename_i value other
  have both := within [value, other] (.cons baseAdmits (.cons exponentAdmits .nil))
  obtain ⟨left, baseInside, baseCovered⟩ := both value List.mem_cons_self
  obtain ⟨right, exponentInside, exponentCovered⟩ := both other (by simp)
  obtain ⟨number, baseExact⟩ :=
    baseInside.exists_exact (Tier.exact_of_covers isExact baseCovered)
  obtain ⟨fraction, exponentExact⟩ :=
    exponentInside.exists_exact (Tier.exact_of_covers isExact exponentCovered)
  have integral := Ntype.whole_of_proves exact.1 exponentAdmits.1 exponentExact
  rw [← (Rat.den_eq_one_iff fraction).mp integral] at exponentExact
  obtain ⟨powerExact, _⟩ := Generic.exactPower_reduced baseExact exponentExact computed
  have held := powerTier_whole baseAdmits.1 exponentAdmits.1 baseExact exponentExact
  rw [Admits, type]
  exact ⟨contains_exact isExact powerExact (held.imp_right fun whole => den_power whole.1 whole.2),
    (Value.inTier_of_exact powerExact).isStandard⟩

/-- The inexact tier in which a base and an exponent meet covers the power. -/
theorem covers_inexactPower (baseNumber : base.isNumber = true)
    (exponentNumber : exponent.isNumber = true) (found : metTier? base exponent = some tier)
    (type : made.ntype = (Library.tierValues (Generic.powerTier tier) .expt).primary) :
    Covers Generic.expt [base, exponent] made := by
  rintro _ result (_ | ⟨baseAdmits, _ | ⟨exponentAdmits, _ | _⟩⟩) computed
  obtain ⟨left, right, baseInside, exponentInside, met⟩ :=
    exists_met baseNumber exponentNumber found baseAdmits exponentAdmits
  have same : Generic.powerTier (left.combine right) = Generic.powerTier tier := by
    rcases met with same | ⟨rational, integral⟩
    · rw [same]
    · rw [rational, integral]
      rfl
  obtain ⟨⟨own, inside⟩, _⟩ := Generic.power_inTier baseInside exponentInside computed
  refine ⟨?_, inside.isStandard⟩
  rw [type, ← same]
  cases exact : left.isExact && decide (right = .integer) with
  | false =>
      obtain ⟨⟨other, otherInside, gives⟩, _⟩ :=
        Generic.power_inexact baseInside exponentInside exact computed
      exact Tier.contains_tierValues rfl gives otherInside
  | true =>
      -- Exact powers are numbers, and so are the powers of doubles.
      rw [Bool.and_eq_true, decide_eq_true_eq] at exact
      have metExact : (left.combine right).isExact = true := by
        rw [Tier.isExact_combine, exact.1, exact.2]
        rfl
      have wide : Ntype.number.proves (Library.tierValues .float64 .expt).primary = true := by
        decide
      rw [Generic.powerTier, if_pos metExact]
      apply Ntype.contains_of_proves wide
      rw [Ntype.contains_number, inside.tier?]
      rfl

variable (standard : engine.registry = .standard) (folds : engine.folds = true)
  (anyway : ∀ fault, allowed fault)

include standard folds anyway

/-- The rule of a power answers with operands that cover it. -/
theorem meets_typedPowerAnswer (baseTyped : base.Typed environment)
    (exponentTyped : exponent.Typed environment) (remaining depth : Nat) :
    (engine.powerAnswer (engine.level remaining depth) [base, exponent]).Meets allowed
      (Answers environment fun made => Varied [base, exponent] →
        Covers Generic.expt [base, exponent] made) := by
  have baseVaries : ∀ {literal : Value}, exponent.ntype.constant? = some literal →
      Varied [base, exponent] → base.ntype.constant? = none := by
    intro literal constant varied
    refine (varied_pair.mp varied).resolve_right fun absent => ?_
    cases constant.symm.trans absent
  change (if !(base.isNumber && exponent.isNumber) then _ else _ :
    Traced (Option Operand)).Meets _ _
  split
  · exact meets_pure .ofNone
  rename_i numbers
  rw [Bool.not_eq_true', Bool.not_eq_false, Bool.and_eq_true] at numbers
  split
  · rename_i literal
    have two := exponentTyped.constant_of_isInteger literal
    apply Meets.map
    apply (meets_typedPair standard folds anyway rfl baseTyped baseTyped remaining depth).mono
    intro made stems
    apply Answers.ofSome stems.typed
    intro varied
    have bases : Varied [base, base] := varied_pair.mpr (.inl (baseVaries two varied))
    exact covers_square two (stems.varied bases bases)
  split
  · rename_i literal
    have one := exponentTyped.constant_of_isInteger literal
    exact meets_pure (.ofSome baseTyped fun varied => covers_firstPower one (baseVaries one varied))
  split
  · rename_i exact
    have isExact := powerTier_isExact base exponent
    have offered : (powerTier base exponent).offers .expt = true := by
      cases powerTier base exponent <;> rfl
    apply Meets.map
    apply (meets_typedTier standard folds anyway offered (List.forall_mem_cons.mpr
      ⟨baseTyped, List.forall_mem_singleton.mpr exponentTyped⟩) (within_powerTier exact) remaining
      depth).mono
    intro made stems
    apply Answers.ofSome stems.typed
    intro varied
    exact covers_exactPower exact ((stems.varied varied).trans (tierValues_primary isExact))
  · apply (meets_typedBinary standard folds anyway baseTyped exponentTyped numbers.1 numbers.2
      remaining depth).mono
    intro answer answers
    apply answers.mono
    intro made described varied
    obtain ⟨tier, found, type⟩ := described varied
    exact covers_inexactPower numbers.1 numbers.2 found type

/-- A specialized power covers the generic power. -/
theorem meets_typedPower (typed : ∀ operand ∈ operands, operand.Typed environment)
    (remaining depth : Nat) :
    ((engine.level remaining depth).specialize "expt" operands).Meets allowed
      fun made => made.Typed environment ∧ Covers Generic.expt operands made := by
  refine meets_level (fun _ => anyway _) (fun remaining depth => ?_) remaining depth
  refine meets_covers standard folds anyway runs_power typed computes_power ?_
  change (engine.follow depth _ Rule.power operands).Meets _ _
  rw [follow_power]
  match operands with
  | [] | [_] | _ :: _ :: _ :: _ => exact meets_throw (anyway _)
  | [base, exponent] =>
      obtain ⟨baseTyped, exponentTyped⟩ := List.forall_mem_cons.mp typed
      exact meets_typedPowerAnswer standard folds anyway baseTyped
        (List.forall_mem_singleton.mp exponentTyped) remaining (depth + 1)

end Engine

end Narrowing
