import Narrowing.Proofs.ExactCalls
import Narrowing.Proofs.ExactPowers

/-
This file shows which specialized powers of exact numbers stay exact.
-/

namespace Narrowing

/-- Integers below zero lie in the first bands. -/
theorem Atom.ofInt_negative {value : Int} (negative : value < 0) :
    ∃ index : Fin 15, index.val ≤ 4 ∧ Atom.ofInt value = .band index := by
  refine ⟨_, ?_, rfl⟩
  have cuts : integerCuts = integerCuts.take 4 ++ integerCuts.drop 4 :=
    (List.take_append_drop 4 integerCuts).symm
  have later : (integerCuts.drop 4).countP (fun cut : Int => decide (cut ≤ value)) = 0 := by
    rw [List.countP_eq_zero]
    intro cut member
    have positive : (0 : Int) ≤ cut := by
      revert cut
      decide
    simp only [decide_eq_true_eq]
    omega
  simp only
  rw [cuts, List.countP_append, later]
  exact List.countP_le_length

/-- An exact number of the type of natural exponents is not negative. -/
theorem Ntype.natural_of_contains {value : Value} {count : Int}
    (inside : Rule.naturalExponent.contains value = true)
    (exact : value.exactNumber? = some (count : Rat)) : 0 ≤ count := by
  by_contra negative
  obtain ⟨index, low, same⟩ := Atom.ofInt_negative (Int.not_le.mp negative)
  have whole : value.whole? = some count := by
    rcases Value.exact_cases exact with ⟨whole, rfl, equal⟩ | rfl
    · exact congrArg some (by exact_mod_cast equal.symm)
    · simp [Value.whole?]
  have integral : value.tier? = some .integer :=
    (Value.tier?_integer_iff exact).mpr (Rat.den_intCast count)
  have atom : value.atom = .band index := by
    simp only [Value.atom, integral, Value.numberAtom, whole, Option.getD_some, same]
  have outside : ∀ index : Fin 15, index.val ≤ 4 →
      (Primitive.integers .unsigned64).atoms.contains (.band index) = false := by decide
  rw [Rule.naturalExponent, Ntype.contains_primitive, atom, outside index low] at inside
  cases inside

/-- Natural powers of whole numbers are whole. -/
theorem den_power {number : Rat} {count : Int} (integral : number.den = 1) (natural : 0 ≤ count) :
    (number ^ count).den = 1 := by
  obtain ⟨integer, rfl⟩ : ∃ integer : Int, number = integer :=
    ⟨number.num, ((Rat.den_eq_one_iff number).mp integral).symm⟩
  rw [← Int.toNat_of_nonneg natural, zpow_natCast, ← Int.cast_pow]
  exact Rat.den_intCast _

namespace Engine

open Traced

variable {environment : Environment} {engine : Engine} {allowed : Fault → Prop}
  {base exponent : Operand} {number : Rat} {count : Int}

/-- Powers of exact tiers keep their meaning. -/
theorem meets_tierPower (standard : engine.registry = .standard)
    (deep : ∀ operation, allowed (.depth operation engine.ceiling)) {tier : Tier}
    (isExact : tier.isExact = true) (baseSound : base.Sound environment (.number number))
    (exponentSound : exponent.Sound environment (.number count))
    (defined : ¬(number = 0 ∧ count < 0))
    (held : tier = .rational ∨ (number.den = 1 ∧ 0 ≤ count)) :
    ∀ remaining depth,
      ((engine.level remaining depth).specialize (tier.operationName .expt)
        [base, exponent]).Meets allowed (Operand.Sound environment · (.number (number ^ count))) := by
  have offered : tier.offers .expt = true := by cases tier <;> rfl
  refine meets_level deep fun remaining depth => ?_
  refine meets_sound standard (Library.tier_mem offered) rfl (tierValues_isSingle tier .expt)
    rfl (.cons baseSound (.cons exponentSound .nil)) ?_ (meets_pure .none)
  rintro _ (_ | ⟨baseMeant, _ | ⟨exponentMeant, _ | _⟩⟩)
  rw [Value.meaning?_eq_number_iff] at baseMeant exponentMeant
  have typed : ∀ result : Value, result.exactNumber? = some (number ^ count) →
      (Library.tierRecord tier .expt).values.primary.contains result = true := by
    intro result exact
    have primary : (Library.tierRecord tier .expt).values.primary = tier.ntype :=
      tierValues_primary isExact
    rw [primary]
    exact contains_exact isExact exact (held.imp_right fun whole => den_power whole.1 whole.2)
  cases tier with
  | integer =>
      obtain ⟨_, positive⟩ := held.resolve_left (by decide)
      obtain ⟨result, computed, exact⟩ :=
        Generic.integerPower_exact baseMeant exponentMeant positive
      exact ⟨result, computed, typed result exact, Value.meaning?_eq_number_iff.mpr exact⟩
  | rational =>
      have exact := Value.exactNumber?_ofRat (number ^ count)
      exact ⟨_, Value.rationalPower_exact baseMeant exponentMeant defined, typed _ exact,
        Value.meaning?_eq_number_iff.mpr exact⟩
  | _ => cases isExact

end Engine

namespace Ntype

/-- Exact bases leave the exact tiers for exponents that may but need not be whole. -/
def losesPowers (base exponent : Ntype) : Bool :=
  base.proves Tier.rational.ntype && exponent.proves Tier.rational.ntype &&
    !exponent.proves Tier.integer.ntype

/-- The exact values of a type of integers are whole. -/
theorem whole_of_proves {ntype : Ntype} {value : Value} {number : Rat}
    (proven : ntype.proves Tier.integer.ntype = true) (inside : ntype.contains value = true)
    (exact : value.exactNumber? = some number) : number.den = 1 := by
  rcases contains_tier.mp (contains_of_proves proven inside) with integral | ⟨impossible, _⟩
  · exact (Value.tier?_integer_iff exact).mp integral
  · cases impossible

end Ntype

namespace Engine

open Traced

variable {environment : Environment} {engine : Engine} {allowed : Fault → Prop}
  {base exponent : Operand} {number : Rat} {count : Int}

/-- Two exact operands that meet in a tier have exact types. -/
theorem proves_rational_of_metTier? {first second : Operand} {left right : Rat} {tier : Tier}
    (firstSound : first.Sound environment (.number left))
    (secondSound : second.Sound environment (.number right))
    (numbers : (first.isNumber && second.isNumber) = true)
    (found : metTier? first second = some tier) :
    first.ntype.proves Tier.rational.ntype = true ∧
      second.ntype.proves Tier.rational.ntype = true := by
  have isExact : tier.isExact = true := by
    rcases metTier?_exact firstSound secondSound found with rfl | ⟨rfl, _⟩ <;> rfl
  obtain ⟨value, ⟨_, inside⟩, meant⟩ := firstSound
  obtain ⟨other, ⟨_, otherInside⟩, otherMeant⟩ := secondSound
  rw [Value.meaning?_eq_number_iff] at meant otherMeant
  rw [Bool.and_eq_true] at numbers
  have left := Ntype.proves_of_contagion numbers.1 found isExact (Ntype.contains_cover otherInside)
    ((Value.atom_tier? other).trans (Value.tier?_of_exact otherMeant))
  have right := Ntype.proves_of_contagion_right numbers.2 found isExact
    (Ntype.contains_cover inside) ((Value.atom_tier? value).trans (Value.tier?_of_exact meant))
  exact ⟨Ntype.proves_rational_of_exact isExact left, Ntype.proves_rational_of_exact isExact right⟩

theorem powerTier_isExact (base exponent : Operand) : (powerTier base exponent).isExact = true := by
  unfold powerTier
  split <;> rfl

/-- The integer tier computes powers of whole numbers with natural exponents only. -/
theorem powerTier_whole {value other : Value} (inside : base.ntype.contains value = true)
    (otherInside : exponent.ntype.contains other = true) (exact : value.exactNumber? = some number)
    (otherExact : other.exactNumber? = some (count : Rat)) :
    powerTier base exponent = .rational ∨ (number.den = 1 ∧ 0 ≤ count) := by
  unfold powerTier
  split
  · rename_i proven
    rw [Bool.and_eq_true] at proven
    exact .inr ⟨Ntype.whole_of_proves proven.1 inside exact,
      Ntype.natural_of_contains (Ntype.contains_of_proves proven.2 otherInside) otherExact⟩
  · exact .inl rfl

theorem powerTier_holds (baseSound : base.Sound environment (.number number))
    (exponentSound : exponent.Sound environment (.number count)) :
    (powerTier base exponent).isExact = true ∧
      (powerTier base exponent = .rational ∨ (number.den = 1 ∧ 0 ≤ count)) := by
  obtain ⟨value, ⟨_, inside⟩, meant⟩ := baseSound
  obtain ⟨other, ⟨_, otherInside⟩, otherMeant⟩ := exponentSound
  rw [Value.meaning?_eq_number_iff] at meant otherMeant
  exact ⟨powerTier_isExact base exponent, powerTier_whole inside otherInside meant otherMeant⟩

/-- The rule of a power keeps exact powers, unless it leaves the exact tiers. -/
theorem meets_powerAnswer (standard : engine.registry = .standard)
    (deep : ∀ operation, allowed (.depth operation engine.ceiling))
    (baseSound : base.Sound environment (.number number))
    (exponentSound : exponent.Sound environment (.number count))
    (defined : ¬(number = 0 ∧ count < 0))
    (kept : base.ntype.losesPowers exponent.ntype = false) (remaining depth : Nat) :
    (engine.powerAnswer (engine.level remaining depth) [base, exponent]).Meets allowed
      (AnswersSoundly environment (.number (number ^ count))) := by
  change (if !(base.isNumber && exponent.isNumber) then _ else _ :
    Traced (Option Operand)).Meets _ _
  split
  · exact meets_pure .none
  rename_i numbers
  rw [Bool.not_eq_true', Bool.not_eq_false] at numbers
  split
  · rename_i two
    have square : number ^ count = number * number := by
      have same : count = (2 : Int) :=
        Rat.intCast_injective (Meaning.number.inj (exponentSound.eq_of_isInteger two))
      rw [same, zpow_ofNat, pow_two]
    rw [square]
    refine Meets.map ((meets_pair standard deep rfl baseSound baseSound rfl remaining depth).mono
      fun operand sound => ?_)
    exact .some sound
  split
  · rename_i one
    have same : count = (1 : Int) :=
      Rat.intCast_injective (Meaning.number.inj (exponentSound.eq_of_isInteger one))
    rw [same, zpow_one]
    exact meets_pure (.some baseSound)
  split
  · obtain ⟨isExact, held⟩ := powerTier_holds baseSound exponentSound
    refine Meets.map ((meets_tierPower standard deep isExact baseSound exponentSound defined held
      remaining depth).mono fun operand sound => ?_)
    exact .some sound
  · rename_i inexact
    unfold binaryAnswer
    cases found : metTier? base exponent with
    | none => exact meets_pure .none
    | some tier =>
        obtain ⟨baseProven, exponentProven⟩ :=
          proves_rational_of_metTier? baseSound exponentSound numbers found
        simp [Ntype.losesPowers, isExactPower, baseProven, exponentProven] at kept inexact
        rw [kept] at inexact
        cases inexact

/-- A power of an exact operand with a whole exponent keeps its meaning. -/
theorem meets_power (standard : engine.registry = .standard)
    (deep : ∀ operation, allowed (.depth operation engine.ceiling))
    (baseSound : base.Sound environment (.number number))
    (exponentSound : exponent.Sound environment (.number count))
    (defined : ¬(number = 0 ∧ count < 0))
    (kept : base.ntype.losesPowers exponent.ntype = false) :
    ∀ remaining depth,
      ((engine.level remaining depth).specialize "expt" [base, exponent]).Meets allowed
        (Operand.Sound environment · (.number (number ^ count))) := by
  refine meets_level deep fun remaining depth => ?_
  refine meets_sound standard Library.power_mem rfl rfl rfl
    (.cons baseSound (.cons exponentSound .nil)) ?_ ?_
  · rintro _ (_ | ⟨baseMeant, _ | ⟨exponentMeant, _ | _⟩⟩)
    obtain ⟨result, computed, exact⟩ := Generic.power_exact
      (Value.meaning?_eq_number_iff.mp baseMeant) (Value.meaning?_eq_number_iff.mp exponentMeant)
      defined
    refine ⟨result, computed, ?_, Value.meaning?_eq_number_iff.mpr exact⟩
    exact Ntype.contains_number.mpr (by rw [Value.tier?_of_exact exact]; rfl)
  · change (engine.follow depth _ Rule.power [base, exponent]).Meets _ _
    rw [follow_power]
    exact meets_powerAnswer standard deep baseSound exponentSound defined kept remaining (depth + 1)

end Engine

end Narrowing
