import Mathlib.Data.Rat.Floor
import Mathlib.Tactic.Linarith
import Narrowing.Proofs.NormalResults

/-
This file shows that the floor of two exact numbers is their division with rest: the one whole
quotient for which the rest lies on the side of the divisor and is smaller than it.
-/

namespace Narrowing

/-- A division with rest. The rest has the sign of the divisor and never reaches it. -/
structure DividesWithRest (dividend divisor : Rat) (quotient : Int) (rest : Rat) : Prop where
  sum : dividend = quotient * divisor + rest
  positive : 0 < divisor → 0 ≤ rest ∧ rest < divisor
  negative : divisor < 0 → divisor < rest ∧ rest ≤ 0

section Division

variable {dividend divisor rest : Rat} {quotient : Int}

/-- The rest is the part of the divisor by which the whole quotient misses the exact one. -/
theorem rest_eq_mul (nonzero : divisor ≠ 0) (sum : dividend = quotient * divisor + rest) :
    rest = (dividend / divisor - quotient) * divisor := by
  rw [sub_mul, div_mul_cancel₀ dividend nonzero, sum]
  ring

theorem dividesWithRest_iff (nonzero : divisor ≠ 0) :
    DividesWithRest dividend divisor quotient rest ↔
      quotient = (dividend / divisor).floor ∧ rest = dividend - quotient * divisor := by
  have floor : quotient = (dividend / divisor).floor ↔
      0 ≤ dividend / divisor - quotient ∧ dividend / divisor - quotient < 1 := by
    rw [eq_comm, show (dividend / divisor).floor = ⌊dividend / divisor⌋ from rfl,
      Int.floor_eq_iff, sub_nonneg, sub_lt_iff_lt_add']
  rw [floor]
  generalize missing : dividend / divisor - quotient = part
  constructor
  · intro divides
    have same : rest = part * divisor := missing ▸ rest_eq_mul nonzero divides.sum
    refine ⟨?_, by rw [divides.sum]; ring⟩
    rcases lt_or_gt_of_ne nonzero with below | above
    · obtain ⟨inside, sign⟩ := divides.negative below
      rw [same] at inside sign
      exact ⟨by nlinarith, by nlinarith⟩
    · obtain ⟨sign, inside⟩ := divides.positive above
      rw [same] at inside sign
      exact ⟨by nlinarith, by nlinarith⟩
  · rintro ⟨⟨atLeast, less⟩, difference⟩
    have sum : dividend = quotient * divisor + rest := by rw [difference]; ring
    have same : rest = part * divisor := missing ▸ rest_eq_mul nonzero sum
    refine ⟨sum, fun above => ?_, fun below => ?_⟩
    · rw [same]
      exact ⟨by nlinarith, by nlinarith⟩
    · rw [same]
      exact ⟨by nlinarith, by nlinarith⟩

end Division

namespace Generic

variable {first second : Value} {left right : Rat}

/-- Plain numbers have a plain quotient. -/
theorem wordQuotient_exact (firstExact : first.exactNumber? = some left)
    (secondExact : second.exactNumber? = some right) (quotient : Int) :
    wordQuotient first second quotient = .ok (.integer quotient) := by
  rcases Value.exact_cases firstExact with ⟨whole, rfl, rfl⟩ | rfl <;>
    rcases Value.exact_cases secondExact with ⟨other, rfl, rfl⟩ | rfl <;> rfl

theorem exactFloor_exact (firstExact : first.exactNumber? = some left)
    (secondExact : second.exactNumber? = some right) :
    exactFloor first second =
      if right = 0 then .error .zeroDivision
      else .ok (.tuple [.integer (left / right).floor,
        .ofRat (left - (left / right).floor * right)]) := by
  rw [exactFloor, Value.toRat_exact firstExact, Value.toRat_exact secondExact]
  simp only [wordQuotient_exact firstExact secondExact]
  rfl

/-- Exact numbers meet in an exact tier. -/
theorem floorQuotient_exact (firstExact : first.exactNumber? = some left)
    (secondExact : second.exactNumber? = some right) :
    floorQuotient first second = exactFloor first second := by
  have firstTier : tier first = .ok (if left.den = 1 then .integer else .rational) := by
    rw [tier, Value.tier?_of_exact firstExact, orFault]
  have secondTier : tier second = .ok (if right.den = 1 then .integer else .rational) := by
    rw [tier, Value.tier?_of_exact secondExact, orFault]
  have real : ¬(if left.den = 1 ∧ right.den = 1 then Tier.integer else .rational).isComplex := by
    split <;> decide
  have exact : (if left.den = 1 ∧ right.den = 1 then Tier.integer else .rational).isExact := by
    split <;> rfl
  rw [← Tier.combine_ofDen] at real exact
  rw [floorQuotient, firstTier, secondTier]
  exact (if_neg real).trans (if_pos exact)

end Generic

namespace Registry

/-- The floor that the library implements divides exact numbers with rest: there is one whole
quotient with one rest, which is an integer if it is whole and a reduced fraction otherwise. A
single operand is divided by one, and zero divides nothing. -/
theorem implementation_dividesWithRest {first second : Value} {left right : Rat}
    (firstExact : first.exactNumber? = some left) (secondExact : second.exactNumber? = some right) :
    ∃ implementation : Implementation,
      (standard.lookup? "floor").bind (·.implementation) = some implementation ∧
      implementation [first] = implementation [first, .integer 1] ∧
      (right = 0 → implementation [first, second] = .error .zeroDivision) ∧
      (right ≠ 0 → ∃ quotient rest,
        implementation [first, second] = .ok (.tuple [.integer quotient, .ofRat rest]) ∧
        DividesWithRest left right quotient rest ∧
        ∀ other further, DividesWithRest left right other further →
          other = quotient ∧ further = rest) := by
  have computed : Generic.floor [first, second] = _ :=
    (Generic.floorQuotient_exact firstExact secondExact).trans
      (Generic.exactFloor_exact firstExact secondExact)
  refine ⟨Generic.floor, standard_implementation Library.floor_mem, rfl, fun zero => ?_,
    fun nonzero => ?_⟩
  · rw [computed, if_pos zero]
  · rw [if_neg nonzero] at computed
    refine ⟨_, _, computed, (dividesWithRest_iff nonzero).mpr ⟨rfl, rfl⟩, ?_⟩
    intro other further divides
    obtain ⟨rfl, rfl⟩ := (dividesWithRest_iff nonzero).mp divides
    exact ⟨rfl, rfl⟩

/-- Three and a half below zero over three quarters: the quotient is rounded down to minus five,
and a quarter is left. -/
theorem implementation_dividesWithRest_negative :
    ∃ implementation : Implementation,
      (standard.lookup? "floor").bind (·.implementation) = some implementation ∧
        implementation [.ratio (-7 / 2), .ratio (3 / 4)] =
          .ok (.tuple [.integer (-5), .ratio (1 / 4)]) := by
  have negative : (Value.ratio (-7 / 2)).exactNumber? = some (-7 / 2) := rfl
  have divisor : (Value.ratio (3 / 4)).exactNumber? = some (3 / 4) := rfl
  obtain ⟨implementation, found, _, _, divides⟩ := implementation_dividesWithRest negative divisor
  obtain ⟨quotient, rest, computed, _, unique⟩ := divides (by norm_num)
  have expected : DividesWithRest (-7 / 2) (3 / 4) (-5) (1 / 4) := by
    constructor <;> norm_num
  obtain ⟨rfl, rfl⟩ := unique (-5) (1 / 4) expected
  have reduced : Value.ofRat (1 / 4) = .ratio (1 / 4) := if_neg (by decide +kernel)
  exact ⟨implementation, found, reduced ▸ computed⟩

end Registry

end Narrowing
