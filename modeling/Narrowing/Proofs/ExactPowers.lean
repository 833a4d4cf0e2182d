import Mathlib.Algebra.Order.Field.Rat
import Mathlib.Data.Rat.Lemmas
import Narrowing.Proofs.ExactArithmetic

/-
This file computes the exact powers of exact numbers with whole exponents.
-/

namespace Narrowing

namespace Word

theorem power_emod (base : Int) (exponent : Nat) :
    power base exponent % WordKind.uint64.modulus = base ^ exponent % WordKind.uint64.modulus := by
  induction exponent using Nat.strongRecOn with
  | ind exponent inductionHypothesis =>
      rw [power]
      dsimp only
      split
      · rename_i noFactor
        rw [noFactor, Int.pow_zero]
      · rename_i factors
        have halves := Nat.div_add_mod exponent 2
        have root := inductionHypothesis (exponent / 2) (by omega)
        have square : power base (exponent / 2) * power base (exponent / 2) %
            WordKind.uint64.modulus =
            base ^ (2 * (exponent / 2)) % WordKind.uint64.modulus := by
          rw [Int.mul_emod, root, ← Int.mul_emod, ← Int.pow_add, Nat.two_mul]
        split
        · rename_i even
          rw [Int.emod_emod, square]
          congr 2
          omega
        · rename_i odd
          rw [Int.emod_emod, Int.mul_emod, Int.emod_emod, square, ← Int.mul_emod, ← Int.pow_succ]
          congr 2
          omega

/-- Powers of words may be computed with small factors. -/
theorem wrap_power (kind : WordKind) (base : Int) (exponent : Nat) :
    wrap kind (power base exponent) = wrap kind (base ^ exponent) := by
  have divides : (kind.modulus : Int) ∣ WordKind.uint64.modulus := by cases kind <;> decide
  apply wrap_congr
  rw [← Int.emod_emod_of_dvd _ divides, power_emod, Int.emod_emod_of_dvd _ divides]

end Word

namespace PlainNumber

theorem wholePower_eq (base : Int) (exponent : Nat) :
    wholePower base exponent = base ^ exponent := by
  unfold wholePower
  split
  · rename_i isZero
    subst isZero
    split
    · rename_i noFactor
      subst noFactor
      rfl
    · rename_i factors
      exact (Int.zero_pow factors).symm
  · split
    · rename_i isOne
      rw [isOne, Int.one_pow]
    · split
      · rename_i isNegative
        have halves := Nat.div_add_mod exponent 2
        have square : (-1 : Int) ^ (2 * (exponent / 2)) = 1 := by
          rw [Int.pow_mul]
          exact Int.one_pow
        rw [isNegative, ← halves, Int.pow_add, square, halves]
        rcases Nat.mod_two_eq_zero_or_one exponent with even | odd
        · simp [even]
        · simp [odd]
      · rfl

theorem naturalPower_eq (base : Rat) (exponent : Nat) :
    naturalPower base exponent = base ^ exponent := by
  unfold naturalPower
  rw [wholePower_eq, wholePower_eq, Rat.mkRat_eq_div]
  have positive : ((base.den : Int) ^ exponent).natAbs = base.den ^ exponent := by
    rw [Int.natAbs_pow, Int.natAbs_natCast]
  rw [positive]
  push_cast
  rw [← div_pow, Rat.num_div_den]

/-- The power with a whole exponent, unless zero has a negative exponent. -/
theorem ratioPower_eq (base : Rat) (exponent : Int) (defined : ¬(base = 0 ∧ exponent < 0)) :
    ratioPower base exponent = .ok (base ^ exponent) := by
  unfold ratioPower
  rw [if_neg defined, naturalPower_eq]
  split
  · rename_i negative
    congr 1
    rw [← zpow_natCast, ← zpow_neg]
    congr 1
    omega
  · rename_i positive
    congr 1
    rw [← zpow_natCast]
    congr 1
    omega

theorem ratioPower_zero (exponent : Int) (negative : exponent < 0) :
    ratioPower 0 exponent = .error .zeroDivision := if_pos ⟨rfl, negative⟩

end PlainNumber

namespace Value

variable {base exponent : Value} {number : Rat} {count : Int}

theorem toInteger_exact (exact : exponent.exactNumber? = some (count : Rat)) :
    exponent.toInteger = .ok count := by
  rcases exact_cases exact with ⟨whole, rfl, same⟩ | rfl
  · rw [show count = whole by exact_mod_cast same]
    rfl
  · change Except.ok ((count : Rat).num.tdiv (count : Rat).den) = .ok count
    simp

/-- The power of fractions with a whole exponent. -/
theorem rationalPower_exact (baseExact : base.exactNumber? = some number)
    (exponentExact : exponent.exactNumber? = some (count : Rat))
    (defined : ¬(number = 0 ∧ count < 0)) :
    Tier.Rational.power base exponent = .ok (.ofRat (number ^ count)) := by
  simp only [Tier.Rational.power, toRat_exact baseExact, toInteger_exact exponentExact]
  change Value.ofRat <$> PlainNumber.ratioPower number count = _
  rw [PlainNumber.ratioPower_eq number count defined]
  rfl

/-- Zero has no negative power as a fraction either. -/
theorem rationalPower_zero (baseExact : base.exactNumber? = some 0)
    (exponentExact : exponent.exactNumber? = some (count : Rat)) (negative : count < 0) :
    Tier.Rational.power base exponent = .error .zeroDivision := by
  simp only [Tier.Rational.power, toRat_exact baseExact, toInteger_exact exponentExact]
  change Value.ofRat <$> PlainNumber.ratioPower 0 count = _
  rw [PlainNumber.ratioPower_zero count negative]
  rfl

theorem wholePower_cast (number count : Int) (positive : 0 ≤ count) :
    ((PlainNumber.wholePower number count.toNat : Int) : Rat) = (number : Rat) ^ count := by
  rw [PlainNumber.wholePower_eq, Int.cast_pow, ← zpow_natCast, Int.toNat_of_nonneg positive]

/-- The power of host numbers with a whole exponent that is not negative. -/
theorem operatorPower_exact (baseExact : base.exactNumber? = some number)
    (exponentExact : exponent.exactNumber? = some (count : Rat)) (positive : 0 ≤ count) :
    ∃ result, Operator.power.apply base exponent = .ok result ∧
      result.exactNumber? = some (number ^ count) := by
  have ratios : (PlainNumber.ratioPower number count).map PlainNumber.ratio =
      .ok (.ratio (number ^ count)) := by
    rw [PlainNumber.ratioPower_eq number count (by omega)]
    rfl
  rcases exact_cases exponentExact with ⟨whole, rfl, same⟩ | rfl
  · have same : count = whole := by exact_mod_cast same
    subst same
    rcases exact_cases baseExact with ⟨integer, rfl, rfl⟩ | rfl <;>
      rw [Operator.apply_plain _ rfl rfl]
    · refine ⟨.integer (PlainNumber.wholePower integer count.toNat), ?_,
        congrArg some (wholePower_cast integer count positive)⟩
      change ((if 0 ≤ count then _ else _ : Except Fault PlainNumber)).map _ = _
      rw [if_pos positive]
      rfl
    · refine ⟨.ratio (number ^ count), ?_, rfl⟩
      change ((PlainNumber.ratioPower number count).map PlainNumber.ratio).map _ = _
      rw [ratios]
      rfl
  · rcases exact_cases baseExact with ⟨integer, rfl, rfl⟩ | rfl <;>
      rw [Operator.apply_plain _ rfl rfl]
    · refine ⟨.integer (PlainNumber.wholePower integer count.toNat), ?_,
        congrArg some (wholePower_cast integer count positive)⟩
      simp only [Operator.power, PlainNumber.pow, Rat.den_intCast, Rat.num_intCast, positive]
      rfl
    · refine ⟨.ratio (number ^ count), ?_, rfl⟩
      simp only [Operator.power, PlainNumber.pow, Rat.den_intCast, Rat.num_intCast, ratios]
      rfl

end Value

namespace Generic

variable {base exponent : Value} {number : Rat} {count : Int}

theorem tier_exact {value : Value} {number : Rat} (exact : value.exactNumber? = some number) :
    tier value = .ok (if number.den = 1 then .integer else .rational) := by
  simp only [tier, Value.tier?_of_exact exact, orFault]

/-- A power in the integer tier needs an exponent that is not negative. -/
theorem integerPower_exact (baseExact : base.exactNumber? = some number)
    (exponentExact : exponent.exactNumber? = some (count : Rat)) (positive : 0 ≤ count) :
    ∃ result, Tier.Exact.integerPower base exponent = .ok result ∧
      result.exactNumber? = some (number ^ count) := by
  have negative : exponent.isNegative = .ok false := by
    have tested : exponent.isNegative = .ok (decide ((count : Rat) < ((0 : Int) : Rat))) :=
      Value.less_exact exponentExact rfl
    rw [tested, decide_eq_false (by exact_mod_cast positive.not_gt)]
  simp only [Tier.Exact.integerPower, negative]
  exact Value.operatorPower_exact baseExact exponentExact positive

theorem power_eq (baseExact : base.exactNumber? = some number)
    (exponentExact : exponent.exactNumber? = some (count : Rat)) :
    power base exponent =
      if number.den = 1 ∧ 0 ≤ count then
        Tier.Exact.integerPower (.integer number.num) (.integer count)
      else Tier.Rational.power base (.integer count) := by
  have exact : (if number.den = 1 then Tier.integer else .rational).isExact = true :=
    Tier.isExact_ofDen number.den
  simp only [power, tier_exact baseExact, tier_exact exponentExact, Rat.den_intCast]
  change (if Tier.isExact _ && decide (Tier.integer = .integer) then _ else _) = _
  rw [exact]
  simp only [decide_true, Bool.and_true, if_true, Value.toInteger_exact exponentExact]
  change (if _ ∧ 0 ≤ count then _ else _) = _
  by_cases whole : number.den = 1
  · have integral : base.exactNumber? = some ((number.num : Int) : Rat) := by
      rw [(Rat.den_eq_one_iff number).mp whole, baseExact]
    simp only [whole, if_true, true_and, Value.toInteger_exact integral]
    rfl
  · simp [whole]

/-- A generic power of an exact number with a whole exponent is exact. -/
theorem power_exact (baseExact : base.exactNumber? = some number)
    (exponentExact : exponent.exactNumber? = some (count : Rat))
    (defined : ¬(number = 0 ∧ count < 0)) :
    ∃ result, power base exponent = .ok result ∧ result.exactNumber? = some (number ^ count) := by
  rw [power_eq baseExact exponentExact]
  split
  · rename_i integral
    refine integerPower_exact ?_ rfl integral.2
    exact congrArg some ((Rat.den_eq_one_iff number).mp integral.1)
  · exact ⟨_, Value.rationalPower_exact baseExact rfl defined, Value.exactNumber?_ofRat _⟩

/-- Zero has no negative power. -/
theorem power_zero (baseExact : base.exactNumber? = some 0)
    (exponentExact : exponent.exactNumber? = some (count : Rat)) (negative : count < 0) :
    power base exponent = .error .zeroDivision := by
  rw [power_eq baseExact exponentExact, if_neg (by omega)]
  exact Value.rationalPower_zero baseExact rfl negative

end Generic

end Narrowing
