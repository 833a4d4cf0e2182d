import Narrowing.Proofs.ExactPowers
import Narrowing.Value.Key

/-
This file says when the host computes with integers exactly, whatever it represents them by: a plain
integer or a fraction has room for every result, and a word only for the integers of its kind.
-/

namespace Narrowing

namespace WordKind

/-- The words of a kind hold an integer. -/
def Holds (kind : WordKind) (number : Int) : Prop := kind.least ≤ number ∧ number ≤ kind.greatest

theorem Holds.mono {first second : WordKind} {number : Int}
    (wider : second.least ≤ first.least ∧ first.greatest ≤ second.greatest)
    (holds : first.Holds number) : second.Holds number :=
  ⟨Int.le_trans wider.1 holds.1, Int.le_trans holds.2 wider.2⟩

end WordKind

theorem Word.wrap_self (word : Word) : wrap word.kind word.value = word := by
  obtain ⟨kind, value, within⟩ := word
  have same := wrap_value within
  simp only [wrap] at same ⊢
  simp only [same]

namespace Value

/-- The representations of an integer: a plain integer, a whole fraction or a word. -/
inductive Represents : Value → Int → Prop where
  | integer (number : Int) : Represents (.integer number) number
  | ratio (number : Int) : Represents (.ratio number) number
  | word (word : Word) : Represents (.scalar (.word word)) word.value

theorem Represents.tier? {value : Value} {number : Int} (represents : value.Represents number) :
    value.tier? = some .integer := by
  cases represents with
  | integer | word => rfl
  | ratio => exact congrArg some (if_pos (Rat.den_intCast number))

theorem Represents.toInteger {value : Value} {number : Int} (represents : value.Represents number) :
    value.toInteger = .ok number := by
  cases represents with
  | integer | word => rfl
  | ratio => exact toInteger_exact rfl

theorem Represents.isNegative_eq {value : Value} {number : Int}
    (represents : value.Represents number) :
    value.isNegative = .ok (decide (number < 0)) := by
  have less : Except.ok (decide ((number : Rat) < ((0 : Int) : Rat))) =
      (.ok (decide (number < 0)) : Except Fault Bool) := by
    simp only [Rat.intCast_lt_intCast]
  cases represents <;> exact less

/-- The value is a number equal to the integer. -/
def StandsFor (value : Value) (number : Int) : Prop :=
  value.content? = some (.ofReal (.ofInt number))

theorem standsFor_integer (number : Int) : (Value.integer number).StandsFor number := rfl

theorem standsFor_ratio (number : Int) : (Value.ratio number).StandsFor number := rfl

end Value

/-- A plain number is an integer, perhaps in the form of a fraction. -/
inductive PlainNumber.IsWhole : PlainNumber → Int → Prop where
  | integer (number : Int) : IsWhole (.integer number) number
  | ratio (number : Int) : IsWhole (.ratio number) number

namespace Operator

open Value

/-- The results of an operator on two integers: the plain numbers keep the exact one, words wrap it,
and doubles have a result of their own. -/
structure Computes (operator : Operator Value) (left right exact : Int)
    (doubles : Float → Float → Float) : Prop where
  plain : ∀ first second, PlainNumber.IsWhole first left → PlainNumber.IsWhole second right →
    ∃ result, operator.plain first second = .ok result ∧ result.StandsFor exact
  words : ∀ kind first second, first.value = left → second.value = right →
    operator.scalars ⟨.word kind, .word first, .word second⟩ =
      .ok (.scalar (.word (Word.wrap kind exact)))
  inDoubles : ∀ first second, operator.scalars ⟨.double, .double first, .double second⟩ =
    .ok (.scalar (.double (doubles first second)))

variable {operator : Operator Value} {left right exact : Int} {doubles : Float → Float → Float}

theorem convert_word (word : Word) : (Scalar.word word).convert (.word word.kind) = .word word :=
  congrArg Scalar.word word.wrap_self

theorem computes_power (positive : 0 ≤ right) :
    power.Computes left right (left ^ right.toNat) Double.pow where
  plain := by
    have stands : (Value.ratio ((left : Rat) ^ right)).StandsFor (left ^ right.toNat) := by
      rw [show (left : Rat) ^ right = ((left ^ right.toNat : Int) : Rat) by
        rw [Int.cast_pow, ← zpow_natCast, Int.toNat_of_nonneg positive]]
      exact standsFor_ratio _
    have whole : (Value.integer (PlainNumber.wholePower left right.toNat)).StandsFor
        (left ^ right.toNat) := by
      rw [PlainNumber.wholePower_eq]
      exact standsFor_integer _
    have ratios : PlainNumber.ratioPower left right = .ok ((left : Rat) ^ right) :=
      PlainNumber.ratioPower_eq left right (by omega)
    rintro _ _ (_ | _) (_ | _)
    · refine ⟨_, ?_, whole⟩
      simp only [power, PlainNumber.pow, PlainNumber.integerPower, if_pos positive]
      rfl
    · refine ⟨_, ?_, whole⟩
      simp only [power, PlainNumber.pow, Rat.den_intCast, Rat.num_intCast, positive]
      rfl
    · refine ⟨_, ?_, stands⟩
      simp only [power, PlainNumber.pow, ratios]
      rfl
    · refine ⟨_, ?_, stands⟩
      simp only [power, PlainNumber.pow, Rat.den_intCast, Rat.num_intCast, ratios]
      rfl
  words := by
    rintro kind first second rfl rfl
    rw [← Word.wrap_power]
    exact if_neg (Int.not_lt.mpr positive)
  inDoubles _ _ := rfl

end Operator

namespace Operation

open Value

/-- The integer that an operation makes of integers. -/
def exactly? : Operation → List Int → Option Int
  | .add, [left, right] => some (left + right)
  | .sub, [left, right] => some (left - right)
  | .mul, [left, right] => some (left * right)
  | .expt, [base, exponent] => if 0 ≤ exponent then some (base ^ exponent.toNat) else none
  | .neg, [number] => some (-number)
  | .abs, [number] => some number.natAbs
  | _, _ => none

/-- The operation on doubles. -/
def inDoubles : Operation → Float → Float → Float
  | .add => (· + ·)
  | .sub => (· - ·)
  | .mul => (· * ·)
  | _ => Double.pow

end Operation

namespace Tier

open Value

variable {operation : Operation} {first second : Value} {left right exact : Int}

end Tier

end Narrowing
