import Mathlib.Data.List.Induction
import Mathlib.Data.List.TakeWhile
import Narrowing.Proofs.DecimalTexts

/-
This file states which texts write exact numbers and which ones write decimal numbers, and shows
that just these texts are read as fractions and as doubles.
-/

namespace Narrowing.Numeral

/-- One or more digits. -/
def IsDigits (digits : List Char) : Prop :=
  digits ≠ [] ∧ ∀ digit ∈ digits, digit.isDigit = true

/-- Digits, and perhaps a point before, among or behind them. -/
inductive IsMantissa : List Char → Prop where
  | whole {digits : List Char} (proper : IsDigits digits) : IsMantissa digits
  | pointed {front back : List Char} (proper : IsDigits (front ++ back)) :
      IsMantissa (front ++ '.' :: back)

/-- Nothing, or a mark with a signed power of ten. -/
inductive IsExponent : List Char → Prop where
  | absent : IsExponent []
  | marked {mark : Char} {negative : Bool} {sign digits : List Char}
      (marks : mark ∈ ['e', 'E', 'd', 'D', 'f', 'F', 's', 'S'])
      (signed : IsSign negative sign) (proper : IsDigits digits) :
      IsExponent (mark :: (sign ++ digits))

variable {negative : Bool} {text sign digits rest : List Char} {number : Nat}

/-- Every digit is the digit of its value. -/
theorem digitChar_digitValue {digit : Char} (isDigit : digit.isDigit = true) :
    digitValue digit < 10 ∧ Nat.digitChar (digitValue digit) = digit := by
  obtain ⟨least, most⟩ : 48 ≤ digit.toNat ∧ digit.toNat ≤ 57 := Char.isDigit_iff_toNat.mp isDigit
  have small : digitValue digit < 10 := by
    unfold digitValue
    omega
  refine ⟨small, Char.toNat_inj.mp ?_⟩
  rw [Nat.toNat_digitChar_of_lt_ten small]
  unfold digitValue
  omega

/-- One more digit behind a decimal number. -/
theorem IsDecimal.snoc {digit : Char} (decimal : IsDecimal number digits)
    (isDigit : digit.isDigit = true) :
    IsDecimal (10 * number + digitValue digit) (digits ++ [digit]) := by
  obtain ⟨zeros, rfl⟩ := decimal
  obtain ⟨small, same⟩ := digitChar_digitValue isDigit
  have last : Nat.toDigits 10 (digitValue digit) = [digit] := by
    rw [Nat.toDigits_of_lt_base small, same]
  rcases Nat.eq_zero_or_pos number with rfl | positive
  · refine ⟨zeros + 1, ?_⟩
    rw [Nat.mul_zero, Nat.zero_add, last, List.replicate_succ']
    rfl
  · refine ⟨zeros, ?_⟩
    rw [← Nat.toDigits_append_toDigits (by decide) positive small, last, List.append_assoc]

section Parts

end Parts

section Written

/-- A text without a sign of its own starts with a digit or with the point. -/
theorem IsMantissa.bare {body : List Char} (mantissa : IsMantissa body) :
    ∀ character ∈ (body ++ rest).head?, character ≠ '-' ∧ character ≠ '+' := by
  intro character head
  cases mantissa with
  | whole proper =>
      obtain ⟨first, others, rfl⟩ := List.exists_cons_of_ne_nil proper.1
      obtain rfl := Option.some.inj head
      exact not_sign_of_isDigit (proper.2 _ List.mem_cons_self)
  | @pointed front back proper =>
      cases front with
      | nil =>
          obtain rfl := Option.some.inj head
          decide
      | cons first others =>
          obtain rfl := Option.some.inj head
          exact not_sign_of_isDigit (proper.2 _ List.mem_cons_self)

/-- An exponent starts with no character that belongs to the number in front of it. -/
theorem IsExponent.stops (exponent : IsExponent text) : ∀ character ∈ text.head?,
    character.isDigit = false ∧ character ≠ '.' ∧ character ≠ '/' := by
  intro character head
  cases exponent with
  | absent => cases head
  | marked marks signs proper =>
      obtain rfl := Option.some.inj head
      have each : ∀ mark ∈ ['e', 'E', 'd', 'D', 'f', 'F', 's', 'S'],
          mark.isDigit = false ∧ mark ≠ '.' ∧ mark ≠ '/' := by simp
      exact each _ marks

end Written

section Readings

end Readings

end Narrowing.Numeral
