import Mathlib.Data.List.TakeDrop
import Narrowing.Proofs.WrittenNumbers

/-
This file says that decimal texts of integers and of quotients are read as their numbers.
-/

namespace Narrowing.Numeral

/-- The sign in front of the digits of a number. -/
inductive IsSign : Bool → List Char → Prop where
  | absent : IsSign false []
  | plus : IsSign false ['+']
  | minus : IsSign true ['-']

/-- The decimal digits of a number, perhaps after some zeros. -/
def IsDecimal (number : Nat) (digits : List Char) : Prop :=
  ∃ zeros, digits = List.replicate zeros '0' ++ Nat.toDigits 10 number

variable {negative : Bool} {sign digits rest : List Char} {number : Nat}

theorem IsDecimal.ne_nil (decimal : IsDecimal number digits) : digits ≠ [] := by
  obtain ⟨zeros, rfl⟩ := decimal
  simp [Nat.toDigits_ne_nil]

theorem IsDecimal.isDigit (decimal : IsDecimal number digits) :
    ∀ digit ∈ digits, digit.isDigit = true := by
  obtain ⟨zeros, rfl⟩ := decimal
  intro digit member
  rcases List.mem_append.mp member with zero | proper
  · rw [List.eq_of_mem_replicate zero]
    rfl
  · exact Nat.isDigit_of_mem_toDigits (by decide) (by decide) proper

/-- Zeros in front do not change a number. -/
theorem IsDecimal.natural_eq (decimal : IsDecimal number digits) : natural digits = number := by
  obtain ⟨zeros, rfl⟩ := decimal
  change Nat.ofDigitChars 10 _ 0 = number
  rw [Nat.ofDigitChars_append, Nat.ofDigitChars_replicate_zero, Nat.mul_zero,
    Nat.ofDigitChars_ten_toDigits]

/-- Digits are taken as far as they go. -/
theorem digitRun_append (inside : ∀ digit ∈ digits, digit.isDigit = true)
    (stops : ∀ character ∈ rest.head?, character.isDigit = false) :
    digitRun (digits ++ rest) = (digits, rest) := by
  rw [digitRun, List.span_eq_takeWhile_dropWhile, List.takeWhile_append_of_pos inside,
    List.dropWhile_append_of_pos inside]
  cases rest with
  | nil => simp
  | cons first others => simp [stops first rfl]

/-- A sign is taken off a text that starts with none. -/
theorem signed_bare (written : IsSign negative sign)
    (bare : ∀ character ∈ rest.head?, character ≠ '-' ∧ character ≠ '+') :
    signed (sign ++ rest) = (negative, rest) := by
  cases written with
  | absent =>
      rw [List.nil_append]
      unfold signed
      split
      · exact absurd rfl (bare '-' rfl).1
      · exact absurd rfl (bare '+' rfl).2
      · rfl
  | plus => rfl
  | minus => rfl

/-- No digit is a sign. -/
theorem not_sign_of_isDigit {digit : Char} (isDigit : digit.isDigit = true) :
    digit ≠ '-' ∧ digit ≠ '+' := by
  constructor <;> rintro rfl <;> exact absurd isDigit (by decide)

/-- A sign is taken off digits. -/
theorem signed_append (written : IsSign negative sign) (decimal : IsDecimal number digits) :
    signed (sign ++ (digits ++ rest)) = (negative, digits ++ rest) := by
  obtain ⟨first, others, rfl⟩ := List.exists_cons_of_ne_nil decimal.ne_nil
  have digit := decimal.isDigit first List.mem_cons_self
  refine signed_bare written fun character head => ?_
  obtain rfl := Option.some.inj head
  exact not_sign_of_isDigit digit

/-- A signed number is the same one among the rationals. -/
theorem cast_applySign (negative : Bool) (number : Nat) :
    (applySign negative number : Rat) = if negative then -(number : Rat) else number := by
  cases negative with
  | false => rfl
  | true => exact Rat.intCast_neg number

theorem integer?_written {point : List Char} (written : IsSign negative sign)
    (decimal : IsDecimal number digits) (ends : point = [] ∨ point = ['.']) :
    integer? (sign ++ (digits ++ point)) = some (applySign negative number) := by
  have stops : ∀ character ∈ point.head?, character.isDigit = false := by
    rcases ends with rfl | rfl <;> simp
  have some : digits.isEmpty = false := by simpa using decimal.ne_nil
  unfold integer?
  rw [signed_append written decimal]
  dsimp only
  rw [digitRun_append decimal.isDigit stops]
  dsimp only
  rw [some, if_neg Bool.false_ne_true, if_pos (by rcases ends with rfl | rfl <;> rfl),
    decimal.natural_eq]

/-- The text of an integer is read as the integer. -/
theorem real?_integer {point : List Char} (written : IsSign negative sign)
    (decimal : IsDecimal number digits) (ends : point = [] ∨ point = ['.']) :
    real? (sign ++ (digits ++ point)) = some (.integer (applySign negative number)) := by
  rw [real?, integer?_written written decimal ends]

variable {below : List Char} {denominator : Nat}

theorem integer?_slash (written : IsSign negative sign) (decimal : IsDecimal number digits) :
    integer? (sign ++ (digits ++ '/' :: rest)) = none := by
  have some : digits.isEmpty = false := by simpa using decimal.ne_nil
  unfold integer?
  rw [signed_append written decimal]
  dsimp only
  rw [digitRun_append decimal.isDigit (by simp)]
  dsimp only
  rw [some, if_neg Bool.false_ne_true, if_neg (by simp)]

theorem quotient?_written (written : IsSign negative sign) (above : IsDecimal number digits)
    (under : IsDecimal denominator below) :
    quotient? (sign ++ (digits ++ '/' :: below)) =
      some (applySign negative number, denominator) := by
  have first : digits.isEmpty = false := by simpa using above.ne_nil
  have second : below.isEmpty = false := by simpa using under.ne_nil
  have run : digitRun (below ++ []) = (below, []) := digitRun_append under.isDigit nofun
  rw [List.append_nil] at run
  unfold quotient?
  rw [signed_append written above]
  dsimp only
  rw [digitRun_append above.isDigit (by simp)]
  simp only [run]
  rw [first, second, if_neg (by simp), above.natural_eq, under.natural_eq]

/-- The text of a quotient is read as the number in lowest terms. -/
theorem real?_quotient (written : IsSign negative sign) (above : IsDecimal number digits)
    (under : IsDecimal denominator below) (nonzero : denominator ≠ 0) :
    real? (sign ++ (digits ++ '/' :: below)) =
      some (ofRat (mkRat (applySign negative number) denominator)) := by
  rw [real?, integer?_slash written above, quotient?_written written above under]
  dsimp only
  rw [if_neg nonzero]

end Narrowing.Numeral
