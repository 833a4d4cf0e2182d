import Narrowing.Numeral

/-
This file says which texts write numbers, and when a text breaks off the reading of a number.
-/

namespace Narrowing.Numeral

theorem withoutLineEnd?_of_ne {characters : List Char} (last : characters.getLast? ≠ some '\n') :
    withoutLineEnd? characters = none := by
  simp [withoutLineEnd?, last]

theorem complexParts?_of_plain {first : Char} {rest : List Char} (plain : first ≠ '#')
    (last : (first :: rest).getLast? ≠ some '\n') : complexParts? (first :: rest) = none := by
  unfold complexParts?
  rw [withoutLineEnd?_of_ne last, Option.getD_none]
  dsimp only
  split
  · rename_i same
    exact absurd (List.cons.inj same).1 plain
  · rfl

/-- A text that starts with no mark of a literal and ends no line is read as a real number. -/
theorem read_of_plain {first : Char} {rest : List Char} (plain : first ≠ '#')
    (last : (first :: rest).getLast? ≠ some '\n') :
    read (first :: rest) = .ok (real? (first :: rest)) := by
  simp only [read, complexParts?_of_plain plain last, withoutLineEnd?_of_ne last]

/-- The real part of a complex literal stands alone if it is exact and the other part is an exact
zero. -/
def StandsAlone (real imaginary : Numeral) : Prop :=
  imaginary = .integer 0 ∧ ((∃ value, real = .integer value) ∨ ∃ value, real = .ratio value)

theorem combine_error_iff {real imaginary : Numeral} {fault : Fault} :
    combine real imaginary = .error fault ↔
      fault = .overflow ∧ ¬ StandsAlone real imaginary ∧
        (real.toDouble? = none ∨ imaginary.toDouble? = none) := by
  unfold combine
  split
  · exact iff_of_false nofun fun ⟨_, several, _⟩ => several ⟨rfl, .inl ⟨_, rfl⟩⟩
  · exact iff_of_false nofun fun ⟨_, several, _⟩ => several ⟨rfl, .inr ⟨_, rfl⟩⟩
  · rename_i notInteger notRatio
    have several : ¬ StandsAlone real imaginary := by
      rintro ⟨rfl, ⟨value, rfl⟩ | ⟨value, rfl⟩⟩
      · exact notInteger value rfl rfl
      · exact notRatio value rfl rfl
    split
    · rename_i first second
      exact iff_of_false nofun (by simp [first, second])
    · rename_i absent
      have missing : real.toDouble? = none ∨ imaginary.toDouble? = none := by
        cases first : real.toDouble? with
        | none => exact .inl rfl
        | some double =>
            cases second : imaginary.toDouble? with
            | none => exact .inr rfl
            | some other => exact (absent double other first second).elim
      constructor
      · rintro ⟨⟩
        exact ⟨rfl, several, missing⟩
      · rintro ⟨rfl, -⟩
        rfl

/-- Both parts of a complex literal are real numbers, and one of them is an exact number beyond all
doubles. -/
def IsBeyond (characters : List Char) : Prop :=
  ∃ first second real imaginary, complexParts? characters = some (first, second) ∧
    real? first = some real ∧ real? second = some imaginary ∧ ¬ StandsAlone real imaginary ∧
    (real.toDouble? = none ∨ imaginary.toDouble? = none)

/-- Only a complex literal breaks off the reading of a text that ends no line. -/
theorem read_error_iff {characters : List Char} {fault : Fault}
    (last : characters.getLast? ≠ some '\n') :
    read characters = .error fault ↔ fault = .overflow ∧ IsBeyond characters := by
  constructor
  · intro failed
    unfold read at failed
    rw [withoutLineEnd?_of_ne last] at failed
    split at failed
    · rename_i first second parts
      split at failed
      · rename_i real imaginary left right
        cases combined : combine real imaginary with
        | ok number => simp [combined, Except.map] at failed
        | error cause =>
            obtain ⟨overflows, several, missing⟩ := combine_error_iff.mp combined
            rw [combined] at failed
            cases failed
            exact ⟨overflows, first, second, real, imaginary, parts, left, right, several, missing⟩
      · cases failed
    · cases failed
  · rintro ⟨rfl, first, second, real, imaginary, parts, left, right, several, missing⟩
    have combined := combine_error_iff.mpr ⟨rfl, several, missing⟩
    simp only [read, parts, left, right, combined, Except.map]

end Narrowing.Numeral
