/-
This file names the blank characters.
-/

namespace Narrowing.Text

/-- A separator parts the atoms of a source text. -/
def isSeparator (character : Char) : Bool :=
  character == ' ' || character == '\t' || character == '\n' || character == '\r' ||
    character == '\x0c' || character == '\x0b'

/-- The codes of all blank characters. -/
def blankCodes : List Nat := [
  9, 10, 11, 12, 13, 28, 29, 30, 31, 32, 133, 160, 5760, 8192, 8193, 8194, 8195, 8196, 8197, 8198,
  8199, 8200, 8201, 8202, 8232, 8233, 8239, 8287, 12288]

/-- The parts of a complex literal may be parted by any blank character. -/
def isBlank (character : Char) : Bool := blankCodes.contains character.toNat

theorem isBlank_of_isSeparator {character : Char} (separates : isSeparator character = true) :
    isBlank character = true := by
  simp only [isSeparator, Bool.or_eq_true, beq_iff_eq] at separates
  rcases separates with ((((h | h) | h) | h) | h) | h <;> subst h <;> decide

end Narrowing.Text
