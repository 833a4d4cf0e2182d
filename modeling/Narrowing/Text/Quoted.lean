import Narrowing.Text.Printable

/-
This file quotes texts, so that messages show every character.
-/

namespace Narrowing.Text

def hexadecimalDigits (width value : Nat) : List Char :=
  let digits := Nat.toDigits 16 value
  List.replicate (width - digits.length) '0' ++ digits

/-- One character of a text quoted with the given mark. -/
def quotedCharacter (mark character : Char) : List Char :=
  if character = mark ∨ character = '\\' then ['\\', character]
  else if character = '\n' then ['\\', 'n']
  else if character = '\r' then ['\\', 'r']
  else if character = '\t' then ['\\', 't']
  else if isPrintable character then [character]
  else if character.toNat < 0x100 then '\\' :: 'x' :: hexadecimalDigits 2 character.toNat
  else if character.toNat < 0x10000 then '\\' :: 'u' :: hexadecimalDigits 4 character.toNat
  else '\\' :: 'U' :: hexadecimalDigits 8 character.toNat

/-- Double marks quote a text that holds single marks and no double ones. -/
def quotationMark (characters : List Char) : Char :=
  if characters.contains '\'' && !characters.contains '"' then '"' else '\''

def quoted (text : String) : String :=
  let characters := text.toList
  let mark := quotationMark characters
  String.ofList (mark :: characters.flatMap (quotedCharacter mark) ++ [mark])

end Narrowing.Text
