import Narrowing.Number.Complex
import Narrowing.Number.Decimal
import Narrowing.Text.Blank

/-
This file reads the numbers that source texts write.
-/

namespace Narrowing

/-- A number read from a text; a ratio is never integral. -/
inductive Numeral where
  | integer (value : Int)
  | ratio (value : Rat)
  | double (value : Float)
  | complex (value : ComplexDouble)
deriving DecidableEq

namespace Numeral

/-- A text may break off a number instead of being another word. -/
inductive Fault where
  /-- An exact part of a complex literal lies beyond all doubles. -/
  | overflow
  /-- A line ends after the point of an integer. -/
  | brokenInteger
deriving DecidableEq, Repr

def ofRat (value : Rat) : Numeral := if value.den = 1 then .integer value.num else .ratio value

/-- The double of a real number. -/
def toDouble? : Numeral → Option Float
  | integer value => Double.ofInt? value
  | ratio value => Double.ofRat? value
  | double value => some value
  | complex _ => none

def digitValue (digit : Char) : Nat := digit.toNat - 48

def natural (digits : List Char) : Nat :=
  digits.foldl (fun value digit => 10 * value + digitValue digit) 0

/-- An optional sign, and the characters after it. -/
def signed (characters : List Char) : Bool × List Char :=
  match characters with
  | '-' :: rest => (true, rest)
  | '+' :: rest => (false, rest)
  | rest => (false, rest)

def applySign (negative : Bool) (value : Nat) : Int := if negative then -value else value

/-- The longest run of digits at the front, and the rest. -/
def digitRun (characters : List Char) : List Char × List Char :=
  characters.span Char.isDigit

/-- A sign, digits and perhaps a point. -/
def integer? (characters : List Char) : Option Int :=
  let (negative, rest) := signed characters
  let (digits, rest) := digitRun rest
  if digits.isEmpty then none
  else if rest.isEmpty || rest == ['.'] then some (applySign negative (natural digits))
  else none

/-- A sign, digits, a slash and digits. -/
def quotient? (characters : List Char) : Option (Int × Nat) :=
  let (negative, rest) := signed characters
  let (top, rest) := digitRun rest
  match rest with
  | '/' :: rest =>
      let (bottom, rest) := digitRun rest
      if top.isEmpty || bottom.isEmpty || !rest.isEmpty then none
      else some (applySign negative (natural top), natural bottom)
  | _ => none

/-- Digits with at most one point among them: all digits, and the number after the point. -/
def mantissa? (characters : List Char) : Option (List Char × Nat × List Char) :=
  let (whole, rest) := digitRun characters
  match rest with
  | '.' :: rest =>
      let (fraction, rest) := digitRun rest
      if whole.isEmpty && fraction.isEmpty then none
      else some (whole ++ fraction, fraction.length, rest)
  | _ => if whole.isEmpty then none else some (whole, 0, rest)

/-- Every letter that marks an exponent. -/
def isExponentMark (character : Char) : Bool :=
  ['e', 'E', 'd', 'D', 'f', 'F', 's', 'S'].contains character

/-- Nothing, or a mark, a sign and digits. -/
def exponent? (characters : List Char) : Option Int :=
  match characters with
  | [] => some 0
  | mark :: rest =>
      let (negative, rest) := signed rest
      let (digits, rest) := digitRun rest
      if isExponentMark mark && !digits.isEmpty && rest.isEmpty then
        some (applySign negative (natural digits))
      else none

/-- A sign, a decimal mantissa and perhaps an exponent. -/
def double? (characters : List Char) : Option Float := do
  let (negative, rest) := signed characters
  let (digits, places, rest) ← mantissa? rest
  let exponent ← exponent? rest
  some (Decimal.toDouble negative ⟨natural digits, exponent - places⟩)

/-- The real number that the characters write; a quotient by zero writes none. -/
def real? (characters : List Char) : Option Numeral :=
  match integer? characters with
  | some value => some (.integer value)
  | none =>
      match quotient? characters with
      | some (top, bottom) => if bottom = 0 then none else some (ofRat (mkRat top bottom))
      | none => (double? characters).map .double

/-- Some text that ends at the end of a line, without that end. -/
def withoutLineEnd? (characters : List Char) : Option (List Char) :=
  if characters.getLast? = some '\n' then some characters.dropLast else none

/-- The two parts of a complex literal. -/
def complexParts? (characters : List Char) : Option (List Char × List Char) :=
  let body := (withoutLineEnd? characters).getD characters
  match body with
  | '#' :: letter :: '(' :: rest =>
      if (letter == 'c' || letter == 'C') && rest.getLast? == some ')' then
        let inner := rest.dropLast.dropWhile Text.isBlank
        let (first, rest) := inner.span (!Text.isBlank ·)
        let (second, rest) := (rest.dropWhile Text.isBlank).span (!Text.isBlank ·)
        if first.isEmpty || second.isEmpty || !rest.all Text.isBlank then none
        else some (first, second)
      else none
  | _ => none

/-- An exact zero imaginary part leaves an exact real part alone. -/
def combine (real imaginary : Numeral) : Except Fault Numeral :=
  match real, imaginary with
  | .integer _, .integer 0 | .ratio _, .integer 0 => .ok real
  | _, _ =>
      match real.toDouble?, imaginary.toDouble? with
      | some first, some second => .ok (.complex ⟨first, second⟩)
      | _, _ => .error .overflow

/-- The number that the characters write, if they write one. -/
def read (characters : List Char) : Except Fault (Option Numeral) :=
  match complexParts? characters with
  | some (first, second) =>
      match real? first, real? second with
      | some real, some imaginary => (combine real imaginary).map some
      | _, _ => .ok none
  | none =>
      match withoutLineEnd? characters with
      | none => .ok (real? characters)
      | some line =>
          if (integer? line).isSome && line.getLast? == some '.' then .error .brokenInteger
          else .ok (real? line)

end Numeral

end Narrowing
