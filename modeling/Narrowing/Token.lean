import Narrowing.Numeral
import Narrowing.Text.Fold
import Narrowing.Text.Quoted

/-
This file divides source texts into tokens.
-/

namespace Narrowing

/-- The content of a token. -/
inductive Lexeme where
  | openList
  | closeList
  | number (text : String) (value : Numeral)
  | symbol (name : String)
  | character (value : Char)
  | finish
deriving DecidableEq

namespace Lexeme

def kind : Lexeme → String
  | openList => "LPAREN"
  | closeList => "RPAREN"
  | number _ _ => "NUMBER"
  | symbol _ => "SYMBOL"
  | character _ => "CHAR"
  | finish => "EOF"

def text : Lexeme → String
  | openList => "("
  | closeList => ")"
  | number text _ => text
  | symbol name => name
  | character value => String.singleton value
  | finish => ""

end Lexeme

/-- A token covers the characters from `start` up to `stop`. -/
structure Token where
  lexeme : Lexeme
  start : Nat
  stop : Nat
deriving DecidableEq

namespace Token

/-- The reasons for which a text has no tokens. -/
inductive Cause where
  | unclosedComplex
  | malformedComplex (text : String)
  | incompleteCharacter
  | unknownCharacter (name : String)
  | unsupported (character : Char)
deriving DecidableEq, Repr

/-- A rejected text shows where it goes wrong; a number may also leave all doubles. -/
inductive Fault where
  | rejected (cause : Cause) (position : Nat)
  | number (fault : Numeral.Fault)
deriving DecidableEq, Repr

def Cause.message (position : Nat) : Cause → String
  | unclosedComplex => "Unclosed complex literal at index " ++ toString position
  | malformedComplex text =>
      "Malformed complex literal " ++ Text.quoted text ++ " at index " ++ toString position
  | incompleteCharacter => "Incomplete character literal at index " ++ toString position
  | unknownCharacter name =>
      "Unknown character name " ++ Text.quoted name ++ " at index " ++ toString position
  | unsupported character =>
      "Unsupported reader syntax " ++ Text.quoted (String.singleton character) ++ " at index " ++
        toString position

/-- A delimiter ends an atom. -/
def isDelimiter (character : Char) : Bool :=
  Text.isSeparator character || character == '(' || character == ')' || character == ';'

def isLineEnd (character : Char) : Bool := character == '\n' || character == '\r'

/-- The marks that no source text may start a datum with. -/
def isUnsupported (character : Char) : Bool :=
  "#'\x60,\"|".toList.contains character

/-- The characters that have names. -/
def characterNames : List (String × Char) := [
  ("space", ' '), ("newline", '\n'), ("tab", '\t'), ("return", '\r'), ("null", '\x00')]

def namedCharacter? (name : String) : Option Char :=
  (characterNames.find? fun entry => entry.1 == Text.folded name).map (·.2)

/-- What a step over the source yields: perhaps a lexeme, and the characters it takes beyond
the first one. -/
structure Step where
  lexeme : Option Lexeme
  extra : Nat

/-- A character literal, given the characters after the backslash. -/
def characterStep (position : Nat) (characters : List Char) : Except Fault Step :=
  match characters with
  | [] => .error (.rejected .incompleteCharacter position)
  | first :: rest =>
      let others := rest.takeWhile (!isDelimiter ·)
      let extra := others.length + 2
      if others.isEmpty then .ok ⟨some (.character first), extra⟩
      else
        let name := String.ofList (first :: others)
        match namedCharacter? name with
        | some value => .ok ⟨some (.character value), extra⟩
        | none => .error (.rejected (.unknownCharacter name) position)

/-- A complex literal runs to the next closing parenthesis; the characters follow its mark. -/
def complexStep (position : Nat) (characters : List Char) : Except Fault Step :=
  let inner := characters.takeWhile (· != ')')
  if inner.length = characters.length then .error (.rejected .unclosedComplex position)
  else
    let literal := '#' :: inner ++ [')']
    match Numeral.read literal with
    | .error fault => .error (.number fault)
    | .ok none => .error (.rejected (.malformedComplex (String.ofList literal)) position)
    | .ok (some value) =>
        .ok ⟨some (.number (String.ofList literal) value), inner.length + 1⟩

/-- An atom is a number or a symbol in folded case. -/
def atomStep (first : Char) (rest : List Char) : Except Fault Step :=
  let others := rest.takeWhile (!isDelimiter ·)
  let text := String.ofList (first :: others)
  match Numeral.read (first :: others) with
  | .error fault => .error (.number fault)
  | .ok (some value) => .ok ⟨some (.number text value), others.length⟩
  | .ok none => .ok ⟨some (.symbol (Text.folded text)), others.length⟩

/-- The step at a position, given the first character and the ones after it. -/
def step (position : Nat) (first : Char) (rest : List Char) : Except Fault Step :=
  if Text.isSeparator first then .ok ⟨none, 0⟩
  else if first = ';' then .ok ⟨none, (rest.takeWhile (!isLineEnd ·)).length⟩
  else if first = '(' then .ok ⟨some .openList, 0⟩
  else if first = ')' then .ok ⟨some .closeList, 0⟩
  else
    match first, rest with
    | '#', '\\' :: after => characterStep position after
    | '#', 'c' :: '(' :: _ => complexStep position rest
    | '#', 'C' :: '(' :: _ => complexStep position rest
    | _, _ =>
        if isUnsupported first then .error (.rejected (.unsupported first) position)
        else atomStep first rest

/-- The tokens of the characters from a position on. -/
def scanFrom (position : Nat) : List Char → Except Fault (List Token)
  | [] => .ok []
  | first :: rest =>
      match step position first rest with
      | .error fault => .error fault
      | .ok taken =>
          let stop := position + 1 + taken.extra
          match scanFrom stop (rest.drop taken.extra) with
          | .error fault => .error fault
          | .ok tokens =>
              match taken.lexeme with
              | some lexeme => .ok (⟨lexeme, position, stop⟩ :: tokens)
              | none => .ok tokens
termination_by characters => characters.length
decreasing_by simp only [List.length_cons, List.length_drop]; omega

/-- The token at the end of the source. -/
def final (size : Nat) : Token := ⟨.finish, size, size⟩

end Token

/-- The tokens of a source without the final one, and the size of the source. -/
structure TokenList where
  tokens : List Token
  size : Nat

namespace TokenList

def ofSource (source : String) : Except Token.Fault TokenList :=
  (Token.scanFrom 0 source.toList).map fun tokens => ⟨tokens, source.length⟩

/-- All tokens, the final one last. -/
def listing (list : TokenList) : List Token := list.tokens ++ [Token.final list.size]

end TokenList

end Narrowing
