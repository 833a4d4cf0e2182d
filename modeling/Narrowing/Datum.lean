import Narrowing.Token
import Narrowing.Value

/-
This file reads data from tokens: atoms, and lists in parentheses.
-/

namespace Narrowing

namespace Datum

/-- The reasons for which a source holds no datum. -/
inductive Cause where
  | lexical (cause : Token.Cause) (position : Nat)
  | unclosedList (position : Nat)
  | unexpectedToken
  | headlessCall
deriving DecidableEq, Repr

/-- A rejection covers the characters from `start` up to `stop`. -/
structure Rejection where
  cause : Cause
  start : Nat
  stop : Nat
  expected : List String
  found : Option String
deriving DecidableEq, Repr

/-- A number inside the source may fail before any rejection. -/
inductive Fault where
  | rejected (rejection : Rejection)
  | number (fault : Numeral.Fault)
deriving DecidableEq, Repr

def Cause.message : Cause → String
  | lexical cause position => cause.message position
  | unclosedList position => "Unclosed list opened at index " ++ toString position
  | unexpectedToken => "Unexpected token"
  | headlessCall => "Call form needs an operator symbol"

namespace Rejection

def expectation (rejection : Rejection) : String :=
  if rejection.expected.isEmpty then ""
  else "; expected " ++ String.intercalate ", " rejection.expected

def finding (rejection : Rejection) : String :=
  match rejection.found with
  | none => ""
  | some text => "; found " ++ text

def message (rejection : Rejection) : String :=
  rejection.cause.message ++ " at span [" ++ toString rejection.start ++ ", " ++
    toString rejection.stop ++ ")" ++ rejection.expectation ++ rejection.finding

end Rejection

/-- The kinds of tokens that may start a datum. -/
def startingKinds : List String := ["LPAREN", "NUMBER", "SYMBOL", "CHAR"]

/-- A token in a message shows its kind and its text. -/
def describe (token : Token) : String :=
  if token.lexeme.text.isEmpty then token.lexeme.kind
  else token.lexeme.kind ++ "(" ++ token.lexeme.text ++ ")"

def reject (token : Token) (cause : Cause) (expected : List String) : Fault :=
  .rejected ⟨cause, token.start, token.stop, expected, some (describe token)⟩

def ofNumeral : Numeral → Value
  | .integer value => .integer value
  | .ratio value => .ratio value
  | .double value => .double value
  | .complex value => .complex value

/-- The value of a token that is a datum alone. -/
def ofAtom? : Lexeme → Option Value
  | .number _ value => some (ofNumeral value)
  | .symbol name => some (.text name)
  | .character value => some (.text (String.singleton value))
  | _ => none

/-- An open list keeps the position of its parenthesis and its items, the last one first. -/
structure OpenList where
  position : Nat
  reversed : List Value

/-- The failure at a token that neither starts nor continues a datum. -/
def unexpected (token : Token) (pending : List OpenList) : Fault :=
  match pending with
  | [] => reject token .unexpectedToken startingKinds
  | inner :: _ => reject token (.unclosedList inner.position) ["RPAREN"]

/-- One datum at the front of the tokens, and the tokens after it. -/
def readFrom (size : Nat) (pending : List OpenList) :
    List Token → Except Fault (Value × List Token)
  | [] => .error (unexpected (Token.final size) pending)
  | token :: rest =>
      match token.lexeme, pending with
      | .openList, _ => readFrom size (⟨token.start, []⟩ :: pending) rest
      | .closeList, [] => .error (unexpected token [])
      | .closeList, [inner] => .ok (.tuple inner.reversed.reverse, rest)
      | .closeList, inner :: outer :: others =>
          readFrom size
            ({ outer with reversed := .tuple inner.reversed.reverse :: outer.reversed } :: others)
            rest
      | lexeme, pending =>
          match ofAtom? lexeme, pending with
          | none, _ => .error (unexpected token pending)
          | some value, [] => .ok (value, rest)
          | some value, inner :: others =>
              readFrom size ({ inner with reversed := value :: inner.reversed } :: others) rest

theorem length_of_readFrom {size : Nat} {pending : List OpenList} {tokens rest : List Token}
    {value : Value} (success : readFrom size pending tokens = .ok (value, rest)) :
    rest.length < tokens.length := by
  induction tokens generalizing pending with
  | nil => simp [readFrom] at success
  | cons token tokens inductionHypothesis =>
      simp only [readFrom] at success
      split at success
      · exact Nat.lt_succ_of_lt (inductionHypothesis success)
      · cases success
      · cases success
        exact Nat.lt_succ_self _
      · exact Nat.lt_succ_of_lt (inductionHypothesis success)
      · split at success
        · cases success
        · cases success
          exact Nat.lt_succ_self _
        · exact Nat.lt_succ_of_lt (inductionHypothesis success)

/-- All data of the tokens. -/
def readAllFrom (size : Nat) (tokens : List Token) : Except Fault (List Value) :=
  match tokens with
  | [] => .ok []
  | token :: others =>
      match _datum : readFrom size [] (token :: others) with
      | .error fault => .error fault
      | .ok (value, rest) => (readAllFrom size rest).map (value :: ·)
termination_by tokens.length
decreasing_by exact length_of_readFrom _datum

/-- The tokens of a source; a text without tokens is rejected where it goes wrong. -/
def tokensOf (source : String) : Except Fault TokenList :=
  match TokenList.ofSource source with
  | .ok list => .ok list
  | .error (.number fault) => .error (.number fault)
  | .error (.rejected cause position) =>
      .error (.rejected ⟨.lexical cause position, position, position + 1, [], none⟩)

/-- The one datum of a source. -/
def read (source : String) : Except Fault Value := do
  let list ← tokensOf source
  let (value, rest) ← readFrom list.size [] list.tokens
  match rest with
  | [] => .ok value
  | token :: _ => .error (reject token .unexpectedToken ["EOF"])

/-- The data of a source. -/
def readAll (source : String) : Except Fault (List Value) := do
  let list ← tokensOf source
  readAllFrom list.size list.tokens

end Datum

end Narrowing
