import Narrowing.Datum
import Narrowing.Proofs.ScannedTokens

/-
This file states which tokens spell data, and shows that reading follows this grammar: it takes the
tokens of one datum, and it stops at the first token that no datum can have there.
-/

namespace Narrowing

namespace Datum

/-- The value of a lexeme that is a datum alone. -/
inductive Denotes : Lexeme → Value → Prop where
  | number {text : String} {value : Numeral}
      (written : Numeral.read text.toList = .ok (some value)) :
      Denotes (.number text value) (ofNumeral value)
  | symbol (name : String) : Denotes (.symbol name) (.text name)
  | character (value : Char) : Denotes (.character value) (.text (String.singleton value))

mutual

/-- The tokens spell a datum: an atom, or any number of data in parentheses. -/
inductive Spells : List Token → Value → Prop where
  | atom {token : Token} {value : Value} (denotes : Denotes token.lexeme value) :
      Spells [token] value
  | tuple {first last : Token} {tokens : List Token} {values : List Value}
      (opens : first.lexeme = .openList) (items : SpellsAll tokens values)
      (closes : last.lexeme = .closeList) :
      Spells (first :: (tokens ++ [last])) (.tuple values)

/-- The tokens spell data one after another. -/
inductive SpellsAll : List Token → List Value → Prop where
  | nil : SpellsAll [] []
  | cons {tokens others : List Token} {value : Value} {values : List Value}
      (item : Spells tokens value) (items : SpellsAll others values) :
      SpellsAll (tokens ++ others) (value :: values)

end

/-- A lexeme of a source is a parenthesis or says a value. -/
theorem scanned_cases {lexeme : Lexeme} (scanned : lexeme.IsScanned) :
    lexeme = .openList ∨ lexeme = .closeList ∨ ∃ value, Denotes lexeme value := by
  cases lexeme with
  | openList => exact .inl rfl
  | closeList => exact .inr (.inl rfl)
  | number text value => exact .inr (.inr ⟨_, .number scanned⟩)
  | symbol name => exact .inr (.inr ⟨_, .symbol name⟩)
  | character value => exact .inr (.inr ⟨_, .character value⟩)
  | finish => exact scanned.elim

/-- The tokens from the first open list on: each open list has some items so far. -/
inductive Opens : List Token → List OpenList → Prop where
  | nil : Opens [] []
  | cons {before items : List Token} {pending : List OpenList} {first : Token} {values : List Value}
      (outer : Opens before pending) (opens : first.lexeme = .openList)
      (inner : SpellsAll items values) :
      Opens (before ++ first :: items) (⟨first.start, values.reverse⟩ :: pending)

theorem SpellsAll.snoc {item : List Token} {value : Value} :
    ∀ {tokens : List Token} {values : List Value}, SpellsAll tokens values → Spells item value →
      SpellsAll (tokens ++ item) (values ++ [value])
  | _, _, .nil, last => by simpa using SpellsAll.cons last .nil
  | _, _, .cons first rest, last => by
      rw [List.append_assoc]
      exact .cons first (rest.snoc last)

section Runs

variable {size : Nat} {pending : List OpenList} {token : Token} {rest : List Token}

/-- What follows a finished datum: it is the result, or an item of the innermost open list. -/
def resume (size : Nat) (value : Value) (rest : List Token) :
    List OpenList → Except Fault (Value × List Token)
  | [] => .ok (value, rest)
  | inner :: others =>
      readFrom size ({ inner with reversed := value :: inner.reversed } :: others) rest

theorem readFrom_open (opens : token.lexeme = .openList) :
    readFrom size pending (token :: rest) = readFrom size (⟨token.start, []⟩ :: pending) rest := by
  simp only [readFrom, opens]

theorem readFrom_close (closes : token.lexeme = .closeList) (inner : OpenList) :
    readFrom size (inner :: pending) (token :: rest) =
      resume size (.tuple inner.reversed.reverse) rest pending := by
  cases pending <;> simp only [readFrom, closes, resume]

theorem readFrom_stray (closes : token.lexeme = .closeList) :
    readFrom size [] (token :: rest) = .error (unexpected token []) := by
  simp only [readFrom, closes]

theorem readFrom_atom {value : Value} (denotes : Denotes token.lexeme value) :
    readFrom size pending (token :: rest) = resume size value rest pending := by
  generalize kind : token.lexeme = lexeme at denotes
  cases denotes <;> cases pending <;> simp only [readFrom, kind, ofAtom?, resume]

mutual

/-- Reading takes the tokens of a datum whatever comes before and after them. -/
theorem readFrom_of_spells (size : Nat) {tokens : List Token} {value : Value}
    (pending : List OpenList) (rest : List Token) :
    Spells tokens value → readFrom size pending (tokens ++ rest) = resume size value rest pending
  | .atom denotes => readFrom_atom denotes
  | .tuple opens items closes => by
      rw [List.cons_append, readFrom_open opens, List.append_assoc,
        readFrom_of_spellsAll _ _ _ _ items, List.singleton_append, readFrom_close closes]
      simp

theorem readFrom_of_spellsAll (size : Nat) {tokens : List Token} {values : List Value}
    (inner : OpenList) (pending : List OpenList) (rest : List Token) :
    SpellsAll tokens values → readFrom size (inner :: pending) (tokens ++ rest) =
      readFrom size ({ inner with reversed := values.reverse ++ inner.reversed } :: pending) rest
  | .nil => rfl
  | .cons item items => by
      rw [List.append_assoc, readFrom_of_spells _ _ _ item, resume,
        readFrom_of_spellsAll _ _ _ _ items]
      simp

end

theorem readFrom_of_opens (size : Nat) (rest : List Token) {before : List Token}
    (opens : Opens before pending) :
    readFrom size [] (before ++ rest) = readFrom size pending rest := by
  induction opens generalizing rest with
  | nil => rfl
  | cons outer first inner inductionHypothesis =>
      rw [List.append_assoc, inductionHypothesis, List.cons_append, readFrom_open first,
        readFrom_of_spellsAll _ _ _ _ inner]
      simp

/-- The open lists after a datum is finished inside them. -/
theorem Opens.resume {before item : List Token} {inner : OpenList} {value : Value}
    (opens : Opens before (inner :: pending)) (spells : Spells item value) :
    Opens (before ++ item) ({ inner with reversed := value :: inner.reversed } :: pending) := by
  cases opens with
  | cons outer first items =>
      rw [List.append_assoc, List.cons_append]
      simpa using Opens.cons outer first (items.snoc spells)

/-- Reading from some open lists on ends with the tokens of one datum, at a closing parenthesis in
front of all data, or at the end inside open lists. -/
inductive Outcome (size : Nat) (before tokens : List Token) :
    Except Fault (Value × List Token) → Prop where
  | datum {consumed rest : List Token} {value : Value} (taken : tokens = consumed ++ rest)
      (spells : Spells (before ++ consumed) value) : Outcome size before tokens (.ok (value, rest))
  | stray {token : Token} {rest : List Token} (taken : tokens = token :: rest)
      (closes : token.lexeme = .closeList) (first : before = []) :
      Outcome size before tokens (.error (unexpected token []))
  | unfinished {pending : List OpenList} (opens : Opens (before ++ tokens) pending) :
      Outcome size before tokens (.error (unexpected (.final size) pending))

theorem Outcome.step {before : List Token} {result : Except Fault (Value × List Token)}
    (outcome : Outcome size (before ++ [token]) rest result) :
    Outcome size before (token :: rest) result := by
  cases outcome with
  | datum taken spells =>
      exact .datum (by rw [taken, List.cons_append]) (by simpa using spells)
  | stray _ _ first => simp at first
  | unfinished opens => exact .unfinished (by simpa using opens)

theorem outcome_resume {before item : List Token} {value : Value} (opens : Opens before pending)
    (spells : Spells item value)
    (later : ∀ {before : List Token} {pending : List OpenList}, Opens before pending →
      Outcome size before rest (readFrom size pending rest)) :
    Outcome size (before ++ item) rest (resume size value rest pending) := by
  cases pending with
  | nil =>
      cases opens
      exact .datum (List.nil_append rest).symm (by simpa using spells)
  | cons inner others => exact later (opens.resume spells)

theorem outcome_readFrom (size : Nat) {before : List Token} (opens : Opens before pending)
    {tokens : List Token} (scanned : ∀ token ∈ tokens, token.lexeme.IsScanned) :
    Outcome size before tokens (readFrom size pending tokens) := by
  induction tokens generalizing before pending with
  | nil => exact .unfinished (by simpa using opens)
  | cons token rest inductionHypothesis =>
      have later {before : List Token} {pending : List OpenList} (opens : Opens before pending) :=
        inductionHypothesis opens fun token member => scanned token (List.mem_cons_of_mem _ member)
      rcases scanned_cases (scanned token List.mem_cons_self) with kind | kind | ⟨value, denotes⟩
      · rw [readFrom_open kind]
        exact (later (.cons opens kind .nil)).step
      · cases opens with
        | nil =>
            rw [readFrom_stray kind]
            exact .stray rfl kind rfl
        | cons outer first items =>
            rw [readFrom_close kind]
            refine Outcome.step ?_
            simpa using outcome_resume outer (.tuple first items kind) later
      · rw [readFrom_atom denotes]
        exact (outcome_resume opens (.atom denotes) later).step

end Runs

end Datum

end Narrowing
