import Narrowing.Proofs.DecimalTexts
import Narrowing.Proofs.ReadingData

/-
This file says how data are written as texts, with any layout around their atoms, and shows that
every such text is read as the datum that it writes.
-/

namespace Narrowing

/-- Separators and comments, each comment with the end of its line. -/
inductive Token.Gap : List Char → Prop where
  | nil : Gap []
  | separator {blank : Char} {gap : List Char} (separates : Text.isSeparator blank = true)
      (others : Gap gap) : Gap (blank :: gap)
  | comment {text gap : List Char} {last : Char}
      (inside : ∀ character ∈ text, isLineEnd character = false) (ends : isLineEnd last = true)
      (others : Gap gap) : Gap (';' :: (text ++ last :: gap))

namespace Datum

/-- A name that is read as a symbol and keeps its case. -/
structure IsSymbol (name : String) : Prop where
  nonempty : name ≠ ""
  folded : Text.folded name = name
  plain : ∀ character ∈ name.toList, Token.isDelimiter character = false
  supported : ∀ character ∈ name.toList.head?, Token.isUnsupported character = false
  unwritten : Numeral.read name.toList = .ok none

/-- The data that texts write: integers, proper ratios, symbols, characters, and tuples of data. -/
inductive IsWritable : Value → Prop where
  | integer (value : Int) : IsWritable (.integer value)
  | ratio {value : Rat} (proper : 2 ≤ value.den) : IsWritable (.ratio value)
  | symbol {name : String} (named : IsSymbol name) : IsWritable (.text name)
  | character (value : Char) : IsWritable (.text (String.singleton value))
  | tuple {values : List Value} (items : ∀ value ∈ values, IsWritable value) :
      IsWritable (.tuple values)

/-- The texts of a datum that is no tuple. -/
inductive WritesLeaf : Value → List Char → Prop where
  | integer {negative : Bool} {sign digits point : List Char} {number : Nat}
      (signed : Numeral.IsSign negative sign) (decimal : Numeral.IsDecimal number digits)
      (ends : point = [] ∨ point = ['.']) :
      WritesLeaf (.integer (if negative then -(number : Int) else number))
        (sign ++ (digits ++ point))
  | ratio {negative : Bool} {sign above below : List Char} {numerator denominator : Nat}
      {value : Rat} (signed : Numeral.IsSign negative sign)
      (top : Numeral.IsDecimal numerator above) (bottom : Numeral.IsDecimal denominator below)
      (nonzero : denominator ≠ 0)
      (equal : value = (if negative then -(numerator : Rat) else numerator) / denominator)
      (proper : 2 ≤ value.den) : WritesLeaf (.ratio value) (sign ++ (above ++ '/' :: below))
  | symbol {name : String} (named : IsSymbol name) : WritesLeaf (.text name) name.toList
  | character (value : Char) : WritesLeaf (.text (String.singleton value)) ['#', '\\', value]

def IsLeaf : Value → Prop
  | .tuple _ => False
  | _ => True

mutual

/-- The texts of a datum; a gap follows each opening parenthesis and each item of a tuple. -/
inductive Writes : Value → List Char → Prop where
  | leaf {value : Value} {text : List Char} (written : WritesLeaf value text) : Writes value text
  | tuple {values : List Value} {gap row : List Char} (blank : Token.Gap gap)
      (items : WritesItems values row) : Writes (.tuple values) ('(' :: (gap ++ (row ++ [')'])))

/-- The texts of the items of a tuple; the gap between neighbouring leaves is never empty. -/
inductive WritesItems : List Value → List Char → Prop where
  | nil : WritesItems [] []
  | cons {value : Value} {values : List Value} {text gap row : List Char}
      (item : Writes value text) (blank : Token.Gap gap) (items : WritesItems values row)
      (apart : IsLeaf value → (∃ next ∈ values.head?, IsLeaf next) → gap ≠ []) :
      WritesItems (value :: values) (text ++ (gap ++ row))

end

end Datum

namespace Token

variable {position : Nat} {first : Char} {text others rest : List Char} {tokens : List Token}

/-- The text goes no further, or with a delimiter. -/
def IsDelimited (rest : List Char) : Prop := ∀ character ∈ rest.head?, isDelimiter character = true

/-- A text yields some tokens in front of those of the rest. -/
def Yields (position : Nat) (text rest : List Char) (tokens : List Token) : Prop :=
  scanFrom position (text ++ rest) =
    (scanFrom (position + text.length) rest).map (tokens ++ ·)

theorem Yields.append {more : List Token} (front : Yields position text (others ++ rest) tokens)
    (back : Yields (position + text.length) others rest more) :
    Yields position (text ++ others) rest (tokens ++ more) := by
  unfold Yields at front back ⊢
  rw [List.append_assoc, front, back, List.length_append, Nat.add_assoc]
  cases scanFrom (position + (text.length + others.length)) rest with
  | error fault => rfl
  | ok remaining => simp [Except.map]

/-- A step over a whole text yields its lexeme. -/
theorem yields_of_step {taken : Step} (stepped : step position first (others ++ rest) = .ok taken)
    (extra : taken.extra = others.length) :
    Yields position (first :: others) rest
      (taken.lexeme.map fun lexeme => ⟨lexeme, position, position + 1 + others.length⟩).toList := by
  unfold Yields
  rw [List.cons_append, scanFrom_of_ok stepped, extra, List.drop_left, List.length_cons,
    Nat.add_comm others.length, Nat.add_assoc]

theorem step_separator (blank : Text.isSeparator first = true) :
    step position first rest = .ok ⟨none, 0⟩ := by
  unfold step
  rw [if_pos blank]

theorem isSeparator_of_isLineEnd (ends : isLineEnd first = true) :
    Text.isSeparator first = true := by
  simp only [isLineEnd, Bool.or_eq_true, beq_iff_eq] at ends
  rcases ends with rfl | rfl <;> rfl

/-- A gap yields no tokens. -/
theorem yields_gap (position : Nat) (rest : List Char) (gap : Gap text) :
    Yields position text rest [] := by
  induction gap generalizing position with
  | nil =>
      unfold Yields
      rw [List.nil_append, List.length_nil, Nat.add_zero]
      cases scanFrom position rest <;> rfl
  | @separator blank gap separates others inductionHypothesis =>
      have front : Yields position [blank] (gap ++ rest) [] :=
        yields_of_step (step_separator separates) rfl
      exact front.append (inductionHypothesis (position + 1))
  | @comment text gap last inside ends others inductionHypothesis =>
      have stepped : step position ';' (text ++ (last :: gap ++ rest)) =
          .ok ⟨none, text.length⟩ := by
        unfold step
        rw [if_neg (by decide), if_pos rfl, List.cons_append,
          List.takeWhile_append_of_pos (by simpa using inside), List.takeWhile_cons]
        simp [ends]
      -- A comment stops in front of the end of its line, which is a separator of its own.
      have marks : Yields position (';' :: text) (last :: gap ++ rest) [] :=
        yields_of_step stepped rfl
      have lineEnd (position : Nat) : Yields position [last] (gap ++ rest) [] :=
        yields_of_step (step_separator (isSeparator_of_isLineEnd ends)) rfl
      exact marks.append ((lineEnd _).append (inductionHypothesis _))

/-- An atom ends where a delimiter comes. -/
theorem atomTail_append (plain : ∀ character ∈ others, isDelimiter character = false)
    (ends : IsDelimited rest) : atomTail (others ++ rest) = others := by
  rw [atomTail, List.takeWhile_append_of_pos (by simpa using plain)]
  cases rest with
  | nil => simp
  | cons next later => simp [ends next rfl]

/-- The step at the first character of an atom. -/
theorem step_atom (plain : isDelimiter first = false) (supported : isUnsupported first = false) :
    step position first rest = atomStep first rest := by
  simp only [isDelimiter, Bool.or_eq_false_iff, beq_eq_false_iff_ne] at plain
  obtain ⟨⟨⟨separates, opens⟩, closes⟩, marks⟩ := plain
  have unmarked : first ≠ '#' := by
    rintro rfl
    exact absurd supported (by decide)
  unfold step
  rw [separates, if_neg Bool.false_ne_true, if_neg marks, if_neg opens, if_neg closes]
  split
  · exact absurd rfl unmarked
  · exact absurd rfl unmarked
  · exact absurd rfl unmarked
  · rw [supported, if_neg Bool.false_ne_true]

/-- A word is a text without delimiters that an atom may start with. -/
structure IsWord (text : List Char) : Prop where
  nonempty : text ≠ []
  plain : ∀ character ∈ text, isDelimiter character = false
  supported : ∀ character ∈ text.head?, isUnsupported character = false

theorem IsWord.atomTail_eq (word : IsWord (first :: others)) (ends : IsDelimited rest) :
    atomTail (others ++ rest) = others :=
  atomTail_append (fun character member => word.plain character (List.mem_cons_of_mem _ member))
    ends

theorem IsWord.takeWhile_eq (word : IsWord (first :: others)) :
    others.takeWhile (!isDelimiter ·) = others := by
  have alone : atomTail (others ++ []) = others := word.atomTail_eq nofun
  rwa [List.append_nil] at alone

/-- In front of a delimiter, a word yields what it yields alone. -/
theorem IsWord.yields {lexeme : Lexeme} (word : IsWord (first :: others)) (position : Nat)
    (ends : IsDelimited rest)
    (alone : atomStep first others = .ok ⟨some lexeme, others.length⟩) :
    Yields position (first :: others) rest
      [⟨lexeme, position, position + (first :: others).length⟩] := by
  have front : (others ++ rest).takeWhile (!isDelimiter ·) = others := word.atomTail_eq ends
  have stepped : step position first (others ++ rest) = .ok ⟨some lexeme, others.length⟩ := by
    rw [step_atom (word.plain first List.mem_cons_self) (word.supported first rfl), ← alone]
    simp only [atomStep, front, word.takeWhile_eq]
  have yields := yields_of_step stepped rfl
  rw [Nat.add_assoc, Nat.add_comm 1] at yields
  exact yields

/-- A word that writes a number yields the number. -/
theorem IsWord.yields_number {value : Numeral} (word : IsWord text) (position : Nat)
    (ends : IsDelimited rest) (written : Numeral.read text = .ok (some value)) :
    Yields position text rest
      [⟨.number (String.ofList text) value, position, position + text.length⟩] := by
  obtain ⟨first, others, rfl⟩ := List.exists_cons_of_ne_nil word.nonempty
  exact word.yields position ends (by simp only [atomStep, word.takeWhile_eq, written])

/-- Any other word yields a symbol. -/
theorem IsWord.yields_symbol (word : IsWord text) (position : Nat) (ends : IsDelimited rest)
    (unwritten : Numeral.read text = .ok none) :
    Yields position text rest
      [⟨.symbol (Text.folded (String.ofList text)), position, position + text.length⟩] := by
  obtain ⟨first, others, rfl⟩ := List.exists_cons_of_ne_nil word.nonempty
  exact word.yields position ends (by simp only [atomStep, word.takeWhile_eq, unwritten])

/-- Any character may stand in a character literal, a delimiter too. -/
theorem yields_character (position : Nat) (value : Char) (ends : IsDelimited rest) :
    Yields position ['#', '\\', value] rest [⟨.character value, position, position + 3⟩] := by
  have tail : rest.takeWhile (!isDelimiter ·) = [] := by
    simpa [atomTail] using atomTail_append (List.forall_mem_nil _) ends
  have stepped : step position '#' (['\\', value] ++ rest) = .ok ⟨some (.character value), 2⟩ := by
    unfold step
    rw [if_neg (by decide), if_neg (by decide), if_neg (by decide), if_neg (by decide)]
    simp [characterStep, tail]
  exact yields_of_step stepped rfl

theorem yields_open (position : Nat) (rest : List Char) :
    Yields position ['('] rest [⟨.openList, position, position + 1⟩] := by
  have stepped : step position '(' ([] ++ rest) = .ok ⟨some .openList, 0⟩ := rfl
  exact yields_of_step stepped rfl

theorem yields_close (position : Nat) (rest : List Char) :
    Yields position [')'] rest [⟨.closeList, position, position + 1⟩] := by
  have stepped : step position ')' ([] ++ rest) = .ok ⟨some .closeList, 0⟩ := rfl
  exact yields_of_step stepped rfl

/-- A gap that is not empty starts with a delimiter. -/
theorem Gap.isDelimited (gap : Gap text) (ends : text = [] → IsDelimited rest) :
    IsDelimited (text ++ rest) := by
  cases gap with
  | nil => exact ends rfl
  | separator separates others =>
      rintro blank ⟨⟩
      simp [isDelimiter, separates]
  | comment inside lineEnd others =>
      rintro mark ⟨⟩
      rfl

/-- A word is read as a real number or not at all. -/
theorem IsWord.read_eq (word : IsWord text) : Numeral.read text = .ok (Numeral.real? text) := by
  obtain ⟨first, others, rfl⟩ := List.exists_cons_of_ne_nil word.nonempty
  exact read_of_atom (word.supported first rfl) word.plain

/-- No character of a written number has another use. -/
theorem plain_of_numeric (numeric : first.isDigit = true ∨ first ∈ ['+', '-', '.', '/']) :
    isDelimiter first = false ∧ isUnsupported first = false := by
  constructor
  · by_contra delimits
    simp only [isDelimiter, Text.isSeparator, Bool.not_eq_false, Bool.or_eq_true,
      beq_iff_eq] at delimits
    rcases delimits with ((((((((rfl | rfl) | rfl) | rfl) | rfl) | rfl) | rfl) | rfl) | rfl) <;>
      exact absurd numeric (by decide)
  · by_contra marks
    rw [Bool.not_eq_false] at marks
    have among : first = '#' ∨ first = '\'' ∨ first = '\x60' ∨ first = ',' ∨ first = '"' ∨
        first = '|' := by simpa [isUnsupported] using marks
    rcases among with rfl | rfl | rfl | rfl | rfl | rfl <;> exact absurd numeric (by decide)

/-- A text of digits, signs, points and slashes is a word. -/
theorem isWord_of_numeric (nonempty : text ≠ [])
    (numeric : ∀ character ∈ text, character.isDigit = true ∨ character ∈ ['+', '-', '.', '/']) :
    IsWord text where
  nonempty := nonempty
  plain character member := (plain_of_numeric (numeric character member)).1
  supported character first :=
    (plain_of_numeric (numeric character (List.mem_of_mem_head? first))).2

end Token

namespace Datum

variable {value : Value} {values : List Value} {text row rest : List Char}

/-- A sign, digits and other characters of numbers make a word. -/
theorem isWord_signed {negative : Bool} {sign digits : List Char} {number : Nat}
    (signed : Numeral.IsSign negative sign) (decimal : Numeral.IsDecimal number digits)
    (numeric : ∀ character ∈ rest, character.isDigit = true ∨ character ∈ ['+', '-', '.', '/']) :
    Token.IsWord (sign ++ (digits ++ rest)) := by
  refine Token.isWord_of_numeric (by simp [decimal.ne_nil]) fun character member => ?_
  rcases List.mem_append.mp member with marks | member
  · right
    cases signed <;> simp_all
  · rcases List.mem_append.mp member with digit | later
    · exact .inl (decimal.isDigit character digit)
    · exact numeric character later

/-- The text of a leaf yields one token in front of any delimiter. -/
theorem yields_of_writesLeaf (position : Nat) (written : WritesLeaf value text)
    (ends : Token.IsDelimited rest) :
    ∃ lexeme, Denotes lexeme value ∧
      Token.Yields position text rest [⟨lexeme, position, position + text.length⟩] := by
  cases written with
  | @integer negative sign digits point number signed decimal stops =>
      have word : Token.IsWord (sign ++ (digits ++ point)) :=
        isWord_signed signed decimal (by rcases stops with rfl | rfl <;> simp)
      have read := word.read_eq
      rw [Numeral.real?_integer signed decimal stops] at read
      exact ⟨_, .number (by rwa [String.toList_ofList]), word.yields_number position ends read⟩
  | @ratio negative sign above below numerator denominator value signed top bottom nonzero equal
      proper =>
      have word : Token.IsWord (sign ++ (above ++ '/' :: below)) := by
        refine isWord_signed signed top fun character member => ?_
        rcases List.mem_cons.mp member with rfl | digit
        · exact .inr (by decide)
        · exact .inl (bottom.isDigit character digit)
      have lowest : mkRat (Numeral.applySign negative numerator) denominator = value := by
        rw [equal, Rat.mkRat_eq_div, Numeral.cast_applySign]
      have read := word.read_eq
      rw [Numeral.real?_quotient signed top bottom nonzero, lowest, Numeral.ofRat,
        if_neg (by omega)] at read
      exact ⟨_, .number (by rwa [String.toList_ofList]), word.yields_number position ends read⟩
  | @symbol name named =>
      have word : Token.IsWord name.toList :=
        ⟨by simpa using named.nonempty, named.plain, named.supported⟩
      refine ⟨_, .symbol name, ?_⟩
      have yields := word.yields_symbol position ends named.unwritten
      rwa [String.ofList_toList, named.folded] at yields
  | character value => exact ⟨_, .character value, Token.yields_character position value ends⟩

/-- A closing parenthesis or another tuple follows the last leaf of some neighbours. -/
theorem isDelimited_of_items (items : WritesItems values row)
    (parted : ∀ next ∈ values.head?, ¬ IsLeaf next) :
    Token.IsDelimited (row ++ ')' :: rest) := by
  cases items with
  | nil =>
      rintro close ⟨⟩
      rfl
  | cons item blank items apart =>
      cases item with
      | leaf written => cases written <;> exact absurd trivial (parted _ rfl)
      | tuple gap inner =>
          rintro mark ⟨⟩
          rfl

mutual

/-- The text of a datum yields tokens that spell the datum. -/
theorem yields_of_writes (position : Nat) {value : Value} {text rest : List Char} :
    Writes value text → (IsLeaf value → Token.IsDelimited rest) →
      ∃ tokens, Spells tokens value ∧ Token.Yields position text rest tokens
  | .leaf written, ends => by
      have delimited : Token.IsDelimited rest := ends (by cases written <;> trivial)
      obtain ⟨lexeme, denotes, yields⟩ := yields_of_writesLeaf position written delimited
      exact ⟨_, .atom denotes, yields⟩
  | @Writes.tuple _ gap row blank items, _ => by
      obtain ⟨tokens, spells, yields⟩ :=
        yields_of_writesItems (position + 1 + gap.length) rest items
      have inner := (Token.yields_gap (position + 1) _ blank).append
        (yields.append (Token.yields_close _ rest))
      have whole := (Token.yields_open position _).append inner
      exact ⟨_, .tuple rfl spells rfl, whole⟩

/-- The texts of the items of a tuple yield tokens that spell them all. -/
theorem yields_of_writesItems (position : Nat) {values : List Value} {row : List Char}
    (rest : List Char) :
    WritesItems values row →
      ∃ tokens, SpellsAll tokens values ∧ Token.Yields position row (')' :: rest) tokens
  | .nil => ⟨[], .nil, Token.yields_gap position _ .nil⟩
  | @WritesItems.cons value _ text gap others item blank items apart => by
      -- A leaf ends before the gap, or before a parenthesis where the gap is empty.
      have ends (leaf : IsLeaf value) : Token.IsDelimited (gap ++ others ++ ')' :: rest) := by
        rw [List.append_assoc]
        refine blank.isDelimited fun empty => isDelimited_of_items items fun next head other => ?_
        exact apart leaf ⟨next, head, other⟩ empty
      obtain ⟨tokens, spells, yields⟩ := yields_of_writes position item ends
      obtain ⟨more, later, remaining⟩ :=
        yields_of_writesItems (position + text.length + gap.length) rest items
      refine ⟨tokens ++ more, .cons spells later, ?_⟩
      exact yields.append ((Token.yields_gap _ _ blank).append remaining)

end

mutual

theorem isWritable_of_writes {value : Value} {text : List Char} :
    Writes value text → IsWritable value
  | .leaf written => by
      cases written with
      | integer => exact .integer _
      | ratio _ _ _ _ _ proper => exact .ratio proper
      | symbol named => exact .symbol named
      | character value => exact .character value
  | .tuple _ items => .tuple (isWritable_of_writesItems items)

theorem isWritable_of_writesItems {values : List Value} {row : List Char} :
    WritesItems values row → ∀ value ∈ values, IsWritable value
  | .nil => List.forall_mem_nil _
  | .cons item _ items _ =>
      List.forall_mem_cons.mpr ⟨isWritable_of_writes item, isWritable_of_writesItems items⟩

end

end Datum

end Narrowing
