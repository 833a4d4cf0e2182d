import Narrowing.Proofs.DatumGrammar

/-
This file says which token lists are read, and that a rejection covers the first token at which no
list of the grammar can go on.
-/

namespace Narrowing.Datum

/-- The tokens before the end spell one datum. -/
def SpellsOne (tokens : List Token) (value : Value) : Prop :=
  ∃ datum last, tokens = datum ++ [last] ∧ Spells datum value ∧ last.lexeme = .finish

/-- The tokens before the end spell any number of data. -/
def SpellsMany (tokens : List Token) (values : List Value) : Prop :=
  ∃ data last, tokens = data ++ [last] ∧ SpellsAll data values ∧ last.lexeme = .finish

/-- Some tokens start a list of the grammar. -/
def Begins {Meaning : Type} (grammar : List Token → Meaning → Prop) (tokens : List Token) : Prop :=
  ∃ rest meaning, grammar (tokens ++ rest) meaning

/-- More lists are opened than closed. -/
def IsInside (tokens : List Token) : Prop :=
  tokens.countP (·.lexeme = .closeList) < tokens.countP (·.lexeme = .openList)

/-- A rejection covers the first token at which no list of the grammar goes on, and it expects a
closing parenthesis just when this token is the end inside an open list. -/
def RejectsFirst {Meaning : Type} (grammar : List Token → Meaning → Prop) (tokens : List Token)
    (rejection : Rejection) : Prop :=
  ∃ before token after, tokens = before ++ token :: after ∧
    Begins grammar before ∧ ¬ Begins grammar (before ++ [token]) ∧
    rejection.start = token.start ∧ rejection.stop = token.stop ∧
    (rejection.expected = ["RPAREN"] ↔ token.lexeme = .finish ∧ IsInside before)

mutual

theorem countP_of_spells {tokens : List Token} {value : Value} : Spells tokens value →
    tokens.countP (·.lexeme = .openList) = tokens.countP (·.lexeme = .closeList)
  | .atom denotes => by
      generalize kind : Token.lexeme _ = lexeme at denotes
      cases denotes <;> simp [kind]
  | .tuple opens items closes => by
      have balanced := countP_of_spellsAll items
      simp [opens, closes, balanced]

theorem countP_of_spellsAll {tokens : List Token} {values : List Value} : SpellsAll tokens values →
    tokens.countP (·.lexeme = .openList) = tokens.countP (·.lexeme = .closeList)
  | .nil => rfl
  | .cons item items => by
      rw [List.countP_append, List.countP_append, countP_of_spells item, countP_of_spellsAll items]

end

/-- Every open list counts. -/
theorem countP_of_opens {before : List Token} {pending : List OpenList}
    (opens : Opens before pending) : before.countP (·.lexeme = .openList) =
      before.countP (·.lexeme = .closeList) + pending.length := by
  induction opens with
  | nil => rfl
  | cons outer first items inductionHypothesis =>
      have balanced := countP_of_spellsAll items
      simp only [List.countP_append, List.countP_cons, first, List.length_cons]
      simp
      omega

/-- A datum inside open lists becomes part of a datum when they are closed. -/
theorem exists_spelled {before item : List Token} {pending : List OpenList} {value : Value}
    (opens : Opens before pending) (spells : Spells item value) :
    ∃ rest whole, Spells (before ++ item ++ rest) whole := by
  induction opens generalizing item value with
  | nil => exact ⟨[], value, by simpa using spells⟩
  | cons outer first items inductionHypothesis =>
      have closes : Token.lexeme ⟨.closeList, 0, 0⟩ = .closeList := rfl
      obtain ⟨rest, whole, closed⟩ :=
        inductionHypothesis (.tuple first (items.snoc spells) closes)
      exact ⟨⟨.closeList, 0, 0⟩ :: rest, whole, by simpa using closed⟩

/-- Some token is a datum alone. -/
theorem spells_symbol : Spells [⟨.symbol "", 0, 0⟩] (.text "") := .atom (.symbol "")

theorem readFrom_finish {size : Nat} {pending : List OpenList} {token : Token} {rest : List Token}
    (ends : token.lexeme = .finish) :
    readFrom size pending (token :: rest) = .error (unexpected token pending) := by
  cases pending <;> simp only [readFrom, ends, ofAtom?]

/-- Open lists are left just where more lists are opened than closed. -/
theorem isInside_iff {before : List Token} {pending : List OpenList}
    (opens : Opens before pending) : IsInside before ↔ pending ≠ [] := by
  rw [IsInside, countP_of_opens opens, ← List.length_pos_iff]
  omega

/-- Finished data in front open no list. -/
theorem isInside_append {data before : List Token} {values : List Value}
    (spells : SpellsAll data values) : IsInside (data ++ before) ↔ IsInside before := by
  rw [IsInside, IsInside, List.countP_append, List.countP_append, countP_of_spellsAll spells,
    Nat.add_lt_add_iff_left]

/-- A rejection outside all lists asks for a datum, and one inside asks for the end of a list. -/
theorem rejectsFirst_unexpected {Meaning : Type} {grammar : List Token → Meaning → Prop}
    {before : List Token} {token : Token} {pending : List OpenList} (rest : List Token)
    (begins : Begins grammar before) (stops : ¬ Begins grammar (before ++ [token]))
    (inside : token.lexeme = .finish ∧ IsInside before ↔ pending ≠ []) :
    ∃ rejection, unexpected token pending = .rejected rejection ∧
      RejectsFirst grammar (before ++ token :: rest) rejection := by
  cases pending with
  | nil =>
      refine ⟨_, rfl, before, token, rest, rfl, begins, stops, rfl, rfl, ?_⟩
      rw [inside]
      simp [startingKinds]
  | cons inner others =>
      refine ⟨_, rfl, before, token, rest, rfl, begins, stops, rfl, rfl, ?_⟩
      rw [inside]
      simp

section One

variable {size : Nat} {before tokens : List Token} {token : Token}

theorem begins_one (rest : List Token) {value : Value} (spells : Spells (before ++ rest) value) :
    Begins SpellsOne before :=
  ⟨rest ++ [Token.final 0], value, before ++ rest, .final 0, by simp, spells, rfl⟩

/-- No datum starts with tokens at which reading fails. -/
theorem not_begins_one
    (stops : ∀ rest, ∃ fault, readFrom 0 [] (before ++ token :: rest) = .error fault) :
    ¬ Begins SpellsOne (before ++ [token]) := by
  rintro ⟨rest, value, datum, last, split, spells, -⟩
  obtain ⟨fault, failed⟩ := stops rest
  have read := readFrom_of_spells 0 [] [last] spells
  rw [← split, List.append_assoc, List.singleton_append, failed] at read
  cases read

/-- Only the end follows a datum. -/
theorem not_begins_one_of_spells {value : Value} (spells : Spells before value)
    (goesOn : token.lexeme ≠ .finish) : ¬ Begins SpellsOne (before ++ [token]) := by
  rintro ⟨rest, other, datum, last, split, others, ends⟩
  have first := readFrom_of_spells 0 [] (token :: rest) spells
  have second := readFrom_of_spells 0 [] [last] others
  rw [← split, List.append_assoc, List.singleton_append, first] at second
  simp only [resume, Except.ok.injEq, Prod.mk.injEq, List.cons.injEq] at second
  exact goesOn (second.2.1 ▸ ends)

theorem rejectsFirst_stray (rest : List Token) (closes : token.lexeme = .closeList) :
    ∃ rejection, unexpected token [] = .rejected rejection ∧
      RejectsFirst SpellsOne (token :: rest) rejection := by
  have begins : Begins SpellsOne [] := begins_one _ spells_symbol
  have stops : ¬ Begins SpellsOne ([] ++ [token]) :=
    not_begins_one fun rest => ⟨_, readFrom_stray closes⟩
  exact rejectsFirst_unexpected rest begins stops (by simp [closes])

theorem rejectsFirst_unfinished (size : Nat) {pending : List OpenList}
    (opens : Opens tokens pending) :
    ∃ rejection, unexpected (.final size) pending = .rejected rejection ∧
      RejectsFirst SpellsOne (tokens ++ [.final size]) rejection := by
  refine rejectsFirst_unexpected [] ?_ ?_ ((and_iff_right rfl).trans (isInside_iff opens))
  · obtain ⟨rest, whole, spells⟩ := exists_spelled opens spells_symbol
    exact begins_one _ (by simpa using spells)
  · exact not_begins_one fun rest =>
      ⟨_, (readFrom_of_opens 0 _ opens).trans (readFrom_finish rfl)⟩

theorem rejectsFirst_surplus {value : Value} (rest : List Token) (spells : Spells before value)
    (goesOn : token.lexeme ≠ .finish) :
    ∃ rejection, reject token .unexpectedToken ["EOF"] = .rejected rejection ∧
      RejectsFirst SpellsOne (before ++ token :: rest) rejection := by
  refine ⟨_, rfl, before, token, rest, rfl, ?_, ?_, rfl, rfl, ?_⟩
  · exact begins_one [] (by simpa using spells)
  · exact not_begins_one_of_spells spells goesOn
  · simp [goesOn]

end One

section Many

variable {size : Nat} {data before tokens rest : List Token} {token : Token} {values : List Value}

theorem readAllFrom_of_ok {value : Value} (read : readFrom size [] tokens = .ok (value, rest)) :
    readAllFrom size tokens = (readAllFrom size rest).map (value :: ·) := by
  cases tokens with
  | nil => cases read
  | cons token others =>
      rw [readAllFrom]
      split
      · rename_i fault failed
        cases failed.symm.trans read
      · rename_i first remaining again
        cases again.symm.trans read
        rfl

theorem readAllFrom_of_error {fault : Fault} (some : tokens ≠ [])
    (failed : readFrom size [] tokens = .error fault) :
    readAllFrom size tokens = .error fault := by
  cases tokens with
  | nil => exact absurd rfl some
  | cons token others =>
      rw [readAllFrom]
      split
      · rename_i cause again
        exact congrArg Except.error (Except.error.inj (again.symm.trans failed))
      · rename_i value remaining read
        cases read.symm.trans failed

/-- Reading takes the tokens of the data in front, whatever follows. -/
theorem readAllFrom_of_spellsAll (size : Nat) (rest : List Token) :
    ∀ {tokens : List Token} {values : List Value}, SpellsAll tokens values →
      readAllFrom size (tokens ++ rest) = (readAllFrom size rest).map (values ++ ·)
  | _, _, .nil => by
      simp only [List.nil_append]
      cases readAllFrom size rest <;> rfl
  | _, _, @SpellsAll.cons _ others _ _ item items => by
      have first := readFrom_of_spells size [] (others ++ rest) item
      rw [List.append_assoc, readAllFrom_of_ok first, readAllFrom_of_spellsAll size rest items]
      cases readAllFrom size rest <;> rfl

theorem readAllFrom_eq_of_spellsAll (size : Nat) (spells : SpellsAll tokens values) :
    readAllFrom size tokens = .ok values := by
  have read := readAllFrom_of_spellsAll size [] spells
  rw [List.append_nil] at read
  rw [read, readAllFrom]
  simp [Except.map]

/-- The tokens of all data are read, or reading stops after the tokens of some data. -/
theorem outcome_readAllFrom (size : Nat) (scanned : ∀ token ∈ tokens, token.lexeme.IsScanned) :
    (∃ values, readAllFrom size tokens = .ok values ∧ SpellsAll tokens values) ∨
      ∃ data values rest fault, tokens = data ++ rest ∧ rest ≠ [] ∧ SpellsAll data values ∧
        readFrom size [] rest = .error fault ∧ readAllFrom size tokens = .error fault := by
  fun_induction readAllFrom size tokens with
  | case1 => exact .inl ⟨[], rfl, .nil⟩
  | case2 token others fault failed =>
      exact .inr ⟨[], [], _, fault, rfl, List.cons_ne_nil token others, .nil, failed, rfl⟩
  | case3 token others value rest read inductionHypothesis =>
      obtain ⟨consumed, taken, item⟩ :
          ∃ consumed, token :: others = consumed ++ rest ∧ Spells consumed value := by
        have outcome := outcome_readFrom size .nil scanned
        rw [read] at outcome
        cases outcome with
        | datum taken spells => exact ⟨_, taken, spells⟩
      have later : ∀ token ∈ rest, token.lexeme.IsScanned := fun token member =>
        scanned token (taken ▸ List.mem_append_right consumed member)
      rcases inductionHypothesis later with ⟨values, done, spells⟩ |
          ⟨data, values, remaining, fault, split, some, spells, failed, stopped⟩
      · exact .inl ⟨value :: values, by rw [done]; rfl, taken ▸ .cons item spells⟩
      · refine .inr ⟨consumed ++ data, value :: values, remaining, fault, ?_, some,
          .cons item spells, failed, by rw [stopped]; rfl⟩
        rw [taken, split, List.append_assoc]

theorem begins_many (rest : List Token) (spells : SpellsAll (before ++ rest) values) :
    Begins SpellsMany before :=
  ⟨rest ++ [Token.final 0], values, before ++ rest, .final 0, by simp, spells, rfl⟩

/-- After some data, no datum starts with tokens at which reading fails, nor does the end come
there. -/
theorem not_begins_many (before : List Token) (token : Token) (spells : SpellsAll data values)
    (stops : ∀ rest, ∃ fault, readFrom 0 [] (before ++ token :: rest) = .error fault)
    (ends : token.lexeme = .finish →
      before ≠ [] ∧ ∃ fault, readFrom 0 [] before = .error fault) :
    ¬ Begins SpellsMany (data ++ before ++ [token]) := by
  -- The data in front are read in any case, so reading would have to go on after them.
  have fails {others : List Token} (some : others ≠ [])
      (broken : ∃ fault, readFrom 0 [] others = .error fault) {all : List Value}
      (whole : SpellsAll (data ++ others) all) : False := by
    obtain ⟨fault, failed⟩ := broken
    have read := readAllFrom_eq_of_spellsAll 0 whole
    rw [readAllFrom_of_spellsAll 0 others spells, readAllFrom_of_error some failed] at read
    cases read
  rintro ⟨rest, others, all, last, split, whole, final⟩
  rcases List.eq_nil_or_concat rest with rfl | ⟨more, other, rfl⟩
  · rw [List.append_nil] at split
    obtain ⟨rfl, same⟩ := List.append_inj' split rfl
    obtain ⟨some, broken⟩ := ends ((List.cons.inj same).1 ▸ final)
    exact fails some broken whole
  · have regrouped : (data ++ (before ++ token :: more)) ++ [other] = all ++ [last] := by
      simpa using split
    obtain ⟨same, -⟩ := List.append_inj' regrouped rfl
    exact fails (by simp) (stops more) (same ▸ whole)

theorem SpellsAll.append {others : List Token} {more : List Value} :
    ∀ {tokens : List Token} {values : List Value}, SpellsAll tokens values →
      SpellsAll others more → SpellsAll (tokens ++ others) (values ++ more)
  | _, _, .nil, later => later
  | _, _, .cons item items, later => by
      rw [List.append_assoc]
      exact .cons item (items.append later)

theorem rejectsFirst_stray_many (rest : List Token) (spells : SpellsAll data values)
    (closes : token.lexeme = .closeList) :
    ∃ rejection, unexpected token [] = .rejected rejection ∧
      RejectsFirst SpellsMany (data ++ token :: rest) rejection := by
  have stray := not_begins_many [] token spells
    (fun rest => ⟨_, readFrom_stray closes⟩) (by simp [closes])
  rw [List.append_nil] at stray
  exact rejectsFirst_unexpected rest (begins_many [] (by simpa using spells)) stray
    (by simp [closes])

theorem rejectsFirst_unfinished_many (size : Nat) {pending : List OpenList}
    (spells : SpellsAll data values) (some : before ≠ []) (opens : Opens before pending) :
    ∃ rejection, unexpected (.final size) pending = .rejected rejection ∧
      RejectsFirst SpellsMany (data ++ before ++ [.final size]) rejection := by
  refine rejectsFirst_unexpected [] ?_ ?_
    ((and_iff_right rfl).trans ((isInside_append spells).trans (isInside_iff opens)))
  · obtain ⟨rest, whole, closed⟩ := exists_spelled opens spells_symbol
    have item : SpellsAll (before ++ ⟨.symbol "", 0, 0⟩ :: rest) [whole] := by
      simpa using SpellsAll.cons closed .nil
    exact begins_many _ (by simpa using spells.append item)
  · have failed := readFrom_of_opens 0 [] opens
    rw [List.append_nil] at failed
    exact not_begins_many _ _ spells
      (fun rest => ⟨_, (readFrom_of_opens 0 _ opens).trans (readFrom_finish rfl)⟩)
      fun _ => ⟨some, _, failed⟩

end Many

variable {source : String} {list : TokenList}

theorem scanFrom_of_source (tokenized : TokenList.ofSource source = .ok list) :
    Token.scanFrom 0 source.toList = .ok list.tokens ∧ list.size = source.length := by
  unfold TokenList.ofSource at tokenized
  cases scanned : Token.scanFrom 0 source.toList with
  | error fault => simp [scanned, Except.map] at tokenized
  | ok tokens =>
      rw [scanned] at tokenized
      cases tokenized
      exact ⟨rfl, rfl⟩

theorem isScanned_of_source (tokenized : TokenList.ofSource source = .ok list) :
    ∀ token ∈ list.tokens, token.lexeme.IsScanned :=
  Token.isScanned_of_mem (scanFrom_of_source tokenized).1

theorem read_of_source (tokenized : TokenList.ofSource source = .ok list) :
    read source = (readFrom list.size [] list.tokens >>= fun result =>
      match result.2 with
      | [] => .ok result.1
      | token :: _ => .error (reject token .unexpectedToken ["EOF"])) := by
  simp only [read, tokensOf, tokenized]
  rfl

theorem readAll_of_source (tokenized : TokenList.ofSource source = .ok list) :
    readAll source = readAllFrom list.size list.tokens := by
  simp only [readAll, tokensOf, tokenized]
  rfl

/-- One datum is read, or the first token that no datum can have there is rejected. -/
theorem read_cases (tokenized : TokenList.ofSource source = .ok list) :
    (∃ value, read source = .ok value ∧ SpellsOne list.listing value) ∨
      ∃ rejection, read source = .error (.rejected rejection) ∧
        RejectsFirst SpellsOne list.listing rejection := by
  have scanned := isScanned_of_source tokenized
  rw [read_of_source tokenized]
  have outcome := outcome_readFrom list.size .nil scanned
  generalize readFrom list.size [] list.tokens = result at outcome
  cases outcome with
  | @datum consumed rest value taken spells =>
      cases rest with
      | nil =>
          refine .inl ⟨value, rfl, consumed, .final list.size, ?_, by simpa using spells, rfl⟩
          rw [TokenList.listing, taken, List.append_nil]
      | cons token others =>
          right
          have goesOn : token.lexeme ≠ .finish := by
            intro ends
            have := scanned token (taken ▸ by simp)
            simp [ends, Lexeme.IsScanned] at this
          obtain ⟨rejection, same, rejects⟩ :=
            rejectsFirst_surplus (others ++ [.final list.size])
              (by simpa using spells) goesOn
          refine ⟨rejection, congrArg Except.error same, ?_⟩
          rw [TokenList.listing, taken]
          simpa using rejects
  | @stray token rest taken closes _ =>
      obtain ⟨rejection, same, rejects⟩ :=
        rejectsFirst_stray (rest ++ [.final list.size]) closes
      refine .inr ⟨rejection, congrArg Except.error same, ?_⟩
      rw [TokenList.listing, taken]
      simpa using rejects
  | unfinished opens =>
      obtain ⟨rejection, same, rejects⟩ :=
        rejectsFirst_unfinished list.size (by simpa using opens)
      exact .inr ⟨rejection, congrArg Except.error same, rejects⟩

/-- All data are read, or the first token that no data can have there is rejected. -/
theorem readAll_cases (tokenized : TokenList.ofSource source = .ok list) :
    (∃ values, readAll source = .ok values ∧ SpellsMany list.listing values) ∨
      ∃ rejection, readAll source = .error (.rejected rejection) ∧
        RejectsFirst SpellsMany list.listing rejection := by
  have scanned := isScanned_of_source tokenized
  rw [readAll_of_source tokenized]
  rcases outcome_readAllFrom list.size scanned with ⟨values, done, spells⟩ |
      ⟨data, values, rest, fault, split, some, spells, failed, stopped⟩
  · exact .inl ⟨values, done, list.tokens, .final list.size, rfl, spells, rfl⟩
  · right
    rw [stopped, TokenList.listing, split]
    have outcome := outcome_readFrom list.size .nil
      fun token member => scanned token (split ▸ List.mem_append_right data member)
    rw [failed] at outcome
    cases outcome with
    | @stray token others taken closes _ =>
        obtain ⟨rejection, same, rejects⟩ :=
          rejectsFirst_stray_many (others ++ [.final list.size]) spells closes
        refine ⟨rejection, congrArg Except.error same, ?_⟩
        rw [taken]
        simpa using rejects
    | unfinished opens =>
        obtain ⟨rejection, same, rejects⟩ :=
          rejectsFirst_unfinished_many list.size spells some (by simpa using opens)
        exact ⟨rejection, congrArg Except.error same, rejects⟩

theorem read_eq_of_spellsOne (tokenized : TokenList.ofSource source = .ok list) {value : Value}
    (spells : SpellsOne list.listing value) : read source = .ok value := by
  obtain ⟨datum, last, split, whole, -⟩ := spells
  obtain ⟨same, -⟩ := List.append_inj' split rfl
  have read := readFrom_of_spells list.size [] [] whole
  rw [List.append_nil, ← same] at read
  rw [read_of_source tokenized, read]
  rfl

theorem readAll_eq_of_spellsMany (tokenized : TokenList.ofSource source = .ok list)
    {values : List Value} (spells : SpellsMany list.listing values) :
    readAll source = .ok values := by
  obtain ⟨data, last, split, whole, -⟩ := spells
  obtain ⟨same, -⟩ := List.append_inj' split rfl
  rw [readAll_of_source tokenized, same]
  exact readAllFrom_eq_of_spellsAll _ whole

/-- A source that has tokens is read just when they spell data followed by the end, one datum or
any number of them, and it is read as these data; the rejection of any other source covers the
first token at which no such list goes on. -/
theorem reads_grammar (tokenized : TokenList.ofSource source = .ok list) :
    (∀ value, read source = .ok value ↔ SpellsOne list.listing value) ∧
    (∀ fault, read source = .error fault → ∃ rejection, fault = .rejected rejection ∧
      RejectsFirst SpellsOne list.listing rejection) ∧
    (∀ values, readAll source = .ok values ↔ SpellsMany list.listing values) ∧
    ∀ fault, readAll source = .error fault → ∃ rejection, fault = .rejected rejection ∧
      RejectsFirst SpellsMany list.listing rejection := by
  refine ⟨fun value => ⟨fun done => ?_, read_eq_of_spellsOne tokenized⟩, fun fault failed => ?_,
    fun values => ⟨fun done => ?_, readAll_eq_of_spellsMany tokenized⟩, fun fault failed => ?_⟩
  · rcases read_cases tokenized with ⟨other, again, spells⟩ | ⟨rejection, failed, -⟩
    · cases again.symm.trans done
      exact spells
    · cases failed.symm.trans done
  · rcases read_cases tokenized with ⟨value, done, -⟩ | ⟨rejection, again, rejects⟩
    · cases done.symm.trans failed
    · cases again.symm.trans failed
      exact ⟨rejection, rfl, rejects⟩
  · rcases readAll_cases tokenized with ⟨others, again, spells⟩ | ⟨rejection, failed, -⟩
    · cases again.symm.trans done
      exact spells
    · cases failed.symm.trans done
  · rcases readAll_cases tokenized with ⟨values, done, -⟩ | ⟨rejection, again, rejects⟩
    · cases done.symm.trans failed
    · cases again.symm.trans failed
      exact ⟨rejection, rfl, rejects⟩

/-- The tokens of a source whose first list stays open. -/
def unclosedTokens : TokenList :=
  ⟨[⟨.openList, 0, 1⟩, ⟨.openList, 1, 2⟩, ⟨.closeList, 2, 3⟩], 3⟩

theorem unclosed_tokenized : TokenList.ofSource "(()" = .ok unclosedTokens := by cbv

theorem reads_grammar_unclosed : TokenList.ofSource "(()" = .ok unclosedTokens ∧
    ∃ rejection, read "(()" = .error (.rejected rejection) ∧
      RejectsFirst SpellsOne unclosedTokens.listing rejection := by
  refine ⟨unclosed_tokenized, ?_⟩
  have failed : read "(()" = .error (unexpected (.final 3) [⟨0, [.tuple []]⟩]) := by
    rw [read_of_source unclosed_tokenized]
    rfl
  obtain ⟨rejection, same, rejects⟩ := (reads_grammar unclosed_tokenized).2.1 _ failed
  exact ⟨rejection, same ▸ failed, rejects⟩

end Narrowing.Datum
