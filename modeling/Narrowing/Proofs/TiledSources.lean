import Narrowing.Proofs.Renderings

/-
This file shows that the tokens of a source tile it: each one covers its own text, and nothing but
separators and comments lies between them.
-/

namespace Narrowing

/-- What a lexeme has to do with the text that its token covers. -/
def Lexeme.Covers (slice : List Char) : Lexeme → Prop
  | openList => slice = ['(']
  | closeList => slice = [')']
  | number text value => text = String.ofList slice ∧ Numeral.read slice = .ok (some value)
  | symbol name => name = Text.folded (String.ofList slice) ∧ Numeral.read slice = .ok none
  | character value => (character value).text.length = 1 ∧ ∃ name, slice = '#' :: '\\' :: name ∧
      (name = [value] ∨ Token.namedCharacter? (String.ofList name) = some value)
  | finish => False

namespace Token

/-- A gap at the end of a source may close with a comment whose line does not end. -/
inductive ClosingGap : List Char → Prop where
  | ended {gap : List Char} (blank : Gap gap) : ClosingGap gap
  | open {gap text : List Char} (blank : Gap gap)
      (inside : ∀ character ∈ text, isLineEnd character = false) : ClosingGap (gap ++ ';' :: text)

/-- The characters from a position on are gaps and the texts of the tokens by turns. -/
inductive Tiles : Nat → List Char → List Token → Prop where
  | done {position : Nat} {gap : List Char} (closing : ClosingGap gap) : Tiles position gap []
  | next {position start stop : Nat} {gap others rest : List Char} {first : Char} {lexeme : Lexeme}
      {tokens : List Token} (blank : Gap gap) (covers : lexeme.Covers (first :: others))
      (proper : Text.isSeparator first = false) (starts : start = position + gap.length)
      (stops : stop = start + (first :: others).length) (later : Tiles stop rest tokens) :
      Tiles position (gap ++ (first :: others ++ rest)) (⟨lexeme, start, stop⟩ :: tokens)

variable {position : Nat} {first : Char} {text rest characters : List Char} {tokens : List Token}

section Steps

/-- A step that names a lexeme takes the text that the lexeme covers. -/
theorem covers_of_scans {taken : Step} {lexeme : Lexeme}
    (scans : Scans position first rest (.ok taken)) (named : taken.lexeme = some lexeme) :
    lexeme.Covers (first :: rest.take taken.extra) ∧ Text.isSeparator first = false := by
  have bare (plain : isDelimiter first = false) : Text.isSeparator first = false := by
    simp only [isDelimiter, Bool.or_eq_false_iff] at plain
    exact plain.1.1.1
  have front (test : Char → Bool) (characters : List Char) :
      characters.take (characters.takeWhile test).length = characters.takeWhile test :=
    (List.prefix_iff_eq_take.mp (List.takeWhile_prefix test)).symm
  cases scans with
  | separator _ => cases named
  | comment _ => cases named
  | openList opens =>
      cases named
      subst opens
      exact ⟨rfl, rfl⟩
  | closeList closes =>
      cases named
      subst closes
      exact ⟨rfl, rfl⟩
  | @character letter value after marks literal names =>
      cases named
      subst marks literal
      have slice : ('\\' :: letter :: after).take ((atomTail after).length + 2) =
          '\\' :: letter :: atomTail after :=
        congrArg (fun others => '\\' :: letter :: others) (front _ after)
      refine ⟨⟨String.length_singleton, letter :: atomTail after, by rw [slice], ?_⟩, rfl⟩
      rcases names with ⟨alone, rfl⟩ | found
      · exact .inl (by rw [alone])
      · exact .inr found
  | @complex inner after value marks literal _ written =>
      cases named
      subst marks literal
      have slice : (inner ++ ')' :: after).take (inner.length + 1) = inner ++ [')'] := by
        simp [List.take_append]
      rw [slice]
      exact ⟨⟨rfl, written⟩, rfl⟩
  | number plain written =>
      cases named
      exact ⟨(front _ rest).symm ▸ ⟨rfl, written⟩, bare plain.1⟩
  | symbol plain unwritten =>
      cases named
      exact ⟨(front _ rest).symm ▸ ⟨rfl, unwritten⟩, bare plain.1⟩

/-- A step that names no lexeme is a separator or a comment. -/
theorem blank_of_scans {taken : Step} (scans : Scans position first rest (.ok taken))
    (unnamed : taken.lexeme = none) :
    (Text.isSeparator first = true ∧ taken.extra = 0) ∨
      (first = ';' ∧ taken.extra = (rest.takeWhile (!isLineEnd ·)).length) := by
  cases scans with
  | separator blank => exact .inl ⟨blank, rfl⟩
  | comment marks => exact .inr ⟨marks, rfl⟩
  | openList _ => cases unnamed
  | closeList _ => cases unnamed
  | character _ _ _ => cases unnamed
  | complex _ _ _ _ => cases unnamed
  | number _ _ => cases unnamed
  | symbol _ _ => cases unnamed

end Steps

section Gaps

variable {last : Char}

theorem Gap.of_lineEnd (gap : Gap (last :: rest)) (ends : isLineEnd last = true) : Gap rest := by
  cases gap with
  | separator _ others => exact others
  | comment _ _ _ => exact absurd ends (by decide)

/-- A separator in front of a tiled text belongs to its first gap. -/
theorem Tiles.separator (separates : Text.isSeparator first = true)
    (tiles : Tiles (position + 1) text tokens) : Tiles position (first :: text) tokens := by
  cases tiles with
  | done closing =>
      cases closing with
      | ended blank => exact .done (.ended (.separator separates blank))
      | «open» blank inside => exact .done (.open (.separator separates blank) inside)
  | next blank covers proper starts stops later =>
      refine .next (.separator separates blank) covers proper ?_ stops later
      rw [starts, List.length_cons]
      omega

/-- A comment in front of the end of its line belongs to the first gap, too. -/
theorem Tiles.comment (inside : ∀ character ∈ text, isLineEnd character = false)
    (ends : isLineEnd last = true)
    (tiles : Tiles (position + 1 + text.length) (last :: rest) tokens) :
    Tiles position (';' :: (text ++ last :: rest)) tokens := by
  generalize behind : last :: rest = characters at tiles
  cases tiles with
  | done closing =>
      cases closing with
      | ended blank =>
          subst behind
          exact .done (.ended (.comment inside ends (blank.of_lineEnd ends)))
      | @«open» gap others blank unended =>
          cases gap with
          | nil =>
              obtain ⟨rfl, -⟩ := List.cons.inj behind
              exact absurd ends (by decide)
          | cons _ gap =>
              obtain ⟨rfl, rfl⟩ := List.cons.inj behind
              have comment := ClosingGap.open
                (.comment inside ends (blank.of_lineEnd ends)) unended
              rw [List.cons_append, List.append_assoc] at comment
              exact .done comment
  | @next _ start stop gap others remaining head lexeme tokens blank covers proper starts stops
      later =>
      cases gap with
      | nil =>
          obtain ⟨rfl, -⟩ := List.cons.inj behind
          rw [isSeparator_of_isLineEnd ends] at proper
          cases proper
      | cons _ gap =>
          obtain ⟨rfl, rfl⟩ := List.cons.inj behind
          have reaches : start = position + (';' :: (text ++ last :: gap)).length := by
            rw [starts]
            simp only [List.length_cons, List.length_append]
            omega
          have comment := Tiles.next (.comment inside ends (blank.of_lineEnd ends)) covers proper
            reaches stops later
          rw [List.cons_append, List.append_assoc] at comment
          exact comment

end Gaps

/-- A comment takes the rest of its line. -/
theorem exists_line (characters : List Char) :
    ∃ text rest, characters = text ++ rest ∧ characters.takeWhile (!isLineEnd ·) = text ∧
      (∀ character ∈ text, isLineEnd character = false) ∧
      ∀ character ∈ rest.head?, isLineEnd character = true := by
  refine ⟨_, _, List.takeWhile_append_dropWhile.symm, rfl, fun character member => ?_,
    fun character head => ?_⟩
  · simpa using List.mem_takeWhile_imp member
  · have stops := List.head?_dropWhile_not (!isLineEnd ·) characters
    rw [Option.mem_def.mp head] at stops
    simpa using stops

/-- The tokens of a text tile it. -/
theorem tiles_of_scanFrom (scanned : scanFrom position characters = .ok tokens) :
    Tiles position characters tokens := by
  fun_induction scanFrom position characters generalizing tokens with
  | case1 =>
      cases scanned
      exact .done (.ended .nil)
  | case2 => cases scanned
  | case3 => cases scanned
  | case4 position first rest taken stepped stop later rescanned lexeme named =>
      rename_i inductionHypothesis
      cases scanned
      have scans : Scans position first rest (.ok taken) := stepped ▸ scans_step position first rest
      obtain ⟨covers, proper⟩ := covers_of_scans scans named
      have bounded := extra_le scans
      have stops : stop = position + (first :: rest.take taken.extra).length := by
        rw [List.length_cons, List.length_take, Nat.min_eq_left bounded]
        omega
      have tiles := Tiles.next .nil covers proper (Nat.add_zero position).symm stops
        (inductionHypothesis rescanned)
      rwa [List.nil_append, List.cons_append, List.take_append_drop] at tiles
  | case5 position first rest taken stepped stop later rescanned unnamed =>
      rename_i inductionHypothesis
      cases scanned
      have tiles := inductionHypothesis rescanned
      have scans : Scans position first rest (.ok taken) := stepped ▸ scans_step position first rest
      rcases blank_of_scans scans unnamed with ⟨separates, alone⟩ | ⟨rfl, line⟩
      · have behind : stop = position + 1 := by omega
        rw [alone, List.drop_zero, behind] at tiles
        exact tiles.separator separates
      · obtain ⟨text, others, rfl, taking, inside, ends⟩ := exists_line rest
        rw [taking] at line
        have behind : stop = position + 1 + text.length := by omega
        rw [line, List.drop_left, behind] at tiles rescanned
        cases others with
        | nil =>
            rw [scanFrom] at rescanned
            cases rescanned
            rw [List.append_nil]
            exact .done (.open .nil inside)
        | cons last others => exact tiles.comment inside (ends last rfl)

section Spans

/-- Where the last of some tokens stops, or the position in front of them if there are none. -/
def stopOf (position : Nat) : List Token → Nat
  | [] => position
  | token :: tokens => stopOf token.stop tokens

variable {front : List Char}

theorem extract_middle (front slice rest : List Char) :
    (front ++ (slice ++ rest)).extract front.length (front.length + slice.length) = slice := by
  simp [List.extract_eq_take_drop]

theorem Tiles.bounds (tiles : Tiles position text tokens) : ∀ token ∈ tokens,
    position ≤ token.start ∧ token.start < token.stop ∧ token.stop ≤ position + text.length := by
  induction tiles with
  | done closing => nofun
  | next blank covers proper starts stops later inductionHypothesis =>
      simp only [List.length_append, List.length_cons] at stops ⊢
      refine List.forall_mem_cons.mpr ⟨?_, fun token member => ?_⟩
      · dsimp only
        omega
      · have bounds := inductionHypothesis token member
        omega

theorem Tiles.ordered (tiles : Tiles position text tokens) :
    tokens.Pairwise fun former latter => former.stop ≤ latter.start := by
  induction tiles with
  | done closing => exact .nil
  | next blank covers proper starts stops later inductionHypothesis =>
      exact .cons (fun token member => (later.bounds token member).1) inductionHypothesis

/-- The text between two positions of a tiling is a gap or the text of a token. -/
theorem Tiles.covers (tiles : Tiles position text tokens) (behind : position = front.length) :
    ∀ token ∈ tokens, token.lexeme.Covers ((front ++ text).extract token.start token.stop) := by
  induction tiles generalizing front with
  | done closing => nofun
  | @next position start stop gap others rest first lexeme tokens blank covers proper starts stops
      later inductionHypothesis =>
      subst behind starts stops
      rw [← List.append_assoc]
      refine List.forall_mem_cons.mpr ⟨?_, ?_⟩
      · dsimp only
        rw [← List.length_append, extract_middle]
        exact covers
      · rw [← List.append_assoc]
        exact inductionHypothesis (by simp only [List.length_append])

theorem Tiles.gaps (tiles : Tiles position text tokens) (behind : position = front.length)
    {before after : List Token} {token : Token} (split : tokens = before ++ token :: after) :
    Gap ((front ++ text).extract (stopOf position before) token.start) := by
  induction tiles generalizing front before with
  | done closing => cases before <;> cases split
  | @next position start stop gap others rest first lexeme tokens blank covers proper starts stops
      later inductionHypothesis =>
      subst behind starts stops
      cases before with
      | nil =>
          obtain ⟨rfl, -⟩ := List.cons.inj split
          dsimp only [stopOf]
          rw [extract_middle]
          exact blank
      | cons _ before =>
          obtain ⟨rfl, remaining⟩ := List.cons.inj split
          rw [← List.append_assoc, ← List.append_assoc]
          exact inductionHypothesis (by simp only [List.length_append]) remaining

theorem Tiles.closing (tiles : Tiles position text tokens) (behind : position = front.length) :
    ClosingGap ((front ++ text).drop (stopOf position tokens)) := by
  induction tiles generalizing front with
  | done closing =>
      subst behind
      rw [stopOf, List.drop_left]
      exact closing
  | next blank covers proper starts stops later inductionHypothesis =>
      subst behind starts stops
      rw [← List.append_assoc, ← List.append_assoc]
      exact inductionHypothesis (by simp only [List.length_append])

end Spans

/-- The steps over a text come to its end, or to a step that fails. -/
theorem exists_halt (position : Nat) (characters : List Char) :
    (∃ tokens final, scanFrom position characters = .ok tokens ∧
      Reaches position characters final []) ∨
    ∃ fault final first rest, scanFrom position characters = .error fault ∧
      Reaches position characters final (first :: rest) ∧ step final first rest = .error fault := by
  cases scanned : scanFrom position characters with
  | error fault =>
      obtain ⟨final, first, rest, reaches, failed⟩ := scanFrom_error_iff.mp scanned
      exact .inr ⟨fault, final, first, rest, rfl, reaches, failed⟩
  | ok tokens =>
      refine .inl ⟨tokens, ?_⟩
      fun_induction scanFrom position characters generalizing tokens with
      | case1 position => exact ⟨position, rfl, .here _ _⟩
      | case2 => cases scanned
      | case3 => cases scanned
      | case4 position first rest taken stepped stop later rescanned =>
          rename_i inductionHypothesis
          obtain ⟨final, -, reaches⟩ := inductionHypothesis later rescanned
          exact ⟨final, rfl, .after stepped reaches⟩
      | case5 position first rest taken stepped stop later rescanned =>
          rename_i inductionHypothesis
          obtain ⟨final, -, reaches⟩ := inductionHypothesis later rescanned
          exact ⟨final, rfl, .after stepped reaches⟩

end Token

namespace TokenList

/-- The tokens stand in order within the source, the final one behind it; each other token covers
some text of its own, and the texts between the tokens are gaps. -/
structure Tiles (list : TokenList) (source : List Char) : Prop where
  closes : list.listing = list.tokens ++ [⟨.finish, source.length, source.length⟩]
  filled : ∀ token ∈ list.tokens, token.start < token.stop ∧ token.stop ≤ source.length
  ordered : list.listing.Pairwise fun former latter => former.stop ≤ latter.start
  covers : ∀ token ∈ list.tokens,
    token.lexeme.Covers (source.extract token.start token.stop)
  gaps : ∀ before token after, list.tokens = before ++ token :: after →
    Token.Gap (source.extract (Token.stopOf 0 before) token.start)
  closing : Token.ClosingGap (source.drop (Token.stopOf 0 list.tokens))

theorem tiles_of_ofSource {source : String} {list : TokenList}
    (divided : ofSource source = .ok list) : list.Tiles source.toList := by
  unfold ofSource at divided
  cases scanned : Token.scanFrom 0 source.toList with
  | error fault =>
      rw [scanned] at divided
      cases divided
  | ok tokens =>
      rw [scanned] at divided
      cases divided
      have tiles := Token.tiles_of_scanFrom scanned
      have bounds := tiles.bounds
      rw [Nat.zero_add] at bounds
      have start : 0 = ([] : List Char).length := rfl
      constructor
      · rw [String.length_toList]
        rfl
      · exact fun token member => (bounds token member).2
      · refine List.pairwise_append.mpr ⟨tiles.ordered, List.pairwise_singleton _ _, ?_⟩
        intro token member last final
        obtain rfl := List.mem_singleton.mp final
        rw [String.length_toList] at bounds
        exact (bounds token member).2.2
      · exact tiles.covers start
      · exact fun before token after split => tiles.gaps start split
      · exact tiles.closing start

/-- The tokens of a source tile it. The steps over a source always come to an end: behind its last
character, or at a step that fails, and then the source has no tokens. -/
theorem source_tiled (source : String) :
    (∀ list, ofSource source = .ok list → list.Tiles source.toList) ∧
    ((∃ list final, ofSource source = .ok list ∧ Token.Reaches 0 source.toList final []) ∨
      ∃ fault final first rest, ofSource source = .error fault ∧
        Token.Reaches 0 source.toList final (first :: rest) ∧
        Token.step final first rest = .error fault) := by
  refine ⟨fun list divided => tiles_of_ofSource divided, ?_⟩
  unfold ofSource
  rcases Token.exists_halt 0 source.toList with
    ⟨tokens, final, scanned, reaches⟩ | ⟨fault, final, first, rest, scanned, reaches, failed⟩
  · rw [scanned]
    exact .inl ⟨_, final, rfl, reaches⟩
  · rw [scanned]
    exact .inr ⟨fault, final, first, rest, rfl, reaches, failed⟩

end TokenList

end Narrowing
