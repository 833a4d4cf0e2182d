import Mathlib.Data.List.TakeWhile
import Narrowing.Proofs.WrittenNumbers
import Narrowing.Token

/-
This file lists what one step over a source can do, and draws from it what all tokens of a source
have in common and where the division into tokens breaks off.
-/

namespace Narrowing

/-- What the lexemes of a source say: a number has the value that its text writes, and only the
final token is the end. -/
def Lexeme.IsScanned : Lexeme → Prop
  | number text value => Numeral.read text.toList = .ok (some value)
  | finish => False
  | _ => True

namespace Token

/-- The text of a complex literal, given the characters between its mark and its end. -/
def complexText (inner : List Char) : List Char := '#' :: (inner ++ [')'])

/-- The characters of an atom beyond the first one. -/
def atomTail (rest : List Char) : List Char := rest.takeWhile (!isDelimiter ·)

/-- A step over a source, by its first character and the ones after it. -/
inductive Scans (position : Nat) (first : Char) (rest : List Char) : Except Fault Step → Prop where
  | separator (blank : Text.isSeparator first = true) :
      Scans position first rest (.ok ⟨none, 0⟩)
  | comment (marks : first = ';') :
      Scans position first rest (.ok ⟨none, (rest.takeWhile (!isLineEnd ·)).length⟩)
  | openList (opens : first = '(') : Scans position first rest (.ok ⟨some .openList, 0⟩)
  | closeList (closes : first = ')') : Scans position first rest (.ok ⟨some .closeList, 0⟩)
  | character {letter value : Char} {after : List Char} (marks : first = '#')
      (literal : rest = '\\' :: letter :: after)
      (named : (atomTail after = [] ∧ value = letter) ∨
        namedCharacter? (String.ofList (letter :: atomTail after)) = some value) :
      Scans position first rest (.ok ⟨some (.character value), (atomTail after).length + 2⟩)
  | complex {inner after : List Char} {value : Numeral} (marks : first = '#')
      (literal : rest = inner ++ ')' :: after) (short : ')' ∉ inner)
      (written : Numeral.read (complexText inner) = .ok (some value)) :
      Scans position first rest
        (.ok ⟨some (.number (String.ofList (complexText inner)) value), inner.length + 1⟩)
  | number {value : Numeral} (plain : isDelimiter first = false ∧ isUnsupported first = false)
      (written : Numeral.read (first :: atomTail rest) = .ok (some value)) :
      Scans position first rest
        (.ok ⟨some (.number (String.ofList (first :: atomTail rest)) value),
          (atomTail rest).length⟩)
  | symbol (plain : isDelimiter first = false ∧ isUnsupported first = false)
      (unwritten : Numeral.read (first :: atomTail rest) = .ok none) :
      Scans position first rest
        (.ok ⟨some (.symbol (Text.folded (String.ofList (first :: atomTail rest)))),
          (atomTail rest).length⟩)
  | rejected (cause : Cause) : Scans position first rest (.error (.rejected cause position))
  | beyond {inner after : List Char} (marks : first = '#')
      (literal : rest = inner ++ ')' :: after) (short : ')' ∉ inner)
      (beyond : Numeral.IsBeyond (complexText inner)) :
      Scans position first rest (.error (.number .overflow))

variable {position : Nat} {first : Char} {rest : List Char}

theorem scans_characterStep {after : List Char} (marks : first = '#')
    (literal : rest = '\\' :: after) :
    Scans position first rest (characterStep position after) := by
  unfold characterStep
  split
  · exact .rejected _
  · rename_i letter others
    dsimp only
    split
    · rename_i empty
      have alone : atomTail others = [] := by simpa [atomTail] using empty
      exact .character marks literal (.inl ⟨alone, rfl⟩)
    · split
      · rename_i value named
        exact .character marks literal (.inr named)
      · exact .rejected _

/-- The characters before the first closing parenthesis, and the ones after it. -/
theorem exists_of_takeWhile_ne (characters : List Char)
    (shorter : (characters.takeWhile (· != ')')).length ≠ characters.length) :
    ∃ after, characters = characters.takeWhile (· != ')') ++ ')' :: after ∧
      ')' ∉ characters.takeWhile (· != ')') := by
  have noClose : ')' ∉ characters.takeWhile (· != ')') := by
    intro member
    simpa using List.mem_takeWhile_imp member
  have split := List.takeWhile_append_dropWhile (p := (· != ')')) (l := characters)
  cases remaining : characters.dropWhile (· != ')') with
  | nil =>
      rw [remaining, List.append_nil] at split
      exact absurd (congrArg List.length split) shorter
  | cons last after =>
      have closes : last = ')' := by
        have stopped := List.head?_dropWhile_not (· != ')') characters
        simpa [remaining] using stopped
      rw [remaining, closes] at split
      exact ⟨after, split.symm, noClose⟩

theorem getLast?_complexText (inner : List Char) : (complexText inner).getLast? ≠ some '\n' := by
  simp [complexText, List.getLast?_cons]

theorem scans_complexStep (marks : first = '#') :
    Scans position first rest (complexStep position rest) := by
  unfold complexStep
  dsimp only
  split
  · exact .rejected _
  · rename_i shorter
    obtain ⟨after, literal, short⟩ := exists_of_takeWhile_ne rest shorter
    split
    · rename_i fault failed
      obtain ⟨rfl, beyond⟩ := (Numeral.read_error_iff (getLast?_complexText _)).mp failed
      exact .beyond marks literal short beyond
    · exact .rejected _
    · rename_i value written
      exact .complex marks literal short written

theorem atomTail_plain (rest : List Char) :
    ∀ character ∈ atomTail rest, isDelimiter character = false := by
  intro character member
  simpa using List.mem_takeWhile_imp member

/-- An atom is read as a real number or not at all. -/
theorem read_of_atom {others : List Char} (supported : isUnsupported first = false)
    (plain : ∀ character ∈ first :: others, isDelimiter character = false) :
    Numeral.read (first :: others) = .ok (Numeral.real? (first :: others)) := by
  refine Numeral.read_of_plain ?_ fun last => ?_
  · rintro rfl
    exact absurd supported (by decide)
  · exact absurd (plain _ (List.mem_of_getLast? last)) (by decide)

theorem scans_atomStep (plain : isDelimiter first = false ∧ isUnsupported first = false) :
    Scans position first rest (atomStep first rest) := by
  have read := read_of_atom plain.2 (List.forall_mem_cons.mpr ⟨plain.1, atomTail_plain rest⟩)
  unfold atomStep
  dsimp only
  split
  · rename_i fault failed
    cases read.symm.trans failed
  · rename_i value written
    exact .number plain written
  · rename_i unwritten
    exact .symbol plain unwritten

/-- Every step is one of the listed ones. -/
theorem scans_step (position : Nat) (first : Char) (rest : List Char) :
    Scans position first rest (step position first rest) := by
  unfold step
  split
  · rename_i blank
    exact .separator blank
  · split
    · rename_i marks
      exact .comment marks
    · split
      · rename_i opens
        exact .openList opens
      · split
        · rename_i closes
          exact .closeList closes
        · split
          · exact scans_characterStep rfl rfl
          · exact scans_complexStep rfl
          · exact scans_complexStep rfl
          · split
            · exact .rejected _
            · rename_i supported
              refine scans_atomStep ⟨?_, by simpa using supported⟩
              simp_all [isDelimiter]

/-- A step takes no more characters than there are. -/
theorem extra_le {taken : Step} (scans : Scans position first rest (.ok taken)) :
    taken.extra ≤ rest.length := by
  have shorter (test : Char → Bool) (characters : List Char) :
      (characters.takeWhile test).length ≤ characters.length :=
    (List.takeWhile_prefix test).length_le
  cases scans with
  | separator _ => exact Nat.zero_le _
  | comment _ => exact shorter _ rest
  | openList _ => exact Nat.zero_le _
  | closeList _ => exact Nat.zero_le _
  | character _ literal _ =>
      have := shorter (!isDelimiter ·) ‹List Char›
      simp only [literal, List.length_cons, atomTail]
      omega
  | complex _ literal _ _ => simp [literal]
  | number _ _ => exact shorter _ rest
  | symbol _ _ => exact shorter _ rest

theorem isScanned_of_scans {taken : Step} {lexeme : Lexeme}
    (scans : Scans position first rest (.ok taken)) (named : taken.lexeme = some lexeme) :
    lexeme.IsScanned := by
  cases scans with
  | separator _ => cases named
  | comment _ => cases named
  | openList _ =>
      cases named
      trivial
  | closeList _ =>
      cases named
      trivial
  | character _ _ _ =>
      cases named
      trivial
  | complex _ _ _ written =>
      cases named
      simpa [Lexeme.IsScanned] using written
  | number _ written =>
      cases named
      simpa [Lexeme.IsScanned] using written
  | symbol _ _ =>
      cases named
      trivial

/-- The steps from one position lead to another one. -/
inductive Reaches : Nat → List Char → Nat → List Char → Prop where
  | here (position : Nat) (characters : List Char) :
      Reaches position characters position characters
  | after {position final : Nat} {first : Char} {rest remaining : List Char} {taken : Step}
      (stepped : step position first rest = .ok taken)
      (later : Reaches (position + 1 + taken.extra) (rest.drop taken.extra) final remaining) :
      Reaches position (first :: rest) final remaining

theorem scanFrom_of_ok {taken : Step} (stepped : step position first rest = .ok taken) :
    scanFrom position (first :: rest) =
      (scanFrom (position + 1 + taken.extra) (rest.drop taken.extra)).map fun tokens =>
        (taken.lexeme.map fun lexeme =>
          ⟨lexeme, position, position + 1 + taken.extra⟩).toList ++ tokens := by
  rw [scanFrom, stepped]
  dsimp only
  cases scanFrom (position + 1 + taken.extra) (rest.drop taken.extra) with
  | error fault => rfl
  | ok tokens => cases taken.lexeme <;> rfl

theorem scanFrom_of_error {fault : Fault} (failed : step position first rest = .error fault) :
    scanFrom position (first :: rest) = .error fault := by
  rw [scanFrom, failed]

/-- The division into tokens breaks off just where a step that it reaches fails. -/
theorem scanFrom_error_iff {characters : List Char} {fault : Fault} :
    scanFrom position characters = .error fault ↔
      ∃ final first rest, Reaches position characters final (first :: rest) ∧
        step final first rest = .error fault := by
  constructor
  · intro failed
    fun_induction scanFrom position characters with
    | case1 => cases failed
    | case2 position first rest cause stepped =>
        cases failed
        exact ⟨position, first, rest, .here _ _, stepped⟩
    | case3 position first rest taken stepped stop cause later inductionHypothesis =>
        cases failed
        obtain ⟨final, other, remaining, reaches, broken⟩ := inductionHypothesis later
        exact ⟨final, other, remaining, .after stepped reaches, broken⟩
    | case4 => cases failed
    | case5 => cases failed
  · rintro ⟨final, first, rest, reaches, failed⟩
    generalize remains : first :: rest = remaining at reaches
    induction reaches with
    | here => rw [← remains, scanFrom_of_error failed]
    | after stepped later inductionHypothesis =>
        rw [scanFrom_of_ok stepped, inductionHypothesis failed remains]
        rfl

/-- Each token comes from a step. -/
theorem exists_step_of_mem {characters : List Char} {tokens : List Token} {token : Token}
    (scanned : scanFrom position characters = .ok tokens) (member : token ∈ tokens) :
    ∃ first rest taken, Reaches position characters token.start (first :: rest) ∧
      step token.start first rest = .ok taken ∧ taken.lexeme = some token.lexeme ∧
      token.stop = token.start + 1 + taken.extra := by
  fun_induction scanFrom position characters generalizing tokens with
  | case1 =>
      cases scanned
      cases member
  | case2 => cases scanned
  | case3 => cases scanned
  | case4 position first rest taken stepped stop later rescanned lexeme named =>
      rename_i inductionHypothesis
      cases scanned
      rcases List.mem_cons.mp member with rfl | member
      · exact ⟨first, rest, taken, .here _ _, stepped, named, rfl⟩
      · obtain ⟨other, remaining, others, reaches, found⟩ := inductionHypothesis rescanned member
        exact ⟨other, remaining, others, .after stepped reaches, found⟩
  | case5 position first rest taken stepped stop later rescanned named =>
      rename_i inductionHypothesis
      cases scanned
      obtain ⟨other, remaining, others, reaches, found⟩ := inductionHypothesis rescanned member
      exact ⟨other, remaining, others, .after stepped reaches, found⟩

theorem isScanned_of_mem {characters : List Char} {tokens : List Token}
    (scanned : scanFrom position characters = .ok tokens) :
    ∀ token ∈ tokens, token.lexeme.IsScanned := by
  intro token member
  obtain ⟨first, rest, taken, -, stepped, named, -⟩ := exists_step_of_mem scanned member
  exact isScanned_of_scans (stepped ▸ scans_step token.start first rest) named

end Token

end Narrowing
