import Narrowing.Proofs.RunnableForms
import Narrowing.Proofs.TypedTiers

/-
This file shows that the rules of the library make only calls that run.
-/

namespace Narrowing

/-- Whatever a run ends with has the property. -/
abbrev Traced.Ensures {Result : Type} (property : Result → Prop) (traced : Traced Result) : Prop :=
  traced.Meets (fun _ => True) property

namespace Value

variable {value result : Value} {storage : Storage} {tier : Tier}

/-- A number that turns narrow is a scalar of this storage. -/
theorem toNarrow_cases (isNumber : value.tier?.isSome = true)
    (narrowed : value.toNarrow storage = .ok result) :
    ∃ scalar : Scalar, result = .scalar (scalar.convert storage) := by
  cases value with
  | missing | boolean | text | tuple | list | dictionary | hostClass | dtype | scalarType
  | function | primitive | singleton => cases isNumber
  | complex pair =>
      simp only [toNarrow] at narrowed
      split at narrowed
      · cases narrowed
        exact ⟨_, rfl⟩
      · cases narrowed
  | scalar scalar =>
      cases narrowed
      exact ⟨scalar, rfl⟩
  | array grid =>
      simp only [tier?] at isNumber
      cases found : grid.scalar? with
      | none =>
          rw [found] at isNumber
          cases isNumber
      | some scalar =>
          simp only [toNarrow, found] at narrowed
          cases narrowed
          exact ⟨scalar, rfl⟩
  | integer | ratio | double =>
      obtain ⟨double, _, made⟩ := exists_of_bind narrowed
      cases made
      exact ⟨_, rfl⟩

/-- A number that turns into one of an inexact tier is a literal of this tier. -/
theorem toTier_literal (isNumber : value.tier?.isSome = true) (inexact : tier.isExact = false)
    (turned : value.toTier tier = .ok result) :
    result.isLiteral = true ∧ result.tier? = some tier := by
  cases tier with
  | integer | rational => cases inexact
  | float64 | complex128 =>
      obtain ⟨_, _, rfl⟩ := exists_of_map turned
      exact ⟨rfl, rfl⟩
  | float16 | float32 | complex64 =>
      obtain ⟨scalar, rfl⟩ := toNarrow_cases isNumber turned
      exact ⟨rfl, rfl⟩

end Value

/-- A conversion to an inexact tier gives a literal of this tier. -/
theorem Generic.coerce_literal {tier : Tier} {values : List Value} {result : Value}
    (inexact : tier.isExact = false) (computed : coerce tier values = .ok result) :
    result.isLiteral = true ∧ result.tier? = some tier := by
  obtain ⟨value, rfl⟩ : ∃ value, values = [value] := by
    match values with
    | [value] => exact ⟨value, rfl⟩
    | [] | _ :: _ :: _ => cases computed
  obtain ⟨source, found, computed⟩ := exists_of_bind computed
  split at computed
  · cases computed
  · refine Value.toTier_literal ?_ inexact computed
    rw [eq_some_of_orFault found]
    rfl

namespace Engine

open Traced

/-- A level makes operands that run from calls that the library takes, and its conversions to
inexact tiers lead into these tiers. -/
structure Level.Emits (declarations : Declarations) (below : Level) : Prop where
  runs : ∀ (record : Record) (operands : List Operand), record.Takes declarations operands →
    (below.specialize record.name operands).Ensures (Operand.Runs declarations)
  converts : ∀ (tier : Tier) (operand : Operand), tier.isExact = false →
    (below.specialize tier.name [operand]).Ensures (·.ntype.proves tier.ntype = true)

/-- Whatever a rule answers with runs. -/
def AnswerRuns (declarations : Declarations) (answer : Option Operand) : Prop :=
  ∀ made, answer = some made → made.Runs declarations

variable {declarations : Declarations} {engine : Engine} {depth : Nat} {below : Level}
  {operand first second : Operand} {operands : List Operand} {tier : Tier} {operation : Operation}

theorem ensures_constant (declarations : Declarations) (value : Value) :
    (Traced.constant value).Ensures (Operand.Runs declarations) :=
  meets_constant (.ofConstant value)

theorem answerRuns_none : AnswerRuns declarations none := nofun

theorem answerRuns_some (runs : operand.Runs declarations) :
    AnswerRuns declarations (some operand) := by
  intro made same
  cases same
  exact runs

namespace Level.Emits

variable (emits : below.Emits declarations)

include emits

theorem ensures_arithmetic (operation : Operation) (isArithmetic : operation.isArithmetic = true)
    (accepts : operation.identity?.isSome = true ∨ 0 < operands.length)
    (each : ∀ operand ∈ operands, operand.Runs declarations) :
    (below.specialize operation.symbol operands).Ensures (Operand.Runs declarations) := by
  have member := Library.arithmetic_plain (Library.genericRecord_arithmetic isArithmetic)
  refine emits.runs (Library.genericRecord operation) operands (.plain member ?_ each)
  exact (Library.genericRecord_accepts operation operands.length).mpr accepts

theorem ensures_arithmeticPair (operation : Operation)
    (isArithmetic : operation.isArithmetic = true) (firstRuns : first.Runs declarations)
    (secondRuns : second.Runs declarations) :
    (below.specialize operation.symbol [first, second]).Ensures (Operand.Runs declarations) :=
  emits.ensures_arithmetic operation isArithmetic (.inr (Nat.succ_pos _))
    (List.forall_mem_cons.mpr ⟨firstRuns, List.forall_mem_singleton.mpr secondRuns⟩)

/-- The call of an operation of a tier on operands within this tier. -/
theorem ensures_tierCall (offered : tier.offers operation = true)
    (accepts : (Library.tierRecord tier operation).accepts operands.length = true)
    (each : ∀ operand ∈ operands, operand.Runs declarations ∧
      operand.ntype.proves tier.ntype = true) :
    (some <$> below.specialize (tier.operationName operation) operands).Ensures
      (AnswerRuns declarations) :=
  ((emits.runs _ operands (.ofTier offered accepts each)).mono
    fun _ runs => answerRuns_some runs).map

/-- A converted operand runs and lies within the tier. -/
theorem ensures_converted (runs : operand.Runs declarations)
    (exactly : tier.isExact = true → operand.ntype.proves tier.ntype = true) :
    (converted below operand tier).Ensures fun made =>
      made.Runs declarations ∧ made.ntype.proves tier.ntype = true := by
  cases exact : tier.isExact with
  | true =>
      rw [converted_exact exact]
      exact meets_pure ⟨runs, exactly exact⟩
  | false =>
      have named : tier.coercion? = some tier.name := by simp [Tier.coercion?, exact]
      have member : tier ∈ Library.inexactTiers := by
        cases tier with
        | integer | rational => cases exact
        | _ => decide
      simp only [converted, named]
      split
      · rename_i proven
        exact meets_pure ⟨runs, proven⟩
      · refine (emits.runs (Library.coercionRecord tier) [operand] ?_).and
          (emits.converts tier operand exact)
        exact .plain (Library.coercion_plain member) rfl (List.forall_mem_singleton.mpr runs)

theorem ensures_tierAnswer (standard : engine.registry = .standard)
    (isBinary : operation.isUnary = false) (firstRuns : first.Runs declarations)
    (secondRuns : second.Runs declarations)
    (exactly : tier.isExact = true →
      first.ntype.proves tier.ntype = true ∧ second.ntype.proves tier.ntype = true) :
    (engine.tierAnswer below tier operation first second).Ensures (AnswerRuns declarations) := by
  rw [tierAnswer, standard, Registry.standard_contains_tier]
  cases offered : tier.offers operation with
  | false => exact meets_pure answerRuns_none
  | true =>
      refine (emits.ensures_converted firstRuns fun exact => (exactly exact).1).bind
        fun left leftWithin => ?_
      refine (emits.ensures_converted secondRuns fun exact => (exactly exact).2).bind
        fun right rightWithin => ?_
      refine emits.ensures_tierCall offered ?_
        (List.forall_mem_cons.mpr ⟨leftWithin, List.forall_mem_singleton.mpr rightWithin⟩)
      simp [Library.tierRecord, Library.pureRecord, Record.accepts, isBinary]

/-- The narrowest call on two numbers runs; in an exact tier they need no conversion. -/
theorem ensures_binaryAnswer (standard : engine.registry = .standard) {inexact : Bool}
    (isBinary : operation.isUnary = false) (firstRuns : first.Runs declarations)
    (secondRuns : second.Runs declarations) (firstNumber : first.isNumber = true)
    (secondNumber : second.isNumber = true) :
    (engine.binaryAnswer below operation inexact first second).Ensures
      (AnswerRuns declarations) := by
  unfold binaryAnswer
  cases found : metTier? first second with
  | none => exact meets_pure answerRuns_none
  | some met =>
      refine emits.ensures_tierAnswer standard isBinary firstRuns secondRuns fun exact => ?_
      obtain ⟨chosen, metExact⟩ := Tier.binaryTier_exact exact
      obtain ⟨left, leftTier, leftInside, leftOwn⟩ :=
        Ntype.exists_number firstRuns.inhabited firstNumber
      obtain ⟨right, rightTier, rightInside, rightOwn⟩ :=
        Ntype.exists_number secondRuns.inhabited secondNumber
      have wider := Tier.chosen_covers operation met
      rw [chosen]
      exact ⟨Ntype.proves_of_covers (Ntype.proves_of_contagion firstNumber found metExact
          rightInside rightOwn) wider,
        Ntype.proves_of_covers (Ntype.proves_of_contagion_right secondNumber found metExact
          leftInside leftOwn) wider⟩

theorem ensures_unaryAnswer (isUnary : operation.isUnary = true)
    (runs : operand.Runs declarations) :
    (unaryAnswer below operation operand).Ensures (AnswerRuns declarations) := by
  unfold unaryAnswer
  cases found : operand.ntype.tier? with
  | none => exact meets_pure answerRuns_none
  | some own =>
      refine (emits.ensures_converted runs fun exact => ?_).bind
        fun argument within => ?_
      · rw [Tier.unaryTier_exact exact]
        exact Ntype.proves_of_tier? found
      · refine emits.ensures_tierCall (Tier.offers_unaryTier isUnary own) ?_
          (List.forall_mem_singleton.mpr within)
        simp [Library.tierRecord, Library.pureRecord, Record.accepts, isUnary]

theorem ensures_chainAnswer (isArithmetic : operation.isArithmetic = true)
    (runs : first.Runs declarations) (each : ∀ operand ∈ operands, operand.Runs declarations) :
    (chainAnswer below operation first operands).Ensures (Operand.Runs declarations) := by
  have kept : ∀ before next after made, operands = before ++ next :: after →
      made.Runs declarations →
        (below.specialize operation.symbol [made, next]).Ensures (Operand.Runs declarations) := by
    intro before next after made whole madeRuns
    exact emits.ensures_arithmeticPair _ isArithmetic madeRuns (each next (by simp [whole]))
  exact meets_foldlM runs kept

theorem ensures_singleAnswer (isArithmetic : operation.isArithmetic = true)
    (runs : operand.Runs declarations) :
    (singleAnswer below operation operand).Ensures (AnswerRuns declarations) := by
  cases operation with
  | sub => exact emits.ensures_unaryAnswer rfl runs
  | div =>
      refine (ensures_constant declarations (.integer 1)).bind fun one oneRuns => ?_
      exact ((emits.ensures_arithmeticPair _ isArithmetic oneRuns runs).mono
        fun _ madeRuns => answerRuns_some madeRuns).map
  | _ => exact meets_pure (answerRuns_some runs)

theorem ensures_pairAnswer (standard : engine.registry = .standard)
    (isBinary : operation.isUnary = false) (firstRuns : first.Runs declarations)
    (secondRuns : second.Runs declarations) (firstNumber : first.isNumber = true)
    (secondNumber : second.isNumber = true) :
    (engine.pairAnswer below operation first second).Ensures (AnswerRuns declarations) := by
  unfold pairAnswer
  split
  · rename_i simplified
    rcases Operand.simplified?_cases simplified with rfl | rfl
    · exact meets_pure (answerRuns_some firstRuns)
    · exact meets_pure (answerRuns_some secondRuns)
  · exact emits.ensures_binaryAnswer standard isBinary firstRuns secondRuns firstNumber
      secondNumber

theorem ensures_arithmeticAnswer (standard : engine.registry = .standard)
    (isArithmetic : operation.isArithmetic = true)
    (each : ∀ operand ∈ operands, operand.Runs declarations) :
    (engine.arithmeticAnswer below operation operands).Ensures (AnswerRuns declarations) := by
  have isBinary : operation.isUnary = false := by
    cases operation with
    | add | sub | mul | div => rfl
    | _ => cases isArithmetic
  unfold arithmeticAnswer
  split
  · split
    · exact (meets_constant (answerRuns_some (.ofConstant _))).map
    · exact meets_throw trivial
  · split
    · exact emits.ensures_singleAnswer isArithmetic (each _ List.mem_cons_self)
    · exact meets_pure answerRuns_none
  · obtain ⟨firstRuns, others⟩ := List.forall_mem_cons.mp each
    split
    · rename_i numbers
      rw [Bool.and_eq_true] at numbers
      exact emits.ensures_pairAnswer standard isBinary firstRuns
        (List.forall_mem_singleton.mp others) numbers.1 numbers.2
    · exact meets_pure answerRuns_none
  · obtain ⟨firstRuns, others⟩ := List.forall_mem_cons.mp each
    exact ((emits.ensures_chainAnswer isArithmetic firstRuns others).mono
      fun _ runs => answerRuns_some runs).map

theorem ensures_comparisonAnswer (standard : engine.registry = .standard)
    (isBinary : operation.isUnary = false)
    (each : ∀ operand ∈ operands, operand.Runs declarations) :
    (engine.comparisonAnswer below operation operands).Ensures (AnswerRuns declarations) := by
  unfold comparisonAnswer
  split
  · obtain ⟨firstRuns, others⟩ := List.forall_mem_cons.mp each
    split
    · rename_i numbers
      rw [Bool.and_eq_true] at numbers
      exact emits.ensures_binaryAnswer standard isBinary firstRuns
        (List.forall_mem_singleton.mp others) numbers.1 numbers.2
    · exact meets_pure answerRuns_none
  · exact meets_throw trivial

theorem ensures_functionAnswer (isUnary : operation.isUnary = true)
    (each : ∀ operand ∈ operands, operand.Runs declarations) :
    (functionAnswer below operation operands).Ensures (AnswerRuns declarations) := by
  unfold functionAnswer
  split
  · split
    · exact emits.ensures_unaryAnswer isUnary (each _ List.mem_cons_self)
    · exact meets_pure answerRuns_none
  · exact meets_throw trivial

/-- Exact powers lie in the tier of their base and their exponent. -/
theorem ensures_exactPower (baseRuns : first.Runs declarations)
    (exponentRuns : second.Runs declarations) (exactly : isExactPower first second = true) :
    (some <$> below.specialize ((powerTier first second).operationName .expt)
      [first, second]).Ensures (AnswerRuns declarations) := by
  rw [isExactPower, Bool.and_eq_true] at exactly
  obtain ⟨integral, exact⟩ := exactly
  unfold powerTier
  split
  · rename_i natural
    rw [Bool.and_eq_true] at natural
    exact emits.ensures_tierCall rfl rfl (List.forall_mem_cons.mpr
      ⟨⟨baseRuns, natural.1⟩, List.forall_mem_singleton.mpr ⟨exponentRuns, integral⟩⟩)
  · have rational := @Ntype.proves_rational_of_exact _ .integer rfl integral
    exact emits.ensures_tierCall rfl rfl (List.forall_mem_cons.mpr
      ⟨⟨baseRuns, exact⟩, List.forall_mem_singleton.mpr ⟨exponentRuns, rational⟩⟩)

theorem ensures_powerAnswer (standard : engine.registry = .standard)
    (each : ∀ operand ∈ operands, operand.Runs declarations) :
    (engine.powerAnswer below operands).Ensures (AnswerRuns declarations) := by
  unfold powerAnswer
  split
  · obtain ⟨baseRuns, others⟩ := List.forall_mem_cons.mp each
    have exponentRuns := List.forall_mem_singleton.mp others
    split
    · exact meets_pure answerRuns_none
    rename_i numbers
    simp only [Bool.not_eq_true', Bool.not_eq_false, Bool.and_eq_true] at numbers
    split
    · exact ((emits.ensures_arithmeticPair .mul rfl baseRuns baseRuns).mono
        fun _ runs => answerRuns_some runs).map
    split
    · exact meets_pure (answerRuns_some baseRuns)
    split
    · rename_i exactly
      exact emits.ensures_exactPower baseRuns exponentRuns exactly
    · exact emits.ensures_binaryAnswer standard rfl baseRuns exponentRuns numbers.1 numbers.2
  · exact meets_throw trivial

end Level.Emits

theorem ensures_coercionAnswer (each : ∀ operand ∈ operands, operand.Runs declarations) :
    (coercionAnswer tier operands).Ensures (AnswerRuns declarations) := by
  unfold coercionAnswer
  split
  · split
    · exact meets_pure (answerRuns_some (each _ List.mem_cons_self))
    · exact meets_pure answerRuns_none
  · exact meets_throw trivial

/-- The rule of every record answers with operands that run, on a level that emits such operands. -/
theorem ensures_ruleAnswer (standard : engine.registry = .standard)
    (emits : below.Emits declarations) {record : Record}
    (takes : record.Takes declarations operands) :
    (engine.ruleAnswer depth below record operands).Ensures (AnswerRuns declarations) := by
  rcases Library.mem_cases takes.member with plain | ⟨tier, operation, _, rfl⟩
  · rcases Library.plain_cases plain with ⟨operation, _, _, arithmetic, rfl⟩ |
      ⟨operation, isFunction, rfl⟩ | rfl | rfl | ⟨operation, compares, rfl⟩ | ⟨tier, _, rfl⟩
    · change (engine.follow depth below (Rule.arithmetic operation) operands).Ensures _
      rw [follow_arithmetic]
      have isArithmetic : operation.isArithmetic = true := by
        revert arithmetic
        cases operation <;> decide
      exact emits.ensures_arithmeticAnswer standard isArithmetic takes.each
    · change (engine.follow depth below (Rule.function operation) operands).Ensures _
      rw [follow_function]
      have isUnary : operation.isUnary = true := by
        revert isFunction
        cases operation <;> decide
      exact emits.ensures_functionAnswer isUnary takes.each
    · change (engine.follow depth below Rule.power operands).Ensures _
      rw [follow_power]
      exact emits.ensures_powerAnswer standard takes.each
    · exact meets_pure answerRuns_none
    · change (engine.follow depth below (Rule.comparison operation) operands).Ensures _
      rw [follow_comparison]
      have isBinary : operation.isUnary = false := by
        revert compares
        cases operation <;> decide
      exact emits.ensures_comparisonAnswer standard isBinary takes.each
    · change (engine.follow depth below (Rule.coercion tier) operands).Ensures _
      rw [follow_coercion]
      exact ensures_coercionAnswer takes.each
  · exact meets_pure answerRuns_none

/-- A call that the library takes runs after it has been specialized, if it is on the level below. -/
theorem ensures_specializeCall (standard : engine.registry = .standard)
    (emits : below.Emits declarations) {record : Record}
    (takes : record.Takes declarations operands) :
    (engine.specializeCall depth below record.name operands).Ensures
      (Operand.Runs declarations) := by
  refine meets_specializeCall standard takes.member takes.accepts ?_
  split
  · exact .ofConstant _
  · refine (ensures_ruleAnswer standard emits takes).mono fun answer answers => ?_
    cases answer with
    | none => exact takes.runs_plainCall
    | some made => exact answers made rfl
  · trivial

/-- A call folds to a value that its implementation computes. -/
theorem exists_of_fold? {record : Record} {implementation : Implementation} {value : Value}
    (implemented : record.implementation = some implementation)
    (folded : engine.fold? record operands = .ok (some value)) :
    ∃ values, implementation values = .ok value := by
  unfold fold? at folded
  split at folded
  · rename_i other values _ found _
    cases found.symm.trans implemented
    split at folded
    · rename_i computed
      cases folded
      exact ⟨values, computed⟩
    · split at folded <;> cases folded
  · cases folded

/-- A conversion to an inexact tier leads into this tier. -/
theorem ensures_coercion (standard : engine.registry = .standard) (inexact : tier.isExact = false) :
    (engine.specializeCall depth below tier.name [operand]).Ensures
      (·.ntype.proves tier.ntype = true) := by
  change (engine.specializeCall depth below (Library.coercionRecord tier).name [operand]).Ensures _
  refine meets_specializeCall standard (runs_coercion inexact).member rfl ?_
  split
  · rename_i value folded
    obtain ⟨values, computed⟩ := exists_of_fold? rfl folded
    obtain ⟨isLiteral, own⟩ := Generic.coerce_literal inexact computed
    change (Ntype.ofConstant value).proves tier.ntype = true
    rw [Value.ofConstant_literal isLiteral]
    exact Ntype.contains_tier.mpr (.inl own)
  · change (engine.follow depth below (Rule.coercion tier) [operand]).Ensures _
    rw [follow_coercion]
    refine meets_pure ?_
    split
    · rename_i proven
      exact proven
    · exact Ntype.proves_tier_self tier
  · trivial

/-- All levels make operands that run. -/
theorem emits_level (standard : engine.registry = .standard) (declarations : Declarations) :
    ∀ remaining depth, (engine.level remaining depth).Emits declarations := by
  intro remaining
  induction remaining with
  | zero =>
      intro depth
      exact ⟨fun _ _ _ => meets_throw trivial, fun _ _ _ => meets_throw trivial⟩
  | succ remaining inductionHypothesis =>
      intro depth
      exact ⟨fun _ _ takes =>
          ensures_specializeCall standard (inductionHypothesis (depth + 1)) takes,
        fun _ _ inexact => ensures_coercion standard inexact⟩

end Engine

end Narrowing
