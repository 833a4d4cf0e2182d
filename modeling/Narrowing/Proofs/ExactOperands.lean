import Narrowing.Proofs.ExactArithmetic
import Narrowing.Proofs.FormEvaluation
import Narrowing.Proofs.LibraryCalls
import Narrowing.Proofs.RuleAnswers

/-
This file shows that specialized calls on exact operands stand for the same exact values.
-/

namespace Narrowing

/-- The form of an operand has this value, which lies in the type of the operand. -/
def Operand.Takes (environment : Environment) (operand : Operand) (value : Value) : Prop :=
  operand.form.evaluate .standard environment = .ok value ∧ operand.ntype.contains value = true

/-- The form of an operand has a value of its type with this meaning. -/
def Operand.Sound (environment : Environment) (operand : Operand) (meaning : Meaning) : Prop :=
  ∃ value, operand.Takes environment value ∧ value.meaning? = some meaning

variable {environment : Environment}

theorem Value.isLiteral_of_meaning {value : Value} {meaning : Meaning}
    (meant : value.meaning? = some meaning) : value.isLiteral = true := by
  cases value with
  | boolean | integer | ratio => rfl
  | _ => cases meant

namespace Operand.Sound

theorem ofConstant {value : Value} {meaning : Meaning} (meant : value.meaning? = some meaning) :
    (Operand.ofConstant value).Sound environment meaning := by
  have isLiteral := Value.isLiteral_of_meaning meant
  refine ⟨value, ⟨rfl, ?_⟩, meant⟩
  change (Ntype.ofConstant value).contains value = true
  rw [Value.ofConstant_literal isLiteral]
  exact Value.identical_self isLiteral

/-- A literal is the value of its operand. -/
theorem eq_of_constant {operand : Operand} {value member : Value} {meaning : Meaning}
    (inside : operand.ntype.contains value = true) (meant : value.meaning? = some meaning)
    (constant : operand.ntype.constant? = some member) : member = value := by
  cases single : operand.ntype with
  | primitive primitive =>
      rw [single] at constant
      cases constant
  | singleton other =>
      rw [single] at constant inside
      cases constant
      rw [Ntype.contains_singleton, Value.identical_comm] at inside
      exact Value.eq_of_identical (Value.isLiteral_of_meaning meant) inside

/-- The exact literal of an integer stands for this integer. -/
theorem eq_of_isInteger {operand : Operand} {meaning : Meaning} {number : Int}
    (sound : operand.Sound environment meaning) (literal : operand.isInteger number = true) :
    meaning = .number number := by
  obtain ⟨value, ⟨_, inside⟩, meant⟩ := sound
  unfold Operand.isInteger Plan.holdsExact at literal
  split at literal
  · rename_i member constant
    cases eq_of_constant inside meant constant
    cases meant
    have same : member = number := by simpa [Plan.equalsInteger] using literal
    rw [same]
  · rename_i member constant
    cases eq_of_constant inside meant constant
    cases meant
    have same : member = number := by simpa [Plan.equalsInteger] using literal
    rw [same]
  · cases literal

/-- The values of several operands, one by one. -/
theorem exists_values {operands : List Operand} {meanings : List Meaning}
    (sound : List.Forall₂ (Operand.Sound environment) operands meanings) :
    ∃ values, List.Forall₂ (Operand.Takes environment) operands values ∧
      List.Forall₂ (fun value meaning => Value.meaning? value = some meaning) values meanings := by
  induction sound with
  | nil => exact ⟨[], .nil, .nil⟩
  | cons first _ inductionHypothesis =>
      obtain ⟨value, takes, meant⟩ := first
      obtain ⟨values, others, meanings⟩ := inductionHypothesis
      exact ⟨value :: values, .cons takes others, .cons meant meanings⟩

end Operand.Sound

section Types

variable {tier : Tier} {operation : Operation} {left right number : Rat}

/-- Arithmetic on whole numbers stays among them, unless it divides. -/
theorem whole_of_meaning (meant : operation.meaning? left right = some (.number number))
    (undivided : operation ≠ .div) (leftWhole : left.den = 1) (rightWhole : right.den = 1) :
    number.den = 1 := by
  obtain ⟨first, rfl⟩ : ∃ first : Int, left = first :=
    ⟨left.num, ((Rat.den_eq_one_iff left).mp leftWhole).symm⟩
  obtain ⟨second, rfl⟩ : ∃ second : Int, right = second :=
    ⟨right.num, ((Rat.den_eq_one_iff right).mp rightWhole).symm⟩
  cases operation with
  | add =>
      cases meant
      rw [← Rat.intCast_add]
      rfl
  | sub =>
      cases meant
      rw [← Rat.intCast_sub]
      rfl
  | mul =>
      cases meant
      rw [← Rat.intCast_mul]
      rfl
  | div => exact absurd rfl undivided
  | _ => cases meant

/-- An exact tier holds all exact numbers, or the whole ones. -/
theorem contains_exact {value : Value} (isExact : tier.isExact = true)
    (exact : value.exactNumber? = some number) (held : tier = .rational ∨ number.den = 1) :
    tier.ntype.contains value = true := by
  rw [Ntype.contains_tier, Value.tier?_of_exact exact]
  cases tier with
  | integer =>
      rw [if_pos (held.resolve_left (by decide))]
      exact .inl rfl
  | rational =>
      split
      · exact .inr ⟨rfl, rfl⟩
      · exact .inl rfl
  | _ => cases isExact

theorem tierValues_isSingle (tier : Tier) (operation : Operation) :
    (Library.tierValues tier operation).isSingle = true := by
  unfold Library.tierValues
  split
  · rfl
  · split
    · rfl
    · split <;> rfl

/-- Operations of exact tiers stay in their tier or answer with truth values. -/
theorem tierValues_primary (isExact : tier.isExact = true) :
    (Library.tierValues tier operation).primary =
      if operation.isComparison then .primitive .boolean else tier.ntype := by
  unfold Library.tierValues Library.mayLeaveReals
  rw [isExact]
  cases tier with
  | integer | rational =>
      split
      · rfl
      · split
        · rfl
        · simp
          rfl
  | _ => cases isExact

theorem contains_result {value : Value} {meaning : Meaning} (isExact : tier.isExact = true)
    (offered : tier.offers operation = true)
    (meant : operation.meaning? left right = some meaning)
    (valueMeant : value.meaning? = some meaning)
    (held : tier = .rational ∨ (left.den = 1 ∧ right.den = 1)) :
    (Library.tierValues tier operation).primary.contains value = true := by
  rw [tierValues_primary isExact]
  cases meaning with
  | truth truth =>
      rw [Value.meaning?_eq_truth_iff] at valueMeant
      subst valueMeant
      have compares : operation.isComparison = true := by
        cases operation with
        | lt | eq => rfl
        | div =>
            simp only [Operation.meaning?] at meant
            split at meant <;> cases meant
        | _ => cases meant
      rw [if_pos compares]
      cases truth <;> decide
  | number number =>
      have computes : operation.isComparison = false := by
        cases operation with
        | lt | eq => cases meant
        | _ => rfl
      rw [computes]
      refine contains_exact isExact (Value.meaning?_eq_number_iff.mp valueMeant) ?_
      cases tier with
      | integer =>
          obtain ⟨leftWhole, rightWhole⟩ := held.resolve_left (by decide)
          refine .inr (whole_of_meaning meant ?_ leftWhole rightWhole)
          rintro rfl
          cases offered
      | rational => exact .inl rfl
      | _ => cases isExact

end Types

namespace Engine

open Traced

variable {engine : Engine} {allowed : Fault → Prop}

theorem evaluate_operands {operands : List Operand} {values : List Value}
    (takes : List.Forall₂ (Operand.Takes environment) operands values) :
    (operands.map (·.form)).mapM (Form.evaluate .standard environment) = .ok values := by
  rw [List.mapM_map]
  exact mapM_eq_ok_iff.mpr (takes.imp fun _ _ holds => holds.1)

/-- A call that stays runs the implementation of its operation. -/
theorem evaluate_plainCall {record : Record} (member : record ∈ Library.records)
    {implementation : Implementation} (implemented : record.implementation = some implementation)
    {operands : List Operand} {values : List Value}
    (accepts : record.accepts operands.length = true)
    (takes : List.Forall₂ (Operand.Takes environment) operands values) :
    (plainCall record operands).form.evaluate .standard environment =
      implementation values >>= Registry.primaryValue record := by
  rw [plainCall, Form.evaluate_call, evaluate_operands takes]
  rw [takes.length_eq] at accepts
  exact Registry.standard_applyOperation member implemented accepts

/-- The literals of several operands, one by one. -/
theorem literals?_related {operands : List Operand} {found : List Value}
    (literals : literals? operands = some found) :
    List.Forall₂ (fun operand member => operand.ntype.constant? = some member) operands found := by
  induction operands generalizing found with
  | nil =>
      cases literals
      exact .nil
  | cons operand operands inductionHypothesis =>
      simp only [literals?, List.mapM_cons, Option.bind_eq_bind, Option.bind_eq_some_iff] at literals
      obtain ⟨member, constant, others, rest, whole⟩ := literals
      cases whole
      exact .cons constant (inductionHypothesis rest)

/-- A call with an operand that is no literal is not folded. -/
theorem fold?_eq_none (engine : Engine) (record : Record) {operands : List Operand}
    {operand : Operand} (member : operand ∈ operands) (varied : operand.ntype.constant? = none) :
    engine.fold? record operands = .ok none := by
  have literals : literals? operands = none := by
    cases found : literals? operands with
    | none => rfl
    | some values =>
        obtain ⟨value, _, constant⟩ :=
          exists_related_of_mem (literals?_related found) member
        rw [varied] at constant
        cases constant
  unfold fold?
  rw [literals]
  split
  · rename_i impossible
    cases impossible
  · rfl

/-- Constant operands are the values that they take. -/
theorem literals?_eq {operands : List Operand} {values found : List Value}
    (takes : List.Forall₂ (Operand.Takes environment) operands values)
    (same : ∀ operand value member, operand ∈ operands → operand.ntype.contains value = true →
      value ∈ values → operand.ntype.constant? = some member → member = value)
    (literals : literals? operands = some found) : found = values := by
  have related := literals?_related literals
  clear literals
  induction takes generalizing found with
  | nil =>
      cases related
      rfl
  | @cons operand value operands values first _ inductionHypothesis =>
      cases related with
      | cons constant others =>
          rw [same operand value _ List.mem_cons_self first.2 List.mem_cons_self constant]
          rw [inductionHypothesis (fun operand value member among inside held =>
            same operand value member (List.mem_cons_of_mem _ among) inside
              (List.mem_cons_of_mem _ held)) others]

/-- A fold of constant operands gives the value that the implementation has for them. -/
theorem fold?_cases {record : Record} {implementation : Implementation}
    (implemented : record.implementation = some implementation) {operands : List Operand}
    {values : List Value} {value : Value} (computed : implementation values = .ok value)
    (same : ∀ found, literals? operands = some found → found = values) :
    engine.fold? record operands = .ok none ∨ engine.fold? record operands = .ok (some value) := by
  unfold fold?
  rw [implemented]
  split
  · rename_i _ _ sameImplementation literals
    cases sameImplementation
    rw [same _ literals, computed]
    exact .inr rfl
  · exact .inl rfl

/-- Constant operands that the implementation fails on are left as they are. -/
theorem fold?_failed {record : Record} {implementation : Implementation}
    (implemented : record.implementation = some implementation) {operands : List Operand}
    {values : List Value} {fault : Fault} (failed : implementation values = .error fault)
    (foldable : fault.isFoldable = true)
    (same : ∀ found, literals? operands = some found → found = values) :
    engine.fold? record operands = .ok none := by
  unfold fold?
  rw [implemented]
  split
  · rename_i _ _ sameImplementation literals
    cases sameImplementation
    rw [same _ literals, failed]
    simp [foldable]
  · rfl

/-- Literals with a meaning are the values of their operands. -/
theorem literals?_eq_of_meaning {operands : List Operand} {values found : List Value}
    {meanings : List Meaning} (takes : List.Forall₂ (Operand.Takes environment) operands values)
    (meant : List.Forall₂ (fun value meaning => Value.meaning? value = some meaning) values meanings)
    (literals : literals? operands = some found) : found = values := by
  refine literals?_eq takes (fun operand value other _ inside held constant => ?_) literals
  obtain ⟨otherMeaning, _, meant⟩ := exists_related_of_mem meant held
  exact Operand.Sound.eq_of_constant inside meant constant

/-- Whatever a rule answers with has this meaning. -/
def AnswersSoundly (environment : Environment) (meaning : Meaning) (answer : Option Operand) :
    Prop := ∀ operand, answer = some operand → operand.Sound environment meaning

theorem AnswersSoundly.none {meaning : Meaning} : AnswersSoundly environment meaning none := by
  intro operand impossible
  cases impossible

theorem AnswersSoundly.some {meaning : Meaning} {operand : Operand}
    (sound : operand.Sound environment meaning) :
    AnswersSoundly environment meaning (some operand) := by
  intro other same
  cases same
  exact sound

/-- A call with a sound rule specializes to an operand with the meaning that it computes. -/
theorem meets_sound (standard : engine.registry = .standard) {record : Record}
    (member : record ∈ Library.records) {implementation : Implementation}
    (implemented : record.implementation = some implementation)
    (single : record.values.isSingle = true) {depth : Nat} {below : Level}
    {operands : List Operand} (accepts : record.accepts operands.length = true)
    {meanings : List Meaning} {meaning : Meaning}
    (sound : List.Forall₂ (Operand.Sound environment) operands meanings)
    (computes : ∀ values, List.Forall₂ (fun value meaning => Value.meaning? value = some meaning)
        values meanings → ∃ value, implementation values = .ok value ∧
          record.values.primary.contains value = true ∧ value.meaning? = some meaning)
    (answers : (engine.ruleAnswer depth below record operands).Meets allowed
      (AnswersSoundly environment meaning)) :
    (engine.specializeCall depth below record.name operands).Meets allowed
      (Operand.Sound environment · meaning) := by
  obtain ⟨values, takes, meant⟩ := Operand.Sound.exists_values sound
  obtain ⟨value, computed, typed, valueMeant⟩ := computes values meant
  have plain : (plainCall record operands).Sound environment meaning := by
    refine ⟨value, ⟨?_, typed⟩, valueMeant⟩
    rw [evaluate_plainCall member implemented accepts takes, computed]
    exact Registry.primaryValue_single single value
  refine meets_specializeCall standard member accepts ?_
  rcases fold?_cases implemented computed fun _ => literals?_eq_of_meaning takes meant with
    unfolded | folded
  · rw [unfolded]
    refine answers.mono fun answer soundly => ?_
    cases answer with
    | none => exact plain
    | some operand => exact soundly operand rfl
  · rw [folded]
    exact Operand.Sound.ofConstant valueMeant

/-- The operations of an exact tier have no rule, and they keep meanings. -/
theorem meets_tierBinary (standard : engine.registry = .standard)
    (deep : ∀ operation, allowed (.depth operation engine.ceiling)) {tier : Tier}
    (isExact : tier.isExact = true) {operation : Operation}
    (offered : tier.offers operation = true) {first second : Operand} {left right : Rat}
    {meaning : Meaning} (firstSound : first.Sound environment (.number left))
    (secondSound : second.Sound environment (.number right))
    (meant : operation.meaning? left right = some meaning)
    (held : tier = .rational ∨ (left.den = 1 ∧ right.den = 1)) :
    ∀ remaining depth,
      ((engine.level remaining depth).specialize (tier.operationName operation)
        [first, second]).Meets allowed (Operand.Sound environment · meaning) := by
  have isBinary : operation.isUnary = false := by
    cases operation with
    | neg | abs | sqrt | exp | log | sin | cos | tan => cases meant
    | _ => rfl
  refine meets_level deep fun remaining depth => ?_
  refine meets_sound standard (Library.tier_mem offered) rfl (tierValues_isSingle tier operation)
    ?_ (.cons firstSound (.cons secondSound .nil)) ?_ (meets_pure .none)
  · simp [Record.accepts, Library.tierRecord, Library.pureRecord, isBinary]
  · rintro _ (_ | ⟨leftMeant, _ | ⟨rightMeant, _ | _⟩⟩)
    obtain ⟨result, computed, resultMeant⟩ := Tier.binary_exact isExact offered
      (Value.meaning?_eq_number_iff.mp leftMeant) (Value.meaning?_eq_number_iff.mp rightMeant) meant
    refine ⟨result, ?_, contains_result isExact offered meant resultMeant held, resultMeant⟩
    simp only [Tier.compute, isBinary]
    exact computed

/-- A negation or a size in an exact tier keeps its meaning. -/
theorem meets_tierUnary (standard : engine.registry = .standard)
    (deep : ∀ operation, allowed (.depth operation engine.ceiling)) {tier : Tier}
    (isExact : tier.isExact = true) {operation : Operation} {operand : Operand}
    {number result : Rat} (sound : operand.Sound environment (.number number))
    (meant : operation.unaryMeaning? number = some result)
    (held : tier = .rational ∨ number.den = 1) :
    ∀ remaining depth,
      ((engine.level remaining depth).specialize (tier.operationName operation) [operand]).Meets
        allowed (Operand.Sound environment · (.number result)) := by
  have either : operation = .neg ∨ operation = .abs := by
    cases operation with
    | neg => exact .inl rfl
    | abs => exact .inr rfl
    | _ => cases meant
  have isUnary : operation.isUnary = true := by rcases either with rfl | rfl <;> rfl
  have offered : tier.offers operation = true := by
    cases tier with
    | integer | rational => rcases either with rfl | rfl <;> rfl
    | _ => cases isExact
  have whole : tier = .rational ∨ result.den = 1 := by
    refine held.imp_right fun whole => ?_
    rcases either with rfl | rfl
    · cases meant
      rwa [Rat.neg_den]
    · cases meant
      unfold Rat.abs
      split
      · exact whole
      · rwa [Rat.neg_den]
  refine meets_level deep fun remaining depth => ?_
  refine meets_sound standard (Library.tier_mem offered) rfl (tierValues_isSingle tier operation)
    ?_ (.cons sound .nil) ?_ (meets_pure .none)
  · simp [Record.accepts, Library.tierRecord, Library.pureRecord, isUnary]
  · rintro _ (_ | ⟨numberMeant, _ | _⟩)
    obtain ⟨value, computed, exact⟩ := Tier.unary_exact isExact
      (Value.meaning?_eq_number_iff.mp numberMeant) meant
    have typed : (Library.tierValues tier operation).primary.contains value = true := by
      rw [tierValues_primary isExact]
      rcases either with rfl | rfl <;> exact contains_exact isExact exact whole
    refine ⟨value, ?_, typed, Value.meaning?_eq_number_iff.mpr exact⟩
    simp only [Tier.compute, isUnary]
    exact computed

end Engine

end Narrowing
