import Narrowing.Proofs.NarrowerArithmetic
import Narrowing.Proofs.TypedChains

/-
This file orders the types of sums, differences, products and quotients of any number of operands
by the types of the operands. Products that start again after a zero are left out.
-/

namespace Narrowing

theorem Value.isReduced_of_broken {value : Value} {own : Tier} (inside : value.InTier own)
    (broken : value.IsBroken) : value.isReduced = true := by
  cases inside with
  | whole fraction integral => exact absurd integral (broken fraction rfl)
  | ratio fraction isRatio => simpa [isReduced, isStandard] using isRatio
  | _ => rfl

namespace Ntype

/-- The literal of a type, if it has one, is a number. -/
def IsNumeric (type : Ntype) : Prop := ∀ literal, type.constant? = some literal →
  ∃ own, literal.tier? = some own

theorem isNumeric_of_number {type : Ntype} (isNumber : type.proves .number = true) :
    type.IsNumeric := fun _ constant => exists_tier_of_constant isNumber constant

/-- A type around numbers has no literal but a number. -/
theorem Narrows.isNumeric {inner outer : Ntype} (narrows : Narrows inner outer)
    (isNumber : inner.proves .number = true) : outer.IsNumeric := by
  intro literal constant
  cases outer with
  | primitive primitive => cases constant
  | singleton member =>
      cases constant
      obtain ⟨other, rfl, same⟩ := narrows.exists_singleton
      obtain ⟨own, number⟩ := exists_tier_of_constant isNumber rfl
      have isLiteral := narrows.innerProper.isLiteral rfl number
      rw [Value.identical_comm] at same
      exact ⟨own, Value.eq_of_identical isLiteral same ▸ number⟩

end Ntype

namespace Operand

/-- An operand of a type whose literal has a standard representation. -/
def standing (type : Ntype) : Operand := .ofType type.standardized

theorem ntype_standing (type : Ntype) : (standing type).ntype = type.standardized := rfl

theorem standing_typed {type : Ntype} (proper : type.IsProper) (numeric : type.IsNumeric) :
    (standing type).Typed [] where
  values := nofun
  literal := by
    intro literal constant
    rw [ntype_standing, Ntype.constant?_standardized, Option.map_eq_some_iff] at constant
    obtain ⟨member, constant, rfl⟩ := constant
    obtain ⟨own, number⟩ := numeric member constant
    have inside := Value.inTier_standardized (proper.isLiteral constant number) number
    refine ⟨inside.isLiteral, Value.isReduced_of_broken inside ?_⟩
    rintro fraction same
    refine proper.broken member constant fraction ?_
    cases member with
    | ratio => exact same
    | scalar scalar => cases scalar <;> cases same
    | _ => cases same

variable {operation : Operation} {Carries : List Operand → Operand → Prop}

/-- What is carried along a chain of calls, each of which stems from two operands. -/
structure Chains (operation : Operation) (Carries : List Operand → Operand → Prop) : Prop where
  first : ∀ first : Operand, first.Typed [] → Carries [first] first
  step : ∀ before made second next, Carries before made → second.Typed [] → before ≠ [] →
    Engine.Stems [] (Generic.arithmetic operation) [made, second]
      (fun next => Varied [made, second] → Joins operation made second next) next →
    Carries (before ++ [second]) next
  reaches : ∀ before made values result, Carries before made →
    List.Forall₂ Admits before values → Generic.combined operation values = .ok result →
      ∃ other, made.Admits other
  covers : ∀ first second rest made, Carries (first :: second :: rest) made →
    Varied (first :: second :: rest) →
      (operation = .mul → ¬Restarts (first :: second :: rest) made) →
        Engine.Covers (Generic.arithmetic operation) (first :: second :: rest) made

theorem chains_follows (isArithmetic : operation.isArithmetic = true)
    (repeats : operation.identity?.isSome = true) : Chains operation (Follows [] operation) where
  first first typed := follows_first repeats typed
  step before made second next follows typed started stems :=
    follows.snoc repeats typed started stems
  reaches before made values result follows admitted computed := by
    obtain ⟨⟨other, admits, _⟩, _⟩ := follows.reaches values result admitted computed
    exact ⟨other, admits⟩
  covers first second rest made follows varied steady :=
    follows.covers isArithmetic varied steady

theorem chains_reduces (isArithmetic : operation.isArithmetic = true)
    (differs : operation.identity? = none) : Chains operation (Reduces [] operation) where
  first first typed := reduces_first differs typed
  step before made second next reduces typed started stems := by
    apply reduces.snoc isArithmetic differs stems.typed started
    apply stems.covers (List.forall_mem_cons.mpr
      ⟨reduces.typed, List.forall_mem_singleton.mpr typed⟩)
    exact fun varied described => Engine.covers_of_joins isArithmetic (described varied)
  reaches before made values result reduces admitted computed :=
    ⟨result, reduces.reaches values result admitted computed⟩
  covers first second rest made reduces _ _ := reduces.covers isArithmetic

theorem exists_chains (isArithmetic : operation.isArithmetic = true) :
    ∃ Carries, Chains operation Carries := by
  cases identity : operation.identity? with
  | none => exact ⟨_, chains_reduces isArithmetic identity⟩
  | some number => exact ⟨_, chains_follows isArithmetic (by rw [identity]; rfl)⟩

end Operand

namespace Inference

open Ntype Operand

variable {operation : Operation} {implementation : Implementation}
  {types others rest wideRest : List Ntype} {first second wideFirst made : Ntype} {value : Value}

/-- The types of a chain of calls with two operands stay proper. -/
theorem foldl_isProper (isArithmetic : operation.isArithmetic = true) (proper : first.IsProper)
    (each : ∀ type ∈ rest, type.IsProper) : (rest.foldl (pair operation) first).IsProper := by
  induction rest generalizing first with
  | nil => exact proper
  | cons second rest inductionHypothesis =>
      obtain ⟨secondProper, restProper⟩ := List.forall_mem_cons.mp each
      exact inductionHypothesis (pair_bounded isArithmetic proper secondProper).innerProper
        restProper

/-- Each call of a chain of narrower operands has a narrower type. -/
theorem foldl_monotone (isArithmetic : operation.isArithmetic = true)
    (narrows : Narrows first wideFirst) (each : List.Forall₂ Narrows rest wideRest) :
    Narrows (rest.foldl (pair operation) first) (wideRest.foldl (pair operation) wideFirst) := by
  induction each generalizing first wideFirst with
  | nil => exact narrows
  | cons second _ inductionHypothesis =>
      exact inductionHypothesis (pair_monotone isArithmetic narrows second)

theorem literals?_standardized (types : List Ntype) :
    Engine.literals? (types.map standing) =
      (literals? types).map (·.map Value.standardized) := by
  induction types with
  | nil => rfl
  | cons type types inductionHypothesis =>
      have own : (standing type).ntype.constant? = type.constant?.map Value.standardized :=
        constant?_standardized type
      simp only [Engine.literals?, literals?] at inductionHypothesis ⊢
      rw [List.map_cons, List.mapM_cons, List.mapM_cons, inductionHypothesis, own]
      cases type.constant? with
      | none => rfl
      | some literal => cases types.mapM constant? <;> rfl

/-- Arithmetic folds literals as the numbers that they stand for. -/
theorem foldsTo_standardized :
    Engine.FoldsTo (Generic.arithmetic operation) (types.map standing) value ↔
      FoldsTo (Generic.arithmetic operation) types value := by
  unfold Engine.FoldsTo FoldsTo
  rw [literals?_standardized]
  cases literals? types with
  | none => simp
  | some literals => simp [Generic.arithmetic_standardized]

theorem standing_varied {type : Ntype} :
    (standing type).ntype.constant? = none ↔ type.constant? = none := by
  rw [ntype_standing, constant?_standardized, Option.map_eq_none_iff]

section Pairs

variable (isArithmetic : operation.isArithmetic = true)

include isArithmetic

/-- The literal that comes of a call is standard, unless the call has no value. -/
theorem pair_standardized (firstProper : first.IsProper) (secondProper : second.IsProper)
    (reached : (∃ value, FoldsTo (Generic.arithmetic operation) [first, second] value) ∨
      first.constant? = none ∨ second.constant? = none) :
    (pair operation first second).standardized = pair operation first second := by
  rcases folded_cases (Generic.arithmetic operation) [first, second]
    ((whenNumbers [first, second] (pairCall operation first second)).getD .number)
    with ⟨value, folds, same⟩ | ⟨stays, same⟩
  · obtain ⟨_, _, _, _, ⟨own, inside⟩, _⟩ := exists_of_arithmetic (List.forall_mem_cons.mpr
      ⟨firstProper, List.forall_mem_singleton.mpr secondProper⟩) folds
    rw [pair, same, Value.ofConstant_literal inside.isLiteral]
    exact congrArg Ntype.singleton inside.standardized_eq
  · have varied := reached.resolve_left (not_exists.mpr stays)
    cases numbers : first.proves .number && second.proves .number with
    | false =>
        rw [pair, same, whenNumbers_of_others numbers]
        rfl
    | true =>
        rw [Bool.and_eq_true] at numbers
        have joins :=
          pair_joins isArithmetic firstProper secondProper numbers.1 numbers.2 varied
        rcases joins.loose with absent | ⟨_, zero⟩
        · exact standardized_of_varied absent
        · change (pair operation first second).constant? = some (.integer 0) at zero
          cases type : pair operation first second with
          | primitive primitive => rfl
          | singleton member =>
              rw [type] at zero
              cases zero
              rfl

/-- A call with two operands stems from the operands that stand for them. -/
theorem pair_stems (firstProper : first.IsProper) (secondProper : second.IsProper) :
    Engine.Stems [] (Generic.arithmetic operation) [standing first, standing second]
      (fun next => Varied [standing first, standing second] →
        Joins operation (standing first) (standing second) next)
      (standing (pair operation first second)) where
  typed := by
    have bounded := pair_bounded isArithmetic firstProper secondProper
    exact standing_typed bounded.innerProper (isNumeric_of_number bounded.proven)
  outcome := by
    rcases folded_cases (Generic.arithmetic operation) [first, second]
      ((whenNumbers [first, second] (pairCall operation first second)).getD .number)
      with ⟨value, folds, same⟩ | ⟨stays, same⟩
    · obtain ⟨_, _, _, _, _, reduced⟩ := exists_of_arithmetic (List.forall_mem_cons.mpr
        ⟨firstProper, List.forall_mem_singleton.mpr secondProper⟩) folds
      refine .inl ⟨value, foldsTo_standardized.mpr folds, reduced, ?_⟩
      exact (pair_standardized isArithmetic firstProper secondProper
        (.inl ⟨value, folds⟩)).trans same
    · refine .inr ⟨fun value folds => stays value (foldsTo_standardized.mp folds), ?_⟩
      intro varied
      rw [Engine.varied_pair, standing_varied, standing_varied] at varied
      have kept : standing (pair operation first second) = .ofType (pair operation first second) :=
        congrArg Operand.ofType
          (pair_standardized isArithmetic firstProper secondProper (.inr varied))
      rw [kept]
      cases numbers : first.proves .number && second.proves .number with
      | false =>
          rw [pair, same, whenNumbers_of_others numbers]
          exact joins_number isArithmetic rfl
      | true =>
          rw [Bool.and_eq_true] at numbers
          exact pair_joins isArithmetic firstProper secondProper numbers.1 numbers.2 varied

variable {Carries : List Operand → Operand → Prop} (chains : Chains operation Carries)

include chains

/-- What is carried along a chain reaches its end. -/
theorem chain_carries {before : List Ntype} (started : before ≠ []) (proper : made.IsProper)
    (numeric : made.IsNumeric) (carries : Carries (before.map standing) (standing made))
    (each : ∀ type ∈ rest, type.IsProper ∧ type.IsNumeric) :
    Carries ((before ++ rest).map standing) (standing (rest.foldl (pair operation) made)) := by
  induction rest generalizing before made with
  | nil => rwa [List.append_nil]
  | cons second rest inductionHypothesis =>
      obtain ⟨⟨secondProper, secondNumeric⟩, restEach⟩ := List.forall_mem_cons.mp each
      have bounded := pair_bounded isArithmetic proper secondProper
      have next := chains.step (before.map standing) (standing made) (standing second)
        (standing (pair operation made second)) carries
        (standing_typed secondProper secondNumeric) (by simpa using started)
        (pair_stems isArithmetic proper secondProper)
      rw [List.append_cons]
      refine inductionHypothesis (by simp) bounded.innerProper
        (isNumeric_of_number bounded.proven) ?_ restEach
      rw [List.map_append]
      exact next

/-- A chain ends with a standard literal, unless it has no value. -/
theorem chain_standardized {before : List Ntype} {values : List Value} (started : before ≠ [])
    (longer : rest ≠ []) (proper : made.IsProper) (numeric : made.IsNumeric)
    (carries : Carries (before.map standing) (standing made))
    (each : ∀ type ∈ rest, type.IsProper ∧ type.IsNumeric)
    (admitted : List.Forall₂ Admits ((before ++ rest).map standing) values)
    (computed : Generic.combined operation values = .ok value) :
    (rest.foldl (pair operation) made).standardized = rest.foldl (pair operation) made := by
  induction rest generalizing before made with
  | nil => exact absurd rfl longer
  | cons second rest inductionHypothesis =>
      obtain ⟨⟨secondProper, secondNumeric⟩, restEach⟩ := List.forall_mem_cons.mp each
      have secondTyped := standing_typed secondProper secondNumeric
      have carriesStarted : before.map standing ≠ [] := by simpa using started
      cases rest with
      | nil =>
          apply pair_standardized isArithmetic proper secondProper
          by_contra unreached
          rw [not_or] at unreached
          -- Without a literal to fold to, even an operand without values would go on.
          have hollow : (Operand.ofType .empty).Typed [] := ⟨nofun, nofun⟩
          have next := chains.step (before.map standing) (standing made) (standing second)
            (.ofType .empty) carries secondTyped carriesStarted
            ⟨hollow, .inr ⟨fun value folds =>
              unreached.1 ⟨value, foldsTo_standardized.mp folds⟩, fun varied => by
                rw [Engine.varied_pair, standing_varied, standing_varied] at varied
                exact absurd varied unreached.2⟩⟩
          rw [List.map_append] at admitted
          obtain ⟨other, inside, _⟩ := chains.reaches _ _ values value next admitted computed
          cases inside.symm.trans (AtomSet.contains_empty other.atom)
      | cons third rest =>
          have bounded := pair_bounded isArithmetic proper secondProper
          have next := chains.step (before.map standing) (standing made) (standing second)
            (standing (pair operation made second)) carries secondTyped carriesStarted
            (pair_stems isArithmetic proper secondProper)
          rw [List.append_cons] at admitted
          refine inductionHypothesis (by simp) (by simp) bounded.innerProper
            (isNumeric_of_number bounded.proven) ?_ restEach admitted
          rw [List.map_append]
          exact next

end Pairs

/-- Types of which one is not known. -/
def IsVaried (types : List Ntype) : Prop := ∃ type ∈ types, type.constant? = none

/-- A product of more than three operands, not all of them known, comes out as a complex number. -/
def Restarts (operation : Operation) (types : List Ntype) : Prop :=
  operation = .mul ∧ 3 < types.length ∧ IsVaried types ∧
    ∃ literal tier, (arithmetic operation types).constant? = some literal ∧
      literal.tier? = some tier ∧ tier.isComplex = true

theorem arithmetic_chain (operation : Operation) (first second third : Ntype) (rest : List Ntype) :
    arithmetic operation (first :: second :: third :: rest) =
      folded (Generic.arithmetic operation) (first :: second :: third :: rest)
        ((second :: third :: rest).foldl (pair operation) first) := rfl

/-- Literals in some types are numbers that these types admit. -/
theorem admits_of_literals {literals : List Value} (narrows : List.Forall₂ Narrows types others)
    (found : List.Forall₂ (fun type literal => type.constant? = some literal) types literals)
    (numbers : ∀ literal ∈ literals, literal.tier?.isSome = true) :
    List.Forall₂ Admits (others.map standing) (literals.map Value.standardized) := by
  induction narrows generalizing literals with
  | nil =>
      cases found
      exact .nil
  | cons first _ inductionHypothesis =>
      cases found with
      | cons constant found =>
          obtain ⟨isNumber, restNumbers⟩ := List.forall_mem_cons.mp numbers
          obtain ⟨own, number⟩ := Option.isSome_iff_exists.mp isNumber
          exact .cons (first.admits constant number) (inductionHypothesis found restNumbers)

/-- Types around numbers have no literals but numbers. -/
theorem isNumeric_of_numbers (narrows : List.Forall₂ Narrows types others)
    (numbers : ∀ type ∈ types, type.proves .number = true) :
    ∀ type ∈ others, type.IsProper ∧ type.IsNumeric := by
  intro outer member
  obtain ⟨inner, among, holds⟩ := exists_related_of_mem narrows.flip member
  exact ⟨holds.outerProper, holds.isNumeric (numbers inner among)⟩

/-- Arithmetic folds numbers only. -/
theorem numbers_of_folds (folds : FoldsTo (Generic.arithmetic operation) types value) :
    ∀ type ∈ types, type.proves .number = true := by
  obtain ⟨literals, found, computed⟩ := folds
  intro type member
  obtain ⟨literal, among, constant⟩ := exists_related_of_mem (literals?_related found) member
  obtain ⟨own, number⟩ :=
    Option.isSome_iff_exists.mp (Generic.numbers_of_arithmetic computed literal among)
  exact proves_number_of_constant constant number

/-- Types that have literals are known. -/
theorem not_isVaried_of_folds (folds : FoldsTo implementation types value) : ¬IsVaried types := by
  rintro ⟨type, member, absent⟩
  obtain ⟨literals, found, _⟩ := folds
  cases found.symm.trans (literals?_varied member absent)

/-- Types of numbers lie in known types only if they are these types. -/
theorem eq_of_known (narrows : List.Forall₂ Narrows types others)
    (numbers : ∀ type ∈ types, type.proves .number = true) (known : ¬IsVaried others) :
    types = others := by
  induction narrows with
  | nil => rfl
  | @cons inner outer _ _ first _ inductionHypothesis =>
      obtain ⟨isNumber, restNumbers⟩ := List.forall_mem_cons.mp numbers
      cases constant : outer.constant? with
      | none => exact absurd ⟨outer, List.mem_cons_self, constant⟩ known
      | some literal =>
          obtain ⟨own, number⟩ := first.isNumeric isNumber literal constant
          have same := first.eq_of_number (proves_number_of_constant constant number) constant
          rw [same, inductionHypothesis restNumbers fun varied => ?_]
          obtain ⟨type, member, absent⟩ := varied
          exact known ⟨type, List.mem_cons_of_mem _ member, absent⟩

/-- A chain that is not folded holds the values of narrower literals. -/
theorem chain_of_folds {narrow : List Ntype} {second third : Ntype}
    (isArithmetic : operation.isArithmetic = true)
    (narrows : List.Forall₂ Narrows narrow (first :: second :: third :: rest))
    (varied : IsVaried (first :: second :: third :: rest))
    (steady : ¬Restarts operation (first :: second :: third :: rest))
    (folds : FoldsTo (Generic.arithmetic operation) narrow value) :
    ((second :: third :: rest).foldl (pair operation) first).contains value = true := by
  obtain ⟨literals, found, computed⟩ := folds
  have numbers := Generic.numbers_of_arithmetic computed
  have related := literals?_related found
  have admitted := admits_of_literals narrows related numbers
  have numeric := isNumeric_of_numbers narrows (numbers_of_folds ⟨literals, found, computed⟩)
  have isVaried : Varied ((first :: second :: third :: rest).map standing) := by
    obtain ⟨type, member, absent⟩ := varied
    exact ⟨standing type, List.mem_map_of_mem member, standing_varied.mpr absent⟩
  -- Not all wide operands are known, so the chain itself does not run early.
  have whole : arithmetic operation (first :: second :: third :: rest) =
      (second :: third :: rest).foldl (pair operation) first := by
    obtain ⟨type, member, absent⟩ := varied
    rw [arithmetic_chain, folded_of_none (literals?_varied member absent)]
  obtain ⟨⟨firstProper, firstNumeric⟩, restEach⟩ := List.forall_mem_cons.mp numeric
  have firstTyped := standing_typed firstProper firstNumeric
  have restarted := (Generic.arithmetic_standardized operation literals).trans computed
  have combined : Generic.combined operation (literals.map Value.standardized) = .ok value := by
    generalize literals.map Value.standardized = values at admitted restarted ⊢
    rcases admitted with _ | ⟨_, _ | ⟨_, _⟩⟩
    rwa [Generic.arithmetic_eq_combined isArithmetic] at restarted
  obtain ⟨Carries, chains⟩ := exists_chains isArithmetic
  have start := chains.first _ firstTyped
  have carries := chain_carries isArithmetic chains (List.cons_ne_nil first []) firstProper
    firstNumeric start restEach
  have kept := chain_standardized isArithmetic chains (List.cons_ne_nil first [])
    (List.cons_ne_nil _ _) firstProper firstNumeric start restEach admitted combined
  have inside := (chains.covers _ _ _ _ carries isVaried ?_ _ _ admitted restarted).1
  · rwa [ntype_standing, kept] at inside
  · rintro product ⟨longer, _, literal, tier, constant, number, isComplex⟩
    refine steady ⟨product, by simpa using longer, varied, literal, tier, ?_, number, isComplex⟩
    rw [whole, ← kept]
    exact constant

theorem innerProper_of_narrows (narrows : List.Forall₂ Narrows types others) :
    ∀ type ∈ types, type.IsProper := by
  intro inner member
  obtain ⟨outer, _, holds⟩ := exists_related_of_mem narrows member
  exact holds.innerProper

theorem outerProper_of_narrows (narrows : List.Forall₂ Narrows types others) :
    ∀ type ∈ others, type.IsProper := by
  intro outer member
  obtain ⟨inner, _, holds⟩ := exists_related_of_mem narrows.flip member
  exact holds.outerProper

/-- A chain of narrower operands has a narrower type. -/
theorem chain_monotone {second third wideSecond wideThird : Ntype}
    (isArithmetic : operation.isArithmetic = true)
    (narrows : List.Forall₂ Narrows (first :: second :: third :: rest)
      (wideFirst :: wideSecond :: wideThird :: wideRest))
    (steady : ¬Restarts operation (wideFirst :: wideSecond :: wideThird :: wideRest)) :
    Narrows (arithmetic operation (first :: second :: third :: rest))
      (arithmetic operation (wideFirst :: wideSecond :: wideThird :: wideRest)) := by
  have innerProper := innerProper_of_narrows narrows
  rw [arithmetic_chain, arithmetic_chain]
  rcases folded_cases (Generic.arithmetic operation)
    (wideFirst :: wideSecond :: wideThird :: wideRest)
    ((wideSecond :: wideThird :: wideRest).foldl (pair operation) wideFirst)
    with ⟨value, folds, same⟩ | ⟨wideStays, wideSame⟩
  · -- Numbers that are known do not narrow: both chains run early on the same literals.
    have numbers : ∀ type ∈ first :: second :: third :: rest, type.proves .number = true := by
      intro inner member
      obtain ⟨outer, among, holds⟩ := exists_related_of_mem narrows member
      exact holds.proves (numbers_of_folds folds outer among)
    cases eq_of_known narrows numbers (not_isVaried_of_folds folds)
    rw [same]
    exact (number_of_folds innerProper folds).innerProper.refl
  · rw [wideSame]
    rcases folded_cases (Generic.arithmetic operation) (first :: second :: third :: rest)
      ((second :: third :: rest).foldl (pair operation) first)
      with ⟨value, folds, same⟩ | ⟨_, same⟩
    · rw [same]
      have varied : IsVaried (wideFirst :: wideSecond :: wideThird :: wideRest) := by
        by_contra known
        rw [eq_of_known narrows (numbers_of_folds folds) known] at folds
        exact wideStays value folds
      obtain ⟨firstProper, restProper⟩ := List.forall_mem_cons.mp (outerProper_of_narrows narrows)
      exact narrows_of_folds innerProper folds (foldl_isProper isArithmetic firstProper restProper)
        (chain_of_folds isArithmetic narrows varied steady folds)
    · rw [same]
      obtain ⟨narrowsFirst, narrowsRest⟩ := List.forall₂_cons.mp narrows
      exact foldl_monotone isArithmetic narrowsFirst narrowsRest

/-- Arithmetic on no operands has the type of a literal, or of all numbers. -/
theorem arithmetic_nil_isProper (isArithmetic : operation.isArithmetic = true) :
    (arithmetic operation []).IsProper := by
  cases operation with
  | add => exact (isProper_ofConstant nofun : (Ntype.ofConstant (.integer 0)).IsProper)
  | mul => exact one_isProper
  | sub | div => exact isProper_number
  | _ => cases isArithmetic

/-- Arithmetic on narrower operands has a narrower type, unless products have started again. -/
theorem arithmetic_monotone (isArithmetic : operation.isArithmetic = true)
    (narrows : List.Forall₂ Narrows types others) (steady : ¬Restarts operation others) :
    Narrows (arithmetic operation types) (arithmetic operation others) := by
  match narrows with
  | .nil => exact (arithmetic_nil_isProper isArithmetic).refl
  | .cons first .nil => exact single_monotone isArithmetic first
  | .cons first (.cons second .nil) => exact pair_monotone isArithmetic first second
  | .cons first (.cons second (.cons third rest)) =>
      exact chain_monotone isArithmetic (.cons first (.cons second (.cons third rest))) steady

end Inference

end Narrowing
