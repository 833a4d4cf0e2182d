import Narrowing.Proofs.HollowNumbers
import Narrowing.Proofs.TypedArithmetic

/-
This file carries types through sums, differences, products and quotients of any number of
operands. A chain of calls with two operands starts each product of literals from one again, which
changes zeros of complex numbers.
-/

namespace Narrowing

theorem exists_of_forall₂_append {Item Result : Type} {relates : Item → Result → Prop}
    {before : List Item} {item : Item} {results : List Result}
    (related : List.Forall₂ relates (before ++ [item]) results) :
    ∃ earlier last, results = earlier ++ [last] ∧ List.Forall₂ relates before earlier ∧
      relates item last := by
  induction before generalizing results with
  | nil =>
      cases related with
      | cons holds none =>
          cases none
          exact ⟨[], _, rfl, .nil, holds⟩
  | cons first before inductionHypothesis =>
      cases related with
      | cons holds others =>
          obtain ⟨earlier, last, rfl, firsts, lastHolds⟩ := inductionHypothesis others
          exact ⟨_ :: earlier, last, rfl, .cons holds firsts, lastHolds⟩

theorem Value.exists_toTier_small {count : Int} (small : count ∈ [(0 : Int), 1]) (tier : Tier) :
    ∃ result, (Value.integer count).toTier tier = .ok result := by
  have each : ∀ count ∈ [(0 : Int), 1], ∀ tier ∈ Tier.all,
      ((Value.integer count).toTier tier).isOk = true := by decide +kernel
  exact exists_of_isOk (each count small tier tier.mem_all)

namespace Generic

variable {operation : Operation} {value first second result : Value} {own : Tier}

/-- The neutral number of a sum or a product combines with all numbers. -/
theorem exists_identity {number : Int} (identity : operation.identity? = some number)
    (inside : value.InTier own) :
    ∃ result, binary operation (.integer number) value = .ok result ∧ result.Resembles value := by
  have repeats : operation.identity?.isSome = true := by rw [identity]; rfl
  obtain ⟨result, computed⟩ : ∃ result, binary operation (.integer number) value = .ok result := by
    cases exact : own.isExact with
    | true =>
        obtain ⟨fraction, valueExact⟩ := inside.exists_exact exact
        obtain ⟨meaning, meant⟩ : ∃ meaning,
            operation.meaning? number fraction = some meaning := by
          cases operation with
          | add | mul => exact ⟨_, rfl⟩
          | _ => cases identity
        have numberExact : (Value.integer number).exactNumber? = some (number : Rat) := rfl
        obtain ⟨result, computed, _⟩ := binary_exact numberExact valueExact meant
        exact ⟨result, computed⟩
    | false =>
        have met : Tier.integer.combine own = own :=
          (Tier.combine_comm _ _).trans (Tier.combine_exact exact rfl)
        have small : number ∈ [(0 : Int), 1] := by
          cases operation with
          | add | mul =>
              cases identity
              decide
          | _ => cases identity
        obtain ⟨begun, begunConverted⟩ := Value.exists_toTier_small small own
        obtain ⟨converted, valueConverted⟩ := Value.exists_toTier inside exact exact id
        rw [← met] at exact begunConverted valueConverted
        obtain ⟨result, computed, _⟩ :=
          binary_total repeats (.integer number) inside exact begunConverted valueConverted
        exact ⟨result, computed⟩
  exact ⟨result, computed, binary_identity identity rfl inside computed⟩

/-- The values combine from the left, from the neutral number on or from the first of them. -/
def combined (operation : Operation) (values : List Value) : Except Fault Value :=
  match operation.identity?, values with
  | some number, values => fold operation (.integer number) values
  | none, first :: rest => fold operation first rest
  | none, [] => .error .operand

theorem combined_of_identity {number : Int} (identity : operation.identity? = some number)
    (values : List Value) :
    combined operation values = fold operation (.integer number) values := by
  unfold combined
  rw [identity]

theorem combined_of_difference (differs : operation.identity? = none) (first : Value)
    (rest : List Value) :
    combined operation (first :: rest) = fold operation first rest := by
  unfold combined
  rw [differs]

theorem fold_snoc (operation : Operation) (first last : Value) (values : List Value) :
    fold operation first (values ++ [last]) =
      fold operation first values >>= fun result => binary operation result last := by
  rw [fold_append]
  exact bind_congr fun result => bind_pure _

theorem combined_snoc {values : List Value} (nonempty : values ≠ []) (last : Value) :
    combined operation (values ++ [last]) =
      combined operation values >>= fun result => binary operation result last := by
  cases identity : operation.identity? with
  | some number =>
      rw [combined_of_identity identity, combined_of_identity identity]
      exact fold_snoc operation _ last values
  | none =>
      cases values with
      | nil => exact absurd rfl nonempty
      | cons first rest =>
          rw [List.cons_append, combined_of_difference identity, combined_of_difference identity]
          exact fold_snoc operation first last rest

/-- Two or more operands of arithmetic combine from the left. -/
theorem arithmetic_eq_combined (isArithmetic : operation.isArithmetic = true) (first second : Value)
    (rest : List Value) :
    arithmetic operation (first :: second :: rest) =
      combined operation (first :: second :: rest) := by
  cases operation with
  | add | mul | sub | div => rfl
  | _ => cases isArithmetic

/-- A sum or a product of two numbers that a literal stands for, started again. -/
theorem exists_started {last again : Value} {right : Tier}
    (repeats : operation.identity?.isSome = true) (inside : value.InTier own)
    (lastInside : last.InTier right) (joined : binary operation value last = .ok again) :
    ∃ begun result, begun.Resembles value ∧ binary operation begun last = .ok result ∧
      arithmetic operation [value, last] = .ok result ∧ result.Resembles again ∧
        (operation = .mul → value.IsHollow → result = again) := by
  obtain ⟨number, identity⟩ := Option.isSome_iff_exists.mp repeats
  obtain ⟨begun, start, begunSame⟩ := exists_identity identity inside
  obtain ⟨result, finish, same⟩ := binary_resembles repeats begunSame.symm lastInside joined
  have isArithmetic : operation.isArithmetic = true := by
    cases operation <;> first | rfl | cases repeats
  refine ⟨begun, result, begunSame, finish, ?_, same.symm, ?_⟩
  · rw [arithmetic_eq_combined isArithmetic, combined_of_identity identity, fold_cons, start]
    change binary operation begun last >>= _ = _
    rw [finish]
    rfl
  · rintro rfl hollow
    cases identity
    cases start.symm.trans hollow.one_mul
    cases finish.symm.trans joined
    rfl

end Generic

namespace Operand

/-- The literal of an operand is a complex number. -/
def IsComplexLiteral (operand : Operand) : Prop :=
  ∃ literal tier, operand.ntype.constant? = some literal ∧ literal.tier? = some tier ∧
    tier.isComplex = true

/--
What stands for a sum or a product of several operands, not all of them literals. A zero that has
swallowed its factors is a literal again, and so are its products with later literals.
-/
inductive Settled (operation : Operation) (count : Nat) (made : Operand) (value : Value) : Prop
  | varied (varied : made.ntype.constant? = none)
  | hollow (product : operation = .mul) (admits : made.Admits value) (hollow : value.IsHollow)
      (counted : 2 ≤ count)
  | complex (product : operation = .mul) (literal : made.IsComplexLiteral) (counted : 3 ≤ count)
      (kept : count = 3 → made.Admits value)

/-- An operand stands for a sum or a product of the operands so far. -/
structure Follows (environment : Environment) (operation : Operation) (before : List Operand)
    (made : Operand) : Prop where
  typed : made.Typed environment
  reaches : ∀ values result, List.Forall₂ Admits before values →
    Generic.combined operation values = .ok result →
      (∃ other, made.Admits other ∧ other.Resembles result) ∧
        (Varied before → Settled operation before.length made result)

/-- An operand stands for a difference or a quotient of the operands so far. -/
structure Reduces (environment : Environment) (operation : Operation) (before : List Operand)
    (made : Operand) : Prop where
  typed : made.Typed environment
  reaches : ∀ values result, List.Forall₂ Admits before values →
    Generic.combined operation values = .ok result → made.Admits result

variable {environment : Environment} {operation : Operation} {before : List Operand}
  {first second made next : Operand} {other reached last result again : Value}

/-- A sum or a product starts with the neutral number. -/
theorem follows_first (repeats : operation.identity?.isSome = true)
    (typed : first.Typed environment) : Follows environment operation [first] first where
  typed := typed
  reaches := by
    rintro _ result (_ | ⟨admits, _ | _⟩) computed
    obtain ⟨number, identity⟩ := Option.isSome_iff_exists.mp repeats
    rw [Generic.combined_of_identity identity] at computed
    obtain ⟨joined, start, same⟩ := exists_of_bind computed
    cases same
    obtain ⟨own, inside⟩ := Value.exists_inTier admits.2 (Generic.numbers_of_binary start).2
    exact ⟨⟨_, admits, (Generic.binary_identity identity rfl inside start).symm⟩,
      fun varied => .varied (Engine.varied_singleton.mp varied)⟩

/-- The next call has a varied operand, so it joins its operands. -/
theorem Joins.settled (joins : Joins operation made second next) (admits : made.Admits other)
    (lastAdmits : second.Admits last) (joined : Generic.binary operation other last = .ok again)
    (same : result.Resembles again) (reduced : result.isReduced = true) (started : before ≠ []) :
    (∃ other, next.Admits other ∧ other.Resembles result) ∧
      Settled operation (before ++ [second]).length next result := by
  have againAdmits := joins.admits other last again admits lastAdmits joined
  have nextAdmits := againAdmits.of_loose joins.loose same.symm reduced
  refine ⟨⟨again, againAdmits, same.symm⟩, ?_⟩
  rcases joins.loose with isVaried | ⟨product, zero⟩
  · exact .varied isVaried
  · refine .hollow product nextAdmits ?_ ?_
    · rw [Ntype.eq_of_constant zero rfl nextAdmits.1]
      exact .integer
    · have positive := List.length_pos_iff.mpr started
      rw [List.length_append, List.length_singleton]
      omega

/-- The next call multiplies two literals after a zero has swallowed its factors. -/
theorem Settled.step {product : Value} {count : Nat} {own right : Tier}
    (settled : Settled operation count made reached) (typed : made.Typed environment)
    (constant : made.ntype.constant? = some other) (inside : reached.InTier own)
    (lastInside : last.InTier right) (otherSame : other.Resembles reached)
    (computed : Generic.binary operation reached last = .ok result)
    (joined : Generic.binary operation other last = .ok again)
    (kept : operation = .mul → other.IsHollow → product = again)
    (resembles : product.Resembles result)
    (nextConstant : next.ntype.constant? = some product) (nextAdmits : next.Admits product) :
    Settled operation (count + 1) next result := by
  have isComplexLiteral : operation = .mul → ∀ tier, result.InTier tier → tier.isComplex = true →
      next.IsComplexLiteral := by
    intro _ tier resultInside isComplex
    obtain ⟨other, productInside, resultOther, _⟩ := resembles
    cases Option.some.inj (resultInside.tier?.symm.trans resultOther.tier?)
    exact ⟨product, tier, nextConstant, productInside.tier?, isComplex⟩
  cases settled with
  | varied varied => cases constant.symm.trans varied
  | hollow product admits hollow counted =>
      have same := typed.eq_of_admits constant admits
      subst same
      cases computed.symm.trans joined
      have kept := kept product hollow
      subst kept
      subst product
      rcases Generic.isHollow_mul hollow inside lastInside computed with hollow | leaves
      · exact .hollow rfl nextAdmits hollow (by omega)
      · obtain ⟨tier, resultInside, isComplex⟩ := leaves
        exact .complex rfl (isComplexLiteral rfl tier resultInside isComplex) (by omega)
          fun _ => nextAdmits
  | complex product literal counted kept =>
      obtain ⟨member, tier, memberConstant, memberTier, isComplex⟩ := literal
      cases constant.symm.trans memberConstant
      obtain ⟨otherTier, otherInside, reachedInside, _⟩ := otherSame
      cases Option.some.inj (memberTier.symm.trans otherInside.tier?)
      have metComplex : (tier.combine right).isComplex = true := by
        rw [Tier.isComplex_combine, isComplex]
        rfl
      have inexact : (tier.combine right).isExact = false := by
        cases met : tier.combine right <;> rw [met] at metComplex <;>
          first | rfl | cases metComplex
      subst product
      have resultInside := Generic.binary_inexact rfl reachedInside lastInside inexact computed
      exact .complex rfl (isComplexLiteral rfl _ resultInside metComplex) (by omega)
        fun short => absurd short (by omega)

/-- What operands compute from the left, the operands before the last one compute first. -/
theorem exists_earlier {values : List Value} {result : Value} (started : before ≠ [])
    (admitted : List.Forall₂ Admits (before ++ [second]) values)
    (computed : Generic.combined operation values = .ok result) :
    ∃ earlier reached last, List.Forall₂ Admits before earlier ∧ second.Admits last ∧
      Generic.combined operation earlier = .ok reached ∧
        Generic.binary operation reached last = .ok result := by
  obtain ⟨earlier, last, rfl, admittedBefore, lastAdmits⟩ := exists_of_forall₂_append admitted
  have nonempty : earlier ≠ [] := by
    rintro rfl
    exact started (List.forall₂_nil_right_iff.mp admittedBefore)
  rw [Generic.combined_snoc nonempty] at computed
  obtain ⟨reached, earlierComputed, computed⟩ := exists_of_bind computed
  exact ⟨earlier, reached, last, admittedBefore, lastAdmits, earlierComputed, computed⟩

/-- A chain of sums or products goes on with a call that stems from two of its operands. -/
theorem Follows.snoc (repeats : operation.identity?.isSome = true)
    (follows : Follows environment operation before made) (typed : second.Typed environment)
    (started : before ≠ [])
    (stems : Engine.Stems environment (Generic.arithmetic operation) [made, second]
      (fun next => Varied [made, second] → Joins operation made second next) next) :
    Follows environment operation (before ++ [second]) next where
  typed := stems.typed
  reaches := by
    intro values result admitted computed
    obtain ⟨earlier, reached, last, admittedBefore, lastAdmits, earlierComputed, computed⟩ :=
      exists_earlier started admitted computed
    obtain ⟨⟨other, otherAdmits, otherSame⟩, settled⟩ :=
      follows.reaches earlier reached admittedBefore earlierComputed
    have isArithmetic : operation.isArithmetic = true := by
      cases operation <;> first | rfl | cases repeats
    obtain ⟨right, lastInside⟩ :=
      Value.exists_inTier lastAdmits.2 (Generic.numbers_of_binary computed).2
    obtain ⟨again, joined, same⟩ :=
      Generic.binary_resembles repeats otherSame.symm lastInside computed
    obtain ⟨own, otherInside, reachedInside, sameExact⟩ := otherSame
    obtain ⟨_, reduced⟩ := Generic.binary_inTier isArithmetic reachedInside lastInside computed
    cases found : Engine.literals? [made, second] with
    | none =>
        have varied := Engine.literals?_eq_none_iff.mp found
        obtain ⟨stands, settles⟩ := (stems.varied varied varied).settled otherAdmits lastAdmits
          joined same reduced started
        exact ⟨stands, fun _ => settles⟩
    | some literals =>
        have both := List.forall_mem_cons.mpr ⟨follows.typed, List.forall_mem_singleton.mpr typed⟩
        cases Engine.eq_of_literals both found (.cons otherAdmits (.cons lastAdmits .nil))
        rcases Engine.literals?_related found with _ | ⟨madeConstant, _ | ⟨lastConstant, _⟩⟩
        obtain ⟨begun, product, _, _, arithmetic, productSame, kept⟩ :=
          Generic.exists_started repeats otherInside lastInside joined
        obtain ⟨productReduced, type⟩ := stems.literal ⟨_, found, arithmetic⟩
        have nextAdmits : next.Admits product := by
          rw [Admits, type]
          exact ⟨Ntype.contains_ofConstant product, Value.isStandard_of_reduced productReduced⟩
        have resembles : product.Resembles result := (same.trans productSame.symm).symm
        refine ⟨⟨product, nextAdmits, resembles⟩, fun varied => ?_⟩
        have beforeVaried : Varied before := by
          obtain ⟨operand, member, absent⟩ := varied
          rcases List.mem_append.mp member with earlier | newest
          · exact ⟨operand, earlier, absent⟩
          · rw [List.mem_singleton.mp newest, lastConstant] at absent
            cases absent
        have nextConstant : next.ntype.constant? = some product := by
          obtain ⟨_, productInside, _⟩ := resembles
          have isLiteral : product.isLiteral = true := by cases productInside <;> rfl
          rw [type, Value.ofConstant_literal isLiteral]
          rfl
        rw [List.length_append, List.length_singleton]
        exact (settled beforeVaried).step follows.typed madeConstant reachedInside lastInside
          ⟨own, otherInside, reachedInside, sameExact⟩ computed joined kept resembles nextConstant
          nextAdmits

theorem reduces_first (differs : operation.identity? = none) (typed : first.Typed environment) :
    Reduces environment operation [first] first where
  typed := typed
  reaches := by
    rintro _ result (_ | ⟨admits, _ | _⟩) computed
    rw [Generic.combined_of_difference differs] at computed
    cases computed
    exact admits

/-- A chain of differences or quotients goes on with a call that covers two of its operands. -/
theorem Reduces.snoc (isArithmetic : operation.isArithmetic = true)
    (differs : operation.identity? = none)
    (reduces : Reduces environment operation before made) (typed : next.Typed environment)
    (started : before ≠ [])
    (covers : Engine.Covers (Generic.arithmetic operation) [made, second] next) :
    Reduces environment operation (before ++ [second]) next where
  typed := typed
  reaches := by
    intro values result admitted computed
    obtain ⟨earlier, reached, last, admittedBefore, lastAdmits, earlierComputed, computed⟩ :=
      exists_earlier started admitted computed
    have reachedAdmits := reduces.reaches earlier reached admittedBefore earlierComputed
    refine covers [reached, last] result (.cons reachedAdmits (.cons lastAdmits .nil)) ?_
    rw [Generic.arithmetic_eq_combined isArithmetic, Generic.combined_of_difference differs]
    exact (bind_pure _).trans computed

/-- A complex literal stands for more than three operands, not all of them literals. -/
def Restarts (operands : List Operand) (made : Operand) : Prop :=
  3 < operands.length ∧ Varied operands ∧ made.IsComplexLiteral

variable {rest : List Operand}

/-- A chain of sums or products covers them, unless products have started again. -/
theorem Follows.covers (isArithmetic : operation.isArithmetic = true)
    (follows : Follows environment operation (first :: second :: rest) made)
    (isVaried : Varied (first :: second :: rest))
    (steady : operation = .mul → ¬Restarts (first :: second :: rest) made) :
    Engine.Covers (Generic.arithmetic operation) (first :: second :: rest) made := by
  intro values result admitted computed
  have combined : Generic.combined operation values = .ok result := by
    rcases admitted with _ | ⟨_, _ | ⟨_, _⟩⟩
    rwa [Generic.arithmetic_eq_combined isArithmetic] at computed
  obtain ⟨⟨other, admits, same⟩, settles⟩ := follows.reaches values result admitted combined
  cases settles isVaried with
  | varied varied => exact admits.of_resembles varied same
  | hollow _ resultAdmits _ _ => exact resultAdmits
  | complex product literal counted kept =>
      by_cases short : (first :: second :: rest).length = 3
      · exact kept short
      · exact absurd ⟨by omega, isVaried, literal⟩ (steady product)

theorem Reduces.covers (isArithmetic : operation.isArithmetic = true)
    (reduces : Reduces environment operation (first :: second :: rest) made) :
    Engine.Covers (Generic.arithmetic operation) (first :: second :: rest) made := by
  intro values result admitted computed
  refine reduces.reaches values result admitted ?_
  rcases admitted with _ | ⟨_, _ | ⟨_, _⟩⟩
  rwa [Generic.arithmetic_eq_combined isArithmetic] at computed

end Operand

namespace Engine

open Traced Operand

variable {environment : Environment} {engine : Engine} {allowed : Fault → Prop}
  {operands rest : List Operand} {first : Operand} {operation : Operation}
  (standard : engine.registry = .standard) (folds : engine.folds = true)
  (anyway : ∀ fault, allowed fault)

include standard folds anyway

/-- Each call of a chain of sums or products stands for the operands so far. -/
theorem meets_typedSums (isArithmetic : operation.isArithmetic = true)
    (repeats : operation.identity?.isSome = true)
    (typed : ∀ operand ∈ first :: rest, operand.Typed environment) (remaining depth : Nat) :
    (chainAnswer (engine.level remaining depth) operation first rest).Meets allowed
      (Follows environment operation (first :: rest)) := by
  obtain ⟨firstTyped, restTyped⟩ := List.forall_mem_cons.mp typed
  apply @meets_foldlM _ _ _ _ _ fun before => Follows environment operation (first :: before)
  · exact follows_first repeats firstTyped
  · intro before second after made whole follows
    have secondTyped := restTyped second (by simp [whole])
    apply (meets_typedPair standard folds anyway isArithmetic follows.typed secondTyped remaining
      depth).mono
    intro next stems
    exact follows.snoc repeats secondTyped (List.cons_ne_nil _ _) stems

/-- Each call of a chain of differences or quotients stands for the operands so far. -/
theorem meets_typedDifferences (isArithmetic : operation.isArithmetic = true)
    (differs : operation.identity? = none)
    (typed : ∀ operand ∈ first :: rest, operand.Typed environment) (remaining depth : Nat) :
    (chainAnswer (engine.level remaining depth) operation first rest).Meets allowed
      (Reduces environment operation (first :: rest)) := by
  obtain ⟨firstTyped, restTyped⟩ := List.forall_mem_cons.mp typed
  apply @meets_foldlM _ _ _ _ _ fun before => Reduces environment operation (first :: before)
  · exact reduces_first differs firstTyped
  · intro before second after made whole reduces
    have secondTyped := restTyped second (by simp [whole])
    apply (meets_typedPair standard folds anyway isArithmetic reduces.typed secondTyped remaining
      depth).mono
    intro next stems
    apply reduces.snoc isArithmetic differs stems.typed (List.cons_ne_nil _ _)
    apply stems.covers (List.forall_mem_cons.mpr
      ⟨reduces.typed, List.forall_mem_singleton.mpr secondTyped⟩)
    exact fun varied described => covers_of_joins isArithmetic (described varied)

/--
A specialized sum, difference, product or quotient covers the generic operation, unless products
have started again.
-/
theorem meets_typedArithmetic (isArithmetic : operation.isArithmetic = true)
    (typed : ∀ operand ∈ operands, operand.Typed environment) (remaining depth : Nat) :
    ((engine.level remaining depth).specialize operation.symbol operands).Meets allowed
      fun made => made.Typed environment ∧ ((operation = .mul → ¬Restarts operands made) →
        Covers (Generic.arithmetic operation) operands made) := by
  match operands with
  | [] =>
      refine meets_level (fun _ => anyway _) (fun remaining depth => ?_) remaining depth
      have answers : (engine.follow depth (engine.level remaining (depth + 1))
          (Rule.arithmetic operation) []).Meets allowed (Answers environment fun _ => True) := by
        rw [follow_arithmetic]
        unfold arithmeticAnswer
        cases operation.identity? with
        | none => exact meets_throw (anyway _)
        | some identity =>
            apply Meets.map
            exact meets_constant (.ofSome (typed_ofConstant rfl) trivial)
      apply (meets_stems standard folds anyway (runs_arithmetic isArithmetic) typed
        computes_arithmetic trivial answers).mono
      intro made stems
      exact ⟨stems.typed, fun _ => stems.covers typed fun varied _ => absurd varied nofun⟩
  | [operand] =>
      apply (meets_typedSingle standard folds anyway isArithmetic (typed operand
        List.mem_cons_self) remaining depth).mono
      rintro made ⟨madeTyped, covers⟩
      exact ⟨madeTyped, fun _ => covers⟩
  | [first, second] =>
      obtain ⟨firstTyped, secondTyped⟩ := List.forall_mem_cons.mp typed
      apply (meets_typedPair standard folds anyway isArithmetic firstTyped
        (List.forall_mem_singleton.mp secondTyped) remaining depth).mono
      intro made stems
      exact ⟨stems.typed, fun _ => stems.covers typed fun varied described =>
        covers_of_joins isArithmetic (described varied)⟩
  | first :: second :: third :: others =>
      refine meets_level (fun _ => anyway _) (fun remaining depth => ?_) remaining depth
      generalize whole : first :: second :: third :: others = operands at typed
      have answers : (engine.follow depth (engine.level remaining (depth + 1))
          (Rule.arithmetic operation) operands).Meets allowed (Answers environment fun made =>
            Varied operands → (operation = .mul → ¬Restarts operands made) →
              Covers (Generic.arithmetic operation) operands made) := by
        subst whole
        rw [follow_arithmetic]
        apply Meets.map
        cases identity : operation.identity? with
        | none =>
            apply (meets_typedDifferences standard folds anyway isArithmetic identity typed
              remaining (depth + 1)).mono
            intro made reduces
            exact .ofSome reduces.typed fun _ _ => reduces.covers isArithmetic
        | some number =>
            have repeats : operation.identity?.isSome = true := by rw [identity]; rfl
            apply (meets_typedSums standard folds anyway isArithmetic repeats typed remaining
              (depth + 1)).mono
            intro made follows
            exact .ofSome follows.typed fun varied steady =>
              follows.covers isArithmetic varied steady
      apply (meets_stems standard folds anyway (runs_arithmetic isArithmetic) typed
        computes_arithmetic (fun _ _ => computes_arithmetic.covers rfl rfl) answers).mono
      intro made stems
      exact ⟨stems.typed, fun steady => stems.covers typed fun varied described =>
        described varied steady⟩

end Engine

end Narrowing
