import Narrowing.Proofs.TypedFunctions
import Narrowing.Proofs.TypedPowers

/-
This file gives the type of a specialized call as a function of the types of its operands.
-/

namespace Narrowing

namespace Operand

/-- An operand of which nothing is known but its type. -/
def ofType (type : Ntype) : Operand := ⟨.parameter "", .single type⟩

/-- The type of what stands for a whole call depends on the types of its operands alone. -/
theorem simplified?_ofType (operation : Operation) (first second : Operand) :
    (simplified? operation (ofType first.ntype) (ofType second.ntype)).map (·.ntype) =
      (simplified? operation first second).map (·.ntype) := by
  have decides {test : Bool} {chosen other : Operand} {left right : Option Operand}
      (same : chosen.ntype = other.ntype) (rest : left.map (·.ntype) = right.map (·.ntype)) :
      (if test then some chosen else left).map (·.ntype) =
        (if test then some other else right).map (·.ntype) := by
    cases test with
    | true => exact congrArg some same
    | false => exact rest
  cases operation with
  | add => exact decides rfl (decides rfl rfl)
  | sub | div => exact decides rfl rfl
  | mul => exact decides rfl (decides rfl (decides rfl (decides rfl rfl)))
  | _ => rfl

end Operand

namespace Inference

/-- The literals of types that are all constant. -/
def literals? (types : List Ntype) : Option (List Value) := types.mapM Ntype.constant?

/-- The type of a call that runs early on literals, and that has another type if it cannot. -/
def folded (implementation : Implementation) (types : List Ntype) (otherwise : Ntype) : Ntype :=
  match literals? types with
  | none => otherwise
  | some literals =>
      match implementation literals with
      | .ok value => .ofConstant value
      | .error _ => otherwise

theorem folded_of_none {implementation : Implementation} {types : List Ntype} {otherwise : Ntype}
    (varied : literals? types = none) : folded implementation types otherwise = otherwise := by
  simp only [folded, varied]

theorem folded_of_ok {implementation : Implementation} {types : List Ntype} {otherwise : Ntype}
    {literals : List Value} {value : Value} (found : literals? types = some literals)
    (computed : implementation literals = .ok value) :
    folded implementation types otherwise = .ofConstant value := by
  simp only [folded, found, computed]

theorem folded_of_error {implementation : Implementation} {types : List Ntype} {otherwise : Ntype}
    {literals : List Value} {fault : Fault} (found : literals? types = some literals)
    (computed : implementation literals = .error fault) :
    folded implementation types otherwise = otherwise := by
  simp only [folded, found, computed]

/-- The type of a conversion to an inexact tier. -/
def coercion (tier : Tier) (type : Ntype) : Ntype :=
  folded (Generic.coerce tier) [type] (if type.proves tier.ntype then type else tier.ntype)

/-- The type of an operand in the representation of a tier. -/
def converted (tier : Tier) (type : Ntype) : Ntype :=
  if tier.isExact || type.proves tier.ntype then type else coercion tier type

def tierCall (tier : Tier) (operation : Operation) (types : List Ntype) : Ntype :=
  folded (tier.compute operation) types (Library.tierValues tier operation).primary

/-- The type of the narrowest call that holds both operands, if there is one. -/
def binaryCall (operation : Operation) (inexact : Bool) (first second : Ntype) : Option Ntype :=
  match (first.contagion second).ntype.tier? with
  | none => none
  | some met =>
      let tier := Plan.binaryTier operation inexact met
      if tier.offers operation then
        some (tierCall tier operation [converted tier first, converted tier second])
      else none

def unaryCall (operation : Operation) (type : Ntype) : Option Ntype :=
  match type.tier? with
  | none => none
  | some own =>
      let tier := Plan.unaryTier operation own
      some (tierCall tier operation [converted tier type])

/-- Rules answer for numbers only. -/
def whenNumbers (types : List Ntype) (answer : Option Ntype) : Option Ntype :=
  if types.all (·.proves .number) then answer else none

def simplified? (operation : Operation) (first second : Ntype) : Option Ntype :=
  (Operand.simplified? operation (.ofType first) (.ofType second)).map (·.ntype)

def pairCall (operation : Operation) (first second : Ntype) : Option Ntype :=
  match simplified? operation first second with
  | some simplified => some simplified
  | none => binaryCall operation false first second

/-- The type of a sum, difference, product or quotient of two operands. -/
def pair (operation : Operation) (first second : Ntype) : Ntype :=
  folded (Generic.arithmetic operation) [first, second]
    ((whenNumbers [first, second] (pairCall operation first second)).getD .number)

def singleCall (operation : Operation) (type : Ntype) : Option Ntype :=
  match operation with
  | .sub => unaryCall .neg type
  | .div => some (pair .div (.ofConstant (.integer 1)) type)
  | _ => some type

/-- The type of a sum, difference, product or quotient of any number of operands. -/
def arithmetic (operation : Operation) : List Ntype → Ntype
  | [] => folded (Generic.arithmetic operation) [] .number
  | [type] =>
      folded (Generic.arithmetic operation) [type]
        ((whenNumbers [type] (singleCall operation type)).getD .number)
  | [first, second] => pair operation first second
  | first :: rest =>
      folded (Generic.arithmetic operation) (first :: rest) (rest.foldl (pair operation) first)

def comparison (operation : Operation) : List Ntype → Ntype
  | [first, second] =>
      folded (Generic.ofBinary operation) [first, second]
        ((whenNumbers [first, second] (binaryCall operation false first second)).getD
          (.primitive .boolean))
  | _ => .primitive .boolean

def function (operation : Operation) : List Ntype → Ntype
  | [type] =>
      folded (Generic.ofUnary operation) [type]
        ((whenNumbers [type] (unaryCall operation type)).getD
          (Library.functionRecord operation).values.primary)
  | _ => (Library.functionRecord operation).values.primary

def powerCall (base exponent : Ntype) : Option Ntype :=
  if (Operand.ofType exponent).isInteger 2 then some (pair .mul base base)
  else if (Operand.ofType exponent).isInteger 1 then some base
  else if Engine.isExactPower (.ofType base) (.ofType exponent) then
    some (tierCall (Engine.powerTier (.ofType base) (.ofType exponent)) .expt [base, exponent])
  else binaryCall .expt true base exponent

def power : List Ntype → Ntype
  | [base, exponent] =>
      folded Generic.expt [base, exponent]
        ((whenNumbers [base, exponent] (powerCall base exponent)).getD .number)
  | _ => .number

def conversion (tier : Tier) : List Ntype → Ntype
  | [type] => coercion tier type
  | _ => tier.ntype

end Inference

namespace Engine

open Traced Operand

variable {engine : Engine} {allowed : Fault → Prop} {operands rest : List Operand}
  {operand first second base exponent : Operand} {operation : Operation} {tier : Tier}

theorem literals?_eq_inference (operands : List Operand) :
    literals? operands = Inference.literals? (operands.map (·.ntype)) := by
  simp only [literals?, Inference.literals?, List.mapM_map]
  rfl

theorem whenNumbers_single (answer : Option Ntype) :
    Inference.whenNumbers [operand.ntype] answer = if operand.isNumber then answer else none := by
  simp only [Inference.whenNumbers, List.all_cons, List.all_nil, Bool.and_true]
  rfl

theorem whenNumbers_pair (answer : Option Ntype) :
    Inference.whenNumbers [first.ntype, second.ntype] answer =
      if first.isNumber && second.isNumber then answer else none := by
  simp only [Inference.whenNumbers, List.all_cons, List.all_nil, Bool.and_true]
  rfl

/-- A record takes no more operands than it says. -/
theorem accepts_of_more {record : Record} {most : Int} (bounded : record.most = some most)
    {count : Nat} (more : most < count) : record.accepts count = false := by
  unfold Record.accepts
  rw [bounded, Bool.and_eq_false_iff]
  exact .inr (decide_eq_false (Int.not_le.mpr more))

variable (standard : engine.registry = .standard) (folds : engine.folds = true)
  (anyway : ∀ fault, allowed fault)

include standard anyway folds

/-- A call has the type of its literal, or the one that its rule gives it. -/
theorem meets_folded {record : Record} {implementation : Implementation}
    (runs : Runs record implementation) {depth : Nat} {below : Level} {otherwise : Ntype}
    (answers : (∀ value, ¬FoldsTo implementation operands value) →
      (engine.ruleAnswer depth below record operands).Meets allowed fun answer =>
        (answer.map (·.ntype)).getD record.values.primary = otherwise) :
    (engine.specializeCall depth below record.name operands).Meets allowed fun made =>
      made.ntype = Inference.folded implementation (operands.map (·.ntype)) otherwise := by
  have unfolded : (∀ value, ¬FoldsTo implementation operands value) →
      (engine.ruleAnswer depth below record operands).Meets allowed fun answer =>
        (answer.getD (plainCall record operands)).ntype = otherwise := by
    intro stays
    apply (answers stays).mono
    intro answer type
    cases answer with
    | none | some => exact type
  cases accepts : record.accepts operands.length with
  | false => exact meets_rejected standard anyway runs.member accepts
  | true =>
      apply meets_specializeCall standard runs.member accepts
      cases found : literals? operands with
      | none =>
          have varied := literals?_eq_none_iff.mp found
          rw [fold?_varied engine record varied,
            Inference.folded_of_none ((literals?_eq_inference operands).symm.trans found)]
          exact unfolded fun value => not_foldsTo_of_varied varied
      | some literals =>
          have same := (literals?_eq_inference operands).symm.trans found
          rw [runs.fold?_of_literals folds found]
          cases computed : implementation literals with
          | ok value =>
              rw [Inference.folded_of_ok same computed]
              rfl
          | error fault =>
              rw [Inference.folded_of_error same computed]
              by_cases foldableFault : fault.isFoldable = true
              · simp only [foldableFault, if_true]
                apply unfolded
                rintro value ⟨others, same, impossible⟩
                cases found.symm.trans same
                cases computed.symm.trans impossible
              · -- A fault that folding does not catch ends the run.
                simp only [if_neg foldableFault]
                exact anyway fault

theorem meets_inferredTier (offered : tier.offers operation = true) :
    ∀ remaining depth,
      ((engine.level remaining depth).specialize (tier.operationName operation) operands).Meets
        allowed fun made =>
          made.ntype = Inference.tierCall tier operation (operands.map (·.ntype)) :=
  meets_level (fun _ => anyway _) fun _ _ =>
    meets_folded standard folds anyway (runs_tier offered) fun _ => meets_pure rfl

theorem meets_inferredCoercion (inexact : tier.isExact = false) :
    ∀ remaining depth, ((engine.level remaining depth).specialize tier.name [operand]).Meets
      allowed fun made => made.ntype = Inference.coercion tier operand.ntype := by
  refine meets_level (fun _ => anyway _) fun remaining depth => ?_
  refine meets_folded standard folds anyway (runs_coercion inexact) fun _ => ?_
  change (engine.follow depth _ (Rule.coercion tier) [operand]).Meets _ _
  rw [follow_coercion]
  refine meets_pure ?_
  split <;> rfl

theorem meets_inferredConverted (tier : Tier) (operand : Operand) (remaining depth : Nat) :
    (converted (engine.level remaining depth) operand tier).Meets allowed fun made =>
      made.ntype = Inference.converted tier operand.ntype := by
  unfold Inference.converted
  cases exact : tier.isExact with
  | true =>
      rw [converted_exact exact]
      exact meets_pure rfl
  | false =>
      have named : tier.coercion? = some tier.name := by simp [Tier.coercion?, exact]
      simp only [converted, named, Bool.false_or]
      split
      · exact meets_pure rfl
      · exact meets_inferredCoercion standard folds anyway exact remaining depth

theorem meets_inferredBinary {inexact : Bool} (remaining depth : Nat) :
    (engine.binaryAnswer (engine.level remaining depth) operation inexact first second).Meets
      allowed fun answer => answer.map (·.ntype) =
        Inference.binaryCall operation inexact first.ntype second.ntype := by
  unfold binaryAnswer metTier? Inference.binaryCall
  cases (first.ntype.contagion second.ntype).ntype.tier? with
  | none => exact meets_pure rfl
  | some met =>
      simp only [tierAnswer, standard, Registry.standard_contains_tier]
      split
      · rename_i offered
        refine (meets_inferredConverted standard folds anyway _ first remaining
          depth).bind fun left leftType => ?_
        refine (meets_inferredConverted standard folds anyway _ second remaining
          depth).bind fun right rightType => ?_
        apply Meets.map
        apply (meets_inferredTier standard folds anyway offered remaining depth).mono
        intro made type
        rw [List.map_cons, List.map_cons, leftType, rightType] at type
        exact congrArg some type
      · exact meets_pure rfl

theorem meets_inferredUnary (isUnary : operation.isUnary = true) (remaining depth : Nat) :
    (unaryAnswer (engine.level remaining depth) operation operand).Meets allowed fun answer =>
      answer.map (·.ntype) = Inference.unaryCall operation operand.ntype := by
  unfold unaryAnswer Inference.unaryCall
  cases operand.ntype.tier? with
  | none => exact meets_pure rfl
  | some own =>
      refine (meets_inferredConverted standard folds anyway _ operand remaining
        depth).bind fun argument argumentType => ?_
      apply Meets.map
      apply (meets_inferredTier standard folds anyway (Tier.offers_unaryTier isUnary own) remaining
        depth).mono
      intro made type
      rw [List.map_cons, argumentType] at type
      exact congrArg some type

theorem meets_inferredPair (isArithmetic : operation.isArithmetic = true) :
    ∀ remaining depth,
      ((engine.level remaining depth).specialize operation.symbol [first, second]).Meets allowed
        fun made => made.ntype = Inference.pair operation first.ntype second.ntype := by
  refine meets_level (fun _ => anyway _) fun remaining depth => ?_
  refine meets_folded standard folds anyway (runs_arithmetic isArithmetic) fun _ => ?_
  change (engine.follow depth _ (Rule.arithmetic operation) [first, second]).Meets _ _
  rw [follow_arithmetic, whenNumbers_pair]
  change (if first.isNumber && second.isNumber then _ else _ : Traced (Option Operand)).Meets _ _
  split
  · unfold pairAnswer Inference.pairCall Inference.simplified?
    rw [simplified?_ofType]
    cases Operand.simplified? operation first second with
    | some chosen => exact meets_pure rfl
    | none =>
        apply (meets_inferredBinary standard folds anyway remaining (depth + 1)).mono
        intro answer type
        rw [type]
        rfl
  · exact meets_pure rfl

theorem meets_inferredChain (isArithmetic : operation.isArithmetic = true) (first : Operand)
    (rest : List Operand) (remaining depth : Nat) :
    (chainAnswer (engine.level remaining depth) operation first rest).Meets allowed fun made =>
      made.ntype = (rest.map (·.ntype)).foldl (Inference.pair operation) first.ntype := by
  induction rest generalizing first with
  | nil => exact meets_pure rfl
  | cons second rest inductionHypothesis =>
      refine (meets_inferredPair standard folds anyway isArithmetic remaining
        depth).bind fun made type => ?_
      rw [List.map_cons, List.foldl_cons, ← type]
      exact inductionHypothesis made

theorem meets_inferredSingle (isArithmetic : operation.isArithmetic = true) :
    ∀ remaining depth,
      ((engine.level remaining depth).specialize operation.symbol [operand]).Meets allowed
        fun made => made.ntype = Inference.arithmetic operation [operand.ntype] := by
  refine meets_level (fun _ => anyway _) fun remaining depth => ?_
  refine meets_folded standard folds anyway (runs_arithmetic isArithmetic) fun _ => ?_
  change (engine.follow depth _ (Rule.arithmetic operation) [operand]).Meets _ _
  rw [follow_arithmetic, whenNumbers_single]
  change (if operand.isNumber then _ else _ : Traced (Option Operand)).Meets _ _
  split
  · cases operation with
    | add | mul => exact meets_pure rfl
    | sub =>
        apply (meets_inferredUnary standard folds anyway rfl remaining (depth + 1)).mono
        intro answer type
        rw [type]
        rfl
    | div =>
        have one : (Traced.constant (.integer 1)).Meets allowed (· = .ofConstant (.integer 1)) :=
          meets_constant rfl
        refine one.bind fun _ same => ?_
        subst same
        apply Meets.map
        exact meets_inferredPair standard folds anyway isArithmetic remaining (depth + 1)
    | _ => cases isArithmetic
  · exact meets_pure rfl

/-- Sums, differences, products and quotients have the types that are inferred for them. -/
theorem meets_inferredArithmetic (isArithmetic : operation.isArithmetic = true)
    (remaining depth : Nat) :
    ((engine.level remaining depth).specialize operation.symbol operands).Meets allowed
      fun made => made.ntype = Inference.arithmetic operation (operands.map (·.ntype)) := by
  match operands with
  | [] =>
      refine meets_level (fun _ => anyway _) (fun remaining depth => ?_) remaining depth
      cases operation with
      | add | mul =>
          refine @meets_folded _ _ [] standard folds anyway _ _ (runs_arithmetic isArithmetic) _ _
            .number fun stays => ?_
          exact absurd ⟨[], rfl, rfl⟩ (stays _)
      | sub | div =>
          exact meets_rejected standard anyway (runs_arithmetic isArithmetic).member rfl
      | _ => cases isArithmetic
  | [operand] => exact meets_inferredSingle standard folds anyway isArithmetic remaining depth
  | [first, second] => exact meets_inferredPair standard folds anyway isArithmetic remaining depth
  | first :: second :: third :: others =>
      refine meets_level (fun _ => anyway _) (fun remaining depth => ?_) remaining depth
      refine meets_folded standard folds anyway (runs_arithmetic isArithmetic) fun _ => ?_
      change (engine.follow depth _ (Rule.arithmetic operation) _).Meets _ _
      rw [follow_arithmetic]
      apply Meets.map
      exact meets_inferredChain standard folds anyway isArithmetic first (second :: third :: others)
        remaining (depth + 1)

/-- Comparisons have the types that are inferred for them. -/
theorem meets_inferredComparison (compares : operation ∈ [Operation.lt, .eq])
    (remaining depth : Nat) :
    ((engine.level remaining depth).specialize operation.symbol operands).Meets allowed
      fun made => made.ntype = Inference.comparison operation (operands.map (·.ntype)) := by
  refine meets_level (fun _ => anyway _) (fun remaining depth => ?_) remaining depth
  have runs := runs_comparison compares
  match operands with
  | [] | [_] => exact meets_rejected standard anyway runs.member rfl
  | _ :: _ :: _ :: others =>
      apply meets_rejected standard anyway runs.member
      exact @accepts_of_more _ 2 rfl _ (by simp only [List.length_cons]; omega)
  | [first, second] =>
      refine meets_folded standard folds anyway runs fun _ => ?_
      change (engine.follow depth _ (Rule.comparison operation) [first, second]).Meets _ _
      rw [follow_comparison, whenNumbers_pair]
      simp only [comparisonAnswer]
      split
      · apply (meets_inferredBinary standard folds anyway remaining (depth + 1)).mono
        intro answer type
        rw [type]
        rfl
      · exact meets_pure rfl

/-- Functions of one number have the types that are inferred for them. -/
theorem meets_inferredFunction (isFunction : operation ∈ Library.functions)
    (remaining depth : Nat) :
    ((engine.level remaining depth).specialize operation.symbol operands).Meets allowed
      fun made => made.ntype = Inference.function operation (operands.map (·.ntype)) := by
  have isUnary : operation.isUnary = true := by
    revert isFunction
    cases operation <;> decide
  refine meets_level (fun _ => anyway _) (fun remaining depth => ?_) remaining depth
  have runs := runs_function isFunction
  match operands with
  | [] => exact meets_rejected standard anyway runs.member rfl
  | _ :: _ :: others =>
      apply meets_rejected standard anyway runs.member
      exact @accepts_of_more _ 1 rfl _ (by simp only [List.length_cons]; omega)
  | [operand] =>
      refine meets_folded standard folds anyway runs fun _ => ?_
      change (engine.follow depth _ (Rule.function operation) [operand]).Meets _ _
      rw [follow_function, whenNumbers_single]
      simp only [functionAnswer]
      split
      · apply (meets_inferredUnary standard folds anyway isUnary remaining (depth + 1)).mono
        intro answer type
        rw [type]
      · exact meets_pure rfl

theorem meets_inferredPowerAnswer (remaining depth : Nat) :
    (engine.powerAnswer (engine.level remaining depth) [base, exponent]).Meets allowed
      fun answer => answer.map (·.ntype) = Inference.whenNumbers [base.ntype, exponent.ntype]
        (Inference.powerCall base.ntype exponent.ntype) := by
  rw [whenNumbers_pair]
  change (if !(base.isNumber && exponent.isNumber) then _ else _ :
    Traced (Option Operand)).Meets _ _
  cases base.isNumber && exponent.isNumber with
  | false => exact meets_pure rfl
  | true =>
      simp only [Bool.not_true, Bool.false_eq_true, if_false, if_true]
      have unfolded : Inference.powerCall base.ntype exponent.ntype =
          if exponent.isInteger 2 then some (Inference.pair .mul base.ntype base.ntype)
          else if exponent.isInteger 1 then some base.ntype
          else if isExactPower base exponent then
            some (Inference.tierCall (powerTier base exponent) .expt [base.ntype, exponent.ntype])
          else Inference.binaryCall .expt true base.ntype exponent.ntype := rfl
      rw [unfolded]
      split
      · apply Meets.map
        apply (meets_inferredPair standard folds anyway rfl remaining depth).mono
        exact fun made type => congrArg some type
      split
      · exact meets_pure rfl
      split
      · have offered : (powerTier base exponent).offers .expt = true := by
          cases powerTier base exponent <;> rfl
        apply Meets.map
        apply (meets_inferredTier standard folds anyway offered remaining depth).mono
        exact fun made type => congrArg some type
      · exact meets_inferredBinary standard folds anyway remaining depth

/-- Powers have the types that are inferred for them. -/
theorem meets_inferredPower (remaining depth : Nat) :
    ((engine.level remaining depth).specialize "expt" operands).Meets allowed
      fun made => made.ntype = Inference.power (operands.map (·.ntype)) := by
  refine meets_level (fun _ => anyway _) (fun remaining depth => ?_) remaining depth
  match operands with
  | [] | [_] => exact meets_rejected standard anyway runs_power.member rfl
  | _ :: _ :: _ :: others =>
      apply meets_rejected standard anyway runs_power.member
      exact @accepts_of_more _ 2 rfl _ (by simp only [List.length_cons]; omega)
  | [base, exponent] =>
      refine meets_folded standard folds anyway runs_power fun _ => ?_
      change (engine.follow depth _ Rule.power [base, exponent]).Meets _ _
      rw [follow_power]
      apply (meets_inferredPowerAnswer standard folds anyway remaining (depth + 1)).mono
      intro answer type
      rw [type]
      rfl

/-- Conversions have the types that are inferred for them. -/
theorem meets_inferredConversion (inexact : tier.isExact = false) (remaining depth : Nat) :
    ((engine.level remaining depth).specialize tier.name operands).Meets allowed
      fun made => made.ntype = Inference.conversion tier (operands.map (·.ntype)) := by
  match operands with
  | [operand] => exact meets_inferredCoercion standard folds anyway inexact remaining depth
  | [] =>
      refine meets_level (fun _ => anyway _) (fun remaining depth => ?_) remaining depth
      exact meets_rejected standard anyway (runs_coercion inexact).member rfl
  | _ :: _ :: others =>
      refine meets_level (fun _ => anyway _) (fun remaining depth => ?_) remaining depth
      apply meets_rejected standard anyway (runs_coercion inexact).member
      exact @accepts_of_more _ 1 rfl _ (by simp only [List.length_cons]; omega)

/-- A floor never runs early, so it keeps the type that it declares. -/
theorem meets_inferredFloor (remaining depth : Nat) :
    ((engine.level remaining depth).specialize "floor" operands).Meets allowed
      fun made => made.ntype = Tier.integer.ntype := by
  refine meets_plainFloor standard folds anyway (fun _ => ?_) remaining depth
  rfl

end Engine

end Narrowing
