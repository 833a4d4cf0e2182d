import Narrowing.Evaluation
import Narrowing.Library.Standard
import Narrowing.Proofs.Outcomes

/-
This file finds the records of the standard library and says how their calls come out.
-/

namespace Narrowing

namespace Form

/-- The generic operations and the conversions of the library. -/
def genericOperations : List String :=
  [Operation.add, .sub, .mul, .div].map (·.symbol) ++ Library.functions.map (·.symbol) ++
    ["expt", "floor"] ++ [Operation.lt, .eq].map (·.symbol) ++ Library.inexactTiers.map (·.name)

example : genericOperations = ["+", "-", "*", "/", "sqrt", "exp", "log", "sin", "cos", "tan", "abs",
    "expt", "floor", "<", "=", "float16", "float32", "float64", "complex64", "complex128"] := by
  decide

end Form

namespace Library

/-- No two records of the library share a name. -/
theorem names_nodup : (records.map (·.name)).Nodup := by decide +kernel

/-- The library implements all of its operations. -/
theorem implemented : ∀ record ∈ records, record.implementation.isSome = true := by decide +kernel

theorem foldable : ∀ record ∈ records, record.isFoldable = true := by decide +kernel

/-- The records of the generic operations and of the conversions. -/
def plainRecords : List Record :=
  arithmeticRecords ++ functions.map functionRecord ++ [powerRecord, floorRecord] ++
    [Operation.lt, .eq].map comparisonRecord ++ inexactTiers.map coercionRecord

/-- The plain records are those of the generic operations. -/
theorem exists_plain {operation : String} (member : operation ∈ Form.genericOperations) :
    ∃ record ∈ plainRecords, record.name = operation := by
  have each : ∀ operation ∈ Form.genericOperations,
      operation ∈ plainRecords.map (·.name) := by decide +kernel
  exact List.mem_map.mp (each operation member)

theorem plain_mem {record : Record} (member : record ∈ plainRecords) : record ∈ records :=
  List.mem_append_left _ member

/-- A record of the library is plain or belongs to one tier. -/
theorem mem_cases {record : Record} (member : record ∈ records) :
    record ∈ plainRecords ∨ ∃ (tier : Tier) (operation : Operation),
      tier.offers operation = true ∧ record = tierRecord tier operation := by
  rcases List.mem_append.mp member with plain | ofTier
  · exact .inl plain
  · obtain ⟨tier, _, offered⟩ := List.mem_flatMap.mp ofTier
    obtain ⟨operation, among, rfl⟩ := List.mem_map.mp offered
    exact .inr ⟨tier, operation, List.contains_iff_mem.mpr among, rfl⟩

theorem plain_cases {record : Record} (member : record ∈ plainRecords) :
    (∃ operation least implementation, operation ∈ [Operation.add, .mul, .sub, .div] ∧
        record = arithmeticRecord operation least implementation) ∨
      (∃ operation ∈ functions, record = functionRecord operation) ∨ record = powerRecord ∨
      record = floorRecord ∨ (∃ operation ∈ [Operation.lt, .eq], record = comparisonRecord operation) ∨
      ∃ tier ∈ inexactTiers, record = coercionRecord tier := by
  simp only [plainRecords, List.append_assoc, List.mem_append, List.mem_map] at member
  rcases member with arithmetic | ⟨operation, among, rfl⟩ | single | ⟨operation, among, rfl⟩ |
    ⟨tier, among, rfl⟩
  · simp only [arithmeticRecords, List.mem_cons, List.not_mem_nil, or_false] at arithmetic
    rcases arithmetic with rfl | rfl | rfl | rfl <;>
      exact .inl ⟨_, _, _, by decide, rfl⟩
  · exact .inr (.inl ⟨operation, among, rfl⟩)
  · simp only [List.mem_cons, List.not_mem_nil, or_false] at single
    rcases single with rfl | rfl
    · exact .inr (.inr (.inl rfl))
    · exact .inr (.inr (.inr (.inl rfl)))
  · exact .inr (.inr (.inr (.inr (.inl ⟨operation, among, rfl⟩))))
  · exact .inr (.inr (.inr (.inr (.inr ⟨tier, among, rfl⟩))))

theorem arithmetic_plain {record : Record} (member : record ∈ arithmeticRecords) :
    record ∈ plainRecords := by
  simp only [plainRecords, List.append_assoc, List.mem_append]
  exact .inl member

theorem function_plain {operation : Operation} (member : operation ∈ functions) :
    functionRecord operation ∈ plainRecords := by
  simp only [plainRecords, List.append_assoc, List.mem_append]
  exact .inr (.inl (List.mem_map_of_mem member))

theorem power_plain : powerRecord ∈ plainRecords := by
  simp only [plainRecords, List.append_assoc, List.mem_append]
  exact .inr (.inr (.inl (by simp)))

theorem floor_plain : floorRecord ∈ plainRecords := by
  simp only [plainRecords, List.append_assoc, List.mem_append]
  exact .inr (.inr (.inl (by simp)))

theorem comparison_plain {operation : Operation} (member : operation ∈ [Operation.lt, .eq]) :
    comparisonRecord operation ∈ plainRecords := by
  simp only [plainRecords, List.append_assoc, List.mem_append]
  exact .inr (.inr (.inr (.inl (List.mem_map_of_mem member))))

theorem coercion_plain {tier : Tier} (member : tier ∈ inexactTiers) :
    coercionRecord tier ∈ plainRecords := by
  simp only [plainRecords, List.append_assoc, List.mem_append]
  exact .inr (.inr (.inr (.inr (List.mem_map_of_mem member))))

theorem arithmetic_mem {record : Record} (member : record ∈ arithmeticRecords) :
    record ∈ records := plain_mem (arithmetic_plain member)

theorem function_mem {operation : Operation} (member : operation ∈ functions) :
    functionRecord operation ∈ records := plain_mem (function_plain member)

theorem power_mem : powerRecord ∈ records := plain_mem power_plain

theorem floor_mem : floorRecord ∈ records := plain_mem floor_plain

theorem comparison_mem {operation : Operation} (member : operation ∈ [Operation.lt, .eq]) :
    comparisonRecord operation ∈ records := plain_mem (comparison_plain member)

theorem coercion_mem {tier : Tier} (member : tier ∈ inexactTiers) :
    coercionRecord tier ∈ records := plain_mem (coercion_plain member)

theorem tier_mem {tier : Tier} {operation : Operation} (offered : tier.offers operation = true) :
    tierRecord tier operation ∈ records := by
  simp only [records, List.append_assoc, List.mem_append]
  refine .inr (.inr (.inr (.inr (.inr ?_))))
  refine List.mem_flatMap.mpr ⟨tier, tier.mem_all, List.mem_map_of_mem ?_⟩
  exact List.contains_iff_mem.mp offered

end Library

namespace Registry

/-- A member of a list of numbered records with distinct names is found under its name. -/
theorem find?_numbered {records : List Record} {record : Record} (member : record ∈ records)
    (distinct : (records.map (·.name)).Nodup) (start : Nat) :
    ∃ serial, ((records.zipIdx start).map fun entry =>
      { entry.1 with serial := some entry.2 : Record }).find? (·.name == record.name) =
        some { record with serial := some serial } := by
  induction records generalizing start with
  | nil => cases member
  | cons first rest inductionHypothesis =>
      rw [List.map_cons, List.nodup_cons] at distinct
      rw [List.zipIdx_cons, List.map_cons]
      rcases List.mem_cons.mp member with same | later
      · subst same
        exact ⟨start, List.find?_cons_of_pos (by simp)⟩
      · have different : first.name ≠ record.name := fun same =>
          distinct.1 (same ▸ List.mem_map_of_mem later)
        rw [List.find?_cons_of_neg (by simpa using different)]
        exact inductionHypothesis later distinct.2 (start + 1)

theorem standard_lookup? {record : Record} (member : record ∈ Library.records) :
    ∃ serial, standard.lookup? record.name = some { record with serial := some serial } :=
  find?_numbered member Library.names_nodup 0

theorem standard_ensure_accepts {record : Record} (member : record ∈ Library.records)
    (count : Int) : (standard.ensure record.name).accepts count = record.accepts count := by
  obtain ⟨serial, found⟩ := standard_lookup? member
  rw [ensure, found]
  rfl

theorem standard_contains {record : Record} (member : record ∈ Library.records) :
    standard.contains record.name = true := by
  obtain ⟨serial, found⟩ := standard_lookup? member
  rw [contains, found]
  rfl

/-- The standard library checks the number of operands against the record of the library. -/
theorem standard_check {record : Record} (member : record ∈ Library.records) {count : Int}
    (accepts : record.accepts count = true) :
    ∃ serial, standard.check record.name count = .ok { record with serial := some serial } := by
  obtain ⟨serial, found⟩ := standard_lookup? member
  have accepted : { record with serial := some serial : Record }.accepts count = true := accepts
  refine ⟨serial, ?_⟩
  simp only [check, ensure, found, Option.getD_some]
  rw [if_pos accepted]

/-- A call that the standard library accepts runs the implementation of its record. -/
theorem standard_applyOperation {record : Record} (member : record ∈ Library.records)
    {implementation : Implementation} (implemented : record.implementation = some implementation)
    {values : List Value} (accepts : record.accepts values.length = true) :
    standard.applyOperation record.name values =
      implementation values >>= primaryValue record := by
  obtain ⟨serial, checked⟩ := standard_check member accepts
  simp only [applyOperation, checked, implemented]
  rfl

/-- A call with a wrong number of operands has no value. -/
theorem standard_applyOperation_error {record : Record} (member : record ∈ Library.records)
    {values : List Value} (rejects : record.accepts values.length = false) :
    standard.applyOperation record.name values =
      .error (.argumentNumber record.name values.length record.least record.most) := by
  obtain ⟨serial, found⟩ := standard_lookup? member
  have rejected : { record with serial := some serial : Record }.accepts values.length = false :=
    rejects
  simp only [applyOperation, check, ensure, found, Option.getD_some, rejected]
  rfl

/-- The first of a single value is the value itself. -/
theorem primaryValue_single {record : Record} (single : record.values.isSingle = true)
    (value : Value) : primaryValue record value = .ok value := by
  simp [primaryValue, firstValue, single]

/-- A call of one value has the outcome of its implementation. -/
theorem standard_applyOperation_single {record : Record} (member : record ∈ Library.records)
    {implementation : Implementation} (implemented : record.implementation = some implementation)
    (single : record.values.isSingle = true) {values : List Value}
    (accepts : record.accepts values.length = true) :
    standard.applyOperation record.name values = implementation values := by
  rw [standard_applyOperation member implemented accepts]
  cases implementation values with
  | ok value => exact primaryValue_single single value
  | error fault => rfl

/-- A call of one value has a value only if the implementation of its record has the same one. -/
theorem implementation_of_applyOperation {record : Record} (member : record ∈ Library.records)
    {implementation : Implementation} (implemented : record.implementation = some implementation)
    (single : record.values.isSingle = true) {values : List Value} {value : Value}
    (applied : standard.applyOperation record.name values = .ok value) :
    record.accepts values.length = true ∧ implementation values = .ok value := by
  cases accepts : record.accepts values.length with
  | false =>
      rw [standard_applyOperation_error member accepts] at applied
      cases applied
  | true =>
      rw [standard_applyOperation_single member implemented single accepts] at applied
      exact ⟨rfl, applied⟩

end Registry

namespace Engine

open Traced

variable {engine : Engine} {allowed : Fault → Prop} {property : Operand → Prop}

/-- The call that stays when a rule gives up. -/
def plainCall (record : Record) (operands : List Operand) : Operand :=
  ⟨.call record.name (operands.map (·.form)), record.values⟩

/-- The answer of the rule of a record; a record without a rule gives up. -/
def ruleAnswer (engine : Engine) (depth : Nat) (below : Level) (record : Record)
    (operands : List Operand) : Traced (Option Operand) :=
  match record.specializer with
  | none => pure none
  | some rule => engine.follow depth below rule operands

/-- A call that its rule leaves stays as it is. -/
theorem meets_answered {record : Record} {operands : List Operand} (answer : Option Operand) :
    property (answer.getD (plainCall record operands)) →
    (match answer with
      | some operand => pure operand
      | none => Traced.call record.name operands record.values : Traced Operand).Meets allowed
        property := by
  intro holds
  cases answer with
  | some operand => exact meets_pure holds
  | none => exact meets_call holds

/-- A property of a specialized call has a part for each of the ways in which it may come out. -/
theorem meets_specializeCall (standard : engine.registry = .standard) {record : Record}
    (member : record ∈ Library.records) {depth : Nat} {below : Level} {operands : List Operand}
    (accepts : record.accepts operands.length = true)
    (folded : match engine.fold? record operands with
      | .ok (some value) => property (.ofConstant value)
      | .ok none => (engine.ruleAnswer depth below record operands).Meets allowed fun answer =>
          property (answer.getD (plainCall record operands))
      | .error fault => allowed fault) :
    (engine.specializeCall depth below record.name operands).Meets allowed property := by
  obtain ⟨serial, checked⟩ := Registry.standard_check member accepts
  have sameFold : engine.fold? { record with serial := some serial } operands =
      engine.fold? record operands := rfl
  unfold specializeCall
  rw [standard, checked]
  simp only [sameFold]
  cases outcome : engine.fold? record operands with
  | error fault =>
      rw [outcome] at folded
      exact meets_throw folded
  | ok result =>
      rw [outcome] at folded
      cases result with
      | some value => exact meets_constant folded
      | none =>
          cases ruled : record.specializer with
          | none =>
              simp only [ruleAnswer, ruled] at folded
              exact folded.bind meets_answered
          | some rule =>
              simp only [ruleAnswer, ruled] at folded
              exact folded.bind meets_answered

/-- The engine specializes a call on every level, or it has no level left. -/
theorem meets_level (deep : ∀ operation, allowed (.depth operation engine.ceiling))
    {operation : String} {operands : List Operand}
    (each : ∀ remaining depth,
      (engine.specializeCall depth (engine.level remaining (depth + 1)) operation operands).Meets
        allowed property) :
    ∀ remaining depth,
      ((engine.level remaining depth).specialize operation operands).Meets allowed property := by
  intro remaining depth
  cases remaining with
  | zero => exact meets_throw (deep operation)
  | succ remaining => exact each remaining depth

end Engine

end Narrowing
