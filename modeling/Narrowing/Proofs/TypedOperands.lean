import Narrowing.Proofs.ExactOperands
import Narrowing.Proofs.NumberTiers

/-
This file says when an operand has its declared type, and carries types through single calls.
-/

namespace Narrowing

namespace Value

theorem constant?_ofConstant {value literal : Value}
    (constant : (Ntype.ofConstant value).constant? = some literal) :
    literal = value ∧ value.isLiteral = true := by
  cases value with
  | boolean | integer | ratio | double | complex | text | scalar =>
      exact ⟨(Option.some.inj constant).symm, rfl⟩
  | _ => cases constant

end Value

namespace Ntype

theorem contains_constant {ntype : Ntype} {literal : Value}
    (constant : ntype.constant? = some literal) (isLiteral : literal.isLiteral = true) :
    ntype.contains literal = true := by
  cases ntype with
  | primitive primitive => cases constant
  | singleton member =>
      cases constant
      exact Value.identical_self isLiteral

/-- The type of a literal or of any other value holds it. -/
theorem contains_ofConstant (value : Value) : (ofConstant value).contains value = true := by
  cases value with
  | boolean | integer | ratio | double | complex | text | scalar =>
      exact contains_constant rfl rfl
  | missing => decide
  | _ => exact Primitive.contains_ofAtom _

/-- A constant type holds its literal alone. -/
theorem eq_of_constant {ntype : Ntype} {value literal : Value}
    (constant : ntype.constant? = some literal) (isLiteral : literal.isLiteral = true)
    (inside : ntype.contains value = true) : value = literal := by
  cases ntype with
  | primitive primitive => cases constant
  | singleton member =>
      cases constant
      exact Value.eq_of_identical isLiteral inside

end Ntype

namespace Operand

/-- A value lies in the type of an operand and has a standard representation. -/
def Admits (operand : Operand) (value : Value) : Prop :=
  operand.ntype.contains value = true ∧ value.isStandard = true

/-- All values of an operand lie in its type, which holds a reduced literal if it is constant. -/
structure Typed (environment : Environment) (operand : Operand) : Prop where
  values : ∀ value, operand.form.evaluate .standard environment = .ok value →
    operand.Admits value
  literal : ∀ literal, operand.ntype.constant? = some literal →
    literal.isLiteral = true ∧ literal.isReduced = true

/-- Some operand is not known to be a constant. -/
def Varied (operands : List Operand) : Prop :=
  ∃ operand ∈ operands, operand.ntype.constant? = none

variable {environment : Environment} {operand : Operand}

theorem Typed.admits {literal : Value} (typed : operand.Typed environment)
    (constant : operand.ntype.constant? = some literal) : operand.Admits literal := by
  obtain ⟨isLiteral, reduced⟩ := typed.literal literal constant
  exact ⟨Ntype.contains_constant constant isLiteral, Value.isStandard_of_reduced reduced⟩

/-- A constant operand admits its literal alone. -/
theorem Typed.eq_of_admits {literal value : Value} (typed : operand.Typed environment)
    (constant : operand.ntype.constant? = some literal) (admits : operand.Admits value) :
    value = literal :=
  Ntype.eq_of_constant constant (typed.literal literal constant).1 admits.1

theorem typed_ofConstant {value : Value} (reduced : value.isReduced = true) :
    (ofConstant value).Typed environment where
  values := by
    intro result evaluated
    cases evaluated
    exact ⟨Ntype.contains_ofConstant value, Value.isStandard_of_reduced reduced⟩
  literal := by
    intro literal constant
    obtain ⟨rfl, isLiteral⟩ := Value.constant?_ofConstant constant
    exact ⟨isLiteral, reduced⟩

end Operand

namespace Engine

open Traced Operand

variable {environment : Environment} {engine : Engine} {allowed : Fault → Prop}
  {operands : List Operand}

theorem literals?_eq_none_iff : literals? operands = none ↔ Varied operands := by
  constructor
  · intro absent
    by_contra constant
    have each : ∀ operand ∈ operands, ∃ literal, operand.ntype.constant? = some literal := by
      intro operand member
      cases known : operand.ntype.constant? with
      | some literal => exact ⟨literal, rfl⟩
      | none => exact absurd ⟨operand, member, known⟩ constant
    clear constant
    induction operands with
    | nil => cases absent
    | cons operand rest inductionHypothesis =>
        obtain ⟨literal, known⟩ := each operand List.mem_cons_self
        have others : literals? rest = none := by
          simp only [literals?, List.mapM_cons, known] at absent ⊢
          cases found : rest.mapM fun operand => operand.ntype.constant? with
          | none => rfl
          | some literals =>
              rw [found] at absent
              cases absent
        exact inductionHypothesis others fun operand member =>
          each operand (List.mem_cons_of_mem _ member)
  · rintro ⟨operand, member, varied⟩
    cases found : literals? operands with
    | none => rfl
    | some literals =>
        obtain ⟨literal, _, constant⟩ := exists_related_of_mem (literals?_related found) member
        rw [varied] at constant
        cases constant

theorem fold?_varied (engine : Engine) (record : Record) (varied : Varied operands) :
    engine.fold? record operands = .ok none := by
  obtain ⟨operand, member, constant⟩ := varied
  exact fold?_eq_none engine record member constant

/-- The values of typed operands are admitted by them, one by one. -/
theorem admits_of_evaluate {values : List Value}
    (typed : ∀ operand ∈ operands, operand.Typed environment)
    (evaluated : operands.mapM (fun operand => operand.form.evaluate .standard environment) =
      .ok values) : List.Forall₂ Admits operands values := by
  have related := mapM_eq_ok_iff.mp evaluated
  clear evaluated
  induction related with
  | nil => exact .nil
  | @cons operand value operands values first _ inductionHypothesis =>
      exact .cons ((typed operand List.mem_cons_self).values value first)
        (inductionHypothesis fun other member => typed other (List.mem_cons_of_mem _ member))

/-- The literals of typed operands are reduced and admitted by them. -/
theorem admits_of_literals {literals : List Value}
    (typed : ∀ operand ∈ operands, operand.Typed environment)
    (found : literals? operands = some literals) :
    List.Forall₂ Admits operands literals ∧ ∀ literal ∈ literals, literal.isReduced = true := by
  have related := literals?_related found
  clear found
  induction related with
  | nil => exact ⟨.nil, nofun⟩
  | @cons operand value operands values first _ inductionHypothesis =>
      have operandTyped := typed operand List.mem_cons_self
      obtain ⟨admitted, reduced⟩ :=
        inductionHypothesis fun other member => typed other (List.mem_cons_of_mem _ member)
      exact ⟨.cons (operandTyped.admits first) admitted,
        List.forall_mem_cons.mpr ⟨(operandTyped.literal value first).2, reduced⟩⟩

/-- Constant operands admit their literals alone. -/
theorem eq_of_literals {literals values : List Value}
    (typed : ∀ operand ∈ operands, operand.Typed environment)
    (found : literals? operands = some literals) (admitted : List.Forall₂ Admits operands values) :
    values = literals := by
  have related := literals?_related found
  clear found
  induction related generalizing values with
  | nil =>
      cases admitted
      rfl
  | @cons operand value operands literals first _ inductionHypothesis =>
      cases admitted with
      | cons inside others =>
          rw [(typed operand List.mem_cons_self).eq_of_admits first inside,
            inductionHypothesis (fun other member => typed other (List.mem_cons_of_mem _ member))
              others]

/--
The values of a record hold all that its implementation makes of admitted values. Reduced values
give a reduced result.
-/
def Computes (record : Record) (implementation : Implementation) (operands : List Operand) :
    Prop :=
  ∀ values result primary, List.Forall₂ Admits operands values →
    implementation values = .ok result → Registry.primaryValue record result = .ok primary →
    (record.values.primary.contains primary = true ∧ primary.isStandard = true) ∧
      ((∀ value ∈ values, value.isReduced = true) → primary.isReduced = true)

/-- The literals of a call on which its implementation has a value. -/
def FoldsTo (implementation : Implementation) (operands : List Operand) (value : Value) : Prop :=
  ∃ literals, literals? operands = some literals ∧ implementation literals = .ok value

theorem FoldsTo.unique {implementation : Implementation} {first second : Value}
    (one : FoldsTo implementation operands first) (two : FoldsTo implementation operands second) :
    first = second := by
  obtain ⟨literals, found, computed⟩ := one
  obtain ⟨others, alsoFound, alsoComputed⟩ := two
  cases found.symm.trans alsoFound
  exact Except.ok.inj (computed.symm.trans alsoComputed)

theorem not_foldsTo_of_varied {implementation : Implementation} {value : Value}
    (varied : Varied operands) : ¬FoldsTo implementation operands value := by
  rintro ⟨literals, found, _⟩
  cases (literals?_eq_none_iff.mpr varied).symm.trans found

/-- A specialized call is a folded literal, or it comes out as its rule says. -/
structure Stems (environment : Environment) (implementation : Implementation)
    (operands : List Operand) (describes : Operand → Prop) (made : Operand) : Prop where
  typed : made.Typed environment
  outcome : (∃ value, FoldsTo implementation operands value ∧ value.isReduced = true ∧
      made.ntype = .ofConstant value) ∨
    ((∀ value, ¬FoldsTo implementation operands value) ∧ describes made)

namespace Stems

variable {implementation : Implementation} {describes : Operand → Prop} {made : Operand}

theorem literal {value : Value} (stems : Stems environment implementation operands describes made)
    (folds : FoldsTo implementation operands value) :
    value.isReduced = true ∧ made.ntype = .ofConstant value := by
  rcases stems.outcome with ⟨other, alsoFolds, reduced, same⟩ | ⟨stays, _⟩
  · rw [folds.unique alsoFolds]
    exact ⟨reduced, same⟩
  · exact absurd folds (stays value)

theorem varied (stems : Stems environment implementation operands describes made)
    (varied : Varied operands) : describes made := by
  rcases stems.outcome with ⟨value, folds, _⟩ | ⟨_, described⟩
  · exact absurd folds (not_foldsTo_of_varied varied)
  · exact described

end Stems

/-- Whatever a rule answers with is typed and fits a description. -/
def Answers (environment : Environment) (describes : Operand → Prop) (answer : Option Operand) :
    Prop :=
  ∀ made, answer = some made → made.Typed environment ∧ describes made

namespace Answers

variable {describes weaker : Operand → Prop} {made : Operand}

theorem ofNone : Answers environment describes none := nofun

theorem ofSome (typed : made.Typed environment) (described : describes made) :
    Answers environment describes (some made) := by
  intro other same
  cases same
  exact ⟨typed, described⟩

theorem mono {answer : Option Operand} (answers : Answers environment describes answer)
    (implies : ∀ made, describes made → weaker made) : Answers environment weaker answer := by
  intro made same
  obtain ⟨typed, described⟩ := answers made same
  exact ⟨typed, implies made described⟩

end Answers

/-- An operand admits all that an implementation makes of values that its operands admit. -/
def Covers (implementation : Implementation) (operands : List Operand) (made : Operand) : Prop :=
  ∀ values result, List.Forall₂ Admits operands values → implementation values = .ok result →
    made.Admits result

/-- A specialized call covers its implementation, if its description says so. -/
theorem Stems.covers {implementation : Implementation} {describes : Operand → Prop}
    {made : Operand} (stems : Stems environment implementation operands describes made)
    (typed : ∀ operand ∈ operands, operand.Typed environment)
    (implies : Varied operands → describes made → Covers implementation operands made) :
    Covers implementation operands made := by
  intro values result admitted computed
  cases found : literals? operands with
  | none =>
      have varied := literals?_eq_none_iff.mp found
      exact implies varied (stems.varied varied) values result admitted computed
  | some literals =>
      cases eq_of_literals typed found admitted
      obtain ⟨reduced, same⟩ := stems.literal ⟨values, found, computed⟩
      rw [Admits, same]
      exact ⟨Ntype.contains_ofConstant result, Value.isStandard_of_reduced reduced⟩

/-- A record of the library whose operation gives one value of a class and may run early. -/
structure Runs (record : Record) (implementation : Implementation) : Prop where
  member : record ∈ Library.records
  implemented : record.implementation = some implementation
  single : record.values.isSingle = true
  foldable : record.isFoldable = true
  primitive : record.values.primary.constant? = none

/-- Literals fold as the implementation takes them, and a failure of arithmetic leaves the call. -/
theorem Runs.fold?_of_literals {record : Record} {implementation : Implementation}
    (runs : Runs record implementation) (folds : engine.folds = true) {literals : List Value}
    (found : literals? operands = some literals) :
    engine.fold? record operands =
      match implementation literals with
      | .ok value => .ok (some value)
      | .error fault => if fault.isFoldable then .ok none else .error fault := by
  unfold fold?
  rw [folds, runs.foldable, runs.single, runs.implemented, found]
  rfl

/-- What covers an implementation covers the calls of its operation. -/
theorem Runs.covers {record : Record} {implementation : Implementation} {made : Operand}
    (runs : Runs record implementation) (covers : Covers implementation operands made) :
    Covers (Registry.standard.applyOperation record.name) operands made := by
  intro values result admitted applied
  obtain ⟨_, computed⟩ := Registry.implementation_of_applyOperation runs.member runs.implemented
    runs.single applied
  exact covers values result admitted computed

/-- An operand of the declared type covers the implementation of a record. -/
theorem Computes.covers {record : Record} {implementation : Implementation} {made : Operand}
    (computes : Computes record implementation operands) (single : record.values.isSingle = true)
    (type : made.ntype = record.values.primary) : Covers implementation operands made := by
  intro values result admitted computed
  rw [Admits, type]
  exact (computes values result result admitted computed
    (Registry.primaryValue_single single result)).1

/-- A call that stays has the type of its record. -/
theorem typed_plainCall {record : Record} (member : record ∈ Library.records)
    {implementation : Implementation} (implemented : record.implementation = some implementation)
    (primitive : record.values.primary.constant? = none)
    (accepts : record.accepts operands.length = true)
    (typed : ∀ operand ∈ operands, operand.Typed environment)
    (computes : Computes record implementation operands) :
    (plainCall record operands).Typed environment where
  values := by
    intro value evaluated
    change Form.evaluate _ _ (.call record.name (operands.map (·.form))) = _ at evaluated
    rw [Form.evaluate_call, List.mapM_map] at evaluated
    obtain ⟨values, found, applied⟩ := exists_of_bind evaluated
    have admitted := admits_of_evaluate typed found
    rw [admitted.length_eq] at accepts
    rw [Registry.standard_applyOperation member implemented accepts] at applied
    obtain ⟨result, computed, primary⟩ := exists_of_bind applied
    exact (computes values result value admitted computed primary).1
  literal := by
    intro literal constant
    cases primitive.symm.trans constant

variable (standard : engine.registry = .standard) (folds : engine.folds = true)
  (anyway : ∀ fault, allowed fault)

include standard anyway

/-- A call with a wrong number of operands is not specialized at all. -/
theorem meets_rejected {record : Record} (member : record ∈ Library.records)
    (rejects : record.accepts operands.length = false) {depth : Nat} {below : Level}
    {property : Operand → Prop} :
    (engine.specializeCall depth below record.name operands).Meets allowed property := by
  obtain ⟨serial, found⟩ := Registry.standard_lookup? member
  have rejected : { record with serial := some serial : Record }.accepts operands.length = false :=
    rejects
  unfold specializeCall
  simp only [standard, Registry.check, Registry.ensure, found, Option.getD_some, rejected]
  exact meets_throw (anyway _)

include folds

/-- An accepted call is typed if its rule answers with typed operands. -/
theorem meets_accepted {record : Record} {implementation : Implementation}
    (runs : Runs record implementation) {depth : Nat} {below : Level}
    {describes : Operand → Prop} (accepts : record.accepts operands.length = true)
    (typed : ∀ operand ∈ operands, operand.Typed environment)
    (computes : Computes record implementation operands)
    (plain : describes (plainCall record operands))
    (answers : (engine.ruleAnswer depth below record operands).Meets allowed
      (Answers environment describes)) :
    (engine.specializeCall depth below record.name operands).Meets allowed
      (Stems environment implementation operands describes) := by
  have unfolded : (∀ value, ¬FoldsTo implementation operands value) →
      (engine.ruleAnswer depth below record operands).Meets allowed fun answer =>
        Stems environment implementation operands describes
          (answer.getD (plainCall record operands)) := by
    intro stays
    apply answers.mono
    intro answer holds
    cases answer with
    | none =>
        exact ⟨typed_plainCall runs.member runs.implemented runs.primitive accepts typed computes,
          .inr ⟨stays, plain⟩⟩
    | some made =>
        obtain ⟨madeTyped, described⟩ := holds made rfl
        exact ⟨madeTyped, .inr ⟨stays, described⟩⟩
  apply meets_specializeCall standard runs.member accepts
  cases found : literals? operands with
  | none =>
      have varied := literals?_eq_none_iff.mp found
      rw [fold?_varied engine record varied]
      exact unfolded fun value => not_foldsTo_of_varied varied
  | some literals =>
      rw [runs.fold?_of_literals folds found]
      cases computed : implementation literals with
      | ok value =>
          have primary := Registry.primaryValue_single runs.single value
          obtain ⟨admitted, literalsReduced⟩ := admits_of_literals typed found
          have reduced :=
            (computes literals value value admitted computed primary).2 literalsReduced
          exact ⟨typed_ofConstant reduced, .inl ⟨value, ⟨literals, found, computed⟩, reduced, rfl⟩⟩
      | error fault =>
          simp only
          by_cases foldableFault : fault.isFoldable = true
          · rw [if_pos foldableFault]
            apply unfolded
            rintro value ⟨others, same, impossible⟩
            cases found.symm.trans same
            cases computed.symm.trans impossible
          · rw [if_neg foldableFault]
            exact anyway fault

/-- A specialized call is typed if its rule answers with typed operands. -/
theorem meets_stems {record : Record} {implementation : Implementation}
    (runs : Runs record implementation) {depth : Nat} {below : Level}
    {describes : Operand → Prop} (typed : ∀ operand ∈ operands, operand.Typed environment)
    (computes : Computes record implementation operands)
    (plain : describes (plainCall record operands))
    (answers : (engine.ruleAnswer depth below record operands).Meets allowed
      (Answers environment describes)) :
    (engine.specializeCall depth below record.name operands).Meets allowed
      (Stems environment implementation operands describes) := by
  cases accepts : record.accepts operands.length with
  | false => exact meets_rejected standard anyway runs.member accepts
  | true =>
      exact meets_accepted standard folds anyway runs accepts typed computes plain answers

/-- A specialized call covers its implementation if all answers of its rule do. -/
theorem meets_covers {record : Record} {implementation : Implementation}
    (runs : Runs record implementation) {depth : Nat} {below : Level}
    (typed : ∀ operand ∈ operands, operand.Typed environment)
    (computes : Computes record implementation operands)
    (answers : (engine.ruleAnswer depth below record operands).Meets allowed
      (Answers environment fun made => Varied operands → Covers implementation operands made)) :
    (engine.specializeCall depth below record.name operands).Meets allowed fun made =>
      made.Typed environment ∧ Covers implementation operands made := by
  apply (meets_stems standard folds anyway runs typed computes
    (fun _ => computes.covers runs.single rfl) answers).mono
  intro made stems
  exact ⟨stems.typed, stems.covers typed fun varied described => described varied⟩

end Engine

end Narrowing
