import Narrowing.Proofs.GraphRuns
import Narrowing.Proofs.TypedChains
import Narrowing.Proofs.TypedFunctions
import Narrowing.Proofs.TypedPowers

/-
This file shows that the values of a graph and of the specialized graph have the type that
specialization finds. Products of more than three operands may start again after a zero.
-/

namespace Narrowing

namespace Form

/-- A generic form has no fractions with denominator one among its literals. -/
inductive IsGeneric : Form → Prop where
  | constant {value : Value} (reduced : value.isReduced = true) : IsGeneric (.constant value)
  | parameter (name : String) : IsGeneric (.parameter name)
  | call {operation : String} {operands : List Form} (member : operation ∈ genericOperations)
      (each : ∀ operand ∈ operands, IsGeneric operand) : IsGeneric (.call operation operands)

/-- The operands that a form may specialize to, call by call and at any depth. -/
inductive Specializes (engine : Engine) (declarations : Declarations) : Form → Operand → Prop where
  | constant (value : Value) :
      Specializes engine declarations (.constant value) (.ofConstant value)
  | parameter (name : String) :
      Specializes engine declarations (.parameter name)
        (Graph.parameterOperand declarations name)
  | call {depth : Nat} {operation : String} {operands : List Form} {results : List Operand}
      {made : Operand} (same : operands.length = results.length)
      (each : ∀ pair ∈ operands.zip results, Specializes engine declarations pair.1 pair.2)
      (specialized : (engine.specialize depth operation results).Reaches made) :
      Specializes engine declarations (.call operation operands) made

/-- Some product of more than three operands comes out as a complex literal. -/
inductive Restarts (engine : Engine) (declarations : Declarations) : Form → Prop where
  | product {depth : Nat} {operands : List Form} {results : List Operand} {made : Operand}
      (each : List.Forall₂ (Specializes engine declarations) operands results)
      (specialized : (engine.specialize depth "*" results).Reaches made)
      (restarts : Operand.Restarts results made) :
      Restarts engine declarations (.call "*" operands)
  | within {operation : String} {operands : List Form} {operand : Form}
      (member : operand ∈ operands) (restarts : Restarts engine declarations operand) :
      Restarts engine declarations (.call operation operands)

end Form

/-- All variables are declared to be of primitive types. -/
def Declarations.ArePrimitive (declarations : Declarations) : Prop :=
  ∀ name ntype, declarations.lookup name = some ntype → ntype.constant? = none

/-- Every bound variable has a standard value of its declared type. -/
def Environment.IsTyped (environment : Environment) (declarations : Declarations) : Prop :=
  ∀ name value, environment.lookup name = some value →
    value.isStandard = true ∧
      ((declarations.lookup name).getD .universal).contains value = true

theorem Declarations.arePrimitive_single (name : String) (primitive : Primitive) :
    Declarations.ArePrimitive [(name, .primitive primitive)] := by
  intro other ntype declared
  by_cases same : other = name
  · subst same
    rw [List.lookup_cons, beq_self_eq_true] at declared
    cases declared
    rfl
  · rw [List.lookup_cons, beq_false_of_ne same] at declared
    cases declared

theorem Environment.isTyped_single {name : String} {value : Value} {ntype : Ntype}
    (standard : value.isStandard = true) (inside : ntype.contains value = true) :
    Environment.IsTyped [(name, value)] [(name, ntype)] := by
  intro other found bound
  by_cases same : other = name
  · subst same
    rw [List.lookup_cons, beq_self_eq_true] at bound ⊢
    cases bound
    exact ⟨standard, inside⟩
  · rw [List.lookup_cons, beq_false_of_ne same] at bound
    cases bound

namespace Engine

open Traced Operand

variable {environment : Environment} {engine : Engine} {allowed : Fault → Prop}
  {operands : List Operand} {operation : String}

/-- A specialized call covers its operation, unless products have started again. -/
theorem meets_typedCall (standard : engine.registry = .standard) (folds : engine.folds = true)
    (anyway : ∀ fault, allowed fault) (member : operation ∈ Form.genericOperations)
    (typed : ∀ operand ∈ operands, operand.Typed environment) (depth : Nat) :
    (engine.specialize depth operation operands).Meets allowed fun made =>
      made.Typed environment ∧ ((operation = "*" → ¬Restarts operands made) →
        Covers (Registry.standard.applyOperation operation) operands made) := by
  simp only [Form.genericOperations, List.mem_append, or_assoc] at member
  rcases member with arithmetic | function | single | comparison | conversion
  · obtain ⟨operation, found, rfl⟩ := List.mem_map.mp arithmetic
    have isArithmetic : operation.isArithmetic = true := by
      revert found
      cases operation <;> decide
    apply (meets_typedArithmetic standard folds anyway isArithmetic typed _ depth).mono
    rintro made ⟨madeTyped, covers⟩
    refine ⟨madeTyped, fun steady => (runs_arithmetic isArithmetic).covers (covers ?_)⟩
    rintro rfl
    exact steady rfl
  · obtain ⟨operation, found, rfl⟩ := List.mem_map.mp function
    apply (meets_typedFunction standard folds anyway found typed _ depth).mono
    rintro made ⟨madeTyped, covers⟩
    exact ⟨madeTyped, fun _ => (runs_function found).covers covers⟩
  · simp only [List.mem_cons, List.not_mem_nil, or_false] at single
    rcases single with rfl | rfl
    · apply (meets_typedPower standard folds anyway typed _ depth).mono
      rintro made ⟨madeTyped, covers⟩
      exact ⟨madeTyped, fun _ => runs_power.covers covers⟩
    · apply (meets_typedFloor standard folds anyway typed _ depth).mono
      rintro made ⟨madeTyped, covers⟩
      exact ⟨madeTyped, fun _ => covers⟩
  · obtain ⟨operation, found, rfl⟩ := List.mem_map.mp comparison
    apply (meets_typedComparison standard folds anyway found typed _ depth).mono
    rintro made ⟨madeTyped, covers⟩
    exact ⟨madeTyped, fun _ => (runs_comparison found).covers covers⟩
  · obtain ⟨tier, found, rfl⟩ := List.mem_map.mp conversion
    have inexact : tier.isExact = false := by
      revert found
      cases tier <;> decide
    apply (meets_typedConversion standard folds anyway inexact typed _ depth).mono
    rintro made ⟨madeTyped, covers⟩
    exact ⟨madeTyped, fun _ => (runs_coercion inexact).covers covers⟩

end Engine

namespace Form

open Operand

variable {environment : Environment} {declarations : Declarations} {engine : Engine}

/-- A declared variable admits the values that it is bound to. -/
theorem typed_declared (primitive : declarations.ArePrimitive)
    (bound : environment.IsTyped declarations) (name : String) :
    (Graph.parameterOperand declarations name).Typed environment where
  values := by
    intro value evaluated
    exact (bound name value (lookup_of_evaluate evaluated)).symm
  literal := by
    intro literal constant
    change ((declarations.lookup name).getD .universal).constant? = some literal at constant
    cases declared : declarations.lookup name with
    | none =>
        rw [declared] at constant
        cases constant
    | some ntype =>
        rw [declared] at constant
        cases (primitive name ntype declared).symm.trans constant

/-- Values of forms are admitted by operands that admit all values of these forms. -/
theorem admits_of_steady {forms : List Form} {results : List Operand} {values : List Value}
    {steady : Form → Prop}
    (pairs : List.Forall₂ (fun form result => steady form →
      ∀ value, form.evaluate .standard environment = .ok value → result.Admits value) forms results)
    (each : ∀ form ∈ forms, steady form)
    (evaluated : forms.mapM (evaluate .standard environment) = .ok values) :
    List.Forall₂ Admits results values := by
  have found := mapM_eq_ok_iff.mp evaluated
  clear evaluated
  induction pairs generalizing values with
  | nil =>
      cases found
      exact .nil
  | @cons form result forms results admits _ inductionHypothesis =>
      cases found with
      | cons first others =>
          obtain ⟨formSteady, formsSteady⟩ := List.forall_mem_cons.mp each
          exact .cons (admits formSteady _ first) (inductionHypothesis formsSteady others)

/-- What a generic form specializes to is typed, and it admits the values of the form. -/
theorem Specializes.typed (standard : engine.registry = .standard) (folds : engine.folds = true)
    (primitive : declarations.ArePrimitive) (bound : environment.IsTyped declarations)
    {form : Form} {made : Operand} (specializes : form.Specializes engine declarations made)
    (generic : form.IsGeneric) :
    made.Typed environment ∧ (¬form.Restarts engine declarations →
      ∀ value, form.evaluate .standard environment = .ok value → made.Admits value) := by
  induction specializes with
  | constant value =>
      cases generic with
      | constant reduced =>
          have typed : (Operand.ofConstant value).Typed environment := typed_ofConstant reduced
          exact ⟨typed, fun _ => typed.values⟩
  | parameter name =>
      have typed := typed_declared primitive bound name
      exact ⟨typed, fun _ => typed.values⟩
  | @call depth operation operands results made same each specialized inductionHypothesis =>
      cases generic with
      | call member operandsGeneric =>
          have pairs := List.forall₂_iff_zip.mpr ⟨same, fun {form result} among =>
            inductionHypothesis (form, result) among
              (operandsGeneric form (List.of_mem_zip among).1)⟩
          have typed : ∀ result ∈ results, result.Typed environment := by
            intro result among
            obtain ⟨form, _, resultTyped, _⟩ := exists_related_of_mem pairs.flip among
            exact resultTyped
          obtain ⟨madeTyped, covers⟩ := (Engine.meets_typedCall standard folds
            (fun _ => trivial) member typed depth).of_reaches specialized
          refine ⟨madeTyped, fun steady value evaluated => ?_⟩
          rw [evaluate_call] at evaluated
          obtain ⟨values, found, applied⟩ := exists_of_bind evaluated
          have admitted : List.Forall₂ Admits results values :=
            admits_of_steady (pairs.imp fun _ _ holds => holds.2)
              (fun form among restarts => steady (.within among restarts)) found
          refine covers ?_ values value admitted applied
          rintro rfl restarts
          exact steady (.product (List.forall₂_iff_zip.mpr ⟨same, fun among => each _ among⟩)
            specialized restarts)

end Form

namespace Graph

open Traced

variable {graph : Graph} {engine : Engine} {declarations : Declarations} {operand : Operand}

/-- A graph specializes as its form does. -/
theorem specializes_of_run (specialized : (graph.specialize engine declarations).run.2 = .ok operand) :
    graph.toForm.Specializes engine declarations operand := by
  have meets : (graph.specialize engine declarations).Meets (fun _ => True)
      fun made => (graph.formAt graph.root).Specializes engine declarations made := by
    apply @meets_specialize _ _ _ _ (fun _ => True)
      (fun position made => (graph.formAt position).Specializes engine declarations made)
    · exact ⟨trivial, fun _ _ _ _ _ _ _ => trivial⟩
    · exact fun _ => trivial
    · constructor
      · intro position value _ found
        rw [formAt_constant found]
        exact .constant value
      · intro position name _ found
        rw [formAt_parameter found]
        exact .parameter name
    · intro position depth operation operands results _ calls related
      apply (meets_reaches (fun _ => trivial) _).mono
      intro made reaches
      obtain ⟨same, each⟩ := List.forall₂_iff_zip.mp (List.forall₂_map_left_iff.mpr related)
      rw [formAt_call calls]
      exact .call same (fun pair among => each among) reaches
  exact meets.of_yields specialized

/--
The type that specialization finds holds the value of the specialized graph, and also the value of
the graph, unless some product of more than three operands has started again.
-/
theorem specialize_typeSound (engine : Engine) (standard : engine.registry = .standard)
    (folds : engine.folds = true) (graph : Graph) (generic : graph.toForm.IsGeneric)
    (declarations : Declarations) (primitive : declarations.ArePrimitive)
    (environment : Environment) (bound : environment.IsTyped declarations) (operand : Operand)
    (specialized : (graph.specialize engine declarations).run.2 = .ok operand) :
    (¬graph.toForm.Restarts engine declarations →
      ∀ value, graph.evaluate .standard environment = .ok value →
        operand.ntype.contains value = true) ∧
    ∀ value, (ofForm operand.form).evaluate .standard environment = .ok value →
      operand.ntype.contains value = true := by
  obtain ⟨typed, admits⟩ :=
    (specializes_of_run specialized).typed standard folds primitive bound generic
  constructor
  · intro steady value evaluated
    exact (admits steady value ((evaluate_eq_ok_iff graph .standard environment value).mp
      evaluated)).1
  · intro value evaluated
    exact (typed.values value ((evaluate_ofForm_iff _ _ _ _).mp evaluated)).1

/-- A product in which a zero swallows a variable before a complex number. -/
def swallowedForm (later : List Form) : Form :=
  .call "*" ([.parameter "x", .constant (.integer 0), .constant (.complex ⟨-1, -1⟩)] ++ later)

theorem swallowedForm_isGeneric {later : List Form} (each : ∀ form ∈ later, form.IsGeneric) :
    (swallowedForm later).IsGeneric := by
  apply Form.IsGeneric.call (by decide)
  simp only [List.cons_append, List.nil_append, List.forall_mem_cons]
  exact ⟨.parameter "x", .constant rfl, .constant rfl, each⟩

theorem swallowedForm_steady (engine : Engine) (declarations : Declarations) :
    ¬(swallowedForm []).Restarts engine declarations := by
  intro restarts
  cases restarts with
  | product each _ restarts =>
      have longer := restarts.1
      rw [← each.length_eq] at longer
      exact absurd longer (by decide)
  | within member restarts =>
      simp only [List.append_nil, List.mem_cons, List.not_mem_nil, or_false] at member
      rcases member with rfl | rfl | rfl <;> cases restarts

theorem swallowedForm_postorder : (ofForm (swallowedForm [])).postorder = [⟨3, 0⟩] := by cbv

/-- A rational variable at three: the type of the product is a literal, which is its value. -/
theorem specialize_typeSound_swallowed :
    ∃ value operand,
      (ofForm (swallowedForm [])).evaluate .standard [("x", .integer 3)] = .ok value ∧
      ((ofForm (swallowedForm [])).specialize ⟨.standard, 16, true⟩
        [("x", .primitive .rational)]).run.2 = .ok operand ∧
      operand.ntype.contains value = true := by
  have finishes : ((swallowedForm []).evaluate .standard [("x", .integer 3)]).isOk = true := by
    decide +kernel
  have succeeds : ((ofForm (swallowedForm [])).specialize ⟨.standard, 16, true⟩
      [("x", .primitive .rational)]).run.2.isOk = true := by
    simp only [specialize, specializeAll, checkedVisits, swallowedForm_postorder]
    decide +kernel
  obtain ⟨value, evaluated⟩ := exists_of_isOk finishes
  rw [← evaluate_ofForm_iff] at evaluated
  obtain ⟨operand, specialized⟩ := exists_of_isOk succeeds
  have generic : (ofForm (swallowedForm [])).toForm.IsGeneric := by
    rw [toForm_ofForm]
    exact swallowedForm_isGeneric nofun
  have steady : ¬(ofForm (swallowedForm [])).toForm.Restarts ⟨.standard, 16, true⟩
      [("x", .primitive .rational)] := by
    rw [toForm_ofForm]
    exact swallowedForm_steady _ _
  have bound : Environment.IsTyped [("x", .integer 3)] [("x", .primitive .rational)] :=
    Environment.isTyped_single rfl (by decide)
  have sound := specialize_typeSound ⟨.standard, 16, true⟩ rfl rfl (ofForm (swallowedForm []))
    generic _ (Declarations.arePrimitive_single "x" .rational) _ bound operand specialized
  exact ⟨value, operand, evaluated, specialized, sound.1 steady value evaluated⟩

theorem restartedForm_postorder :
    (ofForm (swallowedForm [.constant (.integer (-1))])).postorder = [⟨4, 0⟩] := by cbv

/-- The results of two runs that succeed, and the answer of a test on them. -/
theorem exists_both {First Second : Type} {first : Except Fault First}
    {second : Except Fault Second} {test : First → Second → Bool} {answer : Bool}
    (tested : ((do
      let left ← first
      let right ← second
      return test left right : Except Fault Bool).toOption) = some answer) :
    ∃ left right, first = .ok left ∧ second = .ok right ∧ test left right = answer := by
  cases first with
  | error fault => cases tested
  | ok left =>
      cases second with
      | error fault => cases tested
      | ok right => exact ⟨left, right, rfl, rfl, Option.some.inj tested⟩

/-- With one more factor the literal has a zero of the other sign than the value. -/
theorem specialize_misses_restarted :
    ∃ value operand,
      (ofForm (swallowedForm [.constant (.integer (-1))])).evaluate .standard
        [("x", .integer 3)] = .ok value ∧
      ((ofForm (swallowedForm [.constant (.integer (-1))])).specialize ⟨.standard, 16, true⟩
        [("x", .primitive .rational)]).run.2 = .ok operand ∧
      operand.ntype.contains value = false := by
  have outside : ((do
      let value ← (swallowedForm [.constant (.integer (-1))]).evaluate .standard [("x", .integer 3)]
      let operand ← ((ofForm (swallowedForm [.constant (.integer (-1))])).specialize
        ⟨.standard, 16, true⟩ [("x", .primitive .rational)]).run.2
      return operand.ntype.contains value : Except Fault Bool).toOption) = some false := by
    simp only [specialize, specializeAll, checkedVisits, restartedForm_postorder]
    decide +kernel
  obtain ⟨value, operand, evaluated, specialized, apart⟩ := exists_both outside
  rw [← evaluate_ofForm_iff] at evaluated
  exact ⟨value, operand, evaluated, specialized, apart⟩

end Graph

end Narrowing
