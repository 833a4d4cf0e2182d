import Narrowing.Proofs.ExactCalls
import Narrowing.Proofs.GraphRuns

/-
This file shows that specialization keeps the values of exact arithmetic.
-/

namespace Narrowing

/-- Two values are the same truth value, or they are exact and equal as numbers. -/
def Value.AgreesExactly (first second : Value) : Prop :=
  (∃ truth, first = .boolean truth ∧ second = .boolean truth) ∨
    ∃ number, first.exactNumber? = some number ∧ second.exactNumber? = some number

theorem Value.agreesExactly_of_meaning {first second : Value} {meaning : Meaning}
    (left : first.meaning? = some meaning) (right : second.meaning? = some meaning) :
    first.AgreesExactly second := by
  cases meaning with
  | truth truth =>
      exact .inl ⟨truth, meaning?_eq_truth_iff.mp left, meaning?_eq_truth_iff.mp right⟩
  | number number =>
      exact .inr ⟨number, meaning?_eq_number_iff.mp left, meaning?_eq_number_iff.mp right⟩

namespace Form

/-- The operations of exact arithmetic. -/
def exactOperations : List String := ["+", "-", "*", "/", "abs", "<", "="]

/-- A form of exact arithmetic has integers and fractions as its literals. -/
inductive IsExact : Form → Prop where
  | constant {value : Value} (exact : value.exactNumber?.isSome = true) : IsExact (.constant value)
  | parameter (name : String) : IsExact (.parameter name)
  | call {operation : String} {operands : List Form} (member : operation ∈ exactOperations)
      (each : ∀ operand ∈ operands, IsExact operand) : IsExact (.call operation operands)

end Form

/-- Every bound variable has an exact number of its declared type. -/
def Environment.IsExact (environment : Environment) (declarations : Declarations) : Prop :=
  ∀ name value, environment.lookup name = some value →
    value.exactNumber?.isSome = true ∧
      ((declarations.lookup name).getD .universal).contains value = true

variable {environment : Environment} {engine : Engine} {allowed : Fault → Prop}

/-- Numbers with a meaning are exact. -/
theorem exists_numbers {values : List Value} {meanings : List Meaning}
    (meant : List.Forall₂ (fun value meaning => Value.meaning? value = some meaning) values meanings)
    (numbers : ∀ value ∈ values, value.tier?.isSome = true) :
    ∃ fractions : List Rat, meanings = fractions.map .number := by
  induction meant with
  | nil => exact ⟨[], rfl⟩
  | @cons value meaning values meanings first _ inductionHypothesis =>
      obtain ⟨isNumber, others⟩ := List.forall_mem_cons.mp numbers
      obtain ⟨fractions, rfl⟩ := inductionHypothesis others
      cases meaning with
      | number number => exact ⟨number :: fractions, rfl⟩
      | truth truth =>
          rw [Value.meaning?_eq_truth_iff] at first
          subst first
          cases isNumber

namespace Engine

variable {operands : List Operand} {values : List Value} {meanings : List Meaning} {value : Value}

theorem meets_exactArithmetic (standard : engine.registry = .standard)
    (deep : ∀ operation, allowed (.depth operation engine.ceiling)) (operation : Operation)
    (isArithmetic : operation.isArithmetic = true)
    (sound : List.Forall₂ (Operand.Sound environment) operands meanings)
    (meant : List.Forall₂ (fun value meaning => Value.meaning? value = some meaning) values meanings)
    (applied : Registry.standard.applyOperation operation.symbol values = .ok value) :
    ∃ meaning, value.meaning? = some meaning ∧ ∀ remaining depth,
      ((engine.level remaining depth).specialize operation.symbol operands).Meets allowed
        (Operand.Sound environment · meaning) := by
  obtain ⟨_, computed⟩ := Registry.implementation_of_applyOperation
    (Library.genericRecord_mem isArithmetic) rfl rfl applied
  obtain ⟨numbers, rfl⟩ := exists_numbers meant (Generic.numbers_of_arithmetic computed)
  have expected := Generic.arithmetic_exact isArithmetic (exact_of_meanings meant)
  cases folded : operation.arithmeticMeaning? numbers with
  | none =>
      rw [folded] at expected
      obtain ⟨fault, failed, _⟩ := expected
      rw [computed] at failed
      cases failed
  | some number =>
      rw [folded] at expected
      obtain ⟨result, succeeded, exact⟩ := expected
      rw [computed] at succeeded
      cases succeeded
      exact ⟨.number number, Value.meaning?_eq_number_iff.mpr exact,
        meets_arithmetic standard deep isArithmetic sound folded⟩

theorem meets_exactComparison (standard : engine.registry = .standard)
    (deep : ∀ operation, allowed (.depth operation engine.ceiling)) (operation : Operation)
    (member : operation ∈ [Operation.lt, .eq])
    (sound : List.Forall₂ (Operand.Sound environment) operands meanings)
    (meant : List.Forall₂ (fun value meaning => Value.meaning? value = some meaning) values meanings)
    (applied : Registry.standard.applyOperation operation.symbol values = .ok value) :
    ∃ meaning, value.meaning? = some meaning ∧ ∀ remaining depth,
      ((engine.level remaining depth).specialize operation.symbol operands).Meets allowed
        (Operand.Sound environment · meaning) := by
  obtain ⟨_, computed⟩ := Registry.implementation_of_applyOperation
    (Library.comparison_mem member) rfl rfl applied
  obtain ⟨first, second, rfl⟩ : ∃ first second, values = [first, second] := by
    match values with
    | [first, second] => exact ⟨first, second, rfl⟩
    | [] | [_] | _ :: _ :: _ :: _ => cases computed
  obtain ⟨firstNumber, secondNumber⟩ := Generic.numbers_of_binary computed
  obtain ⟨numbers, rfl⟩ := exists_numbers meant (by simp [firstNumber, secondNumber])
  match numbers, operands, meant, sound with
  | [left, right], [one, two], .cons leftMeant (.cons rightMeant .nil),
      .cons oneSound (.cons twoSound .nil) =>
      obtain ⟨meaning, met⟩ : ∃ meaning, operation.meaning? left right = some meaning := by
        simp only [List.mem_cons, List.not_mem_nil, or_false] at member
        rcases member with rfl | rfl <;> exact ⟨_, rfl⟩
      obtain ⟨result, succeeded, resultMeant⟩ := Generic.binary_exact
        (Value.meaning?_eq_number_iff.mp leftMeant) (Value.meaning?_eq_number_iff.mp rightMeant) met
      have same : Except.ok value = Except.ok result := computed.symm.trans succeeded
      cases same
      exact ⟨meaning, resultMeant, meets_comparison standard deep member oneSound twoSound met⟩

theorem meets_exactAbs (standard : engine.registry = .standard)
    (deep : ∀ operation, allowed (.depth operation engine.ceiling))
    (sound : List.Forall₂ (Operand.Sound environment) operands meanings)
    (meant : List.Forall₂ (fun value meaning => Value.meaning? value = some meaning) values meanings)
    (applied : Registry.standard.applyOperation "abs" values = .ok value) :
    ∃ meaning, value.meaning? = some meaning ∧ ∀ remaining depth,
      ((engine.level remaining depth).specialize "abs" operands).Meets allowed
        (Operand.Sound environment · meaning) := by
  have member : Operation.abs ∈ Library.functions := by decide
  obtain ⟨_, computed⟩ := Registry.implementation_of_applyOperation
    (Library.function_mem member) rfl rfl applied
  obtain ⟨first, rfl⟩ : ∃ first, values = [first] := by
    match values with
    | [first] => exact ⟨first, rfl⟩
    | [] | _ :: _ :: _ => cases computed
  have isNumber := Generic.number_of_unary computed
  obtain ⟨numbers, rfl⟩ := exists_numbers meant (by simp [isNumber])
  match numbers, operands, meant, sound with
  | [number], [operand], .cons numberMeant .nil, .cons operandSound .nil =>
      have sized : Operation.abs.unaryMeaning? number = some number.abs := rfl
      obtain ⟨result, succeeded, exact⟩ := Generic.unary_exact
        (Value.meaning?_eq_number_iff.mp numberMeant) sized
      have same : Except.ok value = Except.ok result := computed.symm.trans succeeded
      cases same
      exact ⟨.number number.abs, Value.meaning?_eq_number_iff.mpr exact,
        meets_abs standard deep operandSound⟩

/-- A call of exact arithmetic with a value specializes to an operand with the same meaning. -/
theorem meets_exactCall (standard : engine.registry = .standard)
    (deep : ∀ operation, allowed (.depth operation engine.ceiling)) {operation : String}
    (member : operation ∈ Form.exactOperations)
    (sound : List.Forall₂ (Operand.Sound environment) operands meanings)
    (meant : List.Forall₂ (fun value meaning => Value.meaning? value = some meaning) values meanings)
    (applied : Registry.standard.applyOperation operation values = .ok value) :
    ∃ meaning, value.meaning? = some meaning ∧ ∀ remaining depth,
      ((engine.level remaining depth).specialize operation operands).Meets allowed
        (Operand.Sound environment · meaning) := by
  simp only [Form.exactOperations, List.mem_cons, List.not_mem_nil, or_false] at member
  rcases member with rfl | rfl | rfl | rfl | rfl | rfl | rfl
  · exact meets_exactArithmetic standard deep .add rfl sound meant applied
  · exact meets_exactArithmetic standard deep .sub rfl sound meant applied
  · exact meets_exactArithmetic standard deep .mul rfl sound meant applied
  · exact meets_exactArithmetic standard deep .div rfl sound meant applied
  · exact meets_exactAbs standard deep sound meant applied
  · exact meets_exactComparison standard deep .lt (by decide) sound meant applied
  · exact meets_exactComparison standard deep .eq (by decide) sound meant applied

end Engine

namespace Graph

variable {graph : Graph} {declarations : Declarations}

/-- An operand stands for the value of the form at a position. -/
def Represents (graph : Graph) (environment : Environment) (position : Nat) (operand : Operand) :
    Prop :=
  ∃ value meaning, (graph.formAt position).evaluate .standard environment = .ok value ∧
    value.meaning? = some meaning ∧ operand.Sound environment meaning

/-- The exact forms with values are the root of an exact form with a value and all parts of it. -/
theorem live_exact {value : Value} (exact : graph.toForm.IsExact)
    (evaluated : graph.toForm.evaluate .standard environment = .ok value) :
    Live graph fun position => (graph.formAt position).IsExact ∧
      ∃ value, (graph.formAt position).evaluate .standard environment = .ok value where
  root := ⟨exact, value, evaluated⟩
  descends := by
    rintro position operation operands calls ⟨exact, value, evaluated⟩ operand member
    obtain ⟨values, related, _⟩ := operands_evaluate calls evaluated
    obtain ⟨result, _, found⟩ := exists_related_of_mem related member
    rw [formAt_call calls] at exact
    cases exact with
    | call _ each => exact ⟨each _ (List.mem_map_of_mem member), result, found⟩

theorem leaves_represent (bound : environment.IsExact declarations) :
    Leaves graph declarations (fun position => (graph.formAt position).IsExact ∧
      ∃ value, (graph.formAt position).evaluate .standard environment = .ok value)
      (graph.Represents environment) where
  constants := by
    rintro position literal ⟨exact, _⟩ found
    rw [formAt_constant found] at exact
    cases exact with
    | constant exact =>
        obtain ⟨number, same⟩ := Option.isSome_iff_exists.mp exact
        have meant := Value.meaning?_eq_number_iff.mpr same
        refine ⟨literal, .number number, ?_, meant, .ofConstant meant⟩
        rw [formAt_constant found]
        rfl
  parameters := by
    rintro position name ⟨_, value, evaluated⟩ found
    have evaluatedName := evaluated
    rw [formAt_parameter found] at evaluatedName
    have looked := Form.lookup_of_evaluate evaluatedName
    obtain ⟨exact, typed⟩ := bound name value looked
    obtain ⟨number, same⟩ := Option.isSome_iff_exists.mp exact
    have meant := Value.meaning?_eq_number_iff.mpr same
    exact ⟨value, .number number, evaluated, meant, value, ⟨evaluatedName, typed⟩, meant⟩

theorem exists_meanings {operands : List Nat} {results : List Operand} {values : List Value}
    (represented : List.Forall₂ (graph.Represents environment) operands results)
    (found : List.Forall₂ (fun operand value =>
      (graph.formAt operand).evaluate .standard environment = .ok value) operands values) :
    ∃ meanings, List.Forall₂ (Operand.Sound environment) results meanings ∧
      List.Forall₂ (fun value meaning => Value.meaning? value = some meaning) values meanings := by
  induction represented generalizing values with
  | nil =>
      cases found
      exact ⟨[], .nil, .nil⟩
  | cons first _ inductionHypothesis =>
      cases found with
      | cons evaluated others =>
          obtain ⟨value, meaning, same, meant, sound⟩ := first
          cases same.symm.trans evaluated
          obtain ⟨meanings, sounds, rest⟩ := inductionHypothesis others
          exact ⟨meaning :: meanings, .cons sound sounds, .cons meant rest⟩

/-- Specialization keeps the exact value that a graph of exact arithmetic has. -/
theorem specialize_agreesExactly (engine : Engine) (standard : engine.registry = .standard)
    (graph : Graph) (exact : graph.toForm.IsExact) (declarations : Declarations)
    (environment : Environment) (bound : environment.IsExact declarations) (value : Value)
    (evaluated : graph.evaluate .standard environment = .ok value)
    (shallow : ∀ operation ceiling,
      (graph.specialize engine declarations).run.2 ≠ .error (.depth operation ceiling)) :
    ∃ operand result, (graph.specialize engine declarations).run.2 = .ok operand ∧
      (ofForm operand.form).evaluate .standard environment = .ok result ∧
      value.AgreesExactly result := by
  have formEvaluated := (evaluate_eq_ok_iff graph .standard environment value).mp evaluated
  have deep : ∀ operation, (Fault.depth operation engine.ceiling).IsDepth :=
    fun operation => Fault.isDepth_depth operation engine.ceiling
  have represented : (graph.specialize engine declarations).Meets Fault.IsDepth
      (graph.Represents environment graph.root) := by
    refine meets_specialize (live_exact exact formEvaluated) deep (leaves_represent bound) ?_
    rintro position depth operation operands results ⟨exact, value, evaluated⟩ calls related
    obtain ⟨values, found, applied⟩ := operands_evaluate calls evaluated
    obtain ⟨meanings, sound, meant⟩ := exists_meanings related found
    rw [formAt_call calls] at exact
    cases exact with
    | call member _ =>
        obtain ⟨meaning, valueMeant, specialized⟩ :=
          Engine.meets_exactCall standard deep member sound meant applied
        exact (specialized _ depth).mono fun operand sound =>
          ⟨value, meaning, evaluated, valueMeant, sound⟩
  obtain ⟨operand, yields, formValue, meaning, sameForm, meant, result, ⟨resultEvaluated, _⟩,
    resultMeant⟩ := represented.exists_yields
      fun fault ⟨operation, ceiling, same⟩ => same ▸ shallow operation ceiling
  have same : formValue = value := Except.ok.inj (sameForm.symm.trans formEvaluated)
  subst same
  exact ⟨operand, result, yields, (evaluate_ofForm_iff _ _ _ _).mpr resultEvaluated,
    Value.agreesExactly_of_meaning meant resultMeant⟩

/-- A product of a variable and of its sum with one half. -/
def sampleForm : Form :=
  .call "*" [.parameter "x", .call "+" [.parameter "x", .constant (.ratio (1 / 2))]]

theorem sampleForm_isExact : sampleForm.IsExact := by
  refine .call (by decide) ?_
  simp only [List.forall_mem_cons, List.not_mem_nil, false_imp_iff, implies_true, and_true]
  refine ⟨.parameter "x", .call (by decide) ?_⟩
  simp only [List.forall_mem_cons, List.not_mem_nil, false_imp_iff, implies_true, and_true]
  exact ⟨.parameter "x", .constant rfl⟩

theorem sampleForm_postorder : (ofForm sampleForm).postorder = [⟨3, 1⟩, ⟨4, 0⟩] := by
  -- The order of the calls does not need the value of the literal.
  have shape (literal : Value) :
      (ofForm (.call "*" [.parameter "x", .call "+" [.parameter "x", .constant literal]])).postorder
        = [⟨3, 1⟩, ⟨4, 0⟩] := by cbv
  exact shape (.ratio (1 / 2))

/-- A rational variable at three: the product specializes, and both forms have the same value. -/
theorem specialize_agreesExactly_sample :
    ∃ value operand result,
      (ofForm sampleForm).evaluate .standard [("x", .integer 3)] = .ok value ∧
      ((ofForm sampleForm).specialize ⟨.standard, 16, true⟩
        [("x", .primitive .rational)]).run.2 = .ok operand ∧
      (ofForm operand.form).evaluate .standard [("x", .integer 3)] = .ok result ∧
      value.AgreesExactly result := by
  have finishes : (sampleForm.evaluate .standard [("x", .integer 3)]).isOk = true := by
    decide +kernel
  have succeeds : ((ofForm sampleForm).specialize ⟨.standard, 16, true⟩
      [("x", .primitive .rational)]).run.2.isOk = true := by
    simp only [specialize, specializeAll, checkedVisits, sampleForm_postorder]
    decide +kernel
  have bound : Environment.IsExact [("x", .integer 3)] [("x", .primitive .rational)] := by
    intro name value found
    by_cases same : name = "x"
    · subst same
      cases Option.some.inj found
      exact ⟨rfl, by decide⟩
    · rw [List.lookup_cons, beq_false_of_ne same] at found
      cases found
  obtain ⟨value, evaluated⟩ := exists_of_isOk finishes
  rw [← evaluate_ofForm_iff] at evaluated
  obtain ⟨made, specialized⟩ := exists_of_isOk succeeds
  have exact : (ofForm sampleForm).toForm.IsExact := by
    rw [toForm_ofForm]
    exact sampleForm_isExact
  obtain ⟨operand, result, whole⟩ := specialize_agreesExactly ⟨.standard, 16, true⟩ rfl
    (ofForm sampleForm) exact [("x", .primitive .rational)] [("x", .integer 3)] bound value evaluated
    fun operation ceiling failed => by
      rw [specialized] at failed
      cases failed
  exact ⟨value, operand, result, evaluated, whole⟩

end Graph

end Narrowing
