import Narrowing.Proofs.PartialDerivatives
import Narrowing.Proofs.RationalGraphs

/-
This file shows that differentiation computes the slopes of rational graphs.
-/

namespace Narrowing

open TrivSqZeroExt

namespace Graph

open Traced

variable {graph : Graph} {environment : Environment} {declarations : Declarations}
  {engine : Engine} {allowed : Fault → Prop} {name : String}

/-- The stored derivatives are slopes, and visited calls without one have the slope zero. -/
structure Sloped (graph : Graph) (environment : Environment) (name : String) (visits : List Visit)
    (derivatives : Memo Operand) : Prop where
  stored : ∀ position operand, derivatives.lookup position = some operand →
    operand.Sound environment (.number (graph.slopeAt environment name position))
  missing : ∀ position, Visited visits position → derivatives.lookup position = none →
    graph.slopeAt environment name position = 0

namespace Sloped

variable {visits : List Visit} {visit : Visit} {derivatives : Memo Operand}

theorem nil : Sloped graph environment name [] [] where
  stored := nofun
  missing := by
    rintro position ⟨visit, member, _⟩
    cases member

/-- A call with the slope zero needs no derivative. -/
theorem skip (sloped : Sloped graph environment name visits derivatives)
    (flat : graph.slopeAt environment name visit.position = 0) :
    Sloped graph environment name (visits ++ [visit]) derivatives where
  stored := sloped.stored
  missing := by
    rintro position ⟨other, member, rfl⟩ absent
    rcases List.mem_append.mp member with old | last
    · exact sloped.missing _ ⟨other, old, rfl⟩ absent
    · rw [List.mem_singleton.mp last]
      exact flat

/-- A call joins with its derivative. -/
theorem snoc (sloped : Sloped graph environment name visits derivatives) {operand : Operand}
    (newest : operand.Sound environment
      (.number (graph.slopeAt environment name visit.position))) :
    Sloped graph environment name (visits ++ [visit])
      ((visit.position, operand) :: derivatives) where
  stored := by
    intro position other found
    rw [List.lookup_cons] at found
    split at found
    · rename_i same
      cases found
      rw [beq_iff_eq.mp same]
      exact newest
    · exact sloped.stored position other found
  missing := by
    rintro position ⟨other, member, rfl⟩ absent
    rw [List.lookup_cons] at absent
    split at absent
    · cases absent
    · rename_i different
      rcases List.mem_append.mp member with old | last
      · exact sloped.missing _ ⟨other, old, rfl⟩ absent
      · rw [List.mem_singleton.mp last] at different
        simp at different

end Sloped

variable {visits : List Visit} {derivatives : Memo Operand} {position : Nat}

theorem slopeAt_constant {value : Value} (found : graph.node position = .constant value) :
    graph.slopeAt environment name position = 0 := by
  rw [slopeAt, formAt_constant found]
  exact snd_inl Rat _

theorem slopeAt_parameter {other : String} (found : graph.node position = .parameter other) :
    graph.slopeAt environment name position = if other = name then 1 else 0 := by
  rw [slopeAt, formAt_parameter found, Form.slope, Form.dual, snd_add, snd_inl, zero_add]
  split
  · exact DualNumber.snd_eps
  · exact snd_zero

/-- The derivative of a visited node is its slope. -/
theorem meets_derivativeAt (sloped : Sloped graph environment name visits derivatives)
    (visited : ∀ operation operands, CallsAt graph.nodes position operation operands →
      Visited visits position) :
    (graph.derivativeAt name derivatives position).Meets allowed
      (Operand.Sound environment · (.number (graph.slopeAt environment name position))) := by
  unfold derivativeAt
  cases found : graph.node position with
  | constant value =>
      rw [slopeAt_constant found]
      exact meets_constant (.ofConstant rfl)
  | parameter other =>
      rw [slopeAt_parameter found]
      refine meets_constant (.ofConstant ?_)
      split <;> rfl
  | call operation operands =>
      simp only
      cases stored : derivatives.lookup position with
      | some derivative => exact meets_pure (sloped.stored position derivative stored)
      | none =>
          rw [sloped.missing position (visited operation operands (callsAt_of_node found)) stored]
          exact meets_constant (.ofConstant rfl)

/-- A visited node that does not depend on the variable has no slope. -/
theorem slopeAt_of_independent (sloped : Sloped graph environment name visits derivatives)
    (visited : ∀ operation operands, CallsAt graph.nodes position operation operands →
      Visited visits position)
    (independent : graph.mentions name derivatives position = false) :
    graph.slopeAt environment name position = 0 := by
  unfold mentions at independent
  cases found : graph.node position with
  | constant value => exact slopeAt_constant found
  | parameter other =>
      rw [found] at independent
      rw [slopeAt_parameter found, if_neg (by simpa using independent)]
  | call operation operands =>
      rw [found] at independent
      refine sloped.missing position (visited operation operands (callsAt_of_node found)) ?_
      simpa using independent

/-- The part of a slope that comes through one operand. -/
def termAt (graph : Graph) (environment : Environment) (name : String) (call : Call)
    (index : Nat) : Rat :=
  Dual.partialAt call.operation (call.operands.map (graph.fractionAt environment name)) index *
    graph.slopeAt environment name (call.operands.getD index graph.root)

theorem slopeAt_eq_sum
    (exact : ∀ name value, environment.lookup name = some value → value.exactNumber?.isSome = true)
    (alive : graph.Rational environment position) {call : Call}
    (calls : CallsAt graph.nodes position call.operation call.operands) :
    graph.slopeAt environment name position =
      ((List.range call.operands.length).map (graph.termAt environment name call)).sum := by
  rw [slopeAt_call exact alive calls, Dual.weighted, List.length_map]
  congr 1
  refine List.map_congr_left fun index member => ?_
  have within : index < call.operands.length := List.mem_range.mp member
  simp only [termAt, List.getD_eq_getElem?_getD, List.getElem?_map,
    List.getElem?_eq_getElem within, Option.map_some, Option.getD_some]
  rfl

/-- Operands without a slope do not count. -/
theorem sum_filter {keep : Nat → Bool} {term : Nat → Rat} (indices : List Nat)
    (flat : ∀ index ∈ indices, keep index = false → term index = 0) :
    ((indices.filter keep).map term).sum = (indices.map term).sum := by
  induction indices with
  | nil => rfl
  | cons index indices inductionHypothesis =>
      obtain ⟨first, rest⟩ := List.forall_mem_cons.mp flat
      cases kept : keep index with
      | true => simp [kept, inductionHypothesis rest]
      | false => simp [kept, inductionHypothesis rest, first kept]

/-- The slope of a call comes through the operands that depend on the variable. -/
theorem slopeAt_eq_dependents
    (exact : ∀ name value, environment.lookup name = some value → value.exactNumber?.isSome = true)
    (alive : graph.Rational environment position) {call : Call}
    (calls : CallsAt graph.nodes position call.operation call.operands)
    (sloped : Sloped graph environment name visits derivatives)
    (visited : OperandsVisited graph.nodes visits position) :
    graph.slopeAt environment name position =
      ((graph.dependents name derivatives call).map (graph.termAt environment name call)).sum := by
  rw [slopeAt_eq_sum exact alive calls, dependents, sum_filter]
  intro index member independent
  have within : index < call.operands.length := List.mem_range.mp member
  have among : call.operands.getD index graph.root ∈ call.operands := by
    rw [List.getD_eq_getElem?_getD, List.getElem?_eq_getElem within, Option.getD_some]
    exact List.getElem_mem within
  rw [termAt, slopeAt_of_independent sloped (visited _ _ calls _ among) independent, mul_zero]

/-- A literal does not depend on the variable. -/
theorem mentions_constant {value : Value} (constant : graph.formAt position = .constant value) :
    graph.mentions name derivatives position = false := by
  unfold mentions
  cases found : graph.node position with
  | constant other => rfl
  | parameter other => cases constant.symm.trans (formAt_parameter found)
  | call operation operands =>
      cases constant.symm.trans (formAt_call (callsAt_of_node found))

/-- The derivative of a call in an operand that depends on the variable. -/
theorem meets_partial (standard : engine.registry = .standard)
    (deep : ∀ operation, allowed (.depth operation engine.ceiling))
    (exact : ∀ name value, environment.lookup name = some value → value.exactNumber?.isSome = true)
    (alive : graph.Rational environment position) {call : Call}
    (calls : CallsAt graph.nodes position call.operation call.operands) {results : List Operand}
    (related : List.Forall₂ (graph.StandsExactly environment name) call.operands results)
    {index : Nat} (member : index ∈ graph.dependents name derivatives call) (depth : Nat) :
    (engine.differentiate depth call.operation results index).Meets allowed
      (Operand.Sound environment · (.number (Dual.partialAt call.operation
        (call.operands.map (graph.fractionAt environment name)) index))) := by
  obtain ⟨operation, operands⟩ := call
  obtain ⟨inRange, depends⟩ := List.mem_filter.mp member
  have within : index < operands.length := List.mem_range.mp inRange
  rcases rational_cases exact alive calls with ⟨arithmetic, isArithmetic, same, meant⟩ |
    ⟨base, exponent, count, same, whole, constant, defined, _⟩
  · simp only at same
    subst same
    have sound := (exactly_fractions related).imp fun _ _ holds => holds.1
    exact Engine.meets_arithmeticSlope standard deep isArithmetic sound meant
      (related.length_eq ▸ within) depth
  · simp only at same whole
    subst same whole
    obtain _ | ⟨baseStands, _ | ⟨exponentStands, _ | _⟩⟩ := related
    obtain ⟨rfl, _⟩ := exactly_exponent exponentStands constant
    have number : graph.fractionAt environment name exponent = count := by
      rw [fractionAt, constant]
      rfl
    rcases index with _ | _ | index
    · simp only [List.map_cons, List.map_nil, Dual.partialAt, number, Rat.num_intCast]
      exact Engine.meets_powerSlope standard deep baseStands.1 defined depth
    · have independent : graph.mentions name derivatives exponent = false :=
        mentions_constant constant
      cases independent.symm.trans depends
    · simp only [List.length_cons, List.length_nil] at within
      omega

/-- The part of a derivative that comes through one operand. -/
theorem meets_term (standard : engine.registry = .standard)
    (deep : ∀ operation, allowed (.depth operation engine.ceiling))
    (exact : ∀ name value, environment.lookup name = some value → value.exactNumber?.isSome = true)
    (alive : graph.Rational environment position) {call : Call}
    (calls : CallsAt graph.nodes position call.operation call.operands)
    (sloped : Sloped graph environment name visits derivatives)
    (visited : OperandsVisited graph.nodes visits position) {results : List Operand}
    (related : List.Forall₂ (graph.StandsExactly environment name) call.operands results)
    {index : Nat} (member : index ∈ graph.dependents name derivatives call) (depth : Nat) :
    (graph.derivativeTerm engine name derivatives depth call results index).Meets allowed
      (Operand.Sound environment · (.number (graph.termAt environment name call index))) := by
  have within : index < call.operands.length :=
    List.mem_range.mp (List.mem_filter.mp member).1
  have among : call.operands.getD index graph.root ∈ call.operands := by
    rw [List.getD_eq_getElem?_getD, List.getElem?_eq_getElem within, Option.getD_some]
    exact List.getElem_mem within
  refine (meets_partial standard deep exact alive calls related member (depth + 1)).bind
    fun partialDerivative partialSound => ?_
  refine (meets_derivativeAt sloped (visited _ _ calls _ among)).bind fun inner innerSound => ?_
  have product : ∀ left right : Rat, Operation.mul.meaning? left right =
      some (.number (left * right)) := fun _ _ => rfl
  exact Engine.meets_pair standard deep rfl partialSound innerSound (product _ _) _ (depth + 1)

/-- A single term is its own sum. -/
theorem sound_single {term : Operand} {numbers : List Rat}
    (sound : List.Forall₂ (fun term number => Operand.Sound environment term (.number number))
      [term] numbers) : term.Sound environment (.number numbers.sum) := by
  match numbers, sound with
  | [number], .cons single .nil =>
      rw [List.sum_singleton]
      exact single

/-- The terms of a derivative, summed up. -/
theorem meets_sum (standard : engine.registry = .standard)
    (deep : ∀ operation, allowed (.depth operation engine.ceiling)) {terms : List Operand}
    {numbers : List Rat}
    (sound : List.Forall₂ (fun term number => Operand.Sound environment term (.number number)) terms
      numbers) (depth : Nat) :
    (engine.specialize depth "+" terms).Meets allowed
      (Operand.Sound environment · (.number numbers.sum)) := by
  have meant : Operation.add.arithmeticMeaning? numbers = some numbers.sum := by
    rw [Operation.arithmeticMeaning?, Operation.foldMeaning?_add, zero_add]
  exact Engine.meets_arithmetic standard deep rfl (List.forall₂_map_right_iff.mpr sound) meant _ depth

/-- A visit keeps the derivatives, and it adds one if the call depends on the variable. -/
theorem meets_differentiateVisit (standard : engine.registry = .standard)
    (deep : ∀ operation, allowed (.depth operation engine.ceiling))
    (bound : environment.IsRational declarations) (root : graph.Rational environment graph.root)
    {memo : Memo Operand}
    (memoized : Memoized (graph.StandsExactly environment name) graph.postorder memo)
    {before after : List Visit} {visit : Visit}
    (whole : graph.postorder = before ++ visit :: after)
    (sloped : Sloped graph environment name before derivatives) :
    (graph.differentiateVisit engine declarations memo name derivatives visit).Meets allowed
      (Sloped graph environment name (before ++ [visit])) := by
  have member : visit ∈ graph.postorder := by rw [whole]; simp
  have lives := live_rational root
  have exact : ∀ name value, environment.lookup name = some value → value.exactNumber?.isSome = true :=
    fun name value looked => (bound name value looked).1
  obtain ⟨operation, operands, callsAt⟩ := visit_calls member
  have alive := lives.visit member
  have visited := operandsVisited_of_split whole
  have earlier : OperandsVisited graph.nodes graph.postorder visit.position :=
    operandsVisited_postorder whole
  have through : graph.slopeAt environment name visit.position =
      ((graph.dependents name derivatives ⟨operation, operands⟩).map
        (graph.termAt environment name ⟨operation, operands⟩)).sum :=
    slopeAt_eq_dependents exact alive callsAt sloped visited
  unfold differentiateVisit
  rw [call?_eq_some_iff.mpr callsAt]
  simp only
  split
  · rename_i independent
    refine meets_pure (sloped.skip ?_)
    rw [through, List.isEmpty_iff.mp independent]
    rfl
  · refine (meets_operands (leaves_exactly bound) memoized callsAt
      (lives.descends visit.position operation operands callsAt alive) earlier).bind
        fun results related => ?_
    refine (meets_mapM fun index among => meets_term standard deep exact alive callsAt sloped
      visited related among visit.depth).bind fun terms sound => ?_
    have numbered : List.Forall₂ (fun term number => Operand.Sound environment term (.number number))
        terms ((graph.dependents name derivatives ⟨operation, operands⟩).map
          (graph.termAt environment name ⟨operation, operands⟩)) :=
      List.forall₂_map_right_iff.mpr sound.flip
    split
    · exact meets_pure (sloped.snoc (through ▸ sound_single numbered))
    · refine (meets_sum standard deep numbered (visit.depth + 1)).bind fun sum sumSound => ?_
      exact meets_pure (sloped.snoc (through ▸ sumSound))

/-- The derivative of a rational graph stands for its slope. -/
theorem meets_differentiate (standard : engine.registry = .standard)
    (deep : ∀ operation, allowed (.depth operation engine.ceiling))
    (bound : environment.IsRational declarations) (root : graph.Rational environment graph.root) :
    (graph.differentiate engine declarations name).Meets allowed
      (Operand.Sound environment · (.number (graph.slopeAt environment name graph.root))) := by
  have specialized : (graph.specializeAll engine declarations).Meets allowed
      (Memoized (graph.StandsExactly environment name) graph.postorder) :=
    meets_rational standard deep bound root
  refine specialized.bind fun memo memoized => ?_
  refine (meets_operandAt (leaves_exactly bound) memoized (live_rational root).root
    fun _ _ callsAt => root_visited callsAt).bind fun _ _ => ?_
  refine (meets_checkedVisits deep).bind fun visits same => ?_
  subst same
  refine (meets_foldlM .nil fun before visit after derivatives whole sloped =>
    meets_differentiateVisit standard deep bound root memoized whole sloped).bind
      fun derivatives sloped => ?_
  exact meets_derivativeAt sloped fun _ _ callsAt => root_visited callsAt

/-- The derivative of a rational graph with a value has the value of its slope, the part of the
form in the dual numbers that moves with the variable. -/
theorem differentiate_slope (engine : Engine) (standard : engine.registry = .standard)
    (graph : Graph) (rational : graph.toForm.IsRational) (declarations : Declarations)
    (environment : Environment) (bound : environment.IsRational declarations) (name : String)
    (value : Value) (evaluated : graph.evaluate .standard environment = .ok value)
    (shallow : ∀ operation ceiling,
      (graph.differentiate engine declarations name).run.2 ≠ .error (.depth operation ceiling)) :
    ∃ operand result, (graph.differentiate engine declarations name).run.2 = .ok operand ∧
      (ofForm operand.form).evaluate .standard environment = .ok result ∧
      result.exactNumber? = some (graph.toForm.dual environment name).snd := by
  have root : graph.Rational environment graph.root :=
    ⟨rational, value, (evaluate_eq_ok_iff graph .standard environment value).mp evaluated⟩
  obtain ⟨operand, yields, result, ⟨formEvaluated, _⟩, meant⟩ :=
    (meets_differentiate standard (fun operation => Fault.isDepth_depth operation _) bound
      root).exists_yields fun fault ⟨operation, ceiling, same⟩ => same ▸ shallow operation ceiling
  exact ⟨operand, result, yields, (evaluate_ofForm_iff _ _ _ _).mpr formEvaluated,
    Value.meaning?_eq_number_iff.mp meant⟩

/-- The sum of the reciprocal and of the square of a variable. -/
def reciprocalAndSquare : Form :=
  .call "+" [.call "expt" [.parameter "x", .constant (.integer (-1))],
    .call "*" [.parameter "x", .parameter "x"]]

theorem reciprocalAndSquare_isRational : reciprocalAndSquare.IsRational := by
  refine @Form.IsRational.arithmetic .add _ rfl ?_
  simp only [List.forall_mem_cons, List.not_mem_nil, false_imp_iff, implies_true, and_true]
  refine ⟨.power (-1) (.parameter "x"), @Form.IsRational.arithmetic .mul _ rfl ?_⟩
  simp only [List.forall_mem_cons, List.not_mem_nil, false_imp_iff, implies_true, and_true]
  exact ⟨.parameter "x", .parameter "x"⟩

theorem reciprocalAndSquare_postorder :
    (ofForm reciprocalAndSquare).postorder = [⟨2, 1⟩, ⟨5, 1⟩, ⟨6, 0⟩] := by cbv

/-- The slope of the sum at two is fifteen quarters. -/
theorem differentiate_slope_reciprocalAndSquare :
    ∃ operand result,
      ((ofForm reciprocalAndSquare).differentiate ⟨.standard, 16, true⟩
        [("x", .primitive .rational)] "x").run.2 = .ok operand ∧
      (ofForm operand.form).evaluate .standard [("x", .integer 2)] = .ok result ∧
      result.exactNumber? = some (15 / 4) := by
  have finishes : (reciprocalAndSquare.evaluate .standard [("x", .integer 2)]).isOk = true := by
    decide +kernel
  have succeeds : ((ofForm reciprocalAndSquare).differentiate ⟨.standard, 16, true⟩
      [("x", .primitive .rational)] "x").run.2.isOk = true := by
    simp only [differentiate, specializeAll, checkedVisits, reciprocalAndSquare_postorder]
    decide +kernel
  have bound : Environment.IsRational [("x", .integer 2)] [("x", .primitive .rational)] := by
    intro name value found
    by_cases same : name = "x"
    · subst same
      cases Option.some.inj found
      exact ⟨rfl, .primitive .rational, rfl, by decide, by decide⟩
    · rw [List.lookup_cons, beq_false_of_ne same] at found
      cases found
  have slope : (reciprocalAndSquare.dual [("x", .integer 2)] "x").snd = 15 / 4 := by
    decide +kernel
  obtain ⟨value, evaluated⟩ := exists_of_isOk finishes
  rw [← evaluate_ofForm_iff] at evaluated
  obtain ⟨made, differentiated⟩ := exists_of_isOk succeeds
  rw [← slope, ← toForm_ofForm reciprocalAndSquare]
  refine differentiate_slope ⟨.standard, 16, true⟩ rfl (ofForm reciprocalAndSquare) ?_
    [("x", .primitive .rational)] [("x", .integer 2)] bound "x" value evaluated ?_
  · rw [toForm_ofForm]
    exact reciprocalAndSquare_isRational
  · intro operation ceiling failed
    rw [differentiated] at failed
    cases failed

end Graph

end Narrowing
