import Mathlib.Data.Int.ModEq
import Narrowing.Proofs.GraphRuns
import Narrowing.Proofs.IntegerCalls
import Narrowing.Proofs.LoweredCalls

/-
This file compares polynomials over the integers with their values on the device, where every step
wraps into a word of 32 bits.
-/

namespace Narrowing

section Lists

variable {Item Result State : Type} {items : List Item}

/-- A list of computations succeeds when each of them does. -/
theorem exists_mapM {run : Item → Except Fault Result} {relates : Item → Result → Prop}
    (each : ∀ item ∈ items, ∃ result, run item = .ok result ∧ relates item result) :
    ∃ results, items.mapM run = .ok results ∧ List.Forall₂ relates items results := by
  induction items with
  | nil => exact ⟨[], rfl, .nil⟩
  | cons item rest inductionHypothesis =>
      obtain ⟨result, computed, related⟩ := each item List.mem_cons_self
      obtain ⟨results, others, allRelated⟩ :=
        inductionHypothesis fun later member => each later (List.mem_cons_of_mem item member)
      refine ⟨result :: results, ?_, .cons related allRelated⟩
      rw [List.mapM_cons, computed, others]
      rfl

/-- A fold of computations succeeds when every step keeps an invariant. -/
theorem exists_foldlM {step : State → Item → Except Fault State}
    {invariant : List Item → State → Prop} {start : State} (initially : invariant [] start)
    (kept : ∀ before item after state, items = before ++ item :: after → invariant before state →
      ∃ next, step state item = .ok next ∧ invariant (before ++ [item]) next) :
    ∃ final, items.foldlM step start = .ok final ∧ invariant items final := by
  suffices general : ∀ after before state, items = before ++ after → invariant before state →
      ∃ final, after.foldlM step state = .ok final ∧ invariant items final from
    general items [] start rfl initially
  intro after
  induction after with
  | nil =>
      intro before state whole holds
      rw [List.append_nil] at whole
      exact ⟨state, rfl, whole ▸ holds⟩
  | cons item after inductionHypothesis =>
      intro before state whole holds
      obtain ⟨next, stepped, further⟩ := kept before item after state whole holds
      rw [List.foldlM_cons, stepped]
      exact inductionHypothesis (before ++ [item]) next (by simp [whole]) further

end Lists

namespace Word

variable {kind : WordKind} {first second : Int}

theorem wrap_modEq (kind : WordKind) (value : Int) :
    (wrap kind value).value ≡ value [ZMOD kind.modulus] := by
  have shifted : kind.least + (value - kind.least) % kind.modulus ≡
      kind.least + (value - kind.least) [ZMOD kind.modulus] :=
    (Int.ModEq.refl kind.least).add (Int.mod_modEq _ _)
  rwa [add_sub_cancel] at shifted

/-- Words that stand for congruent integers are the same. -/
theorem wrap_eq (congruent : first ≡ second [ZMOD kind.modulus]) :
    wrap kind first = wrap kind second := wrap_congr congruent

end Word

/-- An integer that the device holds as one word. -/
def FitsDevice (number : Int) : Prop := -2 ^ 31 ≤ number ∧ number < 2 ^ 31

theorem fitsDevice_iff (number : Int) : FitsDevice number ↔ WordKind.int32.Holds number := by
  change -2 ^ 31 ≤ number ∧ number < 2 ^ 31 ↔ -2 ^ 31 ≤ number ∧ number ≤ -2 ^ 31 + 2 ^ 32 - 1
  omega

/-- On the device the value is the word that the integer wraps to. -/
structure Value.Carries (value : Value) (exact : Int) : Prop where
  stored : value.toDevice = .ok (.ofDeviceScalar (.word (Word.wrap .int32 exact)) true)
  whole : value.whole? = some (Word.wrap .int32 exact).value

theorem Scalar.convert_wrap (exact : Int) :
    (word (Word.wrap .int32 exact)).convert (.word .int32) = word (Word.wrap .int32 exact) :=
  Operator.convert_word (Word.wrap .int32 exact)

namespace Value

/-- A plain integer that fits is its own word. -/
theorem carries_integer {exact : Int} (fits : FitsDevice exact) :
    (integer exact).Carries exact := by
  have fits := (fitsDevice_iff exact).mp fits
  have word : Word.ofInt? .int32 exact = some (Word.wrap .int32 exact) :=
    (dif_pos fits).trans (congrArg some (Word.wrap_self ⟨.int32, exact, fits⟩).symm)
  refine ⟨?_, congrArg some (Word.wrap_value fits).symm⟩
  rw [toDevice, word]
  rfl

/-- A word of the device. -/
def ofWord (exact : Int) : Value :=
  .array (.ofDeviceScalar (.word (Word.wrap .int32 exact)) true)

theorem carries_ofWord (exact : Int) : (ofWord exact).Carries exact := by
  have kept : [(Scalar.word (Word.wrap .int32 exact)).convert (.word .int32)] =
      [.word (Word.wrap .int32 exact)] := congrArg ([·]) (Scalar.convert_wrap exact)
  exact ⟨congrArg (fun items => Except.ok (NumberArray.mk true _ true [] items)) kept, rfl⟩

end Value

/-- An operation is exact on integers by the rule that words follow on the device, and the rule
cannot tell an integer from the word that it wraps to. -/
structure Operation.Wraps (operation : Operation) (rule : ElementRule) : Prop where
  exact : ∀ left right, operation.exactly? [left, right] = some (rule.words left right)
  lowered : Lowering.binary operation = Device.binary rule
  respects : ∀ left right, Word.wrap .int32
    (rule.words (Word.wrap .int32 left).value (Word.wrap .int32 right).value) =
      Word.wrap .int32 (rule.words left right)

namespace Operation

theorem wraps_add : add.Wraps .addition where
  exact _ _ := rfl
  lowered := rfl
  respects left right :=
    Word.wrap_eq ((Word.wrap_modEq .int32 left).add (Word.wrap_modEq .int32 right))

theorem wraps_sub : sub.Wraps .subtraction where
  exact _ _ := rfl
  lowered := rfl
  respects left right :=
    Word.wrap_eq ((Word.wrap_modEq .int32 left).sub (Word.wrap_modEq .int32 right))

theorem wraps_mul : mul.Wraps .multiplication where
  exact _ _ := rfl
  lowered := rfl
  respects left right :=
    Word.wrap_eq ((Word.wrap_modEq .int32 left).mul (Word.wrap_modEq .int32 right))

end Operation

/-- Two arrays without axes meet in their only elements. -/
theorem NumberArray.zipTo_scalars {combine : Scalar → Scalar → Except Fault Scalar}
    {first second made : Scalar} (computed : combine first second = .ok made)
    (firstWeak secondWeak : Bool) (type : DeviceType) :
    (ofDeviceScalar first firstWeak).zipTo (ofDeviceScalar second secondWeak) type combine =
      .ok ⟨true, .stored type.storage, type.weak, [], [made]⟩ := by
  have elements : [(first, second)].mapM (fun pair => combine pair.1 pair.2) = .ok [made] := by
    rw [List.mapM_cons]
    simp only [computed]
    rfl
  have same : (ofDeviceScalar first firstWeak).shape =
      (ofDeviceScalar second secondWeak).shape := rfl
  rw [zipTo, if_pos same]
  exact congrArg (· >>= _) elements

section Calls

variable {operation : Operation} {rule : ElementRule} {first second : Value} {left right : Int}
  {values : List Value} {numbers : List Int}

namespace Device

/-- A rule on two words of the device gives the word of the exact result. -/
theorem binary_carries (wraps : operation.Wraps rule) (firstCarries : first.Carries left)
    (secondCarries : second.Carries right) :
    binary rule first second = .ok (.ofWord (rule.words left right)) := by
  have applied : rule.apply (.word .int32)
      ((Scalar.word (Word.wrap .int32 left)).convert (.word .int32))
      ((Scalar.word (Word.wrap .int32 right)).convert (.word .int32)) =
        .ok (.word (Word.wrap .int32 (rule.words left right))) := by
    rw [Scalar.convert_wrap, Scalar.convert_wrap, ← wraps.respects left right]
    rfl
  rw [binary, firstCarries.stored, secondCarries.stored]
  exact congrArg (Value.array <$> ·)
    (NumberArray.zipTo_scalars applied true true ⟨.word .int32, true⟩)

theorem neg_carries (carries : first.Carries left) : neg first = .ok (.ofWord (-left)) := by
  rw [neg, carries.stored, Value.ofWord, ← Word.wrap_eq (Word.wrap_modEq .int32 left).neg]
  rfl

/-- Words combine from the left as integers do. -/
theorem foldlM_carries (wraps : operation.Wraps rule)
    (carries : List.Forall₂ Value.Carries values numbers) (firstCarries : first.Carries left) :
    ∃ value, values.foldlM (binary rule) first = .ok value ∧
      value.Carries (numbers.foldl rule.words left) := by
  induction carries generalizing first left with
  | nil => exact ⟨first, rfl, firstCarries⟩
  | cons secondCarries _ inductionHypothesis =>
      rw [List.foldlM_cons, binary_carries wraps firstCarries secondCarries]
      exact inductionHypothesis (Value.carries_ofWord _)

end Device

theorem Generic.fold_wraps (wraps : operation.Wraps rule) (left : Int) (numbers : List Int) :
    fold operation (.integer left) (numbers.map .integer) =
      .ok (.integer (numbers.foldl rule.words left)) := by
  induction numbers generalizing left with
  | nil => rfl
  | cons right numbers inductionHypothesis =>
      rw [List.map_cons, fold_cons, binary_represented (.integer left) (.integer right)
        (wraps.exact left right)]
      exact inductionHypothesis (rule.words left right)

namespace Lowering

theorem chain_carries (wraps : operation.Wraps rule)
    (carries : List.Forall₂ Value.Carries values numbers) (firstCarries : first.Carries left) :
    ∃ value, chain operation (first :: values) = .ok value ∧
      value.Carries (numbers.foldl rule.words left) := by
  rw [chain, wraps.lowered]
  exact Device.foldlM_carries wraps carries firstCarries

end Lowering

namespace Operation

/-- The operations of polynomials. -/
def polynomial : List Operation := [.add, .sub, .mul]

theorem isArithmetic_of_polynomial (member : operation ∈ polynomial) :
    operation.isArithmetic = true := by
  have all : ∀ operation ∈ polynomial, operation.isArithmetic = true := by decide
  exact all operation member

/-- A sum, difference or product on the device gives the word of its exact value. -/
theorem applies_polynomial (member : operation ∈ polynomial)
    (accepts : (Library.genericRecord operation).accepts values.length = true)
    (carries : List.Forall₂ Value.Carries values numbers) :
    ∃ exact value,
      Generic.arithmetic operation (numbers.map .integer) = .ok (.integer exact) ∧
      Lowering.applyGeneric operation values = .ok value ∧ value.Carries exact := by
  have zero : (Value.integer 0).Carries 0 := Value.carries_integer ⟨by decide, by decide⟩
  have one : (Value.integer 1).Carries 1 := Value.carries_integer ⟨by decide, by decide⟩
  simp only [polynomial, List.mem_cons, List.not_mem_nil, or_false] at member
  rcases member with rfl | rfl | rfl
  · obtain ⟨value, lowered, whole⟩ := Lowering.chain_carries wraps_add carries zero
    exact ⟨_, value, Generic.fold_wraps wraps_add 0 numbers, lowered, whole⟩
  · cases carries with
    | nil => cases accepts
    | @cons first left values numbers firstCarries others =>
      cases others with
      | nil =>
          have negated : Generic.unary .neg (.integer left) = .ok (.integer (-left)) :=
            Generic.unary_represented (.integer left) rfl
          exact ⟨-left, .ofWord (-left), negated, Device.neg_carries firstCarries,
            Value.carries_ofWord (-left)⟩
      | @cons _ right _ rest secondCarries others =>
          obtain ⟨value, lowered, whole⟩ :=
            Lowering.chain_carries wraps_sub (.cons secondCarries others) firstCarries
          exact ⟨_, value, Generic.fold_wraps wraps_sub left (right :: rest), lowered, whole⟩
  · obtain ⟨value, lowered, whole⟩ := Lowering.chain_carries wraps_mul carries one
    exact ⟨_, value, Generic.fold_wraps wraps_mul 1 numbers, lowered, whole⟩

/-- The device finds the operation behind the name of a sum, difference or product. -/
theorem call_polynomial (member : operation ∈ polynomial) (values : List Value) :
    Lowering.call operation.symbol values = Lowering.applyGeneric operation values := by
  have found : ∀ operation ∈ polynomial, operation.symbol.toList.contains '.' = false ∧
      operation.symbol ≠ "floor" ∧ Tier.ofName? operation.symbol = none ∧
        Lowering.generic? operation.symbol = some operation := by decide
  obtain ⟨plain, other, untiered, generic⟩ := found operation member
  simp only [Lowering.call, Lowering.tierPart?_eq_none plain, if_neg other, untiered, generic]
  rfl

end Operation

end Calls

namespace Form

/-- A polynomial has sums, differences and products of integers that fit the device, and of
variables with given names; each call has a number of operands that the library accepts. -/
inductive IsPolynomial (names : List String) : Form → Prop where
  | constant {number : Int} (fits : FitsDevice number) :
      IsPolynomial names (.constant (.integer number))
  | parameter {name : String} (named : name ∈ names) : IsPolynomial names (.parameter name)
  | call {operation : Operation} {operands : List Form} (member : operation ∈ Operation.polynomial)
      (accepts : (Registry.standard.ensure operation.symbol).accepts operands.length = true)
      (each : ∀ operand ∈ operands, IsPolynomial names operand) :
      IsPolynomial names (.call operation.symbol operands)

theorem IsPolynomial.operands {names : List String} {name : String} {operands : List Form}
    (polynomial : IsPolynomial names (.call name operands)) :
    ∃ operation ∈ Operation.polynomial, name = operation.symbol ∧
      (Library.genericRecord operation).accepts operands.length = true ∧
      ∀ operand ∈ operands, IsPolynomial names operand := by
  cases polynomial with
  | @call operation _ member accepts each =>
      have listed := Library.genericRecord_mem (Operation.isArithmetic_of_polynomial member)
      refine ⟨operation, member, rfl, ?_, each⟩
      rwa [← Registry.standard_ensure_accepts listed]

end Form

namespace Graph

variable {graph : Graph} {names : List String} {arguments : List Value} {environment : Environment}

/-- A named variable has one of the arguments as its value. -/
theorem lookup_of_bindParameters {name : String} (named : name ∈ names)
    (bound : bindParameters names arguments = .ok environment) :
    ∃ argument ∈ arguments, environment.lookup name = some argument := by
  unfold bindParameters at bound
  split at bound
  · rename_i counted
    cases bound
    have among : ∃ pair, pair ∈ (names.zip arguments).reverse ∧ (name == pair.1) = true := by
      rw [← List.map_fst_zip (Nat.le_of_eq counted.symm)] at named
      obtain ⟨pair, member, rfl⟩ := List.mem_map.mp named
      exact ⟨pair, List.mem_reverse.mpr member, beq_self_eq_true _⟩
    obtain ⟨argument, found⟩ := Option.isSome_iff_exists.mp (List.lookup_isSome_iff.mpr among)
    obtain ⟨before, after, whole, _⟩ := List.lookup_eq_some_iff.mp found
    have member : (name, argument) ∈ names.zip arguments := by
      rw [← List.mem_reverse, whole]
      simp
    exact ⟨argument, (List.of_mem_zip member).2, found⟩
  · cases bound

section Folds

variable {live : Nat → Prop} {holds : Nat → Value → Prop} {leaf : Node → Except Fault Value}
  {combine : String → List Value → Except Fault Value} {visits : List Visit} {memo : Memo Value}

/-- Every live leaf has a value that stands for it. -/
def LeavesHold (graph : Graph) (live : Nat → Prop) (holds : Nat → Value → Prop)
    (leaf : Node → Except Fault Value) : Prop :=
  ∀ position, live position → (graph.node position).isCall = false →
    ∃ value, leaf (graph.node position) = .ok value ∧ holds position value

/-- Every live call makes a value that stands for it, of values that stand for its operands. -/
def CallsHold (graph : Graph) (live : Nat → Prop) (holds : Nat → Value → Prop)
    (combine : String → List Value → Except Fault Value) : Prop :=
  ∀ position operation operands values, live position →
    CallsAt graph.nodes position operation operands → List.Forall₂ holds operands values →
    ∃ value, combine operation values = .ok value ∧ holds position value

theorem exists_valueAt (leaves : LeavesHold graph live holds leaf)
    (memoized : Memoized holds visits memo) {position : Nat} (alive : live position)
    (visited : ∀ operation operands, CallsAt graph.nodes position operation operands →
      Visited visits position) :
    ∃ value, graph.valueAt leaf memo position = .ok value ∧ holds position value := by
  have own := leaves position alive
  unfold valueAt
  cases found : graph.node position with
  | constant | parameter =>
      rw [found] at own
      exact own rfl
  | call operation operands =>
      obtain ⟨value, stored, related⟩ :=
        memoized position (visited operation operands (callsAt_of_node found))
      exact ⟨value, by simp only [stored, orFault], related⟩

/-- A visit adds a value that stands for its call. -/
theorem exists_foldVisit (lives : Live graph live) (leaves : LeavesHold graph live holds leaf)
    (calls : CallsHold graph live holds combine) {before after : List Visit} {visit : Visit}
    (whole : graph.postorder = before ++ visit :: after) (memoized : Memoized holds before memo) :
    ∃ next, graph.foldVisit leaf combine memo visit = .ok next ∧
      Memoized holds (before ++ [visit]) next := by
  have member : visit ∈ graph.postorder := by rw [whole]; simp
  obtain ⟨operation, operands, callsAt⟩ := visit_calls member
  have alive := lives.visit member
  obtain ⟨values, computed, related⟩ := exists_mapM fun operand among =>
    exists_valueAt leaves memoized (lives.descends _ operation operands callsAt alive operand among)
      (operandsVisited_of_split whole operation operands callsAt operand among)
  obtain ⟨value, combined, newest⟩ :=
    calls visit.position operation operands values alive callsAt related
  refine ⟨(visit.position, value) :: memo, ?_, memoized.snoc newest⟩
  rw [foldVisit, call?_eq_some_iff.mpr callsAt]
  simp only [computed]
  change (combine operation values >>= _) = _
  rw [combined]
  rfl

/-- A graph has a value that stands for its root. -/
theorem exists_fold (lives : Live graph live) (leaves : LeavesHold graph live holds leaf)
    (calls : CallsHold graph live holds combine) :
    ∃ value, graph.fold leaf combine = .ok value ∧ holds graph.root value := by
  obtain ⟨memo, finished, memoized⟩ := exists_foldlM Memoized.nil
    fun before visit after memo whole memoized =>
      exists_foldVisit lives leaves calls whole memoized
  rw [fold, finished]
  exact exists_valueAt leaves memoized lives.root fun _ _ callsAt => root_visited callsAt

end Folds

section Polynomials

variable {numbers : List Int}

theorem live_polynomial (polynomial : graph.toForm.IsPolynomial names) :
    Live graph fun position => (graph.formAt position).IsPolynomial names where
  root := polynomial
  descends position operation operands callsAt alive operand member := by
    rw [formAt_call callsAt] at alive
    obtain ⟨_, _, _, _, each⟩ := alive.operands
    exact each _ (List.mem_map_of_mem member)

/-- The value at a position carries the exact integer of its form. -/
def CarriesForm (graph : Graph) (environment : Environment) (position : Nat) (value : Value) :
    Prop :=
  ∃ exact, (graph.formAt position).evaluate .standard environment = .ok (.integer exact) ∧
    value.Carries exact

/-- Constants and arguments carry themselves. -/
theorem leavesHold_polynomial
    (bound : bindParameters names (numbers.map .integer) = .ok environment)
    (fit : ∀ number ∈ numbers, FitsDevice number) :
    LeavesHold graph (fun position => (graph.formAt position).IsPolynomial names)
      (CarriesForm graph environment) (Lowering.leaf environment) := by
  intro position alive leaf
  unfold CarriesForm
  cases found : graph.node position with
  | constant value =>
      rw [formAt_constant found] at alive ⊢
      cases alive with
      | constant fits => exact ⟨_, rfl, _, rfl, Value.carries_integer fits⟩
  | parameter name =>
      rw [formAt_parameter found] at alive ⊢
      cases alive with
      | parameter named =>
          obtain ⟨argument, member, looked⟩ := lookup_of_bindParameters named bound
          obtain ⟨number, among, rfl⟩ := List.mem_map.mp member
          have value : environment.bound name = .ok (.integer number) := by
            rw [Environment.bound, looked]
            rfl
          exact ⟨_, value, number, value, Value.carries_integer (fit number among)⟩
  | call operation operands =>
      rw [found] at leaf
      cases leaf

/-- Calls carry their exact values when their operands do. -/
theorem callsHold_polynomial :
    CallsHold graph (fun position => (graph.formAt position).IsPolynomial names)
      (CarriesForm graph environment) Lowering.call := by
  intro position name operands values alive callsAt related
  obtain ⟨numbers, evaluated, carries⟩ : ∃ numbers : List Int,
      List.Forall₂ (fun operand number => (graph.formAt operand).evaluate .standard environment =
        .ok (.integer number)) operands numbers ∧ List.Forall₂ Value.Carries values numbers := by
    clear alive callsAt
    induction related with
    | nil => exact ⟨[], .nil, .nil⟩
    | cons first _ inductionHypothesis =>
        obtain ⟨exact, computed, carried⟩ := first
        obtain ⟨numbers, evaluated, carries⟩ := inductionHypothesis
        exact ⟨exact :: numbers, .cons computed evaluated, .cons carried carries⟩
  rw [formAt_call callsAt] at alive
  obtain ⟨operation, member, rfl, accepts, _⟩ := alive.operands
  rw [List.length_map, evaluated.length_eq, ← carries.length_eq] at accepts
  obtain ⟨exact, value, computed, lowered, carried⟩ :=
    Operation.applies_polynomial member accepts carries
  refine ⟨value, (Operation.call_polynomial member values).trans lowered, exact, ?_, carried⟩
  rw [evaluate_formAt_call callsAt,
    mapM_eq_ok_iff.mpr (List.forall₂_map_right_iff.mpr evaluated)]
  refine (Registry.applyOperation_arithmetic (Operation.isArithmetic_of_polynomial member) ?_).trans
    computed
  rwa [List.length_map, ← carries.length_eq]

/-- On the device a polynomial always has a value, also when it overflows on the way: a word of 32
bits that is congruent to the exact value. -/
theorem lower_polynomial (polynomial : graph.toForm.IsPolynomial names)
    (bound : bindParameters names (numbers.map .integer) = .ok environment)
    (fit : ∀ number ∈ numbers, FitsDevice number) :
    ∃ exact value whole, graph.evaluate .standard environment = .ok (.integer exact) ∧
      graph.lower names (numbers.map .integer) = .ok value ∧ value.whole? = some whole ∧
      FitsDevice whole ∧ whole ≡ exact [ZMOD 2 ^ 32] := by
  obtain ⟨value, lowered, exact, evaluated, carries⟩ := exists_fold (live_polynomial polynomial)
    (leavesHold_polynomial bound fit) callsHold_polynomial
  have fits := (fitsDevice_iff _).mpr (Word.wrap .int32 exact).within
  refine ⟨exact, value, (Word.wrap .int32 exact).value,
    (evaluate_eq_ok_iff _ _ _ _).mpr evaluated, ?_, carries.whole, fits,
    Word.wrap_modEq .int32 exact⟩
  rw [lower, bound]
  exact lowered

/-- The square of a variable, added to itself. -/
def twiceSquared : Graph where
  nodes := #[.parameter "x", .call "*" [0, 0], .call "+" [1, 1]]
  ordered := by
    unfold Ordered
    decide
  root := 2
  rooted := by decide

/-- The square of 65537 and its double leave 32 bits; 262146 is left of them. -/
theorem lower_polynomial_overflow :
    twiceSquared.evaluate .standard [("x", .integer 65537)] = .ok (.integer 8590196738) ∧
      ∃ value, twiceSquared.lower ["x"] [.integer 65537] = .ok value ∧
        value.whole? = some 262146 := by
  let square := Form.call "*" (["x", "x"].map .parameter)
  have whole : twiceSquared.toForm = .call "+" [square, square] := rfl
  have polynomial : twiceSquared.toForm.IsPolynomial ["x"] := by
    have named : Form.IsPolynomial ["x"] (.parameter "x") := .parameter List.mem_cons_self
    have squared : square.IsPolynomial ["x"] :=
      @Form.IsPolynomial.call _ .mul _ (by decide) (by decide +kernel) (by simpa using named)
    rw [whole]
    exact @Form.IsPolynomial.call _ .add _ (by decide) (by decide +kernel) (by simpa using squared)
  have evaluated : twiceSquared.evaluate .standard [("x", .integer 65537)] =
      .ok (.integer 8590196738) := by
    have squared : square.evaluate .standard [("x", .integer 65537)] = .ok (.integer 4295098369) :=
      (Form.evaluate_variableCall (.cons rfl (.cons rfl .nil)) "*").trans
        (@Registry.applyOperation_represented .mul _ _ _
          (.cons (.integer 65537) (.cons (.integer 65537) .nil)) rfl)
    rw [evaluate_eq_ok_iff, whole, Form.evaluate_call, List.mapM_cons, squared, List.mapM_cons,
      squared]
    exact @Registry.applyOperation_represented .add _ _ _
      (.cons (.integer 4295098369) (.cons (.integer 4295098369) .nil)) rfl
  obtain ⟨exact, value, whole, same, lowered, isWhole, fits, congruent⟩ :=
    @lower_polynomial _ _ _ [65537] polynomial rfl (by simp [FitsDevice])
  obtain rfl : 8590196738 = exact := by
    cases evaluated.symm.trans same
    rfl
  obtain rfl : whole = 262146 := by
    simp only [FitsDevice, Int.ModEq] at fits congruent
    omega
  exact ⟨evaluated, value, lowered, isWhole⟩

end Polynomials

end Graph

end Narrowing
