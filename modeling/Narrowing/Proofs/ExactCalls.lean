import Narrowing.Proofs.ExactOperands

/-
This file shows that the rules of generic calls keep the meaning of exact operands.
-/

namespace Narrowing

variable {environment : Environment}

/-- A simplified call has the meaning of the operand that stands for it. -/
theorem Operand.Sound.simplified {operation : Operation} {first second chosen : Operand}
    {left right : Rat} {meaning : Meaning} (firstSound : first.Sound environment (.number left))
    (secondSound : second.Sound environment (.number right))
    (meant : operation.meaning? left right = some meaning)
    (simplified : Operand.simplified? operation first second = some chosen) :
    chosen.Sound environment meaning := by
  have firstIs : ∀ {number : Int}, first.isInteger number = true → left = number :=
    fun literal => Meaning.number.inj (firstSound.eq_of_isInteger literal)
  have secondIs : ∀ {number : Int}, second.isInteger number = true → right = number :=
    fun literal => Meaning.number.inj (secondSound.eq_of_isInteger literal)
  cases Operand.simplifies_of_simplified? simplified with
  | neutral neutral literal =>
      rw [secondIs literal] at meant
      cases operation <;> cases neutral <;> cases meant <;> simpa using firstSound
  | identity identity literal =>
      rw [firstIs literal] at meant
      cases operation <;> cases identity <;> cases meant <;> simpa using secondSound
  | swallowed product swallowed =>
      subst product
      cases meant
      simp only [Operand.isSwallowed, Bool.and_eq_true] at swallowed
      simpa [secondIs swallowed.1] using secondSound
  | swallowing product swallowed =>
      subst product
      cases meant
      simp only [Operand.isSwallowed, Bool.and_eq_true] at swallowed
      simpa [firstIs swallowed.1] using firstSound

namespace Engine

open Traced

variable {engine : Engine} {allowed : Fault → Prop}

theorem isExact_of_contagion {leftDen rightDen : Nat} {tier : Tier}
    (found : Tier.combine (if leftDen = 1 then .integer else .rational)
        (if rightDen = 1 then .integer else .rational) = tier ∨
      (tier = .rational ∧ Tier.combine (if leftDen = 1 then .integer else .rational)
        (if rightDen = 1 then .integer else .rational) = .integer)) :
    tier = .rational ∨ (tier = .integer ∧ leftDen = 1 ∧ rightDen = 1) := by
  rw [Tier.combine_ofDen] at found
  rcases found with same | ⟨same, _⟩
  · subst same
    split
    · rename_i whole
      exact .inr ⟨rfl, whole⟩
    · exact .inl rfl
  · exact .inl same

/-- The tier of a call on exact operands holds them. -/
theorem metTier?_exact {first second : Operand} {left right : Rat} {tier : Tier}
    (firstSound : first.Sound environment (.number left))
    (secondSound : second.Sound environment (.number right))
    (found : metTier? first second = some tier) :
    tier = .rational ∨ (tier = .integer ∧ left.den = 1 ∧ right.den = 1) := by
  obtain ⟨value, ⟨_, inside⟩, meant⟩ := firstSound
  obtain ⟨other, ⟨_, otherInside⟩, otherMeant⟩ := secondSound
  rw [Value.meaning?_eq_number_iff] at meant otherMeant
  exact isExact_of_contagion (Ntype.tier_of_contagion found inside otherInside
    (Value.tier?_of_exact meant) (Value.tier?_of_exact otherMeant))

theorem converted_exact {below : Level} {operand : Operand} {tier : Tier}
    (isExact : tier.isExact = true) : converted below operand tier = pure operand := by
  cases tier with
  | integer | rational => rfl
  | _ => cases isExact

/-- The narrowest call on exact operands keeps their meaning. -/
theorem meets_binaryAnswer (standard : engine.registry = .standard)
    (deep : ∀ operation, allowed (.depth operation engine.ceiling)) {operation : Operation}
    {first second : Operand} {left right : Rat} {meaning : Meaning}
    (firstSound : first.Sound environment (.number left))
    (secondSound : second.Sound environment (.number right))
    (meant : operation.meaning? left right = some meaning) (remaining depth : Nat) :
    (engine.binaryAnswer (engine.level remaining depth) operation false first second).Meets allowed
      (AnswersSoundly environment meaning) := by
  unfold binaryAnswer
  cases found : metTier? first second with
  | none => exact meets_pure .none
  | some tier =>
      have held := metTier?_exact firstSound secondSound found
      have chosen : Plan.binaryTier operation false tier = .rational ∨
          (Plan.binaryTier operation false tier = .integer ∧ operation ≠ .div ∧
            left.den = 1 ∧ right.den = 1) := by
        simp only [Plan.binaryTier, Bool.false_and]
        rcases held with rfl | ⟨rfl, whole⟩
        · exact .inl (by simp)
        · by_cases divides : operation = .div
          · exact .inl (by simp [divides])
          · exact .inr ⟨by simp [divides], divides, whole⟩
      simp only
      generalize Plan.binaryTier operation false tier = own at chosen ⊢
      have isExact : own.isExact = true := by rcases chosen with rfl | ⟨rfl, _⟩ <;> rfl
      have offered : own.offers operation = true := by
        rcases chosen with rfl | ⟨rfl, undivided, _⟩
        · cases operation with
          | add | sub | mul | div | lt | eq => rfl
          | _ => cases meant
        · cases operation with
          | add | sub | mul | lt | eq => rfl
          | div => exact absurd rfl undivided
          | _ => cases meant
      have contained : engine.registry.contains (own.operationName operation) = true := by
        rw [standard]
        exact Registry.standard_contains (Library.tier_mem offered)
      simp only [tierAnswer, contained, if_true, converted_exact isExact, pure_bind]
      refine Meets.map ((meets_tierBinary standard deep isExact offered firstSound secondSound meant
        (chosen.imp_right fun whole => whole.2.2) remaining depth).mono fun operand sound => ?_)
      exact .some sound

/-- The narrowest negation or size of an exact operand keeps its meaning. -/
theorem meets_unaryAnswer (standard : engine.registry = .standard)
    (deep : ∀ operation, allowed (.depth operation engine.ceiling)) {operation : Operation}
    {operand : Operand} {number result : Rat}
    (sound : operand.Sound environment (.number number))
    (meant : operation.unaryMeaning? number = some result) (remaining depth : Nat) :
    (unaryAnswer (engine.level remaining depth) operation operand).Meets allowed
      (AnswersSoundly environment (.number result)) := by
  unfold unaryAnswer
  cases found : operand.ntype.tier? with
  | none => exact meets_pure .none
  | some tier =>
      have held : tier = .rational ∨ (tier = .integer ∧ number.den = 1) := by
        obtain ⟨value, ⟨_, inside⟩, valueMeant⟩ := sound
        rw [Value.meaning?_eq_number_iff] at valueMeant
        rcases Ntype.tier_of_contains found inside with same | ⟨same, _⟩
        · rw [Value.tier?_of_exact valueMeant] at same
          split at same
          · rename_i whole
            exact .inr ⟨(Option.some.inj same).symm, whole⟩
          · exact .inl (Option.some.inj same).symm
        · exact .inl same
      have isExact : tier.isExact = true := by rcases held with rfl | ⟨rfl, _⟩ <;> rfl
      have keeps : Plan.unaryTier operation tier = tier := by
        cases operation with
        | neg | abs => rfl
        | _ => cases meant
      simp only [keeps, converted_exact isExact, pure_bind]
      refine Meets.map ((meets_tierUnary standard deep isExact sound meant
        (held.imp_right And.right) remaining depth).mono fun operand sound => ?_)
      exact .some sound

end Engine

namespace Library

/-- The record of a generic operation on any number of operands. -/
def genericRecord (operation : Operation) : Record :=
  arithmeticRecord operation (if operation.identity?.isSome then 0 else 1)
    (Generic.arithmetic operation)

theorem genericRecord_arithmetic {operation : Operation}
    (isArithmetic : operation.isArithmetic = true) :
    genericRecord operation ∈ arithmeticRecords := by
  cases operation with
  | add => exact .head _
  | mul => exact .tail _ (.head _)
  | sub => exact .tail _ (.tail _ (.head _))
  | div => exact .tail _ (.tail _ (.tail _ (.head _)))
  | _ => cases isArithmetic

theorem genericRecord_mem {operation : Operation} (isArithmetic : operation.isArithmetic = true) :
    genericRecord operation ∈ records := arithmetic_mem (genericRecord_arithmetic isArithmetic)

/-- Only sums and products take no operands. -/
theorem genericRecord_accepts (operation : Operation) (count : Nat) :
    (genericRecord operation).accepts count = true ↔
      operation.identity?.isSome = true ∨ 0 < count := by
  have unfolded : (genericRecord operation).accepts count =
      (decide ((if operation.identity?.isSome then 0 else 1 : Int) ≤ count) && true) := rfl
  rw [unfolded, Bool.and_true, decide_eq_true_eq]
  cases operation.identity?.isSome with
  | true => simp
  | false =>
      simp only [Bool.false_eq_true, if_false, false_or]
      omega

end Library

namespace Engine

open Traced

variable {engine : Engine} {allowed : Fault → Prop} {operation : Operation}

theorem exact_of_meanings {values : List Value} {numbers : List Rat}
    (meant : List.Forall₂ (fun value meaning => Value.meaning? value = some meaning) values
      (numbers.map .number)) :
    List.Forall₂ (fun value number => Value.exactNumber? value = some number) values numbers :=
  (List.forall₂_map_right_iff.mp meant).imp fun _ _ => Value.meaning?_eq_number_iff.mp

/-- A generic call computes what it stands for, if its rule does. -/
theorem meets_generic (standard : engine.registry = .standard)
    (isArithmetic : operation.isArithmetic = true) {depth : Nat} {below : Level}
    {operands : List Operand} {numbers : List Rat} {number : Rat}
    (sound : List.Forall₂ (Operand.Sound environment) operands (numbers.map .number))
    (meant : operation.arithmeticMeaning? numbers = some number)
    (answers : (engine.arithmeticAnswer below operation operands).Meets allowed
      (AnswersSoundly environment (.number number))) :
    (engine.specializeCall depth below operation.symbol operands).Meets allowed
      (Operand.Sound environment · (.number number)) := by
  have accepts : (Library.genericRecord operation).accepts operands.length = true := by
    rw [Library.genericRecord_accepts, sound.length_eq, List.length_map]
    cases numbers with
    | cons => exact .inr (Nat.succ_pos _)
    | nil =>
        cases operation with
        | add | mul => exact .inl rfl
        | _ => cases meant
  refine meets_sound standard (Library.genericRecord_mem isArithmetic) rfl rfl accepts sound ?_ ?_
  · intro values valuesMeant
    have computed := Generic.arithmetic_exact isArithmetic (exact_of_meanings valuesMeant)
    rw [meant] at computed
    obtain ⟨value, computed, exact⟩ := computed
    refine ⟨value, computed, Ntype.contains_number.mpr ?_, Value.meaning?_eq_number_iff.mpr exact⟩
    rw [Value.tier?_of_exact exact]
    rfl
  · change (engine.follow depth below (Rule.arithmetic operation) operands).Meets _ _
    rw [follow_arithmetic]
    exact answers

/-- A call with two exact operands keeps its meaning. -/
theorem meets_pair (standard : engine.registry = .standard)
    (deep : ∀ operation, allowed (.depth operation engine.ceiling))
    (isArithmetic : operation.isArithmetic = true) {first second : Operand}
    {left right number : Rat} (firstSound : first.Sound environment (.number left))
    (secondSound : second.Sound environment (.number right))
    (meant : operation.meaning? left right = some (.number number)) :
    ∀ remaining depth,
      ((engine.level remaining depth).specialize operation.symbol [first, second]).Meets allowed
        (Operand.Sound environment · (.number number)) := by
  have folded : operation.arithmeticMeaning? [left, right] = some number := by
    rw [Operation.arithmeticMeaning?_cons isArithmetic]
    simp [Operation.foldMeaning?, meant]
  have sound : List.Forall₂ (Operand.Sound environment) [first, second]
      ([left, right].map .number) := .cons firstSound (.cons secondSound .nil)
  refine meets_level deep fun remaining depth => ?_
  refine meets_generic standard isArithmetic sound folded ?_
  change (if first.isNumber && second.isNumber then _ else _ : Traced (Option Operand)).Meets _ _
  split
  · unfold pairAnswer
    cases simplified : Operand.simplified? operation first second with
    | some chosen => exact meets_pure (.some (firstSound.simplified secondSound meant simplified))
    | none =>
        exact meets_binaryAnswer standard deep firstSound secondSound meant remaining (depth + 1)
  · exact meets_pure .none

/-- Calls with two operands keep the meaning of a longer call. -/
theorem meets_chainAnswer (standard : engine.registry = .standard)
    (deep : ∀ operation, allowed (.depth operation engine.ceiling))
    (isArithmetic : operation.isArithmetic = true) {rest : List Operand} {numbers : List Rat}
    {number : Rat} (remaining depth : Nat)
    (sound : List.Forall₂ (Operand.Sound environment) rest (numbers.map .number)) :
    ∀ {first : Operand} {left : Rat}, first.Sound environment (.number left) →
      operation.foldMeaning? left numbers = some number →
      (chainAnswer (engine.level remaining depth) operation first rest).Meets allowed
        (Operand.Sound environment · (.number number)) := by
  induction numbers generalizing rest with
  | nil =>
      cases sound
      intro first left firstSound meant
      cases meant
      exact meets_pure firstSound
  | cons right numbers inductionHypothesis =>
      cases sound with
      | cons secondSound others =>
          intro first left firstSound meant
          simp only [Operation.foldMeaning?] at meant
          split at meant
          · rename_i middle met
            rw [chainAnswer, List.foldlM_cons]
            refine (meets_pair standard deep isArithmetic firstSound secondSound met remaining
              depth).bind fun result resultSound => ?_
            exact inductionHypothesis others resultSound meant
          · cases meant

theorem meets_singleAnswer (standard : engine.registry = .standard)
    (deep : ∀ operation, allowed (.depth operation engine.ceiling))
    (isArithmetic : operation.isArithmetic = true) {operand : Operand} {number result : Rat}
    (sound : operand.Sound environment (.number number))
    (meant : operation.arithmeticMeaning? [number] = some result) (remaining depth : Nat) :
    (singleAnswer (engine.level remaining depth) operation operand).Meets allowed
      (AnswersSoundly environment (.number result)) := by
  cases operation with
  | add =>
      have same : number = result := by
        simpa [Operation.arithmeticMeaning?, Operation.foldMeaning?, Operation.meaning?] using meant
      subst same
      exact meets_pure (.some sound)
  | mul =>
      have same : number = result := by
        simpa [Operation.arithmeticMeaning?, Operation.foldMeaning?, Operation.meaning?] using meant
      subst same
      exact meets_pure (.some sound)
  | sub =>
      have negated : Operation.neg.unaryMeaning? number = some result := meant
      exact meets_unaryAnswer standard deep sound negated remaining depth
  | div =>
      have one : (Traced.constant (.integer 1)).Meets allowed
          (Operand.Sound environment · (.number (1 : Int))) := meets_constant (.ofConstant rfl)
      have inverted : Operation.div.meaning? (1 : Int) number = some (.number result) := by
        simp only [Operation.arithmeticMeaning?, Operation.foldMeaning?] at meant
        split at meant
        · rename_i inverse met
          cases meant
          exact met
        · cases meant
      refine one.bind fun made madeSound => ?_
      refine Meets.map ((meets_pair standard deep rfl madeSound sound inverted remaining
        depth).mono fun operand sound => ?_)
      exact .some sound
  | _ => cases isArithmetic

/-- A sum, difference, product or quotient of exact operands keeps its meaning. -/
theorem meets_arithmetic (standard : engine.registry = .standard)
    (deep : ∀ operation, allowed (.depth operation engine.ceiling))
    (isArithmetic : operation.isArithmetic = true) {operands : List Operand} {numbers : List Rat}
    {number : Rat} (sound : List.Forall₂ (Operand.Sound environment) operands
      (numbers.map .number)) (meant : operation.arithmeticMeaning? numbers = some number) :
    ∀ remaining depth,
      ((engine.level remaining depth).specialize operation.symbol operands).Meets allowed
        (Operand.Sound environment · (.number number)) := by
  match operands, numbers, sound with
  | [], [], _ =>
      refine meets_level deep fun remaining depth => ?_
      refine meets_generic standard isArithmetic .nil meant ?_
      cases operation with
      | add | mul =>
          cases meant
          refine Meets.map (meets_constant ?_)
          exact .some (.ofConstant rfl)
      | _ => cases meant
  | [first], [left], sound@(.cons firstSound .nil) =>
      refine meets_level deep fun remaining depth => ?_
      refine meets_generic standard isArithmetic sound meant ?_
      change (if first.isNumber then _ else _ : Traced (Option Operand)).Meets _ _
      split
      · exact meets_singleAnswer standard deep isArithmetic firstSound meant remaining (depth + 1)
      · exact meets_pure .none
  | [first, second], [left, right], .cons firstSound (.cons secondSound .nil) =>
      refine meets_pair standard deep isArithmetic firstSound secondSound ?_
      rw [Operation.arithmeticMeaning?_cons isArithmetic, Operation.foldMeaning?] at meant
      split at meant
      · rename_i result met
        cases meant
        exact met
      · cases meant
  | first :: second :: third :: others, left :: right :: more :: numbers,
      sound@(.cons firstSound restSound) =>
      refine meets_level deep fun remaining depth => ?_
      refine meets_generic standard isArithmetic sound meant ?_
      rw [Operation.arithmeticMeaning?_cons isArithmetic] at meant
      exact Meets.map ((meets_chainAnswer standard deep isArithmetic remaining (depth + 1)
        restSound firstSound meant).mono fun operand sound => .some sound)

/-- A comparison of exact operands keeps its truth. -/
theorem meets_comparison (standard : engine.registry = .standard)
    (deep : ∀ operation, allowed (.depth operation engine.ceiling))
    (member : operation ∈ [Operation.lt, .eq]) {first second : Operand} {left right : Rat}
    {meaning : Meaning} (firstSound : first.Sound environment (.number left))
    (secondSound : second.Sound environment (.number right))
    (meant : operation.meaning? left right = some meaning) :
    ∀ remaining depth,
      ((engine.level remaining depth).specialize operation.symbol [first, second]).Meets allowed
        (Operand.Sound environment · meaning) := by
  refine meets_level deep fun remaining depth => ?_
  refine meets_sound standard (Library.comparison_mem member) rfl rfl rfl
    (.cons firstSound (.cons secondSound .nil)) ?_ ?_
  · rintro _ (_ | ⟨leftMeant, _ | ⟨rightMeant, _ | _⟩⟩)
    obtain ⟨result, computed, resultMeant⟩ := Generic.binary_exact
      (Value.meaning?_eq_number_iff.mp leftMeant) (Value.meaning?_eq_number_iff.mp rightMeant) meant
    refine ⟨result, computed, ?_, resultMeant⟩
    obtain ⟨truth, rfl⟩ : ∃ truth, meaning = .truth truth := by
      simp only [List.mem_cons, List.not_mem_nil, or_false] at member
      rcases member with rfl | rfl <;> cases meant <;> exact ⟨_, rfl⟩
    rw [Value.meaning?_eq_truth_iff] at resultMeant
    subst resultMeant
    change (Ntype.primitive .boolean).contains (.boolean truth) = true
    cases truth <;> decide
  · change (engine.follow depth _ (Rule.comparison operation) [first, second]).Meets _ _
    rw [follow_comparison]
    change (if first.isNumber && second.isNumber then _ else _ : Traced (Option Operand)).Meets _ _
    split
    · exact meets_binaryAnswer standard deep firstSound secondSound meant remaining (depth + 1)
    · exact meets_pure .none

/-- The size of an exact operand is exact. -/
theorem meets_abs (standard : engine.registry = .standard)
    (deep : ∀ operation, allowed (.depth operation engine.ceiling)) {operand : Operand}
    {number : Rat} (sound : operand.Sound environment (.number number)) :
    ∀ remaining depth,
      ((engine.level remaining depth).specialize "abs" [operand]).Meets allowed
        (Operand.Sound environment · (.number number.abs)) := by
  have member : Operation.abs ∈ Library.functions := by decide
  refine meets_level deep fun remaining depth => ?_
  refine meets_sound standard (Library.function_mem member) rfl rfl rfl (.cons sound .nil) ?_ ?_
  · rintro _ (_ | ⟨numberMeant, _ | _⟩)
    have meant : Operation.abs.unaryMeaning? number = some number.abs := rfl
    obtain ⟨result, computed, exact⟩ := Generic.unary_exact
      (Value.meaning?_eq_number_iff.mp numberMeant) meant
    have real : Tier.rational.ntype.proves (.primitive .real) = true := by decide
    exact ⟨result, computed, Ntype.contains_of_proves real (contains_exact rfl exact (.inl rfl)),
      Value.meaning?_eq_number_iff.mpr exact⟩
  · change (engine.follow depth _ (Rule.function .abs) [operand]).Meets _ _
    rw [follow_function]
    change (if operand.isNumber then _ else _ : Traced (Option Operand)).Meets _ _
    split
    · exact meets_unaryAnswer standard deep sound rfl remaining (depth + 1)
    · exact meets_pure .none

end Engine

end Narrowing
