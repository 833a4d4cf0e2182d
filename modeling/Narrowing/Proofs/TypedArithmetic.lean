import Narrowing.Proofs.TypedTiers

/-
This file carries types through sums, differences, products and quotients of two numbers.
-/

namespace Narrowing

namespace Tier

/-- A function of a narrower tier gives no results that the wider tier does not declare. -/
theorem mayGive_of_covers_unary {operation : Operation} {tier own other : Tier}
    (isUnary : operation.isUnary = true) (covers : tier.covers own = true)
    (gives : (unaryChosen operation own).mayGive operation other = true) :
    (Plan.unaryTier operation tier).mayGive operation other = true := by
  have each : ∀ operation ∈ Operation.all, operation.isUnary = true → ∀ tier ∈ all, ∀ own ∈ all,
      tier.covers own = true → ∀ other ∈ all,
        (unaryChosen operation own).mayGive operation other = true →
          (Plan.unaryTier operation tier).mayGive operation other = true := by decide +kernel
  exact each operation operation.mem_all isUnary tier tier.mem_all own own.mem_all covers other
    other.mem_all gives

end Tier

namespace Operand

variable {environment : Environment} {operation : Operation} {operand first second made : Operand}
  {left right result : Value}

/-- An exact literal of an integer is this integer, since literals are reduced. -/
theorem Typed.constant_of_isInteger {number : Int} (typed : operand.Typed environment)
    (literal : operand.isInteger number = true) :
    operand.ntype.constant? = some (.integer number) := by
  unfold isInteger Plan.holdsExact at literal
  split at literal
  · rename_i member constant
    have same : member = number := by simpa [Plan.equalsInteger] using literal
    rw [constant, same]
  · rename_i member constant
    have same : member = number := by simpa [Plan.equalsInteger] using literal
    have reduced := (typed.literal _ constant).2
    simp [Value.isReduced, same] at reduced
  · cases literal

/-- An operand that is no literal admits all numbers that resemble one that it admits. -/
theorem Admits.of_resembles (varied : operand.ntype.constant? = none) (admits : operand.Admits left)
    (same : left.Resembles right) : operand.Admits right := by
  refine ⟨Ntype.contains_of_resembles varied admits.1 same, ?_⟩
  obtain ⟨_, _, inside, _⟩ := same
  exact inside.isStandard

/-- An operand that is no literal, or the literal zero of a product. -/
def Loose (operation : Operation) (operand : Operand) : Prop :=
  operand.ntype.constant? = none ∨
    (operation = .mul ∧ operand.ntype.constant? = some (.integer 0))

/-- A loose operand admits reduced numbers that resemble a number that it admits. -/
theorem Admits.of_loose (loose : operand.Loose operation) (admits : operand.Admits left)
    (same : left.Resembles right) (reduced : right.isReduced = true) : operand.Admits right := by
  rcases loose with varied | ⟨_, zero⟩
  · exact admits.of_resembles varied same
  · have leftZero := Ntype.eq_of_constant zero rfl admits.1
    obtain ⟨_, _, _, exact⟩ := same
    rw [leftZero] at exact
    have rightZero : right = .ofRat ((0 : Int) : Rat) :=
      Value.eq_ofRat_of_reduced reduced exact.symm
    rw [rightZero]
    rwa [leftZero] at admits

/-- An operand admits the results of an operation on the values of two operands. -/
structure Joins (operation : Operation) (first second made : Operand) : Prop where
  admits : ∀ left right result, first.Admits left → second.Admits right →
    Generic.binary operation left right = .ok result → made.Admits result
  loose : made.Loose operation

/-- The numbers that an operation on two values needs, and the number that it gives. -/
theorem exists_of_join (isArithmetic : operation.isArithmetic = true)
    (firstAdmits : first.Admits left) (secondAdmits : second.Admits right)
    (computed : Generic.binary operation left right = .ok result) :
    ∃ leftTier rightTier own, left.InTier leftTier ∧ right.InTier rightTier ∧
      result.InTier own ∧
        (Tier.chosen operation (leftTier.combine rightTier)).covers own = true ∧
          result.isReduced = true := by
  obtain ⟨leftNumber, rightNumber⟩ := Generic.numbers_of_binary computed
  obtain ⟨leftTier, leftInside⟩ := Value.exists_inTier firstAdmits.2 leftNumber
  obtain ⟨rightTier, rightInside⟩ := Value.exists_inTier secondAdmits.2 rightNumber
  obtain ⟨⟨own, inside, covers⟩, reduced⟩ :=
    Generic.binary_inTier isArithmetic leftInside rightInside computed
  exact ⟨leftTier, rightTier, own, leftInside, rightInside, inside, covers, reduced⟩

/-- An operand of the type of all numbers joins any two operands. -/
theorem joins_number (isArithmetic : operation.isArithmetic = true)
    (type : made.ntype = .number) : Joins operation first second made where
  admits := by
    intro left right result firstAdmits secondAdmits computed
    obtain ⟨_, _, own, _, _, inside, _⟩ :=
      exists_of_join isArithmetic firstAdmits secondAdmits computed
    rw [Admits, type, Ntype.contains_number, inside.tier?]
    exact ⟨rfl, inside.isStandard⟩
  loose := by
    rw [Loose, type]
    exact .inl rfl

/-- A neutral operand on the right leaves the other one. -/
theorem joins_neutral {number : Int} (neutral : operation.neutral? = some number)
    (constant : second.ntype.constant? = some (.integer number))
    (varied : first.ntype.constant? = none) : Joins operation first second first where
  admits := by
    intro left right result firstAdmits secondAdmits computed
    obtain ⟨leftTier, leftInside⟩ :=
      Value.exists_inTier firstAdmits.2 (Generic.numbers_of_binary computed).1
    rw [Ntype.eq_of_constant constant rfl secondAdmits.1] at computed
    exact firstAdmits.of_resembles varied
      (Generic.binary_neutral neutral leftInside rfl computed).symm
  loose := .inl varied

theorem joins_identity {number : Int} (identity : operation.identity? = some number)
    (constant : first.ntype.constant? = some (.integer number))
    (varied : second.ntype.constant? = none) : Joins operation first second second where
  admits := by
    intro left right result firstAdmits secondAdmits computed
    obtain ⟨rightTier, rightInside⟩ :=
      Value.exists_inTier secondAdmits.2 (Generic.numbers_of_binary computed).2
    rw [Ntype.eq_of_constant constant rfl firstAdmits.1] at computed
    exact secondAdmits.of_resembles varied
      (Generic.binary_identity identity rfl rightInside computed).symm
  loose := .inl varied

/-- The values of a rational type are exact numbers. -/
theorem Admits.exists_exact (admits : operand.Admits left)
    (proven : operand.ntype.proves Tier.rational.ntype = true) :
    ∃ number, left.exactNumber? = some number := by
  obtain ⟨own, inside, covers⟩ :=
    Ntype.exists_inTier_of_contains admits.2 (Ntype.contains_of_proves proven admits.1)
  exact inside.exists_exact (Tier.exact_of_covers rfl covers)

/-- A zero swallows an exact factor on its left. -/
theorem joins_swallowed (constant : second.ntype.constant? = some (.integer 0))
    (proven : first.ntype.proves Tier.rational.ntype = true) : Joins .mul first second second where
  admits := by
    intro left right result firstAdmits secondAdmits computed
    obtain ⟨number, exact⟩ := firstAdmits.exists_exact proven
    have zero := Ntype.eq_of_constant constant rfl secondAdmits.1
    subst zero
    have product : number * ((0 : Int) : Rat) = 0 := by simp
    rwa [Generic.product_zero exact rfl product computed]
  loose := .inr ⟨rfl, constant⟩

/-- The same on its right. -/
theorem joins_swallowing (constant : first.ntype.constant? = some (.integer 0))
    (proven : second.ntype.proves Tier.rational.ntype = true) : Joins .mul first second first where
  admits := by
    intro left right result firstAdmits secondAdmits computed
    obtain ⟨number, exact⟩ := secondAdmits.exists_exact proven
    have zero := Ntype.eq_of_constant constant rfl firstAdmits.1
    subst zero
    have product : ((0 : Int) : Rat) * number = 0 := by simp
    rwa [Generic.product_zero rfl exact product computed]
  loose := .inr ⟨rfl, constant⟩

/-- A simplified call joins its operands, unless both are literals. -/
theorem joins_simplified {chosen : Operand} (firstTyped : first.Typed environment)
    (secondTyped : second.Typed environment)
    (simplified : simplified? operation first second = some chosen) :
    chosen.Typed environment ∧
      (Varied [first, second] → Joins operation first second chosen) := by
  cases simplifies_of_simplified? simplified with
  | neutral neutral literal =>
      have constant := secondTyped.constant_of_isInteger literal
      refine ⟨firstTyped, fun varied => joins_neutral neutral constant ?_⟩
      refine (Engine.varied_pair.mp varied).resolve_right fun absent => ?_
      cases constant.symm.trans absent
  | identity identity literal =>
      have constant := firstTyped.constant_of_isInteger literal
      refine ⟨secondTyped, fun varied => joins_identity identity constant ?_⟩
      refine (Engine.varied_pair.mp varied).resolve_left fun absent => ?_
      cases constant.symm.trans absent
  | swallowed product swallowed =>
      subst product
      simp only [isSwallowed, Bool.and_eq_true] at swallowed
      exact ⟨secondTyped, fun _ =>
        joins_swallowed (secondTyped.constant_of_isInteger swallowed.1) swallowed.2⟩
  | swallowing product swallowed =>
      subst product
      simp only [isSwallowed, Bool.and_eq_true] at swallowed
      exact ⟨firstTyped, fun _ =>
        joins_swallowing (firstTyped.constant_of_isInteger swallowed.1) swallowed.2⟩

/-- A call of the tier in which two operands meet joins them. -/
theorem joins_tier {tier : Tier} (isArithmetic : operation.isArithmetic = true)
    (firstNumber : first.isNumber = true) (secondNumber : second.isNumber = true)
    (found : Engine.metTier? first second = some tier)
    (type : made.ntype =
      (Library.tierValues (Plan.binaryTier operation false tier) operation).primary) :
    Joins operation first second made where
  admits := by
    intro left right result firstAdmits secondAdmits computed
    obtain ⟨leftTier, rightTier, leftInside, rightInside, met⟩ :=
      Engine.exists_met firstNumber secondNumber found firstAdmits secondAdmits
    obtain ⟨⟨own, inside, covers⟩, _⟩ :=
      Generic.binary_inTier isArithmetic leftInside rightInside computed
    have covered : (Plan.binaryTier operation false tier).covers own = true :=
      Tier.covers_trans (Tier.covers_chosen met) covers
    have computes : operation.isComparison = false := by
      cases operation <;> first | rfl | cases isArithmetic
    have sized : operation ≠ .abs := by
      rintro rfl
      cases isArithmetic
    rw [Admits, type]
    exact ⟨Tier.contains_tierValues computes (Tier.mayGive_of_covers sized covered) inside,
      inside.isStandard⟩
  loose := by
    rw [Loose, type]
    exact .inl (Library.tierValues_constant? _ _)

/-- A call of the tier of its operand admits the results of the generic function. -/
theorem admits_of_unary {tier : Tier} (isUnary : operation.isUnary = true)
    (found : operand.ntype.tier? = some tier)
    (type : made.ntype = (Library.tierValues (Plan.unaryTier operation tier) operation).primary)
    (admits : operand.Admits left) (computed : Generic.unary operation left = .ok result) :
    made.Admits result := by
  obtain ⟨own, inside, covers⟩ := Ntype.exists_inTier_of_contains admits.2
    (Ntype.contains_of_proves (Ntype.proves_of_tier? found) admits.1)
  obtain ⟨⟨other, resultInside, gives⟩, _⟩ := Generic.unary_inTier inside computed
  have computes : operation.isComparison = false := by
    cases operation <;> first | rfl | cases isUnary
  rw [Admits, type]
  exact ⟨Tier.contains_tierValues computes (Tier.mayGive_of_covers_unary isUnary covers gives)
    resultInside, resultInside.isStandard⟩

end Operand

namespace Engine

open Traced Operand

variable {environment : Environment} {engine : Engine} {allowed : Fault → Prop}
  {operands : List Operand} {operand first second made : Operand} {operation : Operation}

theorem runs_arithmetic (isArithmetic : operation.isArithmetic = true) :
    Runs (Library.genericRecord operation) (Generic.arithmetic operation) where
  member := Library.genericRecord_mem isArithmetic
  implemented := rfl
  single := rfl
  foldable := rfl
  primitive := rfl

theorem standard_of_admits {values : List Value}
    (admitted : List.Forall₂ Admits operands values) : ∀ value ∈ values, value.isStandard = true := by
  intro value member
  obtain ⟨operand, _, admits⟩ := exists_related_of_mem admitted.flip member
  exact admits.2

theorem computes_arithmetic :
    Computes (Library.genericRecord operation) (Generic.arithmetic operation) operands := by
  intro values result primary admitted computed first
  have single : (Library.genericRecord operation).values.isSingle = true := rfl
  rw [Registry.primaryValue_single single] at first
  cases first
  obtain ⟨⟨own, inside⟩, reduced⟩ :=
    Generic.arithmetic_inTier (standard_of_admits admitted) computed
  refine ⟨⟨Ntype.contains_number.mpr ?_, inside.isStandard⟩, fun _ => reduced⟩
  rw [inside.tier?]
  rfl

/-- What joins two operands covers the generic operation on them, also if it starts from one. -/
theorem covers_of_joins (isArithmetic : operation.isArithmetic = true)
    (joins : Joins operation first second made) :
    Covers (Generic.arithmetic operation) [first, second] made := by
  rintro _ result (_ | ⟨firstAdmits, _ | ⟨secondAdmits, _ | _⟩⟩) computed
  rename_i left right
  have started : ∀ {identity : Int}, operation.identity? = some identity →
      Generic.fold operation (.integer identity) [left, right] = .ok result →
      made.Admits result := by
    intro identity isIdentity computed
    obtain ⟨begun, start, computed⟩ := exists_of_bind computed
    obtain ⟨joined, finish, same⟩ := exists_of_bind computed
    cases same
    obtain ⟨rightTier, rightInside⟩ :=
      Value.exists_inTier secondAdmits.2 (Generic.numbers_of_binary finish).2
    obtain ⟨leftTier, leftInside⟩ :=
      Value.exists_inTier firstAdmits.2 (Generic.numbers_of_binary start).2
    have begunSame := Generic.binary_identity isIdentity rfl leftInside start
    have repeats : operation.identity?.isSome = true := by rw [isIdentity]; rfl
    obtain ⟨again, joinedAgain, resembles⟩ :=
      Generic.binary_resembles repeats begunSame rightInside finish
    obtain ⟨begunTier, begunInside, _⟩ := begunSame
    obtain ⟨_, reduced⟩ := Generic.binary_inTier isArithmetic begunInside rightInside finish
    exact (joins.admits left right again firstAdmits secondAdmits joinedAgain).of_loose joins.loose
      resembles.symm reduced
  have direct : Generic.fold operation left [right] = .ok result → made.Admits result := by
    intro computed
    obtain ⟨joined, finish, same⟩ := exists_of_bind computed
    cases same
    exact joins.admits left right result firstAdmits secondAdmits finish
  cases operation with
  | add | mul => exact started rfl computed
  | sub | div => exact direct computed
  | _ => cases isArithmetic

/-- A number that is no literal covers its sum or product with nothing else. -/
theorem covers_single (identity : operation.identity?.isSome = true)
    (varied : operand.ntype.constant? = none) :
    Covers (Generic.arithmetic operation) [operand] operand := by
  rintro _ result (_ | ⟨admits, _ | _⟩) computed
  rename_i value
  obtain ⟨number, isIdentity⟩ := Option.isSome_iff_exists.mp identity
  have folded : Generic.fold operation (.integer number) [value] = .ok result := by
    cases operation with
    | add | mul =>
        cases isIdentity
        exact computed
    | _ => cases isIdentity
  obtain ⟨joined, start, same⟩ := exists_of_bind folded
  cases same
  obtain ⟨own, inside⟩ := Value.exists_inTier admits.2 (Generic.numbers_of_binary start).2
  exact admits.of_resembles varied (Generic.binary_identity isIdentity rfl inside start).symm

variable (standard : engine.registry = .standard) (folds : engine.folds = true)
  (anyway : ∀ fault, allowed fault)

include standard folds anyway

/-- A specialized call on two operands joins them, unless both are literals. -/
theorem meets_typedPair (isArithmetic : operation.isArithmetic = true)
    (firstTyped : first.Typed environment) (secondTyped : second.Typed environment) :
    ∀ remaining depth,
      ((engine.level remaining depth).specialize operation.symbol [first, second]).Meets allowed
        (Stems environment (Generic.arithmetic operation) [first, second] fun made =>
          Varied [first, second] → Joins operation first second made) := by
  refine meets_level (fun _ => anyway _) fun remaining depth => ?_
  refine meets_stems standard folds anyway (runs_arithmetic isArithmetic) (List.forall_mem_cons.mpr
    ⟨firstTyped, List.forall_mem_singleton.mpr secondTyped⟩) computes_arithmetic
    (fun _ => joins_number isArithmetic rfl) ?_
  change (engine.follow depth _ (Rule.arithmetic operation) [first, second]).Meets _ _
  rw [follow_arithmetic]
  change (if first.isNumber && second.isNumber then _ else _ : Traced (Option Operand)).Meets _ _
  split
  · rename_i numbers
    rw [Bool.and_eq_true] at numbers
    unfold pairAnswer
    cases simplified : Operand.simplified? operation first second with
    | some chosen =>
        obtain ⟨typed, joins⟩ := joins_simplified firstTyped secondTyped simplified
        exact meets_pure (.ofSome typed joins)
    | none =>
        apply (meets_typedBinary standard folds anyway firstTyped secondTyped numbers.1 numbers.2
          remaining (depth + 1)).mono
        intro answer answers
        apply answers.mono
        intro made described varied
        obtain ⟨tier, found, type⟩ := described varied
        exact joins_tier isArithmetic numbers.1 numbers.2 found type
  · exact meets_pure .ofNone

/-- A specialized call on one operand covers the generic operation. -/
theorem meets_typedSingle (isArithmetic : operation.isArithmetic = true)
    (typed : operand.Typed environment) (remaining depth : Nat) :
    ((engine.level remaining depth).specialize operation.symbol [operand]).Meets allowed fun made =>
      made.Typed environment ∧ Covers (Generic.arithmetic operation) [operand] made := by
  refine meets_level (fun _ => anyway _) (fun remaining depth => ?_) remaining depth
  refine meets_covers standard folds anyway (runs_arithmetic isArithmetic)
    (List.forall_mem_singleton.mpr typed) computes_arithmetic ?_
  change (engine.follow depth _ (Rule.arithmetic operation) [operand]).Meets _ _
  rw [follow_arithmetic]
  change (if operand.isNumber then _ else _ : Traced (Option Operand)).Meets _ _
  split
  · cases operation with
    | add | mul =>
        exact meets_pure (.ofSome typed fun varied =>
          covers_single rfl (varied_singleton.mp varied))
    | sub =>
        have isUnary : Operation.neg.isUnary = true := rfl
        apply (meets_typedUnary standard folds anyway isUnary typed remaining (depth + 1)).mono
        intro answer answers
        apply answers.mono
        rintro made described varied _ result (_ | ⟨admits, _ | _⟩) computed
        obtain ⟨tier, found, type⟩ := described (varied_singleton.mp varied)
        exact admits_of_unary isUnary found type admits computed
    | div =>
        have one : (Traced.constant (.integer 1)).Meets allowed (· = .ofConstant (.integer 1)) :=
          meets_constant rfl
        refine one.bind fun _ same => ?_
        subst same
        apply Meets.map
        apply (meets_typedPair standard folds anyway isArithmetic (typed_ofConstant rfl) typed
          remaining (depth + 1)).mono
        intro made stems
        apply Answers.ofSome stems.typed
        rintro varied _ result (_ | ⟨admits, _ | _⟩) computed
        have bothVaried : Varied [.ofConstant (.integer 1), operand] :=
          varied_pair.mpr (.inr (varied_singleton.mp varied))
        exact (stems.varied bothVaried bothVaried).admits (.integer 1) _ result
          ⟨Ntype.contains_ofConstant (.integer 1), rfl⟩ admits computed
    | _ => cases isArithmetic
  · exact meets_pure .ofNone

end Engine

end Narrowing
