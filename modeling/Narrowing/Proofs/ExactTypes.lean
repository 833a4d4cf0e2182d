import Narrowing.Proofs.PowerCalls

/-
This file shows that specialized arithmetic on operands of exact types has an exact type.
-/

namespace Narrowing

variable {environment : Environment} {tier : Tier}

/-- An operand with this value, of a type in this tier. -/
def Operand.Exactly (environment : Environment) (tier : Tier) (operand : Operand) (number : Rat) :
    Prop := operand.Sound environment (.number number) ∧ operand.ntype.proves tier.ntype = true

/-- If the operand has a value in this tier, its type is in this tier. -/
def Operand.Bounded (environment : Environment) (tier : Tier) (operand : Operand) : Prop :=
  ∀ number, operand.Sound environment (.number number) → tier = .rational ∨ number.den = 1 →
    operand.ntype.proves tier.ntype = true

theorem Value.proves_ofConstant {value : Value} {number : Rat} (isExact : tier.isExact = true)
    (exact : value.exactNumber? = some number) (held : tier = .rational ∨ number.den = 1) :
    (Ntype.ofConstant value).proves tier.ntype = true := by
  rw [Value.ofConstant_literal (Value.isLiteral_of_meaning (Value.meaning?_eq_number_iff.mpr exact))]
  exact contains_exact isExact exact held

namespace Operand.Bounded

variable {operand : Operand}

theorem of_proves (proven : operand.ntype.proves tier.ntype = true) :
    operand.Bounded environment tier := fun _ _ _ => proven

theorem ofConstant (isExact : tier.isExact = true) (value : Value) :
    (Operand.ofConstant value).Bounded environment tier := by
  rintro number ⟨other, ⟨evaluated, _⟩, meant⟩ held
  cases evaluated
  exact Value.proves_ofConstant isExact (Value.meaning?_eq_number_iff.mp meant) held

theorem exactly {number : Rat} (bounded : operand.Bounded environment tier)
    (sound : operand.Sound environment (.number number))
    (held : tier = .rational ∨ number.den = 1) : operand.Exactly environment tier number :=
  ⟨sound, bounded number sound held⟩

end Operand.Bounded

/-- A number in an exact tier is whole, if the tier is that of integers. -/
theorem Operand.Exactly.held {operand : Operand} {number : Rat} (isExact : tier.isExact = true)
    (exactly : operand.Exactly environment tier number) : tier = .rational ∨ number.den = 1 := by
  obtain ⟨⟨value, ⟨_, inside⟩, meant⟩, proven⟩ := exactly
  cases tier with
  | integer =>
      exact .inr (Ntype.whole_of_proves proven inside (Value.meaning?_eq_number_iff.mp meant))
  | rational => exact .inl rfl
  | _ => cases isExact

theorem Operand.Exactly.isNumber {operand : Operand} {number : Rat}
    (exactly : operand.Exactly environment tier number) : operand.isNumber = true :=
  Ntype.proves_number_of_tier exactly.2

namespace Engine

open Traced

variable {engine : Engine} {allowed : Fault → Prop} {operation : Operation}

/-- Whatever happens, a specialized call is bounded if its type is and its rule keeps it so. -/
theorem meets_bounded (standard : engine.registry = .standard) (isExact : tier.isExact = true)
    {record : Record} (member : record ∈ Library.records) {depth : Nat} {below : Level}
    {operands : List Operand} (accepts : record.accepts operands.length = true)
    (answers : (engine.ruleAnswer depth below record operands).Meets (fun _ => True) fun answer =>
      (answer.getD (plainCall record operands)).Bounded environment tier) :
    (engine.specializeCall depth below record.name operands).Meets (fun _ => True)
      (Operand.Bounded environment tier) := by
  refine meets_specializeCall standard member accepts ?_
  split
  · exact .ofConstant isExact _
  · exact answers
  · exact trivial

/-- A call in an exact tier has the type of this tier. -/
theorem meets_boundedTier (standard : engine.registry = .standard) (isExact : tier.isExact = true)
    {own : Tier} (ownExact : own.isExact = true) (within : tier = .rational ∨ own = .integer)
    (offered : own.offers operation = true) (computes : operation.isComparison = false)
    {operands : List Operand}
    (accepts : (Library.tierRecord own operation).accepts operands.length = true)
    (remaining depth : Nat) :
    ((engine.level remaining depth).specialize (own.operationName operation) operands).Meets
      (fun _ => True) (Operand.Bounded environment tier) := by
  refine meets_level (fun _ => trivial) (fun remaining depth => ?_) remaining depth
  refine meets_bounded standard isExact (Library.tier_mem offered) accepts ?_
  refine meets_pure (.of_proves ?_)
  change (Library.tierValues own operation).primary.proves tier.ntype = true
  rw [tierValues_primary ownExact, computes]
  rcases within with rfl | rfl
  · cases own with
    | integer | rational => decide
    | _ => cases ownExact
  · cases tier with
    | integer | rational => decide
    | _ => cases isExact

/-- The tier in which two exact operands of this tier meet. -/
theorem exists_metTier? (isExact : tier.isExact = true) {first second : Operand}
    {left right : Rat} (firstExactly : first.Exactly environment tier left)
    (secondExactly : second.Exactly environment tier right) :
    ∃ own : Tier, own.isExact = true ∧ (tier = .rational ∨ own = .integer) ∧
      metTier? first second = some own := by
  obtain ⟨⟨value, ⟨_, inside⟩, meant⟩, firstProven⟩ := firstExactly
  obtain ⟨⟨other, ⟨_, otherInside⟩, otherMeant⟩, secondProven⟩ := secondExactly
  rw [Value.meaning?_eq_number_iff] at meant otherMeant
  exact Ntype.contagion_exact isExact firstProven secondProven (Ntype.contains_cover inside)
    (Ntype.contains_cover otherInside)
    ((Value.atom_tier? value).trans (Value.tier?_of_exact meant))
    ((Value.atom_tier? other).trans (Value.tier?_of_exact otherMeant))

/-- The narrowest call on two exact operands of a tier is bounded by it. -/
theorem meets_boundedBinary (standard : engine.registry = .standard)
    (isExact : tier.isExact = true) (isArithmetic : operation.isArithmetic = true)
    (undivided : tier = .rational ∨ operation ≠ .div) {first second : Operand} {left right : Rat}
    (firstExactly : first.Exactly environment tier left)
    (secondExactly : second.Exactly environment tier right) (remaining depth : Nat) :
    (engine.binaryAnswer (engine.level remaining depth) operation false first second).Meets
      (fun _ => True) fun answer => ∃ operand, answer = some operand ∧
        operand.Bounded environment tier := by
  obtain ⟨met, metExact, within, found⟩ := exists_metTier? isExact firstExactly secondExactly
  simp only [binaryAnswer, found]
  have chosen : (Plan.binaryTier operation false met).isExact = true ∧
      (tier = .rational ∨ Plan.binaryTier operation false met = .integer) ∧
      (Plan.binaryTier operation false met).offers operation = true := by
    have divided : operation = .div → tier = .rational := fun divides =>
      undivided.resolve_right fun other => other divides
    cases met with
    | integer | rational =>
        cases operation with
        | add | sub | mul => exact ⟨rfl, within, rfl⟩
        | div => exact ⟨rfl, .inl (divided rfl), rfl⟩
        | _ => cases isArithmetic
    | _ => cases metExact
  generalize Plan.binaryTier operation false met = own at chosen ⊢
  obtain ⟨ownExact, held, offered⟩ := chosen
  have contained : engine.registry.contains (own.operationName operation) = true := by
    rw [standard]
    exact Registry.standard_contains (Library.tier_mem offered)
  have computes : operation.isComparison = false := by
    cases operation with
    | lt | eq => cases isArithmetic
    | _ => rfl
  have accepts : (Library.tierRecord own operation).accepts [first, second].length = true := by
    cases operation with
    | add | sub | mul | div => rfl
    | _ => cases isArithmetic
  simp only [tierAnswer, contained, if_true, converted_exact ownExact, pure_bind]
  refine Meets.map ?_
  exact (meets_boundedTier standard isExact ownExact held offered computes accepts remaining
    depth).mono fun operand bounded => ⟨operand, rfl, bounded⟩

/-- A call with two exact operands of a tier is bounded by it. -/
theorem meets_boundedPair (standard : engine.registry = .standard) (isExact : tier.isExact = true)
    (isArithmetic : operation.isArithmetic = true) (undivided : tier = .rational ∨ operation ≠ .div)
    {first second : Operand} {left right : Rat}
    (firstExactly : first.Exactly environment tier left)
    (secondExactly : second.Exactly environment tier right) (remaining depth : Nat) :
    ((engine.level remaining depth).specialize operation.symbol [first, second]).Meets
      (fun _ => True) (Operand.Bounded environment tier) := by
  have accepts : (Library.genericRecord operation).accepts [first, second].length = true :=
    (Library.genericRecord_accepts operation _).mpr (.inr (Nat.succ_pos 1))
  refine meets_level (fun _ => trivial) (fun remaining depth => ?_) remaining depth
  refine meets_bounded standard isExact (Library.genericRecord_mem isArithmetic) accepts ?_
  change (engine.follow depth _ (Rule.arithmetic operation) [first, second]).Meets _ _
  rw [follow_arithmetic]
  simp only [arithmeticAnswer, firstExactly.isNumber, secondExactly.isNumber, Bool.and_self,
    if_true, pairAnswer]
  split
  · rename_i chosen simplified
    refine meets_pure ?_
    rcases Operand.simplified?_cases simplified with rfl | rfl
    · exact .of_proves firstExactly.2
    · exact .of_proves secondExactly.2
  · refine (meets_boundedBinary standard isExact isArithmetic undivided firstExactly secondExactly
      remaining (depth + 1)).mono ?_
    rintro _ ⟨operand, rfl, bounded⟩
    exact bounded

/-- A call with two exact operands of a tier keeps its meaning and its tier. -/
theorem meets_exactlyPair (standard : engine.registry = .standard)
    (deep : ∀ operation, allowed (.depth operation engine.ceiling)) (isExact : tier.isExact = true)
    (isArithmetic : operation.isArithmetic = true) (undivided : tier = .rational ∨ operation ≠ .div)
    {first second : Operand} {left right number : Rat}
    (firstExactly : first.Exactly environment tier left)
    (secondExactly : second.Exactly environment tier right)
    (meant : operation.meaning? left right = some (.number number)) (remaining depth : Nat) :
    ((engine.level remaining depth).specialize operation.symbol [first, second]).Meets allowed
      (Operand.Exactly environment tier · number) := by
  have held : tier = .rational ∨ number.den = 1 := by
    rcases firstExactly.held isExact with same | leftWhole
    · exact .inl same
    rcases secondExactly.held isExact with same | rightWhole
    · exact .inl same
    exact undivided.imp_right fun other => whole_of_meaning meant other leftWhole rightWhole
  refine ((meets_pair standard deep isArithmetic firstExactly.1 secondExactly.1 meant remaining
    depth).and (meets_boundedPair standard isExact isArithmetic undivided firstExactly secondExactly
      remaining depth)).mono fun operand both => ?_
  exact both.2.exactly both.1 held

/-- Calls with two operands keep exact types through a longer call. -/
theorem meets_exactlyChain (standard : engine.registry = .standard)
    (deep : ∀ operation, allowed (.depth operation engine.ceiling))
    (isArithmetic : operation.isArithmetic = true) {rest : List Operand} {numbers : List Rat}
    {number : Rat} (remaining depth : Nat)
    (exactly : List.Forall₂ (Operand.Exactly environment .rational) rest numbers) :
    ∀ {first : Operand} {left : Rat}, first.Exactly environment .rational left →
      operation.foldMeaning? left numbers = some number →
      (chainAnswer (engine.level remaining depth) operation first rest).Meets allowed
        (Operand.Exactly environment .rational · number) := by
  induction exactly with
  | nil =>
      intro first left firstExactly meant
      cases meant
      exact meets_pure firstExactly
  | cons secondExactly _ inductionHypothesis =>
      intro first left firstExactly meant
      simp only [Operation.foldMeaning?] at meant
      split at meant
      · rename_i middle met
        rw [chainAnswer, List.foldlM_cons]
        refine (meets_exactlyPair standard deep rfl isArithmetic (.inl rfl) firstExactly
          secondExactly met remaining depth).bind fun result resultExactly => ?_
        exact inductionHypothesis resultExactly meant
      · cases meant

/-- The negation of an exact operand has an exact type. -/
theorem meets_boundedNegation (standard : engine.registry = .standard) {operand : Operand}
    {number : Rat} (exactly : operand.Exactly environment .rational number)
    (remaining depth : Nat) :
    (unaryAnswer (engine.level remaining depth) .neg operand).Meets (fun _ => True)
      fun answer => ∃ operand, answer = some operand ∧ operand.Bounded environment .rational := by
  obtain ⟨own, ownExact, within, found⟩ := Ntype.tier?_of_proves rfl exactly.2
  have offered : own.offers .neg = true := by
    cases own with
    | integer | rational => rfl
    | _ => cases ownExact
  have keeps : Plan.unaryTier .neg own = own := by simp [Plan.unaryTier]
  simp only [unaryAnswer, found, keeps, converted_exact ownExact, pure_bind]
  refine Meets.map ?_
  exact (meets_boundedTier standard rfl ownExact (.inl rfl) offered rfl rfl remaining depth).mono
    fun operand bounded => ⟨operand, rfl, bounded⟩

/-- A single exact operand keeps an exact type. -/
theorem meets_boundedSingle (standard : engine.registry = .standard)
    (isArithmetic : operation.isArithmetic = true) {operand : Operand} {number : Rat}
    (exactly : operand.Exactly environment .rational number) (remaining depth : Nat) :
    (singleAnswer (engine.level remaining depth) operation operand).Meets (fun _ => True)
      fun answer => ∃ operand, answer = some operand ∧ operand.Bounded environment .rational := by
  cases operation with
  | add | mul => exact meets_pure ⟨operand, rfl, .of_proves exactly.2⟩
  | sub => exact meets_boundedNegation standard exactly remaining depth
  | div =>
      have one : (Traced.constant (.integer 1)).Meets (fun _ => True)
          (Operand.Exactly environment .rational · (1 : Int)) :=
        meets_constant ⟨.ofConstant rfl,
          Value.proves_ofConstant rfl (Value.exactNumber?_integer 1) (.inl rfl)⟩
      refine one.bind fun made madeExactly => ?_
      refine Meets.map ?_
      exact (meets_boundedPair standard rfl rfl (.inl rfl) madeExactly exactly remaining
        depth).mono fun operand bounded => ⟨operand, rfl, bounded⟩
  | _ => cases isArithmetic

/-- A sum, difference, product or quotient of exact operands has an exact type. -/
theorem meets_boundedArithmetic (standard : engine.registry = .standard)
    (isArithmetic : operation.isArithmetic = true) {operands : List Operand} {numbers : List Rat}
    {number : Rat} (exactly : List.Forall₂ (Operand.Exactly environment .rational) operands numbers)
    (meant : operation.arithmeticMeaning? numbers = some number) (remaining depth : Nat) :
    ((engine.level remaining depth).specialize operation.symbol operands).Meets (fun _ => True)
      (Operand.Bounded environment .rational) := by
  have accepts : (Library.genericRecord operation).accepts operands.length = true := by
    rw [Library.genericRecord_accepts, exactly.length_eq]
    cases numbers with
    | cons => exact .inr (Nat.succ_pos _)
    | nil =>
        cases operation with
        | add | mul => exact .inl rfl
        | _ => cases meant
  match operands, numbers, exactly with
  | [first, second], [left, right], .cons firstExactly (.cons secondExactly .nil) =>
      exact meets_boundedPair standard rfl isArithmetic (.inl rfl) firstExactly secondExactly
        remaining depth
  | [], [], _ =>
      refine meets_level (fun _ => trivial) (fun remaining depth => ?_) remaining depth
      refine meets_bounded standard rfl (Library.genericRecord_mem isArithmetic) accepts ?_
      change (engine.follow depth _ (Rule.arithmetic operation) []).Meets _ _
      rw [follow_arithmetic]
      cases operation with
      | add | mul => exact Meets.map (meets_constant (.ofConstant rfl _))
      | _ => cases meant
  | [first], [left], .cons firstExactly .nil =>
      refine meets_level (fun _ => trivial) (fun remaining depth => ?_) remaining depth
      refine meets_bounded standard rfl (Library.genericRecord_mem isArithmetic) accepts ?_
      change (engine.follow depth _ (Rule.arithmetic operation) [first]).Meets _ _
      rw [follow_arithmetic]
      simp only [arithmeticAnswer, firstExactly.isNumber, if_true]
      refine (meets_boundedSingle standard isArithmetic firstExactly remaining (depth + 1)).mono ?_
      rintro _ ⟨operand, rfl, bounded⟩
      exact bounded
  | first :: second :: third :: rest, left :: right :: more :: numbers,
      .cons firstExactly restExactly =>
      rw [Operation.arithmeticMeaning?_cons isArithmetic] at meant
      refine meets_level (fun _ => trivial) (fun remaining depth => ?_) remaining depth
      refine meets_bounded standard rfl (Library.genericRecord_mem isArithmetic) accepts ?_
      change (engine.follow depth _ (Rule.arithmetic operation) _).Meets _ _
      rw [follow_arithmetic]
      refine Meets.map ?_
      exact (meets_exactlyChain standard (fun _ => trivial) isArithmetic remaining (depth + 1)
        restExactly firstExactly meant).mono fun operand found => .of_proves found.2

/-- A sum, difference, product or quotient of exact operands keeps its meaning and its type. -/
theorem meets_exactlyArithmetic (standard : engine.registry = .standard)
    (deep : ∀ operation, allowed (.depth operation engine.ceiling))
    (isArithmetic : operation.isArithmetic = true) {operands : List Operand} {numbers : List Rat}
    {number : Rat} (exactly : List.Forall₂ (Operand.Exactly environment .rational) operands numbers)
    (meant : operation.arithmeticMeaning? numbers = some number) (remaining depth : Nat) :
    ((engine.level remaining depth).specialize operation.symbol operands).Meets allowed
      (Operand.Exactly environment .rational · number) := by
  have sound : List.Forall₂ (Operand.Sound environment) operands (numbers.map .number) :=
    List.forall₂_map_right_iff.mpr (exactly.imp fun _ _ holds => holds.1)
  refine ((meets_arithmetic standard deep isArithmetic sound meant remaining depth).and
    (meets_boundedArithmetic standard isArithmetic exactly meant remaining depth)).mono
      fun operand both => ?_
  exact both.2.exactly both.1 (.inl rfl)

section Powers

variable {base exponent : Operand} {number : Rat} {count : Int}

/-- An exact base with an exponent of an integer type has exact powers. -/
theorem isExactPower_of_exactly (baseExactly : base.Exactly environment .rational number)
    (exponentExactly : exponent.Exactly environment .integer count) :
    isExactPower base exponent = true := by
  rw [isExactPower, baseExactly.2, exponentExactly.2]
  rfl

theorem meets_boundedPower (standard : engine.registry = .standard)
    (baseExactly : base.Exactly environment .rational number)
    (exponentExactly : exponent.Exactly environment .integer count) (remaining depth : Nat) :
    ((engine.level remaining depth).specialize "expt" [base, exponent]).Meets (fun _ => True)
      (Operand.Bounded environment .rational) := by
  refine meets_level (fun _ => trivial) (fun remaining depth => ?_) remaining depth
  refine meets_bounded standard rfl Library.power_mem rfl ?_
  change (engine.follow depth _ Rule.power [base, exponent]).Meets _ _
  rw [follow_power]
  simp only [powerAnswer, baseExactly.isNumber, exponentExactly.isNumber, Bool.and_self,
    Bool.not_true, Bool.false_eq_true, if_false,
    isExactPower_of_exactly baseExactly exponentExactly, if_true]
  split
  · refine Meets.map ?_
    exact (meets_boundedPair standard rfl rfl (.inl rfl) baseExactly baseExactly remaining
      (depth + 1)).mono fun operand bounded => bounded
  split
  · exact meets_pure (.of_proves baseExactly.2)
  · have held := powerTier_holds baseExactly.1 exponentExactly.1
    have offered : (powerTier base exponent).offers .expt = true := by
      cases found : powerTier base exponent with
      | integer | rational => rfl
      | _ =>
          rw [found] at held
          cases held.1
    refine Meets.map ?_
    exact (meets_boundedTier standard rfl held.1 (.inl rfl) offered rfl rfl remaining
      (depth + 1)).mono fun operand bounded => bounded

/-- A power of an exact operand with a whole exponent keeps its meaning and its type. -/
theorem meets_exactlyPower (standard : engine.registry = .standard)
    (deep : ∀ operation, allowed (.depth operation engine.ceiling))
    (baseExactly : base.Exactly environment .rational number)
    (exponentExactly : exponent.Exactly environment .integer count)
    (defined : ¬(number = 0 ∧ count < 0)) (remaining depth : Nat) :
    ((engine.level remaining depth).specialize "expt" [base, exponent]).Meets allowed
      (Operand.Exactly environment .rational · (number ^ count)) := by
  have kept : base.ntype.losesPowers exponent.ntype = false := by
    rw [Ntype.losesPowers, exponentExactly.2, Bool.not_true, Bool.and_false]
  refine ((meets_power standard deep baseExactly.1 exponentExactly.1 defined kept remaining
    depth).and (meets_boundedPower standard baseExactly exponentExactly remaining depth)).mono
      fun operand both => ?_
  exact both.2.exactly both.1 (.inl rfl)

/-- Zero with a negative exponent has no value in the tier of fractions, but the type of one. -/
theorem meets_zeroTierPower (standard : engine.registry = .standard)
    (deep : ∀ operation, allowed (.depth operation engine.ceiling))
    (baseSound : base.Sound environment (.number 0))
    (exponentSound : exponent.Sound environment (.number count)) (negative : count < 0)
    (remaining depth : Nat) :
    ((engine.level remaining depth).specialize (Tier.rational.operationName .expt)
      [base, exponent]).Meets allowed fun operand => operand.ntype = Tier.rational.ntype := by
  obtain ⟨values, takes, meant⟩ :=
    Operand.Sound.exists_values (.cons baseSound (.cons exponentSound .nil))
  have offered : Tier.rational.offers .expt = true := by decide
  have failed : Tier.rational.compute .expt values = .error .zeroDivision := by
    match values, meant with
    | [first, second], .cons firstMeant (.cons secondMeant .nil) =>
        exact Value.rationalPower_zero (Value.meaning?_eq_number_iff.mp firstMeant)
          (Value.meaning?_eq_number_iff.mp secondMeant) negative
  refine meets_level deep (fun remaining depth => ?_) remaining depth
  refine meets_specializeCall standard (Library.tier_mem offered) rfl ?_
  rw [fold?_failed rfl failed rfl fun _ => literals?_eq_of_meaning takes meant]
  exact meets_pure rfl

/-- Zero with a negative exponent has no value, but the type of an exact power. -/
theorem meets_zeroPower (standard : engine.registry = .standard)
    (deep : ∀ operation, allowed (.depth operation engine.ceiling))
    (baseExactly : base.Exactly environment .rational 0)
    (exponentExactly : exponent.Exactly environment .integer count) (negative : count < 0)
    (remaining depth : Nat) :
    ((engine.level remaining depth).specialize "expt" [base, exponent]).Meets allowed
      fun operand => operand.ntype = Tier.rational.ntype := by
  obtain ⟨values, takes, meant⟩ :=
    Operand.Sound.exists_values (.cons baseExactly.1 (.cons exponentExactly.1 .nil))
  have failed : Generic.expt values = .error .zeroDivision := by
    match values, meant with
    | [first, second], .cons firstMeant (.cons secondMeant .nil) =>
        exact Generic.power_zero (Value.meaning?_eq_number_iff.mp firstMeant)
          (Value.meaning?_eq_number_iff.mp secondMeant) negative
  have noLiteral : ∀ number : Int, 0 ≤ number → exponent.isInteger number = false := by
    intro number positive
    by_contra literal
    have same : count = number := Rat.intCast_injective
      (Meaning.number.inj (exponentExactly.1.eq_of_isInteger (Bool.not_eq_false _ ▸ literal)))
    omega
  have chosen : powerTier base exponent = .rational :=
    (powerTier_holds baseExactly.1 exponentExactly.1).2.resolve_right fun whole => by omega
  refine meets_level deep (fun remaining depth => ?_) remaining depth
  refine meets_specializeCall standard Library.power_mem rfl ?_
  rw [fold?_failed rfl failed rfl fun _ => literals?_eq_of_meaning takes meant]
  change (engine.follow depth _ Rule.power [base, exponent]).Meets _ _
  rw [follow_power]
  simp only [powerAnswer, baseExactly.isNumber, exponentExactly.isNumber, Bool.and_self,
    Bool.not_true, Bool.false_eq_true, if_false, noLiteral 2 (by decide), noLiteral 1 (by decide),
    isExactPower_of_exactly baseExactly exponentExactly, if_true, chosen]
  exact Meets.map (meets_zeroTierPower standard deep baseExactly.1 exponentExactly.1 negative
    remaining (depth + 1))

/-- An exact zero swallows a factor of an exact type, even one without a value. -/
theorem meets_swallowed (standard : engine.registry = .standard)
    (deep : ∀ operation, allowed (.depth operation engine.ceiling)) {factor : Operand}
    (typed : factor.ntype = Tier.rational.ntype) (remaining depth : Nat) :
    ((engine.level remaining depth).specialize "*" [.ofConstant (.integer 0), factor]).Meets
      allowed (· = .ofConstant (.integer 0)) := by
  have isArithmetic : Operation.mul.isArithmetic = true := rfl
  have varied : factor.ntype.constant? = none := by
    rw [typed]
    rfl
  have noLiteral : ∀ number : Int, factor.isInteger number = false := by
    intro number
    unfold Operand.isInteger Plan.holdsExact
    rw [varied]
  have isNumber : factor.isNumber = true := by
    rw [Operand.isNumber, typed]
    decide
  have zeroNumber : (Operand.ofConstant (.integer 0)).isNumber = true := by decide
  have simplified : Operand.simplified? .mul (.ofConstant (.integer 0)) factor =
      some (.ofConstant (.integer 0)) := by
    have proven : factor.ntype.proves Tier.rational.ntype = true := by
      rw [typed]
      decide
    have zero : (Operand.ofConstant (.integer 0)).isInteger 0 = true := by decide
    have notOne : (Operand.ofConstant (.integer 0)).isInteger 1 = false := by decide
    simp [Operand.simplified?, Operand.isSwallowed, noLiteral, zero, notOne, proven]
  refine meets_level deep (fun remaining depth => ?_) remaining depth
  refine meets_specializeCall standard (Library.genericRecord_mem isArithmetic) rfl ?_
  rw [fold?_eq_none engine _ (List.mem_cons_of_mem _ List.mem_cons_self) varied]
  change (engine.follow depth _ (Rule.arithmetic .mul) _).Meets _ _
  rw [follow_arithmetic]
  simp only [arithmeticAnswer, zeroNumber, isNumber, Bool.and_self, if_true, pairAnswer, simplified]
  exact meets_pure rfl

end Powers

end Engine

end Narrowing
