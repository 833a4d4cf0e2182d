import Narrowing.Proofs.ExactOperands
import Narrowing.Proofs.ExactPowers
import Narrowing.Proofs.NumberTiers

/-
This file finds the tiers in which the results of the operations of a tier are.
-/

namespace Narrowing

namespace Tier

/-- An operation of a tier may have a result in some tier: sizes are real and roots may leave the
reals. -/
def mayGive (tier : Tier) (operation : Operation) (own : Tier) : Bool :=
  if operation = .abs then tier.part.covers own
  else tier.covers own || (Library.mayLeaveReals tier operation && own = tier.complexFor)

theorem mayGive_of_covers {tier own : Tier} {operation : Operation} (sized : operation ≠ .abs)
    (covers : tier.covers own = true) : tier.mayGive operation own = true := by
  simp [mayGive, sized, covers]

/-- The values that an operation of a tier declares hold all its results. -/
theorem contains_tierValues {tier own : Tier} {operation : Operation} {value : Value}
    (computes : operation.isComparison = false) (gives : tier.mayGive operation own = true)
    (inside : value.InTier own) :
    (Library.tierValues tier operation).primary.contains value = true := by
  have each : ∀ tier ∈ Tier.all, ∀ operation ∈ Operation.all, operation.isComparison = false →
      ∀ own ∈ Tier.all, tier.mayGive operation own = true →
        own.ntype.proves (Library.tierValues tier operation).primary = true := by decide +kernel
  apply Ntype.contains_of_proves (each tier tier.mem_all operation operation.mem_all computes own
    own.mem_all gives)
  exact Ntype.contains_tier_of_inTier inside own.covers_self

theorem contains_tierValues_truth {operation : Operation} (compares : operation.isComparison = true)
    (tier : Tier) (truth : Bool) :
    (Library.tierValues tier operation).primary.contains (.boolean truth) = true := by
  unfold Library.tierValues
  rw [if_pos compares]
  cases truth <;> decide

end Tier

namespace RealFunction

variable {value result : Value}

theorem checked_inTier {infinite : Fault} {argument number : Float}
    (computed : checked infinite argument number = .ok result) : result.InTier .float64 := by
  unfold checked at computed
  split at computed
  · cases computed
  split at computed
  · cases computed
  cases computed
  exact .double number

theorem apply_inTier {function : Float → Float} (computed : apply function value = .ok result) :
    result.InTier .float64 := by
  obtain ⟨argument, _, finished⟩ := exists_of_bind computed
  exact checked_inTier finished

theorem exp_inTier (computed : exp value = .ok result) : result.InTier .float64 := by
  obtain ⟨argument, _, finished⟩ := exists_of_bind computed
  exact checked_inTier finished

theorem positiveLog_inTier (computed : positiveLog value = .ok result) :
    result.InTier .float64 := by
  unfold positiveLog at computed
  split at computed
  · split at computed
    · cases computed
    split at computed <;> cases computed <;> exact .double _
  · exact apply_inTier computed

end RealFunction

namespace ComplexFunction

theorem apply_inTier {function : ComplexDouble → ComplexOutcome} {value result : Value}
    (computed : apply function value = .ok result) : result.InTier .complex128 := by
  obtain ⟨argument, _, finished⟩ := exists_of_bind computed
  unfold checked at finished
  split at finished <;> cases finished
  exact .complexDouble _

end ComplexFunction

namespace RealFunction

variable {value result : Value}

theorem sqrt_inTier (computed : sqrt value = .ok result) :
    result.InTier .float64 ∨ result.InTier .complex128 := by
  obtain ⟨negative, _, finished⟩ := exists_of_bind computed
  cases negative with
  | true => exact .inr (ComplexFunction.apply_inTier finished)
  | false => exact .inl (apply_inTier finished)

theorem log_inTier (computed : log value = .ok result) :
    result.InTier .float64 ∨ result.InTier .complex128 := by
  obtain ⟨negative, _, finished⟩ := exists_of_bind computed
  cases negative with
  | true => exact .inr (ComplexFunction.apply_inTier finished)
  | false => exact .inl (positiveLog_inTier finished)

end RealFunction

namespace Tier

variable {tier own : Tier} {operation : Operation} {value result : Value}

/-- Negations and sizes of exact numbers are exact, and those of integers are integers. -/
theorem exactUnary_inTier (inside : value.InTier own) (isExact : own.isExact = true)
    (computed : Exact.unary operation value = .ok result) :
    result.InTier own := by
  obtain ⟨number, exact⟩ := inside.exists_exact isExact
  have same : own = if number.den = 1 then .integer else .rational :=
    Option.some.inj (inside.tier?.symm.trans (Value.tier?_of_exact exact))
  cases operation with
  | neg =>
      obtain ⟨other, negated, otherExact⟩ := Value.neg_exact exact
      cases computed.symm.trans negated
      have inTier := Value.inTier_of_exact otherExact
      rwa [Rat.neg_den, ← same] at inTier
  | abs =>
      obtain ⟨other, sized, otherExact⟩ := Value.abs_exact exact
      cases computed.symm.trans sized
      have inTier := Value.inTier_of_exact otherExact
      have sameDen : number.abs.den = number.den := by
        unfold Rat.abs
        split
        · rfl
        · exact Rat.neg_den number
      rwa [sameDen, ← same] at inTier
  | _ => cases computed

theorem wideUnary_inTier (inside : value.InTier .float64)
    (computed : Wide.unary operation value = .ok result) :
    ∃ other, result.InTier other ∧ mayGive .float64 operation other = true := by
  cases inside with
  | double number =>
      cases operation with
      | neg =>
          cases computed
          exact ⟨.float64, .double _, rfl⟩
      | abs =>
          cases computed
          exact ⟨.float64, .double _, rfl⟩
      | sqrt =>
          rcases RealFunction.sqrt_inTier computed with real | leaves
          · exact ⟨.float64, real, rfl⟩
          · exact ⟨.complex128, leaves, rfl⟩
      | log =>
          rcases RealFunction.log_inTier computed with real | leaves
          · exact ⟨.float64, real, rfl⟩
          · exact ⟨.complex128, leaves, rfl⟩
      | exp => exact ⟨.float64, RealFunction.exp_inTier computed, rfl⟩
      | sin | cos | tan => exact ⟨.float64, RealFunction.apply_inTier computed, rfl⟩
      | _ => cases computed

theorem wideComplexUnary_inTier (inside : value.InTier .complex128)
    (computed : Wide.complexUnary operation value = .ok result) :
    ∃ other, result.InTier other ∧ mayGive .complex128 operation other = true := by
  cases inside with
  | complexDouble number =>
      cases operation with
      | neg =>
          cases computed
          exact ⟨.complex128, .complexDouble _, rfl⟩
      | abs =>
          obtain ⟨plain, same, sized⟩ := exists_of_bind computed
          cases same
          obtain ⟨size, measured, finished⟩ := exists_of_bind sized
          obtain ⟨float, _, same⟩ := exists_of_map measured
          subst same
          cases finished
          exact ⟨.float64, .double float, rfl⟩
      | sqrt | exp | log | sin | cos | tan =>
          exact ⟨.complex128, ComplexFunction.apply_inTier computed, rfl⟩
      | _ => cases computed

/-- On the device a function of a narrow number has a narrow result. -/
theorem narrowComplexUnary_inTier (narrow : tier ∈ [Tier.float16, .float32, .complex64])
    (inside : value.InTier tier) (computed : Narrow.complexUnary operation value = .ok result) :
    result.InTier (if operation = .abs then tier.part else tier) := by
  have total : operation.isUnary = true → ∃ other, Narrow.complexUnary operation value = .ok other ∧
      other.InTier (if operation = .abs then tier.part else tier) := by
    intro isUnary
    cases inside with
    | half number =>
        cases operation with
        | neg | abs | sqrt | exp | log | sin | cos | tan => exact ⟨_, rfl, .half _⟩
        | _ => cases isUnary
    | single number =>
        cases operation with
        | neg | abs | sqrt | exp | log | sin | cos | tan => exact ⟨_, rfl, .single _⟩
        | _ => cases isUnary
    | complexSingle number =>
        cases operation with
        | neg | sqrt | exp | log | sin | cos | tan => exact ⟨_, rfl, .complexSingle _⟩
        | abs => exact ⟨_, rfl, .single _⟩
        | _ => cases isUnary
    | _ => simp at narrow
  cases isUnary : operation.isUnary with
  | true =>
      obtain ⟨other, succeeded, inTier⟩ := total isUnary
      cases computed.symm.trans succeeded
      exact inTier
  | false => cases operation <;> first | cases isUnary; done | cases computed

theorem narrowUnary_inTier (narrow : tier = .float16 ∨ tier = .float32)
    (inside : value.InTier tier) (computed : Narrow.unary operation value = .ok result) :
    ∃ other, result.InTier other ∧ tier.mayGive operation other = true := by
  have stays : Narrow.complexUnary operation value = .ok result →
      ∃ other, result.InTier other ∧ tier.mayGive operation other = true := by
    intro computed
    have member : tier ∈ [Tier.float16, .float32, .complex64] := by
      rcases narrow with rfl | rfl <;> decide
    refine ⟨_, narrowComplexUnary_inTier member inside computed, ?_⟩
    rcases narrow with rfl | rfl <;> cases operation <;> rfl
  have leaves : Narrow.leavesReals operation = true → ∀ converted,
      Device.ofTier .complex64 value = .ok converted →
      Narrow.complexUnary operation converted = .ok result →
      ∃ other, result.InTier other ∧ tier.mayGive operation other = true := by
    intro leavesReals converted moved computed
    obtain ⟨number, same⟩ : ∃ number, converted =
        .array (.ofDeviceScalar (.complexSingle number) false) := by
      rcases narrow with rfl | rfl <;> cases inside <;> cases moved <;> exact ⟨_, rfl⟩
    subst same
    cases operation with
    | sqrt | log =>
        cases computed
        refine ⟨.complex64, .complexSingle _, ?_⟩
        rcases narrow with rfl | rfl <;> rfl
    | _ => cases leavesReals
  unfold Narrow.unary at computed
  split at computed
  · rename_i leavesReals
    obtain ⟨negative, _, finished⟩ := exists_of_bind computed
    cases negative with
    | true =>
        obtain ⟨converted, moved, finished⟩ := exists_of_bind finished
        exact leaves leavesReals converted moved (by simpa using finished)
    | false => exact stays finished
  · exact stays computed

/-- An operation of a tier on one number of the tier gives a number of its declared values. -/
theorem unary_inTier (inside : value.InTier own) (covers : tier.covers own = true)
    (computed : tier.unary operation value = .ok result) :
    ∃ other, result.InTier other ∧ tier.mayGive operation other = true := by
  cases tier with
  | integer =>
      obtain rfl : own = .integer := (covers_iff.mp covers).resolve_right nofun
      have inTier := exactUnary_inTier inside rfl computed
      refine ⟨.integer, inTier, ?_⟩
      cases operation <;> rfl
  | rational =>
      have isExact : own.isExact = true := by
        rcases covers_iff.mp covers with rfl | ⟨_, rfl⟩ <;> rfl
      obtain ⟨middle, computed, same⟩ := exists_of_map computed
      obtain ⟨number, exact⟩ := (exactUnary_inTier inside isExact computed).exists_exact isExact
      have inTier := Value.inTier_of_exact (same ▸ Value.exactNumber?_normalized exact)
      refine ⟨_, inTier, ?_⟩
      split <;> cases operation <;> rfl
  | float16 | float32 =>
      cases eq_of_covers covers rfl
      exact narrowUnary_inTier (by simp) inside computed
  | float64 =>
      cases eq_of_covers covers rfl
      exact wideUnary_inTier inside computed
  | complex64 =>
      cases eq_of_covers covers rfl
      refine ⟨_, narrowComplexUnary_inTier (by decide) inside computed, ?_⟩
      cases operation <;> rfl
  | complex128 =>
      cases eq_of_covers covers rfl
      exact wideComplexUnary_inTier inside computed

end Tier

namespace PlainNumber

/-- A power of doubles leaves the reals only for an exponent that is not whole. -/
theorem doublePower_cases {base exponent : Float} {result : PlainNumber}
    (computed : doublePower base exponent = .ok result) :
    (∃ number, result = .double number) ∨
      (∃ number, result = .complex number) ∧ Double.isIntegral exponent = false := by
  unfold doublePower at computed
  split at computed
  · cases computed
  split at computed
  · rename_i leaves
    obtain ⟨power, _, finished⟩ := exists_of_bind computed
    split at finished <;> cases finished
    simp only [Bool.and_eq_true, Bool.not_eq_true'] at leaves
    exact .inr ⟨⟨power, rfl⟩, leaves.2⟩
  · simp only at computed
    split at computed <;> cases computed
    exact .inl ⟨_, rfl⟩

theorem complexPower_cases {base exponent : ComplexDouble} {result : PlainNumber}
    (computed : complexPower base exponent = .ok result) : ∃ number, result = .complex number := by
  obtain ⟨power, _, finished⟩ := exists_of_bind computed
  split at finished <;> cases finished
  exact ⟨power, rfl⟩

end PlainNumber

namespace Tier

variable {tier left right : Tier} {operation : Operation} {first second result : Value}

/-- A comparison in any tier answers with a truth value. -/
theorem binary_truth (compares : operation.isComparison = true)
    (computed : tier.binary operation first second = .ok result) :
    ∃ truth, result = .boolean truth := by
  have exact : ∀ {result : Value}, Exact.binary operation first second = .ok result →
      ∃ truth, result = .boolean truth := by
    intro result computed
    cases operation with
    | lt | eq =>
        obtain ⟨truth, _, same⟩ := exists_of_map computed
        exact ⟨truth, same.symm⟩
    | _ => cases compares
  cases tier with
  | rational =>
      have normalized : (Exact.binary operation first second).map Value.normalized = .ok result := by
        cases operation with
        | lt | eq => exact computed
        | _ => cases compares
      obtain ⟨middle, computed, same⟩ := exists_of_map normalized
      obtain ⟨truth, rfl⟩ := exact computed
      exact ⟨truth, same.symm⟩
  | _ =>
      cases operation with
      | lt | eq => exact exact computed
      | _ => cases compares

/-- On the device sums, differences, products and quotients of narrow numbers stay narrow. -/
theorem narrowArithmetic_total (narrow : tier ∈ [Tier.float16, .float32, .complex64])
    (isArithmetic : operation.isArithmetic = true) (firstInside : first.InTier tier)
    (secondInside : second.InTier tier) :
    ∃ result, tier.binary operation first second = .ok result ∧ result.InTier tier := by
  cases firstInside with
  | half =>
      cases secondInside
      cases operation with
      | add | sub | mul | div => exact ⟨_, rfl, .half _⟩
      | _ => cases isArithmetic
  | single =>
      cases secondInside
      cases operation with
      | add | sub | mul | div => exact ⟨_, rfl, .single _⟩
      | _ => cases isArithmetic
  | complexSingle =>
      cases secondInside
      cases operation with
      | add | sub | mul | div => exact ⟨_, rfl, .complexSingle _⟩
      | _ => cases isArithmetic
  | _ => simp at narrow

/-- Sums and products of inexact numbers of one tier exist in this tier. -/
theorem binary_total (inexact : tier.isExact = false) (repeats : operation.identity?.isSome = true)
    (firstInside : first.InTier tier) (secondInside : second.InTier tier) :
    ∃ result, tier.binary operation first second = .ok result ∧ result.InTier tier := by
  have isArithmetic : operation.isArithmetic = true := by
    cases operation with
    | add | mul => rfl
    | _ => cases repeats
  cases tier with
  | integer | rational => cases inexact
  | float16 | float32 | complex64 =>
      exact narrowArithmetic_total (by decide) isArithmetic firstInside secondInside
  | float64 =>
      cases firstInside
      cases secondInside
      cases operation with
      | add | mul => exact ⟨_, rfl, .double _⟩
      | _ => cases repeats
  | complex128 =>
      cases firstInside
      cases secondInside
      cases operation with
      | add | mul => exact ⟨_, rfl, .complexDouble _⟩
      | _ => cases repeats

/-- Arithmetic on inexact numbers of one tier stays in this tier. -/
theorem arithmetic_inTier (inexact : tier.isExact = false)
    (isArithmetic : operation.isArithmetic = true) (firstInside : first.InTier tier)
    (secondInside : second.InTier tier)
    (computed : tier.binary operation first second = .ok result) : result.InTier tier := by
  cases tier with
  | integer | rational => cases inexact
  | float16 | float32 | complex64 =>
      obtain ⟨other, succeeded, inTier⟩ :=
        narrowArithmetic_total (by decide) isArithmetic firstInside secondInside
      cases computed.symm.trans succeeded
      exact inTier
  | float64 =>
      cases firstInside
      cases secondInside
      cases operation with
      | add | sub | mul =>
          cases computed
          exact .double _
      | div =>
          obtain ⟨quotient, divided, same⟩ := exists_of_map computed
          subst same
          change (if _ then _ else _ : Except Fault PlainNumber) = _ at divided
          split at divided <;> cases divided
          exact .double _
      | _ => cases isArithmetic
  | complex128 =>
      cases firstInside
      cases secondInside
      cases operation with
      | add | sub | mul =>
          cases computed
          exact .complexDouble _
      | div =>
          obtain ⟨quotient, divided, same⟩ := exists_of_map computed
          subst same
          obtain ⟨number, _, same⟩ := exists_of_map divided
          subst same
          exact .complexDouble number
      | _ => cases isArithmetic

/-- A power of narrow real numbers leaves the reals only for an exponent that is not whole. -/
theorem realPower_cases (narrow : tier = .float16 ∨ tier = .float32)
    (firstInside : first.InTier tier) (secondInside : second.InTier tier)
    (computed : Narrow.realPower first second = .ok result) :
    result.InTier tier ∨ result.InTier .complex64 ∧
      ∀ number, second.toDouble = .ok number → Double.isIntegral number = false := by
  have real : (∃ number, Device.pow first second = .ok (.array (.ofDeviceScalar number false)) ∧
      (Value.scalar number).InTier tier) := by
    rcases narrow with rfl | rfl
    · cases firstInside
      cases secondInside
      exact ⟨_, rfl, .half _⟩
    · cases firstInside
      cases secondInside
      exact ⟨_, rfl, .single _⟩
  have stays : Value.toHost <$> Device.pow first second = .ok result → result.InTier tier := by
    intro finished
    obtain ⟨number, powered, inTier⟩ := real
    rw [powered] at finished
    cases finished
    exact inTier
  obtain ⟨negative, _, finished⟩ := exists_of_bind computed
  cases negative with
  | false => exact .inl (stays finished)
  | true =>
      obtain ⟨number, read, finished⟩ := exists_of_bind finished
      cases whole : Double.isIntegral number with
      | true =>
          rw [whole] at finished
          exact .inl (stays finished)
      | false =>
          rw [whole] at finished
          refine .inr ⟨?_, fun other alsoRead => ?_⟩
          · rcases narrow with rfl | rfl
            · cases firstInside
              cases secondInside
              cases finished
              exact .complexSingle _
            · cases firstInside
              cases secondInside
              cases finished
              exact .complexSingle _
          · cases read.symm.trans alsoRead
            exact whole

/-- A power of inexact numbers leaves the reals only for an exponent that is not whole. -/
theorem power_cases (inexact : tier.isExact = false) (firstInside : first.InTier tier)
    (secondInside : second.InTier tier) (computed : tier.binary .expt first second = .ok result) :
    result.InTier tier ∨ (tier.isComplex = false ∧ result.InTier tier.complexFor) ∧
      ∀ number, second.toDouble = .ok number → Double.isIntegral number = false := by
  cases tier with
  | integer | rational => cases inexact
  | float16 =>
      rcases realPower_cases (.inl rfl) firstInside secondInside computed with stays | leaves
      · exact .inl stays
      · exact .inr ⟨⟨rfl, leaves.1⟩, leaves.2⟩
  | float32 =>
      rcases realPower_cases (.inr rfl) firstInside secondInside computed with stays | leaves
      · exact .inl stays
      · exact .inr ⟨⟨rfl, leaves.1⟩, leaves.2⟩
  | float64 =>
      cases firstInside
      cases secondInside with
      | double exponent =>
          obtain ⟨power, powered, same⟩ := exists_of_map computed
          subst same
          rcases PlainNumber.doublePower_cases powered with ⟨number, rfl⟩ | ⟨⟨number, rfl⟩, broken⟩
          · exact .inl (.double number)
          · refine .inr ⟨⟨rfl, .complexDouble number⟩, fun other read => ?_⟩
            cases read
            exact broken
  | complex64 =>
      cases firstInside
      cases secondInside
      cases computed
      exact .inl (.complexSingle _)
  | complex128 =>
      cases firstInside
      cases secondInside
      obtain ⟨power, powered, same⟩ := exists_of_map computed
      subst same
      obtain ⟨number, rfl⟩ := PlainNumber.complexPower_cases powered
      exact .inl (.complexDouble number)

theorem covers_of_exact {number : Rat} (isExact : tier.isExact = true)
    (exact : result.exactNumber? = some number) (held : tier = .rational ∨ number.den = 1) :
    ∃ own, result.InTier own ∧ tier.covers own = true := by
  refine ⟨_, Value.inTier_of_exact exact, ?_⟩
  cases tier with
  | integer =>
      rw [if_pos (held.resolve_left (by decide))]
      rfl
  | rational => split <;> rfl
  | _ => cases isExact

/-- A power in the integer tier is the exact power with an exponent that is not negative. -/
theorem integerPower_inTier (firstInside : first.InTier .integer)
    (secondInside : second.InTier .integer)
    (computed : Exact.integerPower first second = .ok result) : result.InTier .integer := by
  obtain ⟨base, firstExact⟩ := firstInside.exists_exact rfl
  obtain ⟨exponent, secondExact⟩ := secondInside.exists_exact rfl
  have whole := (Value.tier?_integer_iff firstExact).mp firstInside.tier?
  have count := (Value.tier?_integer_iff secondExact).mp secondInside.tier?
  rw [← (Rat.den_eq_one_iff base).mp whole] at firstExact
  rw [← (Rat.den_eq_one_iff exponent).mp count] at secondExact
  by_cases positive : 0 ≤ exponent.num
  · obtain ⟨power, succeeded, exact⟩ :=
      Generic.integerPower_exact firstExact secondExact positive
    cases computed.symm.trans succeeded
    rw [← Value.wholePower_cast base.num exponent.num positive] at exact
    have inTier := Value.inTier_of_exact exact
    rwa [Rat.den_intCast] at inTier
  · have tested : second.isNegative = .ok (decide ((exponent.num : Rat) < ((0 : Int) : Rat))) :=
      Value.less_exact secondExact rfl
    rw [decide_eq_true (by exact_mod_cast Int.not_le.mp positive)] at tested
    simp only [Exact.integerPower, tested] at computed
    cases computed

theorem quotient_inTier (computed : Rational.quotient first second = .ok result) :
    ∃ own, result.InTier own ∧ Tier.rational.covers own = true := by
  obtain ⟨top, _, computed⟩ := exists_of_bind computed
  obtain ⟨bottom, _, computed⟩ := exists_of_bind computed
  split at computed <;> cases computed
  exact covers_of_exact rfl (Value.exactNumber?_ofRat _) (.inl rfl)

theorem rationalPower_inTier (computed : Rational.power first second = .ok result) :
    ∃ own, result.InTier own ∧ Tier.rational.covers own = true := by
  obtain ⟨exact, _, computed⟩ := exists_of_bind computed
  obtain ⟨count, _, computed⟩ := exists_of_bind computed
  obtain ⟨power, _, same⟩ := exists_of_map computed
  subst same
  exact covers_of_exact rfl (Value.exactNumber?_ofRat _) (.inl rfl)

/-- Operations of exact tiers stay in their tier. -/
theorem exactBinary_inTier (isExact : tier.isExact = true)
    (computes : operation.isComparison = false) (firstInside : first.InTier left)
    (secondInside : second.InTier right) (firstCovered : tier.covers left = true)
    (secondCovered : tier.covers right = true)
    (computed : tier.binary operation first second = .ok result) :
    ∃ own, result.InTier own ∧ tier.covers own = true := by
  obtain ⟨base, firstExact⟩ := firstInside.exists_exact (exact_of_covers isExact firstCovered)
  obtain ⟨other, secondExact⟩ :=
    secondInside.exists_exact (exact_of_covers isExact secondCovered)
  have wholeOf : ∀ {value : Value} {own number}, value.InTier own → tier.covers own = true →
      value.exactNumber? = some number → tier = .rational ∨ number.den = 1 := by
    intro value own number inside covered exact
    cases tier with
    | integer =>
        obtain rfl := (covers_iff.mp covered).resolve_right nofun
        exact .inr ((Value.tier?_integer_iff exact).mp inside.tier?)
    | rational => exact .inl rfl
    | _ => cases isExact
  have ring : ∀ number, operation.meaning? base other = some (.number number) →
      operation ≠ .div → tier.offers operation = true →
      ∃ own, result.InTier own ∧ tier.covers own = true := by
    intro number meant undivided offered
    obtain ⟨found, succeeded, foundMeant⟩ :=
      binary_exact isExact offered firstExact secondExact meant
    cases computed.symm.trans succeeded
    apply covers_of_exact isExact (Value.meaning?_eq_number_iff.mp foundMeant)
    rcases wholeOf firstInside firstCovered firstExact with rational | firstWhole
    · exact .inl rational
    rcases wholeOf secondInside secondCovered secondExact with rational | secondWhole
    · exact .inl rational
    exact .inr (whole_of_meaning meant undivided firstWhole secondWhole)
  cases tier with
  | integer =>
      obtain rfl := (covers_iff.mp firstCovered).resolve_right nofun
      obtain rfl := (covers_iff.mp secondCovered).resolve_right nofun
      cases operation with
      | add | sub | mul => exact ring _ rfl (by decide) rfl
      | expt => exact ⟨.integer, integerPower_inTier firstInside secondInside computed, rfl⟩
      | lt | eq => cases computes
      | _ => cases computed
  | rational =>
      cases operation with
      | add | sub | mul => exact ring _ rfl (by decide) rfl
      | div => exact quotient_inTier computed
      | expt => exact rationalPower_inTier computed
      | lt | eq => cases computes
      | _ => cases computed
  | _ => cases isExact

/-- An operation of a tier on two numbers of the tier gives a number of its declared values. -/
theorem binary_inTier (computes : operation.isComparison = false) (firstInside : first.InTier left)
    (secondInside : second.InTier right) (firstCovered : tier.covers left = true)
    (secondCovered : tier.covers right = true)
    (computed : tier.binary operation first second = .ok result) :
    ∃ own, result.InTier own ∧ tier.mayGive operation own = true := by
  have sized : operation ≠ .abs := by
    rintro rfl
    cases tier <;> cases computed
  cases inexact : tier.isExact with
  | true =>
      obtain ⟨own, inside, covers⟩ := exactBinary_inTier inexact computes firstInside secondInside
        firstCovered secondCovered computed
      exact ⟨own, inside, mayGive_of_covers sized covers⟩
  | false =>
      cases eq_of_covers firstCovered inexact
      cases eq_of_covers secondCovered inexact
      have stays : result.InTier tier →
          ∃ own, result.InTier own ∧ tier.mayGive operation own = true := fun inside =>
        ⟨tier, inside, mayGive_of_covers sized tier.covers_self⟩
      cases operation with
      | add | sub | mul | div =>
          exact stays (arithmetic_inTier inexact rfl firstInside secondInside computed)
      | expt =>
          rcases power_cases inexact firstInside secondInside computed with inside | leaves
          · exact stays inside
          · refine ⟨tier.complexFor, leaves.1.2, ?_⟩
            simp [mayGive, Library.mayLeaveReals, inexact, leaves.1.1]
      | lt | eq => cases computes
      | _ => cases tier <;> cases computed

/-- An operation of a tier on numbers of the tier gives values that it declares. -/
theorem contains_of_compute {values : List Value}
    (each : ∀ value ∈ values, ∃ own, value.InTier own ∧ tier.covers own = true)
    (computed : tier.compute operation values = .ok result) :
    (Library.tierValues tier operation).primary.contains result = true ∧
      result.isStandard = true := by
  unfold compute at computed
  split at computed
  · rename_i value isUnary
    obtain ⟨own, inside, covers⟩ := each value List.mem_cons_self
    obtain ⟨other, inTier, gives⟩ := unary_inTier inside covers computed
    have computes : operation.isComparison = false := by
      cases operation <;> first | rfl | cases isUnary
    exact ⟨contains_tierValues computes gives inTier, inTier.isStandard⟩
  · rename_i first second _
    cases compares : operation.isComparison with
    | true =>
        obtain ⟨truth, rfl⟩ := binary_truth compares computed
        exact ⟨contains_tierValues_truth compares tier truth, rfl⟩
    | false =>
        obtain ⟨left, firstInside, firstCovered⟩ := each first List.mem_cons_self
        obtain ⟨right, secondInside, secondCovered⟩ :=
          each second (List.mem_cons_of_mem first List.mem_cons_self)
        obtain ⟨other, inTier, gives⟩ := binary_inTier compares firstInside secondInside
          firstCovered secondCovered computed
        exact ⟨contains_tierValues compares gives inTier, inTier.isStandard⟩
  · cases computed

end Tier

end Narrowing
