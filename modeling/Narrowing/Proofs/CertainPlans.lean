import Narrowing.Proofs.ExactCalls
import Narrowing.Proofs.RunnableDerivatives

/-
This file shows that the rules of the library ask only for what they get: types of operands that
they know, and calls with as many operands as the library accepts.
-/

namespace Narrowing

/-- The library accepts this number of operands; it accepts any for an unknown operation. -/
def Registry.Accepts (operation : String) (count : Nat) : Prop :=
  (standard.ensure operation).accepts count = true

namespace Registry

theorem accepts_record {record : Record} (member : record ∈ Library.records) {count : Nat}
    (accepts : record.accepts count = true) : Accepts record.name count :=
  (standard_ensure_accepts member count).trans accepts

theorem accepts_arithmetic {operation : Operation} (isArithmetic : operation.isArithmetic = true)
    {count : Nat} (enough : operation.identity?.isSome = true ∨ 0 < count) :
    Accepts operation.symbol count :=
  accepts_record (Library.genericRecord_mem isArithmetic)
    ((Library.genericRecord_accepts operation count).mpr enough)

theorem accepts_function {operation : Operation} (isFunction : operation ∈ Library.functions) :
    Accepts operation.symbol 1 := accepts_record (Library.function_mem isFunction) rfl

theorem accepts_power : Accepts "expt" 2 := accepts_record Library.power_mem rfl

theorem accepts_coercion {tier : Tier} {operation : String}
    (found : tier.coercion? = some operation) : Accepts operation 1 := by
  have among : tier ∈ Library.inexactTiers := by
    cases tier with
    | integer | rational => cases found
    | _ => decide
  have named : operation = tier.name := by
    unfold Tier.coercion? at found
    split at found
    · cases found
    · exact (Option.some.inj found).symm
  exact named ▸ accepts_record (Library.coercion_mem among) rfl

/-- An operation that a tier does not offer is unknown, and then it takes any operands. -/
theorem accepts_tier (tier : Tier) (operation : Operation) :
    Accepts (tier.operationName operation) (if operation.isUnary then 1 else 2) := by
  cases offered : tier.offers operation with
  | true =>
      refine accepts_record (Library.tier_mem offered) ?_
      cases operation <;> rfl
  | false =>
      have unknown : ∀ tier ∈ Tier.all, ∀ operation ∈ Operation.all, tier.offers operation = false →
          (standard.ensure (tier.operationName operation)).accepts
            (if operation.isUnary then 1 else 2 : Nat) = true := by decide +kernel
      exact unknown tier tier.mem_all operation operation.mem_all offered

end Registry

namespace Plan

variable {First Result : Type}

/-- With so many operands known, the plan asks for literals, for types of known operands and for
calls of known operands that the library accepts, and in the end its result has a property, which
may depend on the number of operands that are known then. -/
inductive IsCertain {Result : Type} (ends : Nat → Result → Prop) : Nat → Plan Result → Prop where
  | done {count : Nat} {result : Result} (holds : ends count result) :
      IsCertain ends count (.done result)
  | constant {count : Nat} {value : Value} {next : Handle → Plan Result}
      (rest : IsCertain ends (count + 1) (next count)) :
      IsCertain ends count (.constant value next)
  | call {count : Nat} {operation : String} {handles : List Handle} {next : Handle → Plan Result}
      (known : ∀ handle ∈ handles, handle < count)
      (accepted : Registry.Accepts operation handles.length)
      (rest : IsCertain ends (count + 1) (next count)) :
      IsCertain ends count (.call operation handles next)
  | ntype {count : Nat} {handle : Handle} {next : Ntype → Plan Result} (known : handle < count)
      (rest : ∀ type, IsCertain ends count (next type)) : IsCertain ends count (.ntype handle next)
  | registered {count : Nat} {operation : String} {next : Bool → Plan Result}
      (rest : ∀ present, IsCertain ends count (next present)) :
      IsCertain ends count (.registered operation next)

/-- The plan ends with a known operand. -/
def IsKnown (count : Nat) (handle : Handle) : Prop := handle < count

/-- The plan ends with a known operand if it does not give up. -/
def MayAnswer (count : Nat) (answer : Option Handle) : Prop := ∀ handle ∈ answer, handle < count

/-- The plan does not give up. -/
def DoesAnswer (count : Nat) (answer : Option Handle) : Prop :=
  ∃ handle, answer = some handle ∧ handle < count

/-- Anything may come of the plan. -/
def Anything {Result : Type} (_ : Nat) (_ : Result) : Prop := True

theorem forall_mem_pair {first second count : Nat} (firstKnown : first < count)
    (secondKnown : second < count) : ∀ handle ∈ [first, second], handle < count :=
  List.forall_mem_cons.mpr ⟨firstKnown, List.forall_mem_singleton.mpr secondKnown⟩

theorem mayAnswer_none (count : Nat) : MayAnswer count none := nofun

theorem mayAnswer_some {count : Nat} {handle : Handle} (known : handle < count) :
    MayAnswer count (some handle) := by
  rintro _ ⟨⟩
  exact known

namespace IsCertain

variable {ends : Nat → First → Prop} {further : Nat → Result → Prop} {count : Nat}

theorem bind {plan : Plan First} {next : First → Plan Result} (certain : plan.IsCertain ends count)
    (rest : ∀ later result, count ≤ later → ends later result →
      (next result).IsCertain further later) : (plan >>= next).IsCertain further count := by
  induction certain with
  | done holds => exact rest _ _ (Nat.le_refl _) holds
  | constant _ inductionHypothesis =>
      exact .constant (inductionHypothesis fun later result grown =>
        rest later result (Nat.le_of_succ_le grown))
  | call known accepted _ inductionHypothesis =>
      exact .call known accepted (inductionHypothesis fun later result grown =>
        rest later result (Nat.le_of_succ_le grown))
  | ntype known _ inductionHypothesis =>
      exact .ntype known fun type => inductionHypothesis type rest
  | registered _ inductionHypothesis =>
      exact .registered fun present => inductionHypothesis present rest

theorem mono {plan : Plan First} {weaker : Nat → First → Prop}
    (certain : plan.IsCertain ends count)
    (implies : ∀ later result, ends later result → weaker later result) :
    plan.IsCertain weaker count := by
  have extended : (plan >>= Plan.done).IsCertain weaker count :=
    certain.bind fun later result _ holds => .done (implies later result holds)
  rwa [show (plan >>= Plan.done) = plan from bind_done plan] at extended

theorem ofConstant (value : Value) : (Plan.ofConstant value).IsCertain IsKnown count :=
  .constant (.done (Nat.lt_succ_self count))

theorem ofCall {operation : String} {handles : List Handle}
    (known : ∀ handle ∈ handles, handle < count)
    (accepted : Registry.Accepts operation handles.length) :
    (Plan.ofCall operation handles).IsCertain IsKnown count :=
  .call known accepted (.done (Nat.lt_succ_self count))

theorem ofArithmetic (operation : Operation) (isArithmetic : operation.isArithmetic = true)
    {handles : List Handle} (enough : operation.identity?.isSome = true ∨ 0 < handles.length)
    (known : ∀ handle ∈ handles, handle < count) :
    (Plan.ofCall operation.symbol handles).IsCertain IsKnown count :=
  ofCall known (Registry.accepts_arithmetic isArithmetic enough)

theorem ofCons (operation : Operation) (isArithmetic : operation.isArithmetic = true)
    {handle : Handle} {rest : List Handle} (known : ∀ other ∈ handle :: rest, other < count) :
    (Plan.ofCall operation.symbol (handle :: rest)).IsCertain IsKnown count :=
  ofArithmetic operation isArithmetic (.inr (Nat.succ_pos _)) known

theorem ofPair (operation : Operation) (isArithmetic : operation.isArithmetic = true)
    {first second : Handle} (firstKnown : first < count) (secondKnown : second < count) :
    (Plan.ofCall operation.symbol [first, second]).IsCertain IsKnown count :=
  ofCons operation isArithmetic (forall_mem_pair firstKnown secondKnown)

theorem ofFunction (operation : Operation) (isFunction : operation ∈ Library.functions)
    {handle : Handle} (known : handle < count) :
    (Plan.ofCall operation.symbol [handle]).IsCertain IsKnown count :=
  ofCall (List.forall_mem_singleton.mpr known) (Registry.accepts_function isFunction)

theorem ofPower {base exponent : Handle} (baseKnown : base < count)
    (exponentKnown : exponent < count) :
    (Plan.ofCall "expt" [base, exponent]).IsCertain IsKnown count :=
  ofCall (forall_mem_pair baseKnown exponentKnown) Registry.accepts_power

/-- A plan for an operand answers with it. -/
theorem answers {plan : Plan Handle} (certain : plan.IsCertain IsKnown count) :
    (some <$> plan : Plan (Option Handle)).IsCertain DoesAnswer count :=
  certain.bind fun _ handle _ known => .done ⟨handle, rfl, known⟩

theorem mayAnswer {plan : Plan (Option Handle)} (certain : plan.IsCertain DoesAnswer count) :
    plan.IsCertain MayAnswer count := by
  refine certain.mono ?_
  rintro later _ ⟨handle, rfl, known⟩
  exact mayAnswer_some known

theorem typeOf {handle : Handle} (known : handle < count) :
    (Plan.typeOf handle).IsCertain Anything count := .ntype known fun _ => .done trivial

theorem proves {handle : Handle} (known : handle < count) (type : Ntype) :
    (Plan.proves handle type).IsCertain Anything count := .ntype known fun _ => .done trivial

theorem isInteger (number : Int) {handle : Handle} (known : handle < count) :
    (Plan.isInteger number handle).IsCertain Anything count := .ntype known fun _ => .done trivial

theorem anyUnproven {handles : List Handle} (known : ∀ handle ∈ handles, handle < count) :
    (Plan.anyUnproven handles).IsCertain Anything count := by
  induction handles generalizing count with
  | nil => exact .done trivial
  | cons handle rest inductionHypothesis =>
      obtain ⟨first, others⟩ := List.forall_mem_cons.mp known
      refine (proves first .number).bind fun later proven grown _ => ?_
      split
      · exact inductionHypothesis fun other member => (others other member).trans_le grown
      · exact .done trivial

/-- A plan after a test is certain if it is so for both answers. -/
theorem test {plan : Plan Bool} {next : Bool → Plan Result}
    (certain : plan.IsCertain Anything count)
    (rest : ∀ later, count ≤ later → ∀ holds, (next holds).IsCertain further later) :
    (plan >>= next).IsCertain further count :=
  certain.bind fun later holds grown _ => rest later grown holds

theorem toTier {handle : Handle} (known : handle < count) (tier : Tier) :
    (Plan.toTier handle tier).IsCertain IsKnown count := by
  unfold Plan.toTier
  split
  · exact .done known
  · rename_i operation found
    refine .ntype known fun own => ?_
    split
    · exact .done known
    · exact .ofCall (List.forall_mem_singleton.mpr known) (Registry.accepts_coercion found)

/-- The call of an operation of a tier. -/
theorem ofTierCall {operation : Operation} {handles : List Handle} (tier : Tier)
    (known : ∀ handle ∈ handles, handle < count)
    (sized : handles.length = if operation.isUnary then 1 else 2) :
    (some <$> Plan.ofCall (tier.operationName operation) handles).IsCertain MayAnswer count := by
  refine (ofCall known ?_).answers.mayAnswer
  rw [sized]
  exact Registry.accepts_tier tier operation

theorem tierCall {operation : Operation} {first second : Handle}
    (binary : operation.isUnary = false) (firstKnown : first < count)
    (secondKnown : second < count) (tier : Tier) :
    (Plan.tierCall tier operation first second).IsCertain MayAnswer count := by
  refine .registered fun present => ?_
  cases present with
  | false => exact .done (mayAnswer_none count)
  | true =>
      refine (toTier firstKnown tier).bind fun later left grown leftKnown => ?_
      refine (toTier (secondKnown.trans_le grown) tier).bind
        fun last right grownAgain rightKnown => ?_
      exact ofTierCall tier (forall_mem_pair (leftKnown.trans_le grownAgain) rightKnown)
        (by rw [binary]; rfl)

theorem binaryCall {operation : Operation} {first second : Handle}
    (binary : operation.isUnary = false) (inexact : Bool) (firstKnown : first < count)
    (secondKnown : second < count) :
    (Plan.binaryCall operation inexact first second).IsCertain MayAnswer count := by
  refine (typeOf firstKnown).bind fun later left grown _ => ?_
  refine (typeOf (secondKnown.trans_le grown)).bind fun last right further _ => ?_
  split
  · exact .done (mayAnswer_none last)
  · exact tierCall binary (firstKnown.trans_le (grown.trans further))
      (secondKnown.trans_le (grown.trans further)) _

theorem unaryCall {operation : Operation} {handle : Handle} (unary : operation.isUnary = true)
    (known : handle < count) : (Plan.unaryCall operation handle).IsCertain MayAnswer count := by
  refine (typeOf known).bind fun later type grown _ => ?_
  split
  · exact .done (mayAnswer_none later)
  · refine (toTier (known.trans_le grown) _).bind fun last argument _ argumentKnown => ?_
    exact ofTierCall _ (List.forall_mem_singleton.mpr argumentKnown) (by rw [unary]; rfl)

end IsCertain

end Plan

namespace Rule

open Plan

variable {operation : Operation} {handles : List Handle} {first second handle : Handle}
  {count : Nat}

/-- A test that decides whether a simplification comes to an end. -/
theorem isCertain_when {test : Plan Bool} {chosen : Handle} {otherwise : Plan (Option Handle)}
    (certain : test.IsCertain Anything count) (known : chosen < count)
    (rest : ∀ later, count ≤ later → otherwise.IsCertain MayAnswer later) :
    (test >>= fun holds => if holds then pure (some chosen) else otherwise).IsCertain MayAnswer
      count := by
  refine certain.test fun later grown holds => ?_
  split
  · exact .done (mayAnswer_some (known.trans_le grown))
  · exact rest later grown

theorem isCertain_isSwallowed (firstKnown : first < count) (secondKnown : second < count) :
    (isSwallowed first second).IsCertain Anything count := by
  refine (IsCertain.isInteger 0 secondKnown).test fun later grown zero => ?_
  split
  · exact .proves (firstKnown.trans_le grown) _
  · exact .done trivial

theorem isCertain_simplify (firstKnown : first < count) (secondKnown : second < count) :
    (simplify operation first second).IsCertain MayAnswer count := by
  have ends (later : Nat) : (pure none : Plan (Option Handle)).IsCertain MayAnswer later :=
    .done (mayAnswer_none later)
  have whenFirst {test : Plan Bool} {otherwise : Plan (Option Handle)} {later : Nat}
      (grown : count ≤ later) (certain : test.IsCertain Anything later)
      (rest : ∀ last, count ≤ last → otherwise.IsCertain MayAnswer last) :=
    isCertain_when certain (firstKnown.trans_le grown) fun last further =>
      rest last (grown.trans further)
  have whenSecond {test : Plan Bool} {otherwise : Plan (Option Handle)} {later : Nat}
      (grown : count ≤ later) (certain : test.IsCertain Anything later)
      (rest : ∀ last, count ≤ last → otherwise.IsCertain MayAnswer last) :=
    isCertain_when certain (secondKnown.trans_le grown) fun last further =>
      rest last (grown.trans further)
  have isFirst (number : Int) {later : Nat} (grown : count ≤ later) :
      (isInteger number first).IsCertain Anything later :=
    .isInteger number (firstKnown.trans_le grown)
  have isSecond (number : Int) {later : Nat} (grown : count ≤ later) :
      (isInteger number second).IsCertain Anything later :=
    .isInteger number (secondKnown.trans_le grown)
  have least := Nat.le_refl count
  cases operation with
  | add =>
      exact whenFirst least (isSecond 0 least) fun later grown =>
        whenSecond grown (isFirst 0 grown) fun last _ => ends last
  | sub => exact whenFirst least (isSecond 0 least) fun later _ => ends later
  | mul =>
      refine whenFirst least (isSecond 1 least) fun later grown =>
        whenSecond grown (isFirst 1 grown) fun later grown =>
          whenSecond grown (isCertain_isSwallowed ?_ ?_) fun later grown =>
            whenFirst grown (isCertain_isSwallowed ?_ ?_) fun last _ => ends last
      all_goals
        first
        | exact firstKnown.trans_le grown
        | exact secondKnown.trans_le grown
  | div => exact whenFirst least (isSecond 1 least) fun later _ => ends later
  | _ => exact ends count

theorem isCertain_chain (isArithmetic : operation.isArithmetic = true) {rest : List Handle}
    (firstKnown : first < count) (known : ∀ handle ∈ rest, handle < count) :
    (chain operation first rest).IsCertain IsKnown count := by
  induction rest generalizing first count with
  | nil => exact .done firstKnown
  | cons second rest inductionHypothesis =>
      obtain ⟨secondKnown, others⟩ := List.forall_mem_cons.mp known
      refine .call (forall_mem_pair firstKnown secondKnown)
        (Registry.accepts_arithmetic isArithmetic (.inr (Nat.succ_pos _))) ?_
      exact inductionHypothesis (Nat.lt_succ_self count) fun handle member =>
        Nat.lt_succ_of_lt (others handle member)

theorem isCertain_single (known : handle < count) :
    (single operation handle).IsCertain MayAnswer count := by
  cases operation with
  | sub => exact .unaryCall rfl known
  | div =>
      refine (IsCertain.ofConstant _).bind fun later one grown oneKnown => ?_
      exact (IsCertain.ofPair .div rfl oneKnown (known.trans_le grown)).answers.mayAnswer
  | _ => exact .done (mayAnswer_some known)

/-- A rule for numbers gives up when an operand is not proven to be one. -/
theorem isCertain_unlessUnproven {plan : Plan (Option Handle)}
    (known : ∀ handle ∈ handles, handle < count)
    (rest : ∀ later, count ≤ later → plan.IsCertain MayAnswer later) :
    (anyUnproven handles >>= fun unproven => if unproven then pure none else plan).IsCertain
      MayAnswer count := by
  refine (IsCertain.anyUnproven known).test fun later grown unproven => ?_
  split
  · exact .done (mayAnswer_none later)
  · exact rest later grown

theorem isCertain_arithmetic (isArithmetic : operation.isArithmetic = true)
    (binary : operation.isUnary = false)
    (enough : operation.identity?.isSome = true ∨ 0 < handles.length)
    (known : ∀ handle ∈ handles, handle < count) :
    (arithmetic operation handles).IsCertain MayAnswer count := by
  unfold arithmetic
  split
  · split
    · exact (IsCertain.ofConstant _).answers.mayAnswer
    · rename_i missing
      rw [missing] at enough
      exact enough.elim nofun nofun
  · refine isCertain_unlessUnproven known fun later grown => isCertain_single ?_
    exact (known _ (List.mem_singleton_self _)).trans_le grown
  · rename_i first second
    obtain ⟨firstKnown, others⟩ := List.forall_mem_cons.mp known
    have secondKnown := List.forall_mem_singleton.mp others
    refine isCertain_unlessUnproven known fun later grown => ?_
    refine (isCertain_simplify (firstKnown.trans_le grown)
      (secondKnown.trans_le grown)).bind fun last simplified further simplifiedKnown => ?_
    split
    · exact .done (mayAnswer_some (simplifiedKnown _ rfl))
    · exact .binaryCall binary false
        (firstKnown.trans_le (grown.trans further))
        (secondKnown.trans_le (grown.trans further))
  · obtain ⟨firstKnown, others⟩ := List.forall_mem_cons.mp known
    exact (isCertain_chain isArithmetic firstKnown others).answers.mayAnswer

theorem isCertain_comparison (binary : operation.isUnary = false) (pair : handles.length = 2)
    (known : ∀ handle ∈ handles, handle < count) :
    (comparison operation handles).IsCertain MayAnswer count := by
  obtain ⟨first, second, rfl⟩ := List.length_eq_two.mp pair
  obtain ⟨firstKnown, others⟩ := List.forall_mem_cons.mp known
  exact isCertain_unlessUnproven known fun later grown => .binaryCall binary false
    (firstKnown.trans_le grown)
    ((others _ (List.mem_singleton_self _)).trans_le grown)

theorem isCertain_function (unary : operation.isUnary = true) (single : handles.length = 1)
    (known : ∀ handle ∈ handles, handle < count) :
    (function operation handles).IsCertain MayAnswer count := by
  obtain ⟨handle, rfl⟩ := List.length_eq_one_iff.mp single
  exact isCertain_unlessUnproven known fun later grown => .unaryCall unary
    ((known _ (List.mem_singleton_self _)).trans_le grown)

theorem isCertain_exactPower (firstKnown : first < count) (secondKnown : second < count) :
    (exactPower first second).IsCertain MayAnswer count := by
  have ends (natural : Bool) (later : Nat) (grown : count ≤ later) :
      (some <$> ofCall ((if natural then Tier.integer else .rational).operationName .expt)
        [first, second]).IsCertain MayAnswer later :=
    .ofTierCall _ (forall_mem_pair (firstKnown.trans_le grown)
      (secondKnown.trans_le grown)) rfl
  refine (IsCertain.proves firstKnown _).test fun later grown integral => ?_
  dsimp only
  split
  · exact (IsCertain.proves (secondKnown.trans_le grown) _).test
      fun last further natural => ends natural last (grown.trans further)
  · exact ends false later grown

theorem isCertain_power (pair : handles.length = 2) (known : ∀ handle ∈ handles, handle < count) :
    (power handles).IsCertain MayAnswer count := by
  obtain ⟨base, exponent, rfl⟩ := List.length_eq_two.mp pair
  obtain ⟨baseFirst, others⟩ := List.forall_mem_cons.mp known
  have exponentFirst := List.forall_mem_singleton.mp others
  refine isCertain_unlessUnproven known fun count grown => ?_
  have baseKnown := baseFirst.trans_le grown
  have exponentKnown := exponentFirst.trans_le grown
  refine (IsCertain.isInteger 2 exponentKnown).test fun count grown square => ?_
  replace baseKnown := baseKnown.trans_le grown
  replace exponentKnown := exponentKnown.trans_le grown
  split
  · exact (IsCertain.ofPair .mul rfl baseKnown baseKnown).answers.mayAnswer
  refine isCertain_when (.isInteger 1 exponentKnown) baseKnown fun count grown => ?_
  replace baseKnown := baseKnown.trans_le grown
  replace exponentKnown := exponentKnown.trans_le grown
  have ends (exact : Bool) (later : Nat) (grown : count ≤ later) :
      (if exact then exactPower base exponent else binaryCall .expt true base exponent).IsCertain
        MayAnswer later := by
    split
    · exact isCertain_exactPower (baseKnown.trans_le grown)
        (exponentKnown.trans_le grown)
    · exact .binaryCall rfl true (baseKnown.trans_le grown)
        (exponentKnown.trans_le grown)
  refine (IsCertain.proves exponentKnown _).test fun later grown integral => ?_
  dsimp only
  split
  · exact (IsCertain.proves (baseKnown.trans_le grown) _).test
      fun last further exact => ends exact last (grown.trans further)
  · exact ends false later grown

theorem isCertain_coercion {tier : Tier} (single : handles.length = 1)
    (known : ∀ handle ∈ handles, handle < count) :
    (coercion tier handles).IsCertain MayAnswer count := by
  obtain ⟨handle, rfl⟩ := List.length_eq_one_iff.mp single
  have handleKnown := List.forall_mem_singleton.mp known
  exact isCertain_when (.proves handleKnown _) handleKnown fun later _ =>
    .done (mayAnswer_none later)

end Rule

namespace Derivative

open Plan

variable {operation : Operation} {handles : List Handle} {index count : Nat}

theorem isCertain_constantly (value : Int) : (constantly value).IsCertain DoesAnswer count :=
  (IsCertain.ofConstant _).answers

theorem isCertain_product (known : ∀ handle ∈ handles, handle < count) :
    (product index handles).IsCertain DoesAnswer count := by
  unfold product
  split
  · exact isCertain_constantly 1
  · exact (IsCertain.ofArithmetic .mul rfl (.inl rfl) fun handle member =>
      known handle (List.mem_of_mem_eraseIdx member)).answers

theorem isCertain_quotient (within : index < handles.length)
    (known : ∀ handle ∈ handles, handle < count) :
    (quotient index handles).IsCertain DoesAnswer count := by
  unfold quotient
  split
  · have operandKnown := known _ (List.mem_singleton_self _)
    refine (IsCertain.ofConstant _).bind fun later negative grown negativeKnown => ?_
    have operandLater := operandKnown.trans_le grown
    refine (IsCertain.ofPair .mul rfl operandLater operandLater).bind
      fun last square further squareKnown => ?_
    exact (IsCertain.ofPair .div rfl (negativeKnown.trans_le further)
      squareKnown).answers
  split
  · refine (IsCertain.ofConstant _).bind fun later one grown oneKnown => ?_
    refine (IsCertain.ofCons .div rfl ?_).answers
    exact List.forall_mem_cons.mpr ⟨oneKnown, fun handle member =>
      (known handle (List.mem_of_mem_drop member)).trans_le grown⟩
  · rw [List.getElem?_eq_getElem within]
    have divisorKnown := known _ (List.getElem_mem within)
    refine (IsCertain.ofArithmetic .div rfl (.inr ?_) known).bind
      fun later whole grown wholeKnown => ?_
    · exact Nat.lt_of_le_of_lt (Nat.zero_le index) within
    refine (IsCertain.ofPair .div rfl wholeKnown
      (divisorKnown.trans_le grown)).bind fun last divided further dividedKnown => ?_
    exact (IsCertain.ofCons .sub rfl
      (List.forall_mem_singleton.mpr dividedKnown)).answers

theorem isCertain_ofFunction {plan : Handle → Plan Handle} (single : handles.length = 1)
    (known : ∀ handle ∈ handles, handle < count)
    (certain : ∀ handle, handle < count → (plan handle).IsCertain IsKnown count) :
    (ofFunction plan index handles).IsCertain DoesAnswer count := by
  obtain ⟨handle, rfl⟩ := List.length_eq_one_iff.mp single
  exact (certain handle (known handle (List.mem_singleton_self handle))).answers

theorem isCertain_power (pair : handles.length = 2) (known : ∀ handle ∈ handles, handle < count) :
    (power index handles).IsCertain DoesAnswer count := by
  obtain ⟨base, exponent, rfl⟩ := List.length_eq_two.mp pair
  obtain ⟨baseKnown, others⟩ := List.forall_mem_cons.mp known
  have exponentKnown := others _ (List.mem_singleton_self _)
  dsimp only [power]
  split
  · refine (IsCertain.ofConstant _).bind fun later one grown oneKnown => ?_
    have exponentLater := exponentKnown.trans_le grown
    refine (IsCertain.ofPair .sub rfl exponentLater oneKnown).bind
      fun last lowered further loweredKnown => ?_
    have baseLast := baseKnown.trans_le (grown.trans further)
    refine (IsCertain.ofPower baseLast loweredKnown).bind fun final lower longer lowerKnown => ?_
    exact (IsCertain.ofPair .mul rfl
      (exponentLater.trans_le (further.trans longer)) lowerKnown).answers
  · refine (IsCertain.ofFunction .log (by decide) baseKnown).bind
      fun later logarithm grown logarithmKnown => ?_
    refine (IsCertain.ofPower (baseKnown.trans_le grown)
      (exponentKnown.trans_le grown)).bind fun last same further sameKnown => ?_
    exact (IsCertain.ofPair .mul rfl
      (logarithmKnown.trans_le further) sameKnown).answers

/-- A derivative rule answers for every operand of a call that the library accepts. -/
theorem isCertain_rule {rule : DerivativeRule} (found : rule? operation = some rule)
    (within : index < handles.length)
    (single : operation.isUnary = true → handles.length = 1)
    (pair : operation = .expt → handles.length = 2)
    (known : ∀ handle ∈ handles, handle < count) :
    (rule index handles).IsCertain DoesAnswer count := by
  cases operation with
  | lt | eq => cases found
  | add =>
      cases found
      exact isCertain_constantly 1
  | sub =>
      cases found
      unfold difference
      split <;> exact isCertain_constantly _
  | mul =>
      cases found
      exact isCertain_product known
  | div =>
      cases found
      exact isCertain_quotient within known
  | expt =>
      cases found
      exact isCertain_power (pair rfl) known
  | neg =>
      cases found
      exact isCertain_ofFunction (single rfl) known fun _ _ => .ofConstant _
  | abs =>
      cases found
      refine isCertain_ofFunction (single rfl) known fun handle handleKnown => ?_
      refine (IsCertain.ofFunction .abs (by decide) handleKnown).bind
        fun later size grown sizeKnown => ?_
      exact .ofPair .div rfl (handleKnown.trans_le grown) sizeKnown
  | sqrt =>
      cases found
      refine isCertain_ofFunction (single rfl) known fun handle handleKnown => ?_
      refine .constant (.constant ?_)
      have handleLater := Nat.lt_succ_of_lt (Nat.lt_succ_of_lt handleKnown)
      refine (IsCertain.ofFunction .sqrt (by decide) handleLater).bind
        fun later root grown rootKnown => ?_
      refine (IsCertain.ofPair .mul rfl
        ((Nat.lt_succ_self _).trans_le grown) rootKnown).bind
          fun last double further doubleKnown => ?_
      exact .ofPair .div rfl (Nat.lt_of_lt_of_le
        (Nat.lt_succ_of_lt (Nat.lt_succ_self count)) (grown.trans further)) doubleKnown
  | exp =>
      cases found
      exact isCertain_ofFunction (single rfl) known fun _ handleKnown =>
        .ofFunction .exp (by decide) handleKnown
  | log =>
      cases found
      refine isCertain_ofFunction (single rfl) known fun handle handleKnown => ?_
      exact .constant (.ofPair .div rfl (Nat.lt_succ_self count)
        (Nat.lt_succ_of_lt handleKnown))
  | sin =>
      cases found
      exact isCertain_ofFunction (single rfl) known fun _ handleKnown =>
        .ofFunction .cos (by decide) handleKnown
  | cos =>
      cases found
      refine isCertain_ofFunction (single rfl) known fun handle handleKnown => ?_
      refine (IsCertain.ofFunction .sin (by decide) handleKnown).bind
        fun later sine _ sineKnown => ?_
      exact .ofCons .sub rfl (List.forall_mem_singleton.mpr sineKnown)
  | tan =>
      cases found
      refine isCertain_ofFunction (single rfl) known fun handle handleKnown => ?_
      refine (IsCertain.ofFunction .tan (by decide) handleKnown).bind
        fun later tangent _ tangentKnown => .constant ?_
      have tangentLater := Nat.lt_succ_of_lt tangentKnown
      refine (IsCertain.ofPair .mul rfl tangentLater tangentLater).bind
        fun last square further squareKnown => ?_
      exact .ofPair .add rfl
        ((Nat.lt_succ_self later).trans_le further) squareKnown

end Derivative

namespace Library

open Plan

/-- A record with one bound for the number of operands accepts no other number. -/
theorem length_of_accepts {record : Record} (pinned : record.most = some record.least) {count : Nat}
    (accepts : record.accepts count = true) : (count : Int) = record.least := by
  simp only [Record.accepts, pinned, Bool.and_eq_true, decide_eq_true_eq] at accepts
  exact Int.le_antisymm accepts.2 accepts.1

/-- Only sums and products take no operands. -/
theorem least_of_arithmetic : ∀ record ∈ records, ∀ operation ∈ [Operation.add, .mul, .sub, .div],
    record.name = operation.symbol → operation.identity?.isSome = true ∨ 0 < record.least := by
  decide +kernel

theorem enough_of_accepts {operation : Operation} {least : Int} {implementation : Implementation}
    (among : operation ∈ [Operation.add, .mul, .sub, .div])
    (member : arithmeticRecord operation least implementation ∈ records) {count : Nat}
    (accepts : (arithmeticRecord operation least implementation).accepts count = true) :
    operation.identity?.isSome = true ∨ 0 < count := by
  refine (least_of_arithmetic _ member operation among rfl).imp_right fun positive => ?_
  have bounded := of_decide_eq_true (Bool.and_eq_true_iff.mp accepts).1
  exact Int.natCast_pos.mp (Int.lt_of_lt_of_le positive bounded)

variable {record : Record} {handles : List Handle} {index count : Nat}

/-- The rules of the library are certain for as many operands as their records accept. -/
theorem isCertain_rule (member : record ∈ records) {rule : SpecializationRule}
    (ruled : record.specializer = some rule) (accepts : record.accepts handles.length = true)
    (known : ∀ handle ∈ handles, handle < count) : (rule handles).IsCertain MayAnswer count := by
  rcases mem_cases member with plain | ⟨tier, operation, _, rfl⟩
  · rcases plain_cases plain with ⟨operation, least, implementation, among, rfl⟩ |
      ⟨operation, among, rfl⟩ | rfl | rfl | ⟨operation, among, rfl⟩ | ⟨tier, _, rfl⟩ <;> cases ruled
    · have enough := enough_of_accepts among member accepts
      have every : ∀ operation ∈ [Operation.add, .mul, .sub, .div],
          operation.isArithmetic = true ∧ operation.isUnary = false := by decide
      obtain ⟨isArithmetic, binary⟩ := every operation among
      exact Rule.isCertain_arithmetic isArithmetic binary enough known
    · have unary : ∀ operation ∈ functions, operation.isUnary = true := by decide
      exact Rule.isCertain_function (unary operation among)
        (Int.ofNat_inj.mp (length_of_accepts rfl accepts)) known
    · exact Rule.isCertain_power (Int.ofNat_inj.mp (length_of_accepts rfl accepts)) known
    · have binary : ∀ operation ∈ [Operation.lt, .eq], operation.isUnary = false := by decide
      exact Rule.isCertain_comparison (binary operation among)
        (Int.ofNat_inj.mp (length_of_accepts rfl accepts)) known
    · exact Rule.isCertain_coercion (Int.ofNat_inj.mp (length_of_accepts rfl accepts)) known
  · cases ruled

/-- The derivative rules of the library answer for every operand of a call that it accepts. -/
theorem isCertain_differentiator (member : record ∈ records) {rule : DerivativeRule}
    (ruled : record.differentiator = some rule) (accepts : record.accepts handles.length = true)
    (within : index < handles.length) (known : ∀ handle ∈ handles, handle < count) :
    (rule index handles).IsCertain DoesAnswer count := by
  rcases mem_cases member with plain | ⟨tier, operation, _, rfl⟩
  · rcases plain_cases plain with ⟨operation, least, implementation, among, rfl⟩ |
      ⟨operation, among, rfl⟩ | rfl | rfl | ⟨operation, among, rfl⟩ | ⟨tier, _, rfl⟩
    · have every : ∀ operation ∈ [Operation.add, .mul, .sub, .div],
          operation.isUnary = false ∧ operation ≠ .expt := by decide
      obtain ⟨binary, different⟩ := every operation among
      exact Derivative.isCertain_rule ruled within
        (fun unary => absurd unary (Bool.eq_false_iff.mp binary))
        (fun same => (different same).elim) known
    · have other : ∀ operation ∈ functions, operation ≠ .expt := by decide
      exact Derivative.isCertain_rule ruled within
        (fun _ => Int.ofNat_inj.mp (length_of_accepts rfl accepts))
        (fun same => (other operation among same).elim) known
    · cases ruled
      exact Derivative.isCertain_power (Int.ofNat_inj.mp (length_of_accepts rfl accepts)) known
    · cases ruled
    · cases ruled
    · cases ruled
      exact Derivative.isCertain_ofFunction (Int.ofNat_inj.mp (length_of_accepts rfl accepts)) known
        fun _ _ => .ofConstant _
  · have sized : (handles.length : Int) = if operation.isUnary then 1 else 2 :=
      length_of_accepts rfl accepts
    refine Derivative.isCertain_rule ruled within (fun unary => ?_) (fun same => ?_) known
    · rw [unary] at sized
      exact Int.ofNat_inj.mp sized
    · rw [same] at sized
      exact Int.ofNat_inj.mp sized

end Library

end Narrowing
