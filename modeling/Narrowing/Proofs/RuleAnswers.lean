import Narrowing.Library.Rule
import Narrowing.Proofs.PlanAnswers

/-
This file gives the answers of the specialization rules as functions of the operands themselves.
-/

namespace Narrowing

/-- The operand on the right that changes nothing. -/
def Operation.neutral? : Operation → Option Int
  | add | sub => some 0
  | mul | div => some 1
  | _ => none

namespace Operand

/-- The operand is proven to be a number. -/
def isNumber (operand : Operand) : Bool := operand.ntype.proves .number

/-- The operand is the exact literal of an integer. -/
def isInteger (number : Int) (operand : Operand) : Bool :=
  Plan.holdsExact (Plan.equalsInteger number) operand.ntype

/-- The second operand is an exact zero and the first one is exact. -/
def isSwallowed (factor other : Operand) : Bool :=
  other.isInteger 0 && factor.ntype.proves Tier.rational.ntype

/-- The operand that stands for the whole call, when the other one changes nothing. -/
def simplified? (operation : Operation) (first second : Operand) : Option Operand :=
  match operation with
  | .add =>
      if second.isInteger 0 then some first
      else if first.isInteger 0 then some second
      else none
  | .sub => if second.isInteger 0 then some first else none
  | .mul =>
      if second.isInteger 1 then some first
      else if first.isInteger 1 then some second
      else if isSwallowed first second then some second
      else if isSwallowed second first then some first
      else none
  | .div => if second.isInteger 1 then some first else none
  | _ => none

/-- The reasons for which an operand stands for a call of two operands. -/
inductive Simplifies (operation : Operation) (first second : Operand) : Operand → Prop
  | neutral {number : Int} (neutral : operation.neutral? = some number)
      (literal : second.isInteger number = true) : Simplifies operation first second first
  | identity {number : Int} (identity : operation.identity? = some number)
      (literal : first.isInteger number = true) : Simplifies operation first second second
  | swallowed (product : operation = .mul) (swallowed : isSwallowed first second = true) :
      Simplifies operation first second second
  | swallowing (product : operation = .mul) (swallowed : isSwallowed second first = true) :
      Simplifies operation first second first

theorem simplifies_of_simplified? {operation : Operation} {first second chosen : Operand}
    (simplified : simplified? operation first second = some chosen) :
    Simplifies operation first second chosen := by
  revert simplified
  fun_cases simplified? operation first second <;> intro simplified <;> cases simplified
  case case1.refl zero | case4.refl zero => exact .neutral rfl zero
  case case2.refl zero => exact .identity rfl zero
  case case6.refl one | case11.refl one => exact .neutral rfl one
  case case7.refl one => exact .identity rfl one
  case case8.refl zero => exact .swallowed rfl zero
  case case9.refl zero => exact .swallowing rfl zero

theorem simplified?_cases {operation : Operation} {first second chosen : Operand}
    (simplified : simplified? operation first second = some chosen) :
    chosen = first ∨ chosen = second := by
  cases simplifies_of_simplified? simplified with
  | neutral | swallowing => exact .inl rfl
  | identity | swallowed => exact .inr rfl

end Operand

namespace Engine

/-- An operand in the representation of a tier. -/
def converted (below : Level) (operand : Operand) (tier : Tier) : Traced Operand :=
  match tier.coercion? with
  | none => pure operand
  | some operation =>
      if operand.ntype.proves tier.ntype then pure operand
      else below.specialize operation [operand]

/-- The call of an operation of a tier on two converted operands. -/
def tierAnswer (engine : Engine) (below : Level) (tier : Tier) (operation : Operation)
    (first second : Operand) : Traced (Option Operand) :=
  if engine.registry.contains (tier.operationName operation) then do
    let left ← converted below first tier
    let right ← converted below second tier
    some <$> below.specialize (tier.operationName operation) [left, right]
  else pure none

/-- The tier that is proven to hold the results of a call with two operands. -/
def metTier? (first second : Operand) : Option Tier :=
  (first.ntype.contagion second.ntype).ntype.tier?

def binaryAnswer (engine : Engine) (below : Level) (operation : Operation) (inexact : Bool)
    (first second : Operand) : Traced (Option Operand) :=
  match metTier? first second with
  | none => pure none
  | some tier =>
      engine.tierAnswer below (Plan.binaryTier operation inexact tier) operation first second

def unaryAnswer (below : Level) (operation : Operation) (operand : Operand) :
    Traced (Option Operand) :=
  match operand.ntype.tier? with
  | none => pure none
  | some tier => do
      let argument ← converted below operand (Plan.unaryTier operation tier)
      some <$> below.specialize ((Plan.unaryTier operation tier).operationName operation) [argument]

/-- Calls with two operands take the operands of a longer call from the left. -/
def chainAnswer (below : Level) (operation : Operation) (first : Operand)
    (rest : List Operand) : Traced Operand :=
  rest.foldlM (fun result next => below.specialize operation.symbol [result, next]) first

def singleAnswer (below : Level) (operation : Operation) (operand : Operand) :
    Traced (Option Operand) :=
  match operation with
  | .sub => unaryAnswer below .neg operand
  | .div => do
      let one ← Traced.constant (.integer 1)
      some <$> below.specialize operation.symbol [one, operand]
  | _ => pure (some operand)

def pairAnswer (engine : Engine) (below : Level) (operation : Operation)
    (first second : Operand) : Traced (Option Operand) :=
  match Operand.simplified? operation first second with
  | some simplified => pure (some simplified)
  | none => engine.binaryAnswer below operation false first second

/-- The answer of the rule of a sum, difference, product or quotient. -/
def arithmeticAnswer (engine : Engine) (below : Level) (operation : Operation) :
    List Operand → Traced (Option Operand)
  | [] =>
      match operation.identity? with
      | some identity => some <$> Traced.constant (.integer identity)
      | none => throw (.raised "KeyError")
  | [operand] =>
      if operand.isNumber then singleAnswer below operation operand else pure none
  | [first, second] =>
      if first.isNumber && second.isNumber then engine.pairAnswer below operation first second
      else pure none
  | first :: rest => some <$> chainAnswer below operation first rest

def comparisonAnswer (engine : Engine) (below : Level) (operation : Operation) :
    List Operand → Traced (Option Operand)
  | [first, second] =>
      if first.isNumber && second.isNumber then
        engine.binaryAnswer below operation false first second
      else pure none
  | _ => throw .operand

def functionAnswer (below : Level) (operation : Operation) :
    List Operand → Traced (Option Operand)
  | [operand] => if operand.isNumber then unaryAnswer below operation operand else pure none
  | _ => throw .operand

/-- The tier of exact powers of a base with an integral exponent. -/
def powerTier (base exponent : Operand) : Tier :=
  if base.ntype.proves Tier.integer.ntype && exponent.ntype.proves Rule.naturalExponent then
    .integer
  else .rational

/-- The exponent is integral and the base is exact. -/
def isExactPower (base exponent : Operand) : Bool :=
  exponent.ntype.proves Tier.integer.ntype && base.ntype.proves Tier.rational.ntype

def powerAnswer (engine : Engine) (below : Level) : List Operand → Traced (Option Operand)
  | [base, exponent] =>
      if !(base.isNumber && exponent.isNumber) then pure none
      else if exponent.isInteger 2 then
        some <$> below.specialize Operation.mul.symbol [base, base]
      else if exponent.isInteger 1 then pure (some base)
      else if isExactPower base exponent then
        some <$> below.specialize ((powerTier base exponent).operationName .expt) [base, exponent]
      else engine.binaryAnswer below .expt true base exponent
  | _ => throw .operand

def coercionAnswer (tier : Tier) : List Operand → Traced (Option Operand)
  | [operand] => pure (if operand.ntype.proves tier.ntype then some operand else none)
  | _ => throw .operand

variable {engine : Engine} {depth : Nat} {below : Level} {known : List Operand}

/-- What follows a test for numbers sees whether all operands passed it. -/
theorem answer_anyUnproven {handles : List Handle} {operands : List Operand}
    (present : operandsOf known handles = .ok operands) (next : Bool → Plan (Option Handle)) :
    engine.answer depth below (Plan.anyUnproven handles >>= next) known =
      engine.answer depth below (next (!operands.all (·.isNumber))) known := by
  induction handles generalizing operands with
  | nil =>
      cases present
      rfl
  | cons handle handles inductionHypothesis =>
      obtain ⟨operand, others, rfl, first, rest⟩ := operandsOf_cons_inv present
      have unfolded : (Plan.anyUnproven (handle :: handles) >>= next) =
          (Plan.proves handle .number >>= fun proven =>
            (if proven then Plan.anyUnproven handles else pure true) >>= next) := rfl
      rw [unfolded, answer_proves first]
      cases proven : operand.ntype.proves .number with
      | true =>
          simp only [if_true]
          rw [inductionHypothesis rest, List.all_cons, Operand.isNumber, proven, Bool.true_and]
      | false =>
          rw [List.all_cons, Operand.isNumber, proven]
          rfl

/-- What follows a conversion sees the converted operand behind some handle. -/
theorem answer_toTier {handle : Handle} {operand : Operand} {tier : Tier}
    {next : Handle → Plan (Option Handle)} {continuation : Operand → Traced (Option Operand)}
    (present : known[handle]? = some operand)
    (continues : ∀ handle later made, (known ++ later)[handle]? = some made →
      engine.answer depth below (next handle) (known ++ later) = continuation made) :
    engine.answer depth below (Plan.toTier handle tier >>= next) known =
      converted below operand tier >>= continuation := by
  have unchanged : engine.answer depth below (next handle) known = continuation operand := by
    have continued := continues handle [] operand (by rwa [List.append_nil])
    rwa [List.append_nil] at continued
  unfold Plan.toTier converted
  cases tier.coercion? with
  | none => exact unchanged
  | some operation =>
      have unfolded : (Plan.coerce handle tier.ntype operation >>= next) =
          Plan.ntype handle fun own =>
            (if own.proves tier.ntype then Plan.done handle
              else Plan.ofCall operation [handle]) >>= next := rfl
      simp only [unfolded, answer_ntype present]
      split
      · exact unchanged
      · rw [answer_ofCall (operandsOf_cons present rfl)]
        exact bind_congr fun made => continues known.length [made] made (by simp)

theorem answer_tierCall {tier : Tier} {operation : Operation} {first second : Handle}
    {left right : Operand} (firstPresent : known[first]? = some left)
    (secondPresent : known[second]? = some right) :
    engine.answer depth below (Plan.tierCall tier operation first second) known =
      engine.tierAnswer below tier operation left right := by
  unfold Plan.tierCall tierAnswer
  rw [answer_registered]
  split
  · refine answer_toTier firstPresent fun handle later made madePresent => ?_
    have secondStays : (known ++ later)[second]? = some right := by
      rw [List.getElem?_append_left (List.getElem?_eq_some_iff.mp secondPresent).1, secondPresent]
    refine answer_toTier secondStays fun other latest last lastPresent => ?_
    refine answer_some_ofCall (operandsOf_pair ?_ lastPresent)
    rw [List.getElem?_append_left (List.getElem?_eq_some_iff.mp madePresent).1, madePresent]
  · exact answer_none

theorem answer_binaryCall {operation : Operation} {inexact : Bool} {first second : Handle}
    {left right : Operand} (firstPresent : known[first]? = some left)
    (secondPresent : known[second]? = some right) :
    engine.answer depth below (Plan.binaryCall operation inexact first second) known =
      engine.binaryAnswer below operation inexact left right := by
  unfold Plan.binaryCall binaryAnswer metTier?
  rw [answer_typeOf firstPresent, answer_typeOf secondPresent]
  cases (left.ntype.contagion right.ntype).ntype.tier? with
  | none => exact answer_none
  | some tier => exact answer_tierCall firstPresent secondPresent

theorem answer_unaryCall {operation : Operation} {handle : Handle} {operand : Operand}
    (present : known[handle]? = some operand) :
    engine.answer depth below (Plan.unaryCall operation handle) known =
      unaryAnswer below operation operand := by
  unfold Plan.unaryCall unaryAnswer
  rw [answer_typeOf present]
  cases operand.ntype.tier? with
  | none => exact answer_none
  | some tier =>
      refine answer_toTier present fun handle later made madePresent => ?_
      exact answer_some_ofCall (operandsOf_cons madePresent rfl)

/-- A simplification that an exact literal allows comes before the others. -/
theorem answer_whenInteger {number : Int} {handle chosen : Handle} {operand : Operand}
    {otherwise : Plan (Option Handle)} {next : Option Handle → Plan (Option Handle)}
    (present : known[handle]? = some operand) :
    engine.answer depth below ((Plan.isInteger number handle >>= fun holds =>
      if holds then pure (some chosen) else otherwise) >>= next) known =
      if operand.isInteger number then engine.answer depth below (next (some chosen)) known
      else engine.answer depth below (otherwise >>= next) known := by
  have unfolded : ((Plan.isInteger number handle >>= fun holds =>
      if holds then pure (some chosen) else otherwise) >>= next) =
      (Plan.isInteger number handle >>= fun holds =>
        (if holds then pure (some chosen) else otherwise) >>= next) := rfl
  rw [unfolded, answer_isInteger present, Operand.isInteger]
  split <;> rfl

theorem answer_whenSwallowed {factor other chosen : Handle} {left right : Operand}
    {otherwise : Plan (Option Handle)} {next : Option Handle → Plan (Option Handle)}
    (factorPresent : known[factor]? = some left) (otherPresent : known[other]? = some right) :
    engine.answer depth below ((Rule.isSwallowed factor other >>= fun holds =>
      if holds then pure (some chosen) else otherwise) >>= next) known =
      if left.isSwallowed right then engine.answer depth below (next (some chosen)) known
      else engine.answer depth below (otherwise >>= next) known := by
  have unfolded : ((Rule.isSwallowed factor other >>= fun holds =>
      if holds then pure (some chosen) else otherwise) >>= next) =
      (Plan.isInteger 0 other >>= fun zero =>
        ((if zero then Plan.proves factor Tier.rational.ntype else pure false) >>= fun holds =>
          if holds then pure (some chosen) else otherwise) >>= next) := rfl
  rw [unfolded, answer_isInteger otherPresent, Operand.isSwallowed, Operand.isInteger]
  cases Plan.holdsExact (Plan.equalsInteger 0) right.ntype with
  | false => rfl
  | true =>
      have proven : ((Plan.proves factor Tier.rational.ntype >>= fun holds =>
          if holds then pure (some chosen) else otherwise) >>= next) =
          (Plan.proves factor Tier.rational.ntype >>= fun holds =>
            (if holds then pure (some chosen) else otherwise) >>= next) := rfl
      simp only [if_true, Bool.true_and]
      rw [proven, answer_proves factorPresent]
      split <;> rfl

/-- A call that simplifies ends with one of its operands, and any other call goes on. -/
theorem answer_simplify {operation : Operation} {first second : Handle} {left right : Operand}
    {next : Option Handle → Plan (Option Handle)} (firstPresent : known[first]? = some left)
    (secondPresent : known[second]? = some right)
    (ends : ∀ handle, next (some handle) = .done (some handle)) :
    engine.answer depth below (Rule.simplify operation first second >>= next) known =
      match Operand.simplified? operation left right with
      | some simplified => pure (some simplified)
      | none => engine.answer depth below (next none) known := by
  cases operation with
  | add =>
      refine (answer_whenInteger secondPresent).trans ?_
      simp only [Operand.simplified?]
      split
      · rw [ends, answer_some firstPresent]
      · refine (answer_whenInteger firstPresent).trans ?_
        split
        · rw [ends, answer_some secondPresent]
        · rfl
  | sub =>
      refine (answer_whenInteger secondPresent).trans ?_
      simp only [Operand.simplified?]
      split
      · rw [ends, answer_some firstPresent]
      · rfl
  | mul =>
      refine (answer_whenInteger secondPresent).trans ?_
      simp only [Operand.simplified?]
      split
      · rw [ends, answer_some firstPresent]
      · refine (answer_whenInteger firstPresent).trans ?_
        split
        · rw [ends, answer_some secondPresent]
        · refine (answer_whenSwallowed firstPresent secondPresent).trans ?_
          split
          · rw [ends, answer_some secondPresent]
          · refine (answer_whenSwallowed secondPresent firstPresent).trans ?_
            split
            · rw [ends, answer_some firstPresent]
            · rfl
  | div =>
      refine (answer_whenInteger secondPresent).trans ?_
      simp only [Operand.simplified?]
      split
      · rw [ends, answer_some firstPresent]
      · rfl
  | _ => rfl

/-- What follows a chain sees the result behind some handle. -/
theorem answer_chain {operation : Operation} {first : Handle} {handles : List Handle}
    {operand : Operand} {operands : List Operand} (present : known[first]? = some operand)
    (rest : operandsOf known handles = .ok operands) :
    engine.answer depth below (some <$> Rule.chain operation first handles) known =
      some <$> chainAnswer below operation operand operands := by
  induction handles generalizing first operand operands known with
  | nil =>
      cases rest
      exact answer_some present
  | cons handle handles inductionHypothesis =>
      obtain ⟨second, others, rfl, secondPresent, othersPresent⟩ := operandsOf_cons_inv rest
      have unfolded : some <$> Rule.chain operation first (handle :: handles) =
          (Plan.ofCall operation.symbol [first, handle] >>= fun result =>
            some <$> Rule.chain operation result handles) := rfl
      rw [unfolded, answer_ofCall (operandsOf_pair present secondPresent)]
      simp only [chainAnswer, List.foldlM_cons, map_bind]
      refine bind_congr fun made => ?_
      exact inductionHypothesis (by simp) (operandsOf_append othersPresent [made])

theorem answer_single {operation : Operation} {handle : Handle} {operand : Operand}
    (present : known[handle]? = some operand) :
    engine.answer depth below (Rule.single operation handle) known =
      singleAnswer below operation operand := by
  cases operation with
  | sub => exact answer_unaryCall present
  | div =>
      refine (answer_ofConstant (.integer 1) _).trans ?_
      simp only [singleAnswer]
      refine bind_congr fun one => answer_some_ofCall (operandsOf_pair (by simp) ?_)
      rw [List.getElem?_append_left (List.getElem?_eq_some_iff.mp present).1, present]
  | _ => exact answer_some present

theorem exists_range_eq (first second third : Operand) (others : List Operand) :
    ∃ handles, List.range (first :: second :: third :: others).length =
      0 :: 1 :: 2 :: handles := by
  simp only [List.length_cons, List.range_succ_eq_map, List.map_cons]
  exact ⟨_, rfl⟩

/-- The rule of a sum, difference, product or quotient answers as the function of its operands. -/
theorem follow_arithmetic (operation : Operation) (operands : List Operand) :
    engine.follow depth below (Rule.arithmetic operation) operands =
      engine.arithmeticAnswer below operation operands := by
  rw [follow_eq_answer]
  match operands with
  | [] =>
      change engine.answer depth below (match operation.identity? with
        | some identity => some <$> Plan.ofConstant (.integer identity)
        | none => .fail (.raised "KeyError")) [] = _
      unfold arithmeticAnswer
      cases operation.identity? with
      | none => exact answer_fail _
      | some identity => exact answer_some_ofConstant _
  | [operand] =>
      have present : operandsOf [operand] [0] = .ok [operand] := rfl
      refine (answer_anyUnproven present _).trans ?_
      simp only [List.all_cons, List.all_nil, Bool.and_true, arithmeticAnswer]
      cases operand.isNumber with
      | false => exact answer_none
      | true => exact answer_single rfl
  | [first, second] =>
      have present : operandsOf [first, second] [0, 1] = .ok [first, second] := rfl
      refine (answer_anyUnproven present _).trans ?_
      simp only [List.all_cons, List.all_nil, Bool.and_true, arithmeticAnswer]
      cases first.isNumber && second.isNumber with
      | false => exact answer_none
      | true =>
          have firstPresent : [first, second][0]? = some first := rfl
          have secondPresent : [first, second][1]? = some second := rfl
          refine (answer_simplify firstPresent secondPresent ?_).trans ?_
          · intro handle
            rfl
          simp only [pairAnswer, if_true]
          split
          · rfl
          · exact answer_binaryCall firstPresent secondPresent
  | first :: second :: third :: others =>
      have present := operandsOf_range (first :: second :: third :: others)
      obtain ⟨handles, more⟩ := exists_range_eq first second third others
      rw [more] at present ⊢
      obtain ⟨operand, rest, same, firstPresent, restPresent⟩ := operandsOf_cons_inv present
      obtain ⟨rfl, rfl⟩ := List.cons.inj same
      exact answer_chain firstPresent restPresent

theorem follow_comparison (operation : Operation) (operands : List Operand) :
    engine.follow depth below (Rule.comparison operation) operands =
      engine.comparisonAnswer below operation operands := by
  rw [follow_eq_answer]
  match operands with
  | [] => rfl
  | [operand] => rfl
  | [first, second] =>
      have present : operandsOf [first, second] [0, 1] = .ok [first, second] := rfl
      refine (answer_anyUnproven present _).trans ?_
      simp only [List.all_cons, List.all_nil, Bool.and_true, comparisonAnswer]
      cases first.isNumber && second.isNumber with
      | false => exact answer_none
      | true => exact answer_binaryCall rfl rfl
  | first :: second :: third :: others =>
      obtain ⟨handles, more⟩ := exists_range_eq first second third others
      rw [more]
      rfl

theorem follow_function (operation : Operation) (operands : List Operand) :
    engine.follow depth below (Rule.function operation) operands =
      functionAnswer below operation operands := by
  rw [follow_eq_answer]
  match operands with
  | [] => rfl
  | [operand] =>
      have present : operandsOf [operand] [0] = .ok [operand] := rfl
      refine (answer_anyUnproven present _).trans ?_
      simp only [List.all_cons, List.all_nil, Bool.and_true, functionAnswer]
      cases operand.isNumber with
      | false => exact answer_none
      | true => exact answer_unaryCall rfl
  | first :: second :: others =>
      rw [List.length_cons, List.length_cons, List.range_succ_eq_map, List.range_succ_eq_map]
      rfl

theorem answer_exactPower {base exponent : Handle} {left right : Operand}
    (basePresent : known[base]? = some left) (exponentPresent : known[exponent]? = some right) :
    engine.answer depth below (Rule.exactPower base exponent) known =
      some <$> below.specialize ((powerTier left right).operationName .expt) [left, right] := by
  have present := operandsOf_pair basePresent exponentPresent
  unfold Rule.exactPower powerTier
  rw [answer_proves basePresent]
  cases left.ntype.proves Tier.integer.ntype with
  | false => exact answer_some_ofCall present
  | true =>
      refine (answer_proves exponentPresent _).trans ?_
      exact answer_some_ofCall present

theorem follow_power (operands : List Operand) :
    engine.follow depth below Rule.power operands = engine.powerAnswer below operands := by
  rw [follow_eq_answer]
  match operands with
  | [] => rfl
  | [operand] => rfl
  | [base, exponent] =>
      have present : operandsOf [base, exponent] [0, 1] = .ok [base, exponent] := rfl
      have basePresent : [base, exponent][0]? = some base := rfl
      have exponentPresent : [base, exponent][1]? = some exponent := rfl
      refine (answer_anyUnproven present _).trans ?_
      simp only [List.all_cons, List.all_nil, Bool.and_true, powerAnswer]
      split
      · exact answer_none
      refine (answer_isInteger exponentPresent _).trans ?_
      rw [Operand.isInteger, Operand.isInteger]
      split
      · exact answer_some_ofCall (operandsOf_pair basePresent basePresent)
      refine (answer_isInteger exponentPresent _).trans ?_
      split
      · exact answer_some basePresent
      refine (answer_proves exponentPresent _).trans ?_
      rw [isExactPower]
      cases exponent.ntype.proves Tier.integer.ntype with
      | false => exact answer_binaryCall basePresent exponentPresent
      | true =>
          refine (answer_proves basePresent _).trans ?_
          rw [Bool.true_and]
          split
          · exact answer_exactPower basePresent exponentPresent
          · exact answer_binaryCall basePresent exponentPresent
  | first :: second :: third :: others =>
      obtain ⟨handles, more⟩ := exists_range_eq first second third others
      rw [more]
      rfl

theorem follow_coercion (tier : Tier) (operands : List Operand) :
    engine.follow depth below (Rule.coercion tier) operands = coercionAnswer tier operands := by
  rw [follow_eq_answer]
  match operands with
  | [] => rfl
  | [operand] =>
      refine (answer_proves rfl _).trans ?_
      simp only [coercionAnswer]
      split
      · exact answer_some rfl
      · exact answer_none
  | first :: second :: others =>
      rw [List.length_cons, List.length_cons, List.range_succ_eq_map, List.range_succ_eq_map]
      rfl

end Engine

end Narrowing
