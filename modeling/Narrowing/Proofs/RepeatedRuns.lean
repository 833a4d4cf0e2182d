import Narrowing.Proofs.LibraryCalls

/-
This file shows that a specialized call depends on its operands alone: another run of it, on
whatever level and after whatever events, ends with the same operand or has no level left.
-/

namespace Narrowing

namespace Plan

variable {First Result : Type}

/-- The plan asks for literals, calls, types and names, and for nothing that tells the level. -/
inductive IsDirect {Result : Type} : Plan Result → Prop where
  | done (result : Result) : IsDirect (.done result)
  | fail (fault : Fault) : IsDirect (.fail fault)
  | constant {value : Value} {next : Handle → Plan Result}
      (rest : ∀ handle, IsDirect (next handle)) : IsDirect (.constant value next)
  | call {operation : String} {handles : List Handle} {next : Handle → Plan Result}
      (rest : ∀ handle, IsDirect (next handle)) : IsDirect (.call operation handles next)
  | ntype {handle : Handle} {next : Ntype → Plan Result}
      (rest : ∀ type, IsDirect (next type)) : IsDirect (.ntype handle next)
  | registered {operation : String} {next : Bool → Plan Result}
      (rest : ∀ present, IsDirect (next present)) : IsDirect (.registered operation next)

namespace IsDirect

theorem bind {plan : Plan First} {next : First → Plan Result} (direct : plan.IsDirect)
    (rest : ∀ result, (next result).IsDirect) : (plan >>= next).IsDirect := by
  induction direct with
  | done result => exact rest result
  | fail fault => exact .fail fault
  | constant _ inductionHypothesis => exact .constant inductionHypothesis
  | call _ inductionHypothesis => exact .call inductionHypothesis
  | ntype _ inductionHypothesis => exact .ntype inductionHypothesis
  | registered _ inductionHypothesis => exact .registered inductionHypothesis

theorem map {plan : Plan Handle} (direct : plan.IsDirect) :
    (some <$> plan : Plan (Option Handle)).IsDirect :=
  direct.bind fun handle => .done (some handle)

theorem ofConstant (value : Value) : (Plan.ofConstant value).IsDirect :=
  .constant fun handle => .done handle

theorem ofCall (operation : String) (handles : List Handle) :
    (Plan.ofCall operation handles).IsDirect := .call fun handle => .done handle

theorem typeOf (handle : Handle) : (Plan.typeOf handle).IsDirect := .ntype fun type => .done type

theorem proves (handle : Handle) (type : Ntype) : (Plan.proves handle type).IsDirect :=
  .ntype fun own => .done (own.proves type)

theorem isInteger (number : Int) (handle : Handle) : (Plan.isInteger number handle).IsDirect :=
  .ntype fun type => .done (Plan.holdsExact (Plan.equalsInteger number) type)

theorem anyUnproven (handles : List Handle) : (Plan.anyUnproven handles).IsDirect := by
  induction handles with
  | nil => exact .done false
  | cons handle rest inductionHypothesis =>
      refine (proves handle .number).bind fun proven => ?_
      split
      · exact inductionHypothesis
      · exact .done true

theorem toTier (handle : Handle) (tier : Tier) : (Plan.toTier handle tier).IsDirect := by
  unfold Plan.toTier
  split
  · exact .done handle
  · refine .ntype fun own => ?_
    split
    · exact .done handle
    · exact .ofCall _ _

theorem tierCall (tier : Tier) (operation : Operation) (first second : Handle) :
    (Plan.tierCall tier operation first second).IsDirect := by
  refine .registered fun present => ?_
  split
  · exact (toTier first tier).bind fun left => (toTier second tier).bind fun right =>
      (ofCall _ [left, right]).map
  · exact .done none

theorem binaryCall (operation : Operation) (inexact : Bool) (first second : Handle) :
    (Plan.binaryCall operation inexact first second).IsDirect := by
  refine (typeOf first).bind fun left => (typeOf second).bind fun right => ?_
  split
  · exact .done none
  · exact .tierCall _ _ _ _

theorem unaryCall (operation : Operation) (handle : Handle) :
    (Plan.unaryCall operation handle).IsDirect := by
  refine (typeOf handle).bind fun type => ?_
  split
  · exact .done none
  · exact (toTier handle _).bind fun argument => (ofCall _ [argument]).map

end IsDirect

end Plan

namespace Rule

open Plan

variable {operation : Operation} {handles : List Handle}

/-- A test that decides whether a simplification comes to an end. -/
theorem isDirect_when {test : Plan Bool} {chosen : Handle} {otherwise : Plan (Option Handle)}
    (direct : test.IsDirect) (rest : otherwise.IsDirect) :
    (test >>= fun holds => if holds then pure (some chosen) else otherwise).IsDirect := by
  refine direct.bind fun holds => ?_
  split
  · exact .done (some chosen)
  · exact rest

theorem isDirect_isSwallowed (factor other : Handle) : (isSwallowed factor other).IsDirect := by
  refine (IsDirect.isInteger 0 other).bind fun zero => ?_
  split
  · exact .proves factor _
  · exact .done false

theorem isDirect_simplify (first second : Handle) : (simplify operation first second).IsDirect := by
  have ends : (pure none : Plan (Option Handle)).IsDirect := .done none
  cases operation with
  | add => exact isDirect_when (.isInteger 0 second) (isDirect_when (.isInteger 0 first) ends)
  | sub => exact isDirect_when (.isInteger 0 second) ends
  | mul =>
      exact isDirect_when (.isInteger 1 second) (isDirect_when (.isInteger 1 first)
        (isDirect_when (isDirect_isSwallowed first second)
          (isDirect_when (isDirect_isSwallowed second first) ends)))
  | div => exact isDirect_when (.isInteger 1 second) ends
  | _ => exact ends

theorem isDirect_chain (first : Handle) (rest : List Handle) :
    (chain operation first rest).IsDirect := by
  induction rest generalizing first with
  | nil => exact .done first
  | cons second rest inductionHypothesis => exact .call fun result => inductionHypothesis result

theorem isDirect_single (handle : Handle) : (single operation handle).IsDirect := by
  cases operation with
  | sub => exact .unaryCall .neg handle
  | div => exact (IsDirect.ofConstant _).bind fun one => (IsDirect.ofCall _ [one, handle]).map
  | _ => exact .done (some handle)

/-- A rule for numbers gives up when an operand is not proven to be one. -/
theorem isDirect_unlessUnproven {plan : Plan (Option Handle)} (handles : List Handle)
    (direct : plan.IsDirect) :
    (anyUnproven handles >>= fun unproven => if unproven then pure none else plan).IsDirect := by
  refine (IsDirect.anyUnproven handles).bind fun unproven => ?_
  split
  · exact .done none
  · exact direct

theorem isDirect_arithmetic : (arithmetic operation handles).IsDirect := by
  unfold arithmetic
  split
  · split
    · exact (IsDirect.ofConstant _).map
    · exact .fail _
  · exact isDirect_unlessUnproven _ (isDirect_single _)
  · refine isDirect_unlessUnproven _ ((isDirect_simplify _ _).bind fun simplified => ?_)
    split
    · exact .done _
    · exact .binaryCall _ _ _ _
  · exact (isDirect_chain _ _).map

theorem isDirect_comparison : (comparison operation handles).IsDirect := by
  unfold comparison
  split
  · exact isDirect_unlessUnproven _ (.binaryCall _ _ _ _)
  · exact .fail _

theorem isDirect_function : (function operation handles).IsDirect := by
  unfold function
  split
  · exact isDirect_unlessUnproven _ (.unaryCall _ _)
  · exact .fail _

theorem isDirect_exactPower (base exponent : Handle) : (exactPower base exponent).IsDirect := by
  refine (IsDirect.proves base _).bind fun integral => ?_
  have ends (natural : Bool) : (some <$> ofCall ((if natural then Tier.integer
      else .rational).operationName .expt) [base, exponent]).IsDirect :=
    (IsDirect.ofCall _ [base, exponent]).map
  dsimp only
  split
  · exact (IsDirect.proves exponent _).bind ends
  · exact ends false

theorem isDirect_power : (power handles).IsDirect := by
  unfold power
  split
  · rename_i base exponent
    refine isDirect_unlessUnproven _ ((IsDirect.isInteger 2 exponent).bind fun square => ?_)
    split
    · exact (IsDirect.ofCall _ _).bind fun product => .done (some product)
    refine isDirect_when (.isInteger 1 exponent) ?_
    refine (IsDirect.proves exponent _).bind fun integral => ?_
    have ends (exact : Bool) : (if exact then exactPower base exponent
        else binaryCall .expt true base exponent).IsDirect := by
      split
      · exact isDirect_exactPower base exponent
      · exact .binaryCall _ _ _ _
    dsimp only
    split
    · exact (IsDirect.proves base _).bind ends
    · exact ends false
  · exact .fail _

theorem isDirect_coercion {tier : Tier} : (coercion tier handles).IsDirect := by
  unfold coercion
  split
  · exact isDirect_when (.proves _ _) (.done none)
  · exact .fail _

end Rule

namespace Library

/-- All rules of the library are direct. -/
theorem isDirect_rule {record : Record} (member : record ∈ records) {rule : SpecializationRule}
    (ruled : record.specializer = some rule) (handles : List Handle) :
    (rule handles).IsDirect := by
  rcases mem_cases member with plain | ⟨tier, operation, _, rfl⟩
  · rcases plain_cases plain with ⟨operation, least, implementation, _, rfl⟩ |
      ⟨operation, _, rfl⟩ | rfl | rfl | ⟨operation, _, rfl⟩ | ⟨tier, _, rfl⟩ <;> cases ruled
    · exact Rule.isDirect_arithmetic
    · exact Rule.isDirect_function
    · exact Rule.isDirect_power
    · exact Rule.isDirect_comparison
    · exact Rule.isDirect_coercion
  · cases ruled

end Library

namespace Registry

/-- What the standard registry knows of an operation is a record of the library, but for its
number. -/
theorem exists_of_standard_lookup {operation : String} {record : Record}
    (found : standard.lookup? operation = some record) :
    ∃ original ∈ Library.records, ∃ serial, record = { original with serial := some serial } := by
  obtain ⟨entry, member, rfl⟩ := List.mem_map.mp (List.mem_of_find?_eq_some found)
  exact ⟨entry.1, List.fst_mem_of_mem_zipIdx member, entry.2, rfl⟩

/-- An operation that the standard registry does not know has no rules. -/
theorem cases_of_check {operation : String} {count : Int} {record : Record}
    (checked : standard.check operation count = .ok record) :
    record = .unknown operation ∨
      ∃ original ∈ Library.records, ∃ serial, record = { original with serial := some serial } := by
  unfold check at checked
  dsimp only at checked
  split at checked <;> cases checked
  unfold ensure
  cases found : standard.lookup? operation with
  | none => exact .inl rfl
  | some record => exact .inr (exists_of_standard_lookup found)

theorem isDirect_rule_of_check {operation : String} {count : Int} {record : Record}
    (checked : standard.check operation count = .ok record) {rule : SpecializationRule}
    (ruled : record.specializer = some rule) (handles : List Handle) :
    (rule handles).IsDirect := by
  rcases cases_of_check checked with rfl | ⟨original, member, serial, rfl⟩
  · cases ruled
  · exact Library.isDirect_rule member ruled handles

end Registry

namespace Traced

variable {Result Other Next Later : Type} {allowed : Fault → Prop}
  {relates : Result → Other → Prop} {further : Next → Later → Prop}

/-- A run ends as an outcome says, with a related result or with the same fault, unless it fails as
is allowed. -/
def Follows (allowed : Fault → Prop) (relates : Result → Other → Prop) (traced : Traced Result) :
    Except Fault Other → Prop
  | .ok other => traced.Meets allowed fun result => relates result other
  | .error fault => traced.Meets (fun found => found = fault ∨ allowed found) fun _ => False

theorem follows_ok_iff {traced : Traced Result} {other : Other} :
    traced.Follows allowed relates (.ok other) ↔
      traced.Meets allowed fun result => relates result other := Iff.rfl

theorem follows_error_iff {traced : Traced Result} {fault : Fault} :
    traced.Follows allowed relates (.error fault) ↔
      traced.Meets (fun found => found = fault ∨ allowed found) fun _ => False := Iff.rfl

theorem follows_pure {result : Result} {other : Other} (related : relates result other) :
    (pure result : Traced Result).Follows allowed relates (.ok other) :=
  follows_ok_iff.mpr (meets_pure related)

theorem follows_throw (fault : Fault) :
    (throw fault : Traced Result).Follows allowed relates (.error fault) :=
  follows_error_iff.mpr (meets_throw (.inl rfl))

/-- An allowed fault may stand for every outcome. -/
theorem follows_allowed {fault : Fault} (holds : allowed fault) (outcome : Except Fault Other) :
    (throw fault : Traced Result).Follows allowed relates outcome := by
  cases outcome with
  | ok other => exact follows_ok_iff.mpr (meets_throw holds)
  | error other => exact follows_error_iff.mpr (meets_throw (.inr holds))

theorem Follows.bind {traced : Traced Result} {outcome : Except Fault Other}
    {next : Result → Traced Next} {later : Other → Except Fault Later}
    (follows : traced.Follows allowed relates outcome)
    (continues : ∀ result other, outcome = .ok other → relates result other →
      (next result).Follows allowed further (later other)) :
    (traced >>= next).Follows allowed further (outcome >>= later) := by
  cases outcome with
  | error fault =>
      exact follows_error_iff.mpr ((follows_error_iff.mp follows).bind fun _ impossible =>
        impossible.elim)
  | ok other =>
      have first := follows_ok_iff.mp follows
      change (traced >>= next).Follows allowed further (later other)
      cases final : later other with
      | ok result =>
          refine follows_ok_iff.mpr (first.bind fun found related => ?_)
          have continued := continues found other rfl related
          rw [final] at continued
          exact follows_ok_iff.mp continued
      | error fault =>
          refine follows_error_iff.mpr ((first.widen fun _ holds => .inr holds).bind
            fun found related => ?_)
          have continued := continues found other rfl related
          rw [final] at continued
          exact follows_error_iff.mp continued

/-- The first run ends as the second one does, after whatever events, unless it fails as is
allowed. -/
def Agrees (allowed : Fault → Prop) (first second : Traced Result) : Prop :=
  ∀ events, first.Follows allowed (· = ·) (second.outcome events)

theorem agrees_pure (result : Result) : Agrees allowed (pure result) (pure result) :=
  fun _ => follows_pure rfl

theorem agrees_throw (fault : Fault) :
    Agrees allowed (throw fault) (throw fault : Traced Result) := fun _ => follows_throw fault

theorem agrees_ofExcept (outcome : Except Fault Result) :
    Agrees allowed (ofExcept outcome) (ofExcept outcome) := by
  cases outcome with
  | ok result => exact agrees_pure result
  | error fault => exact agrees_throw fault

theorem agrees_constant (value : Value) : Agrees allowed (constant value) (constant value) :=
  fun _ => follows_ok_iff.mpr (meets_constant rfl)

theorem agrees_call (operation : String) (operands : List Operand) (values : ValuesNtype) :
    Agrees allowed (call operation operands values) (call operation operands values) :=
  fun _ => follows_ok_iff.mpr (meets_call rfl)

theorem Agrees.bind {first second : Traced Result} {next later : Result → Traced Next}
    (agrees : Agrees allowed first second)
    (continues : ∀ result, Agrees allowed (next result) (later result)) :
    Agrees allowed (first >>= next) (second >>= later) := by
  intro events
  obtain ⟨others, continued⟩ := exists_outcome_bind second later events
  rw [continued]
  refine (agrees events).bind ?_
  rintro result other _ rfl
  exact continues result others

/-- Lists of runs agree when each of them does. -/
theorem agrees_mapM {Item : Type} {items : List Item} {first second : Item → Traced Result}
    (each : ∀ item ∈ items, Agrees allowed (first item) (second item)) :
    Agrees allowed (items.mapM first) (items.mapM second) := by
  induction items with
  | nil => exact agrees_pure []
  | cons item rest inductionHypothesis =>
      rw [List.mapM_cons, List.mapM_cons]
      refine (each item List.mem_cons_self).bind fun result => ?_
      have later := inductionHypothesis fun other member =>
        each other (List.mem_cons_of_mem item member)
      exact later.bind fun results => agrees_pure (result :: results)

/-- A run that agrees with another one has its result, if every fault is allowed when the other one
has none. -/
theorem Agrees.meets {first second : Traced Result} {wider : Fault → Prop}
    (agrees : Agrees allowed first second) (implies : ∀ fault, allowed fault → wider fault)
    (fails : ∀ fault, second.run.2 = .error fault → ∀ other, wider other) :
    first.Meets wider fun result => second.run.2 = .ok result := by
  have follows : first.Follows allowed (· = ·) second.run.2 := agrees []
  cases final : second.run.2 with
  | ok result =>
      rw [final] at follows
      exact ((follows_ok_iff.mp follows).widen implies).mono fun _ same => congrArg _ same.symm
  | error fault =>
      rw [final] at follows
      exact ((follows_error_iff.mp follows).widen fun other _ => fails fault final other).mono
        fun _ impossible => impossible.elim

/-- What the first run may end with the second one ends with, unless it fails as is allowed. -/
def Repeats (allowed : Fault → Prop) (first second : Traced Result) : Prop :=
  ∀ result, first.Reaches result → second.Meets allowed (· = result)

/-- A run that agrees with another one ends with no other result. -/
theorem Agrees.eq_of_reaches {first second : Traced Result}
    (agrees : Agrees allowed first second) {result : Result} (reaches : first.Reaches result)
    (events : List Event) : second.outcome events = .ok result := by
  have follows := agrees events
  cases final : second.outcome events with
  | ok other =>
      rw [final] at follows
      exact congrArg Except.ok ((follows_ok_iff.mp follows).of_reaches reaches).symm
  | error fault =>
      rw [final] at follows
      exact ((follows_error_iff.mp follows).of_reaches reaches).elim

theorem Agrees.repeats {first second : Traced Result} (agrees : Agrees allowed first second) :
    Repeats allowed first second := by
  intro result reaches events
  rw [agrees.eq_of_reaches reaches events]

theorem Agrees.repeats_symm {first second : Traced Result}
    (agrees : Agrees allowed first second) : Repeats allowed second first := by
  rintro result ⟨events, final⟩
  have follows := agrees events
  rwa [final] at follows

end Traced

namespace Engine

open Traced

variable {engine : Engine} {allowed : Fault → Prop} {first second : Level}

/-- A direct plan does the same on two levels whose calls do the same. -/
theorem agrees_runPlan {Result : Type} {plan : Plan Result} (direct : plan.IsDirect)
    (below : ∀ operation operands,
      Agrees allowed (first.specialize operation operands) (second.specialize operation operands))
    (depth other : Nat) (known : List Operand) :
    Agrees allowed (engine.runPlan depth first plan known)
      (engine.runPlan other second plan known) := by
  induction direct generalizing known with
  | done result => exact agrees_pure _
  | fail fault => exact agrees_throw fault
  | constant _ inductionHypothesis =>
      exact (agrees_constant _).bind fun made => inductionHypothesis _ _
  | call _ inductionHypothesis =>
      exact (agrees_ofExcept _).bind fun operands => (below _ operands).bind fun made =>
        inductionHypothesis _ _
  | ntype _ inductionHypothesis =>
      exact (agrees_ofExcept _).bind fun operand => inductionHypothesis _ _
  | registered _ inductionHypothesis => exact inductionHypothesis _ _

theorem agrees_follow {rule : SpecializationRule} (direct : ∀ handles, (rule handles).IsDirect)
    (below : ∀ operation operands,
      Agrees allowed (first.specialize operation operands) (second.specialize operation operands))
    (depth other : Nat) (operands : List Operand) :
    Agrees allowed (engine.follow depth first rule operands)
      (engine.follow other second rule operands) := by
  refine (agrees_runPlan (direct _) below depth other operands).bind fun final => ?_
  obtain ⟨result, known⟩ := final
  cases result with
  | none => exact agrees_pure none
  | some handle => exact (agrees_ofExcept _).bind fun made => agrees_pure (some made)

theorem agrees_answered (operation : String) (operands : List Operand) (values : ValuesNtype)
    (answer : Option Operand) : Agrees allowed
      (match answer with
        | some operand => pure operand
        | none => Traced.call operation operands values)
      (match answer with
        | some operand => pure operand
        | none => Traced.call operation operands values) := by
  cases answer with
  | some operand => exact agrees_pure operand
  | none => exact agrees_call operation operands values

/-- A call does the same on two levels when the calls below them do. -/
theorem agrees_specializeCall (standard : engine.registry = .standard)
    (below : ∀ operation operands,
      Agrees allowed (first.specialize operation operands) (second.specialize operation operands))
    (depth other : Nat) (operation : String) (operands : List Operand) :
    Agrees allowed (engine.specializeCall depth first operation operands)
      (engine.specializeCall other second operation operands) := by
  unfold specializeCall
  rw [standard]
  cases checked : Registry.standard.check operation operands.length with
  | error fault => exact agrees_throw fault
  | ok record =>
      refine (agrees_ofExcept _).bind fun folded => ?_
      cases folded with
      | some value => exact agrees_constant value
      | none =>
          cases ruled : record.specializer with
          | none => exact (agrees_pure none).bind (agrees_answered operation operands record.values)
          | some rule =>
              exact (agrees_follow (Registry.isDirect_rule_of_check checked ruled) below depth
                other operands).bind (agrees_answered operation operands record.values)

/-- A call does the same with more levels left, unless it comes to the end of the fewer ones. -/
theorem agrees_level (standard : engine.registry = .standard)
    (deep : ∀ operation, allowed (.depth operation engine.ceiling)) {remaining others : Nat}
    (room : remaining ≤ others) (depth other : Nat) (operation : String)
    (operands : List Operand) :
    Agrees allowed ((engine.level remaining depth).specialize operation operands)
      ((engine.level others other).specialize operation operands) := by
  induction remaining generalizing others depth other operation operands with
  | zero => exact fun _ => follows_allowed (deep operation) _
  | succ remaining inductionHypothesis =>
      obtain ⟨others, rfl⟩ := Nat.exists_eq_add_of_lt room
      exact agrees_specializeCall standard (fun operation operands =>
        inductionHypothesis (Nat.le_add_right remaining others) (depth + 1) (other + 1) operation
          operands) depth other operation operands

/-- The result of a call is the same on every level that reaches one. -/
theorem repeats_level (standard : engine.registry = .standard)
    (deep : ∀ operation, allowed (.depth operation engine.ceiling)) (remaining others : Nat)
    (depth other : Nat) (operation : String) (operands : List Operand) :
    Repeats allowed ((engine.level remaining depth).specialize operation operands)
      ((engine.level others other).specialize operation operands) := by
  rcases Nat.le_total remaining others with fewer | more
  · exact (agrees_level standard deep fewer depth other operation operands).repeats
  · exact (agrees_level standard deep more other depth operation operands).repeats_symm

end Engine

end Narrowing
