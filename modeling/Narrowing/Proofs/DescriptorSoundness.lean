import Narrowing.Proofs.SetEstimates

/-
This file shows that the types of set descriptions hold the sets, and that exact types hold nothing
else.
-/

namespace Narrowing

namespace SetDescriptor

open Descriptor

variable {interpretation : Interpretation}

/-- The union of the types of some literals approximates the set of them. -/
theorem approximates_member {values : List Value}
    (literals : ∀ value ∈ values, value.isHostLiteral = true) :
    (Ntype.unionAll (values.map .single)).Approximates (· ∈ values) := by
  intro other _
  have held : (∃ ntype ∈ values.map Ntype.single, ntype.contains other = true) ↔
      other ∈ values := by
    constructor
    · rintro ⟨ntype, found, inside⟩
      obtain ⟨value, member, rfl⟩ := List.mem_map.mp found
      rwa [(Value.contains_single_literal (literals value member)).mp inside]
    · exact fun member => ⟨.single other, List.mem_map_of_mem member,
        (Value.contains_single_literal (literals other member)).mpr rfl⟩
  obtain ⟨inside, exact⟩ := Ntype.unionAll_spec (values.map .single) other
  exact ⟨fun member => inside (held.mpr member),
    fun precise member => held.mp (exact precise member)⟩

theorem contains_interval {lower upper : Bound Int} {whole : Int} :
    (interval lower upper).contains whole = true ↔
      lower.Admits (· < ·) (· = ·) whole ∧ upper.Admits (· > ·) (· = ·) whole := by
  cases lower <;> cases upper <;> simp [interval, Interval.contains, Bound.Admits] <;> omega

theorem contains_signedInterval {width : Nat} {whole : Int} :
    (IntegerClass.signedInterval width).contains whole = true ↔
      -2 ^ (width - 1) ≤ whole ∧ whole < 2 ^ (width - 1) := by
  simp only [IntegerClass.signedInterval, Interval.contains, Option.all_some, Bool.and_eq_true,
    decide_eq_true_eq, Int.le_sub_one_iff]
  exact Iff.rfl

theorem contains_unsignedInterval {width : Nat} {whole : Int} :
    (IntegerClass.unsignedInterval width).contains whole = true ↔ 0 ≤ whole ∧ whole < 2 ^ width := by
  simp only [IntegerClass.unsignedInterval, Interval.contains, Option.all_some, Bool.and_eq_true,
    decide_eq_true_eq, Int.le_sub_one_iff]
  exact Iff.rfl

theorem contains_moduloInterval {count : Nat} {whole : Int} :
    (⟨some 0, some (count - 1)⟩ : Interval).contains whole = true ↔ 0 ≤ whole ∧ whole < count := by
  simp only [Interval.contains, Option.all_some, Bool.and_eq_true, decide_eq_true_eq,
    Int.le_sub_one_iff]

/-- A description of a range admits the integers of its interval. -/
theorem denotes_range {part : SetDescriptor} {interval : Interval}
    (ranged : part.range? = some interval) {value : Value} :
    part.Denotes interpretation value ↔
      ∃ whole, value = .integer whole ∧ interval.contains whole = true := by
  cases part with
  | integers | signedByte | unsignedByte | modulo =>
      cases ranged
      simp only [Denotes, contains_interval, contains_signedInterval, contains_unsignedInterval,
        contains_moduloInterval]
  | _ => cases ranged

theorem approximates_range {part : SetDescriptor} {interval : Interval}
    (ranged : part.range? = some interval) :
    (Ntype.ofInterval interval).Approximates (part.Denotes interpretation) :=
  .interval fun _ => denotes_range ranged

theorem approximates_reals (head : RealHead) (lower upper : Bound Value) :
    (SetDescriptor.reals head lower upper).estimate.Approximates
      ((SetDescriptor.reals head lower upper).Denotes interpretation) := by
  refine .primitive head.primitive _ (fun value denoted => denoted.1) ?_
  intro wild value described
  cases lower <;> cases upper <;> cases wild
  exact ⟨described, trivial, trivial⟩

/-- An estimate holds a value when it is a member of a set, and an exact one that holds another
value shows that it is. -/
def Tracks (set : Value → Prop) (value probe : Value) (estimate : Estimate) : Prop :=
  (set value → estimate.ntype.contains value = true) ∧
    (estimate.precise = true → estimate.ntype.contains probe = true → set value)

/-- The estimates of some parts hold a value together, or some of them do, as the sets do. -/
theorem tracks_parts {parts : List SetDescriptor} {estimates : List Estimate} {value probe : Value}
    (each : List.Forall₂ (fun part => Tracks (Denotes interpretation part) value probe) parts
      estimates) :
    ((DenoteAll interpretation parts value →
        ∀ estimate ∈ estimates, estimate.ntype.contains value = true) ∧
      (DenoteSome interpretation parts value →
        ∃ estimate ∈ estimates, estimate.ntype.contains value = true)) ∧
    (estimates.all Estimate.precise = true →
      ((∀ estimate ∈ estimates, estimate.ntype.contains probe = true) →
        DenoteAll interpretation parts value) ∧
      ((∃ estimate ∈ estimates, estimate.ntype.contains probe = true) →
        DenoteSome interpretation parts value)) := by
  induction each with
  | nil => simp [DenoteAll, DenoteSome]
  | @cons part estimate rest others own _ inductionHypothesis =>
      obtain ⟨held, exact⟩ := own
      obtain ⟨⟨heldAll, heldSome⟩, exactRest⟩ := inductionHypothesis
      simp only [DenoteAll, DenoteSome, List.forall_mem_cons, List.exists_mem_cons_iff,
        List.all_cons, Bool.and_eq_true]
      refine ⟨⟨fun all => ⟨held all.1, heldAll all.2⟩, Or.imp held heldSome⟩, ?_⟩
      rintro ⟨precise, restPrecise⟩
      obtain ⟨exactAll, exactSome⟩ := exactRest restPrecise
      exact ⟨fun all => ⟨exact precise all.1, exactAll all.2⟩, Or.imp (exact precise) exactSome⟩

variable {parts : List SetDescriptor} {value probe : Value}

theorem tracks_both (each : List.Forall₂
      (fun part => Tracks (Denotes interpretation part) value probe) parts (estimates parts)) :
    Tracks (DenoteAll interpretation parts) value probe (SetDescriptor.both parts).estimate := by
  obtain ⟨⟨held, _⟩, exact⟩ := tracks_parts each
  have meets := (Ntype.intersectAll_spec ((estimates parts).map Estimate.ntype)).2
  refine ⟨fun all => (meets value).mpr ?_, fun precise inside => ?_⟩
  · rw [List.forall_mem_map]
    exact held all
  · have probed := (meets probe).mp inside
    rw [List.forall_mem_map] at probed
    exact (exact (Bool.and_eq_true_iff.mp precise).2).1 probed

theorem tracks_either (each : List.Forall₂
      (fun part => Tracks (Denotes interpretation part) value probe) parts (estimates parts)) :
    Tracks (DenoteSome interpretation parts) value probe
      (SetDescriptor.either parts).estimate := by
  obtain ⟨⟨_, held⟩, exact⟩ := tracks_parts each
  have united := Ntype.unionAll_spec ((estimates parts).map Estimate.ntype)
  have mapped (held : Value) : (∃ ntype ∈ (estimates parts).map Estimate.ntype,
      ntype.contains held = true) ↔
      ∃ estimate ∈ estimates parts, estimate.ntype.contains held = true := by simp
  refine ⟨fun some => (united value).1 ((mapped value).mpr (held some)), fun precise inside => ?_⟩
  obtain ⟨unionPrecise, partsPrecise⟩ := Bool.and_eq_true_iff.mp precise
  exact (exact partsPrecise).2 ((mapped probe).mp ((united probe).2 unionPrecise inside))

mutual

/-- The estimate of every well-formed description approximates its set. -/
theorem approximates_estimate (interpretation : Interpretation) : ∀ part : SetDescriptor,
    part.WellFormed → part.estimate.Approximates (part.Denotes interpretation)
  | .named primitive, _ => .primitive primitive true (fun _ => id) fun _ _ => id
  | .unknown _, _ | .satisfies _, _ => .unknown _
  | .eql _, literal =>
      fun _ _ => ⟨(Value.contains_single_literal literal).mpr,
        fun _ => (Value.contains_single_literal literal).mp⟩
  | .member _, literals => approximates_member literals
  | .integers _ _, _ | .signedByte _, _ | .unsignedByte _, _ | .modulo _, _ =>
      approximates_range rfl
  | .reals head lower upper, _ => approximates_reals head lower upper
  | .both parts, wellFormed => fun _ whole =>
      tracks_both ((approximates_estimates interpretation parts wellFormed).imp
        fun _ _ approximates => approximates _ whole)
  | .either parts, wellFormed => fun _ whole =>
      tracks_either ((approximates_estimates interpretation parts wellFormed).imp
        fun _ _ approximates => approximates _ whole)
  | .complement part, wellFormed =>
      (approximates_estimate interpretation part wellFormed).complement

theorem approximates_estimates (interpretation : Interpretation) : ∀ parts : List SetDescriptor,
    AllWellFormed parts → List.Forall₂ (fun part estimate =>
      Estimate.Approximates estimate (Denotes interpretation part)) parts (estimates parts)
  | [], _ => .nil
  | part :: rest, ⟨own, later⟩ =>
      .cons (approximates_estimate interpretation part own)
        (approximates_estimates interpretation rest later)

end

/-- After any look-ups of plain values, a set description denotes a type that holds its set, and an
exact type holds nothing else. -/
theorem ntype_approximates (interpretation : Interpretation) {part : SetDescriptor}
    (wellFormed : part.WellFormed) {calls : List Descriptor.Call}
    (plain : ∀ call ∈ calls, call.source.isPlain = true) :
    ∃ estimate, (ntypeOf part.toValue).outcome (tablesAfter calls) = .ok estimate ∧
      ∀ value : Value, value.WholeIsInteger →
        (part.Denotes interpretation value → estimate.ntype.contains value = true) ∧
          (estimate.precise = true → estimate.ntype.contains value = true →
            part.Denotes interpretation value) := by
  obtain ⟨result, outcome, agrees⟩ := ntypeOf_estimate (wellKeyed part wellFormed) plain
  exact ⟨result, outcome, (approximates_estimate interpretation part wellFormed).of_agrees agrees⟩

/-- The naturals without the bytes, after a look-up of the bytes. -/
theorem ntype_approximates_large :
    (SetDescriptor.both [.integers (.inclusive 0) .unbounded,
      .complement (.unsignedByte 8)]).WellFormed ∧
      (∀ call ∈ [Descriptor.Call.values (.tuple [.text "unsigned-byte", .integer 8])],
        call.source.isPlain = true) ∧
      ∃ estimate, (ntypeOf (SetDescriptor.both [.integers (.inclusive 0) .unbounded,
          .complement (.unsignedByte 8)]).toValue).outcome
          (tablesAfter [Descriptor.Call.values (.tuple [.text "unsigned-byte", .integer 8])]) =
            .ok estimate ∧
        estimate.ntype.contains (.integer 300) = true := by
  have wellFormed : (SetDescriptor.both [.integers (.inclusive 0) .unbounded,
      .complement (.unsignedByte 8)]).WellFormed := by
    simp [WellFormed, AllWellFormed]
  have plain : ∀ call ∈ [Descriptor.Call.values (.tuple [.text "unsigned-byte", .integer 8])],
      call.source.isPlain = true := List.forall_mem_singleton.mpr rfl
  obtain ⟨estimate, outcome, approximates⟩ := ntype_approximates
    ⟨fun _ _ => False, fun _ _ => False⟩ wellFormed plain
  have whole : (Value.integer 300).WholeIsInteger := by
    intro number same
    cases same
    rfl
  refine ⟨wellFormed, plain, estimate, outcome, (approximates _ whole).1 ?_⟩
  simp [Denotes, DenoteAll, Bound.Admits]

end SetDescriptor

end Narrowing
