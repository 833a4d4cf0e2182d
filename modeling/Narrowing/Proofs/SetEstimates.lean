import Narrowing.Proofs.SetDescriptors

/-
This file computes the types of set descriptions part by part, without look-ups.
-/

namespace Narrowing

namespace Bound

variable {Limit : Type}

/-- The end has no limit. -/
def isUnbounded : Bound Limit → Bool
  | .unbounded => true
  | _ => false

end Bound

namespace SetDescriptor

open Descriptor

/-- The ends of a described range of integers. -/
def interval (lower upper : Bound Int) : Interval where
  lower := match lower with
    | .unbounded => none
    | .inclusive limit => some limit
    | .exclusive limit => some (limit + 1)
  upper := match upper with
    | .unbounded => none
    | .inclusive limit => some limit
    | .exclusive limit => some (limit + -1)

/-- The interval of a described range of integers. -/
def range? : SetDescriptor → Option Interval
  | .integers lower upper => some (interval lower upper)
  | .signedByte width => some (IntegerClass.signedInterval width)
  | .unsignedByte width => some (IntegerClass.unsignedInterval width)
  | .modulo count => some ⟨some 0, some (count - 1)⟩
  | _ => none

mutual

/-- The type of a description and whether it is exact, from those of its parts. -/
def estimate : SetDescriptor → Estimate
  | .named primitive => ⟨.primitive primitive, true⟩
  | .unknown _ | .satisfies _ => ⟨.universal, false⟩
  | .eql value => ⟨.single value, true⟩
  | .member values => Ntype.unionAll (values.map .single)
  | .integers lower upper => Ntype.ofInterval (interval lower upper)
  | .signedByte width => Ntype.ofInterval (IntegerClass.signedInterval width)
  | .unsignedByte width => Ntype.ofInterval (IntegerClass.unsignedInterval width)
  | .modulo count => Ntype.ofInterval ⟨some 0, some (count - 1)⟩
  | .reals head lower upper =>
      ⟨.primitive head.primitive, lower.isUnbounded && upper.isUnbounded⟩
  | .both parts => combined Ntype.intersectAll (estimates parts)
  | .either parts => combined Ntype.unionAll (estimates parts)
  | .complement part => complementOf (estimate part)

def estimates : List SetDescriptor → List Estimate
  | [] => []
  | part :: rest => estimate part :: estimates rest

end

/-- The type that a value denotes agrees with an estimate. -/
def Yields (value : Value) (estimate : Estimate) : Prop :=
  ∃ result, Descriptor.ntype value = .ok result ∧ result.Agrees estimate

theorem yields_unknown {source : Value} (keyed : Keyed source) (analysed : body source = .unknown) :
    Yields source ⟨.universal, false⟩ := by
  refine ⟨_, ?_, .refl _⟩
  rw [exists_computed keyed, analysed, resolve]
  rfl

theorem yields_eql {value : Value} (singular : value.IsSingular) :
    Yields (.tuple [.text "eql", value]) ⟨.single value, true⟩ := by
  obtain ⟨⟨plain, own, described⟩, key, hasKey⟩ := singular
  refine ⟨_, ?_, .refl _⟩
  rcases Ntype.single_cases hasKey with ⟨rfl, _⟩ | ⟨present, single⟩
  · have analysed : body (.tuple [.text "eql", .missing]) =
        .eql (.tuple [.text "eql", .missing]) .missing := rfl
    rw [exists_computed ⟨_, rfl⟩, analysed, resolve, Lookup.outcome_bind]
    rfl
  · rw [single, ntype_eql described ?_ hasKey]
    rintro rfl
    cases hasKey
    exact present rfl

theorem yields_member {values : List Value} (singular : ∀ value ∈ values, value.IsSingular) :
    Yields (.tuple (.text "member" :: values)) (Ntype.unionAll (values.map .single)) := by
  have interned : List.Forall₂ (fun value ntype => Ntype.eql? value = some ntype) values
      (values.map .single) := by
    rw [List.forall₂_map_right_iff, List.forall₂_same]
    intro value member
    obtain ⟨_, key, hasKey⟩ := singular value member
    exact Ntype.eql?_of_key hasKey
  exact ntype_member (fun value member => (singular value member).1.2) interned

theorem byteSize?_natural {width : Nat} (positive : 0 < width) :
    byteSize? [.integer width] = some (some width) := by
  simp [byteSize?, Value.isStar, Nat.pos_iff_ne_zero.mp positive]

/-- A described range is read as its interval. -/
theorem body_range {part : SetDescriptor} {interval : Interval} (keyed : part.WellKeyed)
    (ranged : part.range? = some interval) : body part.toValue = .integers interval := by
  cases part with
  | integers lower upper =>
      cases ranged
      have range : integerRange? [lower.toValue .integer, upper.toValue .integer] =
          some (SetDescriptor.interval lower upper) := by cases lower <;> cases upper <;> rfl
      change ofHead _ "integer" _ [] [] = _
      simp only [ofHead, range]
  | signedByte width =>
      cases ranged
      change ofHead _ "signed-byte" _ [] [] = _
      simp only [ofHead, byteSize?_natural keyed]
  | unsignedByte width =>
      cases ranged
      change ofHead _ "unsigned-byte" _ [] [] = _
      simp only [ofHead, byteSize?_natural keyed]
  | modulo count =>
      cases ranged
      have analysed : body (SetDescriptor.modulo count).toValue =
          if (0 : Int) < count then .integers ⟨some 0, some (count - 1)⟩
          else .malformed .modulus (SetDescriptor.modulo count).toValue := rfl
      have positive : 0 < count := keyed
      rw [analysed, if_pos (by omega)]
  | _ => cases ranged

theorem yields_range {part : SetDescriptor} {interval : Interval} (keyed : part.WellKeyed)
    (ranged : part.range? = some interval) : Yields part.toValue (Ntype.ofInterval interval) :=
  ⟨_, ntype_integers (describable_toValue part keyed).2 (body_range keyed ranged), .refl _⟩

/-- A bound of a real range is written as one, and only an end without a limit as the wildcard. -/
theorem isRealBound_toValue {bound : Bound Value} (real : bound.Requires (isReal · = true)) :
    isRealBound (bound.toValue id) = true ∧ (bound.toValue id).isStar = bound.isUnbounded := by
  cases bound with
  | unbounded => exact ⟨rfl, rfl⟩
  | inclusive limit =>
      have own : isReal limit = true := real
      cases limit with
      | integer | ratio | double => exact ⟨rfl, rfl⟩
      | scalar scalar =>
          exact ⟨by simpa [Bound.toValue, isRealBound, Value.isStar] using own, rfl⟩
      | _ => cases own
  | exclusive limit => exact ⟨real, rfl⟩

theorem yields_reals {head : RealHead} {lower upper : Bound Value}
    (lowerReal : lower.Requires (isReal · = true)) (upperReal : upper.Requires (isReal · = true)) :
    Yields (SetDescriptor.reals head lower upper).toValue
      ⟨.primitive head.primitive, lower.isUnbounded && upper.isUnbounded⟩ := by
  obtain ⟨lowerBound, lowerStar⟩ := isRealBound_toValue lowerReal
  obtain ⟨upperBound, upperStar⟩ := isRealBound_toValue upperReal
  have analysed : body (SetDescriptor.reals head lower upper).toValue =
      if [lower.toValue id, upper.toValue id].all isRealBound then
        .realRange head.primitive (!([lower.toValue id, upper.toValue id].all Value.isStar))
      else .malformed .realBound (SetDescriptor.reals head lower upper).toValue := by
    cases head <;> rfl
  rw [if_pos (by simp [lowerBound, upperBound])] at analysed
  have keyed := (describable_toValue (.reals head lower upper) ⟨lowerReal, upperReal⟩).2
  refine ⟨_, ?_, .refl _⟩
  rw [exists_computed keyed, analysed, resolve]
  simp [lowerStar, upperStar]

theorem body_unknown {name : String} (plain : (SetDescriptor.unknown name).WellKeyed) :
    body (.text name) = .unknown := by
  obtain ⟨unnamed, unaliased, filled, word⟩ := plain
  change ofSymbol name = .unknown
  simp only [ofSymbol, unnamed, unaliased, filled, word]
  rfl

/-- The estimates that some parts denote agree with those that are computed. -/
def YieldAll (parts : List SetDescriptor) : Prop :=
  ∃ results, Denoted (toValues parts) results ∧
    List.Forall₂ Estimate.Agrees results (estimates parts)

/-- Estimates that agree are combined into ones that agree. -/
theorem combined_agrees {combine : List Ntype → Estimate}
    (respects : ∀ left right : List Ntype, List.Forall₂ Ntype.Agrees left right →
      (combine left).Agrees (combine right)) {left right : List Estimate}
    (agree : List.Forall₂ Estimate.Agrees left right) :
    (combined combine left).Agrees (combined combine right) := by
  obtain ⟨ntypes, precise⟩ := respects _ _ (ntypes_agree agree)
  exact ⟨ntypes, by simp only [combined, precise, all_eq agree fun one two agrees => agrees.2]⟩

mutual

/-- A description denotes the type that is computed from its parts. -/
theorem yields_estimate : ∀ part : SetDescriptor, part.WellKeyed →
    Yields part.toValue part.estimate
  | .named primitive, _ => ⟨_, ntype_descriptor primitive, .refl _⟩
  | .unknown name, plain => yields_unknown ⟨_, rfl⟩ (body_unknown plain)
  | .satisfies predicate, described =>
      yields_unknown (describable_toValue (.satisfies predicate) described).2 rfl
  | .eql _, singular => yields_eql singular
  | .member _, singular => yields_member singular
  | .integers lower upper, keyed => @yields_range (.integers lower upper) _ keyed rfl
  | .signedByte width, keyed => @yields_range (.signedByte width) _ keyed rfl
  | .unsignedByte width, keyed => @yields_range (.unsignedByte width) _ keyed rfl
  | .modulo count, keyed => @yields_range (.modulo count) _ keyed rfl
  | .reals _ _ _, ⟨lowerReal, upperReal⟩ => yields_reals lowerReal upperReal
  | .both parts, keyed => by
      obtain ⟨results, denoted, agree⟩ := yieldAll_estimates parts keyed
      obtain ⟨result, found, agrees⟩ := ntype_both denoted
      exact ⟨result, found,
        agrees.trans (combined_agrees (fun _ _ => Ntype.intersectAll_agrees) agree)⟩
  | .either parts, keyed => by
      obtain ⟨results, denoted, agree⟩ := yieldAll_estimates parts keyed
      obtain ⟨result, found, agrees⟩ := ntype_either denoted
      exact ⟨result, found, agrees.trans (combined_agrees (fun _ _ => Ntype.unionAll_agrees) agree)⟩
  | .complement part, keyed => by
      obtain ⟨own, denoted, agrees⟩ := yields_estimate part keyed
      obtain ⟨result, found, others⟩ := ntype_complement (describable_toValue part keyed) denoted
      exact ⟨result, found, others.trans (complementOf_agrees agrees)⟩

theorem yieldAll_estimates : ∀ parts : List SetDescriptor, AllWellKeyed parts → YieldAll parts
  | [], _ => ⟨[], .nil, .nil⟩
  | part :: rest, ⟨own, later⟩ => by
      obtain ⟨result, denoted, agrees⟩ := yields_estimate part own
      obtain ⟨results, others, agree⟩ := yieldAll_estimates rest later
      exact ⟨result :: results, .cons ⟨describable_toValue part own, denoted⟩ others,
        .cons agrees agree⟩

end

/-- After any look-ups of plain values, a description denotes the computed type. -/
theorem ntypeOf_estimate {part : SetDescriptor} (keyed : part.WellKeyed)
    {calls : List Descriptor.Call} (plain : ∀ call ∈ calls, call.source.isPlain = true) :
    ∃ result, (ntypeOf part.toValue).outcome (tablesAfter calls) = .ok result ∧
      result.Agrees part.estimate := by
  obtain ⟨own, denoted, agrees⟩ := yields_estimate part keyed
  obtain ⟨result, outcome, others, _⟩ :=
    resolve_found (valid_tablesAfter faithful_plain plain) (describable_toValue part keyed).1 denoted
  exact ⟨result, outcome, others.trans agrees⟩

end SetDescriptor

end Narrowing
