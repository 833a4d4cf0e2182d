import Narrowing.Proofs.DescriptorSoundness

/-
This file shows that the types of set descriptions hold all members of the sets.
-/

namespace Narrowing

/-- A value without a key that lies in no class but that of all values. -/
def Value.outsider : Value := .dictionary [] []

theorem Primitive.eq_universal_of_outsider {primitive : Primitive}
    (inside : primitive.atoms.contains Value.outsider.atom = true) : primitive = .universal := by
  have each : ∀ primitive ∈ Primitive.all,
      primitive.atoms.contains Value.outsider.atom = true → primitive = .universal := by
    decide +kernel
  exact each primitive primitive.mem_all inside

/-- Only the type of all values holds the outsider. -/
theorem Ntype.eq_universal_of_outsider {ntype : Ntype}
    (inside : ntype.contains .outsider = true) : ntype = .universal := by
  cases ntype with
  | primitive primitive => rw [Primitive.eq_universal_of_outsider inside, universal]
  | singleton member =>
      obtain ⟨key, outsiderKey, _⟩ := Value.identical_iff.mp (contains_singleton.mp inside)
      cases outsiderKey

theorem Ntype.contains_universal (value : Value) : universal.contains value = true :=
  Primitive.atoms_universal value.atom

namespace Estimate

/-- The type of an estimate holds all members of a set, and an exact type holds the outsider only
when all values are members. -/
structure Covers (estimate : Estimate) (set : Value → Prop) : Prop where
  holds : ∀ value, set value → estimate.ntype.contains value = true
  full : estimate.precise = true → estimate.ntype.contains .outsider = true → ∀ value, set value

namespace Covers

variable {estimate : Estimate} {set : Value → Prop}

theorem of_tracks (tracks : ∀ value, SetDescriptor.Tracks set value .outsider estimate) :
    estimate.Covers set :=
  ⟨fun value => (tracks value).1, fun exact inside value => (tracks value).2 exact inside⟩

theorem tracks (covers : estimate.Covers set) (value : Value) :
    SetDescriptor.Tracks set value .outsider estimate :=
  ⟨covers.holds value, fun exact inside => covers.full exact inside value⟩

theorem unknown (set : Value → Prop) : Covers ⟨.universal, false⟩ set :=
  ⟨fun value _ => Ntype.contains_universal value, nofun⟩

/-- The complement of a type that is not known to be exact holds all values, and so does that of
every class but one. -/
theorem complement (covers : estimate.Covers set) :
    (Descriptor.complementOf estimate).Covers fun value => ¬ set value := by
  obtain ⟨ntype, precise⟩ := estimate
  cases precise with
  | false => exact unknown _
  | true =>
      cases ntype with
      | singleton member => exact unknown _
      | primitive primitive =>
          have all (inside : (Ntype.primitive primitive.complement.primitive).contains .outsider
              = true) (value : Value) :
              (Ntype.primitive primitive.complement.primitive).contains value = true := by
            rw [Ntype.eq_universal_of_outsider inside]
            exact Ntype.contains_universal value
          constructor
          · intro value apart
            refine all ((Descriptor.complement_spec primitive .outsider).1 ?_) value
            exact Bool.eq_false_iff.mpr fun inside => apart (covers.full rfl inside value)
          · intro exact inside value member
            have outside :=
              (Descriptor.complement_spec primitive value).2 exact (all inside value)
            rw [covers.holds value member] at outside
            cases outside

end Covers

end Estimate

namespace SetDescriptor

open Descriptor

variable {interpretation : Interpretation}

/-- The type of one value does not hold the outsider. -/
theorem not_contains_outsider_single {value : Value} {key : Key} (hasKey : value.key? = some key) :
    ¬ (Ntype.single value).contains .outsider = true := by
  rw [Ntype.contains_single hasKey]
  intro same
  obtain ⟨_, outsiderKey, _⟩ := Value.identical_iff.mp same
  cases outsiderKey

theorem covers_named (primitive : Primitive) :
    Estimate.Covers ⟨.primitive primitive, true⟩ primitive.Describes where
  holds _ described := Primitive.contains_iff_describes.mpr described
  full _ inside value := by
    rw [Primitive.eq_universal_of_outsider inside]
    trivial

theorem covers_eql {value : Value} (singular : value.IsSingular) :
    Estimate.Covers ⟨.single value, true⟩ (· = value) := by
  obtain ⟨_, key, hasKey⟩ := singular
  refine ⟨?_, fun _ inside => absurd inside (not_contains_outsider_single hasKey)⟩
  rintro other rfl
  exact (Ntype.contains_single hasKey).mpr (Value.identical_iff.mpr ⟨key, hasKey, hasKey⟩)

theorem covers_member {values : List Value} (singular : ∀ value ∈ values, value.IsSingular) :
    Estimate.Covers (Ntype.unionAll (values.map .single)) (· ∈ values) where
  holds value member := by
    obtain ⟨_, key, hasKey⟩ := singular value member
    refine (Ntype.unionAll_spec _ value).1 ⟨.single value, List.mem_map_of_mem member, ?_⟩
    exact (Ntype.contains_single hasKey).mpr (Value.identical_iff.mpr ⟨key, hasKey, hasKey⟩)
  full exact inside := by
    obtain ⟨ntype, found, held⟩ := (Ntype.unionAll_spec _ .outsider).2 exact inside
    obtain ⟨value, member, rfl⟩ := List.mem_map.mp found
    obtain ⟨_, key, hasKey⟩ := singular value member
    exact absurd held (not_contains_outsider_single hasKey)

theorem covers_range {part : SetDescriptor} {interval : Interval}
    (ranged : part.range? = some interval) :
    (Ntype.ofInterval interval).Covers (part.Denotes interpretation) where
  holds value member := by
    obtain ⟨whole, rfl, inside⟩ := (denotes_range ranged).mp member
    exact Ntype.contains_ofInterval inside
  full exact inside := by
    have whole : Value.outsider.WholeIsInteger := fun _ isWhole => by cases isWhole
    obtain ⟨_, impossible, _⟩ := Ntype.exists_integer_of_interval whole exact inside
    cases impossible

mutual

/-- The type of a description holds all members of the set. -/
theorem covers_estimate (interpretation : Interpretation) : ∀ part : SetDescriptor,
    part.WellKeyed → part.estimate.Covers (part.Denotes interpretation)
  | .named primitive, _ => covers_named primitive
  | .unknown _, _ | .satisfies _, _ => .unknown _
  | .eql _, singular => covers_eql singular
  | .member _, singular => covers_member singular
  | .integers _ _, _ | .signedByte _, _ | .unsignedByte _, _ | .modulo _, _ => covers_range rfl
  | .reals head lower upper, _ => by
      refine ⟨fun value denoted => Primitive.contains_iff_describes.mpr denoted.1, ?_⟩
      intro _ inside
      have proper : head.primitive ≠ .universal := by cases head <;> nofun
      exact absurd (Primitive.eq_universal_of_outsider inside) proper
  | .both parts, keyed => .of_tracks fun value =>
      tracks_both ((covers_estimates interpretation parts keyed).imp
        fun _ _ covers => covers.tracks value)
  | .either parts, keyed => .of_tracks fun value =>
      tracks_either ((covers_estimates interpretation parts keyed).imp
        fun _ _ covers => covers.tracks value)
  | .complement part, keyed => (covers_estimate interpretation part keyed).complement

theorem covers_estimates (interpretation : Interpretation) : ∀ parts : List SetDescriptor,
    AllWellKeyed parts → List.Forall₂ (fun part estimate =>
      Estimate.Covers estimate (Denotes interpretation part)) parts (estimates parts)
  | [], _ => .nil
  | part :: rest, ⟨own, later⟩ =>
      .cons (covers_estimate interpretation part own) (covers_estimates interpretation rest later)

end

end SetDescriptor

end Narrowing
