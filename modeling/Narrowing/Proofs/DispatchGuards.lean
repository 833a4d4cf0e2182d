import Narrowing.Dispatch
import Narrowing.Proofs.SetMembers

/-
This file says when a branch that is guarded by a set description is taken for members of the set
alone.
-/

namespace Narrowing

namespace Branch

open Descriptor

variable {Body : Type}

/-- A branch relies on its guard when it is taken, and a negated branch when it is passed over.
It guards a set when all values of the types that it relies on are members. -/
def Guards (branch : Branch Body) (set : Value → Prop) : Prop :=
  ∀ ntype, branch.fires ntype = !branch.negated →
    ∀ value : Value, value.WholeIsInteger → ntype.contains value = true → set value

/-- The guard is what a branch relies on, negated or not. -/
theorem relies_iff {branch : Branch Body} {ntype : Ntype} :
    branch.fires ntype = !branch.negated ↔ ntype.proves branch.guard = true := by
  unfold fires
  cases branch.negated <;> simp

/-- An inhabited type lies in itself. -/
theorem proves_self_of_contains {ntype : Ntype} {value : Value}
    (inside : ntype.contains value = true) : ntype.proves ntype = true := by
  cases ntype with
  | primitive primitive => exact Ntype.proves_of_same (beq_self_eq_true primitive)
  | singleton member =>
      obtain ⟨key, _, memberKey⟩ := Value.identical_iff.mp inside
      exact Ntype.proves_of_same (Value.identical_iff.mpr ⟨key, memberKey, memberKey⟩)

/-- A branch guards exactly the sets that hold all values of its guard. -/
theorem guards_iff {branch : Branch Body} {set : Value → Prop} :
    branch.Guards set ↔
      ∀ value : Value, value.WholeIsInteger → branch.guard.contains value = true → set value := by
  constructor
  · intro guards value whole inside
    exact guards branch.guard (relies_iff.mpr (proves_self_of_contains inside)) value whole inside
  · intro within ntype relies value whole inside
    exact within value whole (Ntype.contains_of_proves (relies_iff.mp relies) inside)

theorem guardOf_descriptor (primitive : Primitive) :
    guardOf primitive.descriptor = (primitive.descriptor, false) := by
  cases primitive with
  | integers narrowed => cases narrowed <;> rfl
  | _ => rfl

/-- A description that is no negation guards a branch as it is, and its negation a negated one. -/
theorem guardOf_toValue {part : SetDescriptor} (positive : ∀ inner, part ≠ .complement inner)
    (negated : Bool) :
    guardOf (if negated then .tuple [.text "not", part.toValue] else part.toValue) =
      (part.toValue, negated) := by
  cases negated with
  | true => rfl
  | false =>
      cases part with
      | complement inner => exact absurd rfl (positive inner)
      | named primitive => exact guardOf_descriptor primitive
      | reals head lower upper => cases head <;> rfl
      | both parts => cases parts with
        | nil => rfl
        | cons first rest => cases rest <;> rfl
      | _ => rfl

/-- After any look-ups of plain values, a branch of a set description relies on types of members
alone exactly when the type of the description holds members alone, as an exact type does. -/
theorem ofDescriptor_guards_iff (interpretation : Interpretation) {part : SetDescriptor}
    (keyed : part.WellKeyed) (positive : ∀ inner, part ≠ .complement inner)
    {calls : List Descriptor.Call} (plain : ∀ call ∈ calls, call.source.isPlain = true)
    (negated : Bool) (body : Body) :
    ∃ estimate branch, (ntypeOf part.toValue).outcome (tablesAfter calls) = .ok estimate ∧
      (ofDescriptor (if negated then .tuple [.text "not", part.toValue] else part.toValue)
        body).outcome (tablesAfter calls) = .ok branch ∧
      branch = ⟨estimate.ntype, negated, body⟩ ∧
      (branch.Guards (part.Denotes interpretation) ↔ ∀ value : Value, value.WholeIsInteger →
        (part.Denotes interpretation value ↔ estimate.ntype.contains value = true)) ∧
      (part.WellFormed → estimate.precise = true →
        branch.Guards (part.Denotes interpretation)) := by
  obtain ⟨estimate, outcome, agrees⟩ := SetDescriptor.ntypeOf_estimate keyed plain
  refine ⟨estimate, ⟨estimate.ntype, negated, body⟩, outcome, ?_, rfl, ?_, ?_⟩
  · rw [ofDescriptor, guardOf_toValue positive, Lookup.outcome_bind, outcome]
    rfl
  · rw [guards_iff]
    refine ⟨fun within value whole => ⟨fun member => ?_, within value whole⟩,
      fun same value whole => (same value whole).mpr⟩
    rw [agrees.1.contains_eq]
    exact (SetDescriptor.covers_estimate interpretation part keyed).holds value member
  · intro wellFormed precise
    have approximates :=
      (SetDescriptor.approximates_estimate interpretation part wellFormed).of_agrees agrees
    exact guards_iff.mpr fun value whole => (approximates value whole).2 precise

/-- The integers from zero to ten. -/
def smallNaturals : SetDescriptor := .integers (.inclusive 0) (.inclusive 10)

/-- The type of the integers from zero to ten also holds one hundred, so that a branch does not
guard them. -/
theorem ofDescriptor_guards_iff_small :
    ∃ branch, (ofDescriptor smallNaturals.toValue ()).outcome (tablesAfter []) = .ok branch ∧
      ¬ branch.Guards (smallNaturals.Denotes ⟨fun _ _ => False, fun _ _ => False⟩) := by
  have keyed : smallNaturals.WellKeyed := by simp [smallNaturals, SetDescriptor.WellKeyed]
  have plain : ∀ call ∈ ([] : List Descriptor.Call), call.source.isPlain = true := nofun
  obtain ⟨estimate, branch, found, made, _, guards, _⟩ := ofDescriptor_guards_iff
    ⟨fun _ _ => False, fun _ _ => False⟩ keyed (fun _ => nofun) plain false ()
  refine ⟨branch, made, fun guarded => ?_⟩
  have computed : ntype smallNaturals.toValue = .ok (Ntype.ofInterval ⟨some 0, some 10⟩) :=
    ntype_integers ⟨_, rfl⟩ rfl
  cases found.symm.trans computed
  have whole : (Value.integer 100).WholeIsInteger := by
    rintro number ⟨⟩
    rfl
  obtain ⟨number, same, _, bounded⟩ :=
    (guards.mp guarded (.integer 100) whole).mpr (by decide +kernel)
  cases same
  revert bounded
  simp [Bound.Admits]

end Branch

end Narrowing
