import Narrowing.Proofs.PointwiseOrder

/-
This file shows that the union of descriptions of sequences is their least upper bound, in whatever
order and grouping it is formed.
-/

namespace Narrowing

namespace ValuesNtype

variable {first second values union part whole : ValuesNtype}
  {others members group rest : List ValuesNtype} {position count start : Nat}

/-- The sequence has the required values and no more than the description allows, each of the type at
its position. -/
structure Describes (values : ValuesNtype) (sequence : List Value) : Prop where
  enough : values.minimum ≤ sequence.length
  bounded : values.rest = Option.none → sequence.length ≤ values.fixedCount
  typed : ∀ position value, sequence[position]? = some value →
    (values.nth position).contains value = true

/-- A description is a union of some others if its length bounds and its types are the least ones
around theirs. -/
structure IsUnion (union : ValuesNtype) (members : List ValuesNtype) : Prop where
  interned : union.IsInterned
  minimum : ∀ count, count ≤ union.minimum ↔ ∀ values ∈ members, count ≤ values.minimum
  fixedCount : ∀ count, union.fixedCount ≤ count ↔ ∀ values ∈ members, values.fixedCount ≤ count
  rest : union.rest = Option.none ↔ ∀ values ∈ members, values.rest = Option.none
  proves : ∀ position bound, bound.Interned →
    ((union.nth position).proves bound = true ↔
      ∀ values ∈ members, (values.nth position).proves bound = true)

namespace IsUnion

/-- The types of each member lie in those of the union. -/
theorem proves_member (isUnion : union.IsUnion members) (member : values ∈ members)
    (position : Nat) : (values.nth position).proves (union.nth position) = true := by
  have interned := interned_nth isUnion.interned position
  exact (isUnion.proves position _ interned).mp (Ntype.proves_refl _ interned) values member

/-- What a member describes, the union describes. -/
theorem describes (isUnion : union.IsUnion members) (member : values ∈ members)
    {sequence : List Value} (described : values.Describes sequence) :
    union.Describes sequence where
  enough :=
    Nat.le_trans ((isUnion.minimum _).mp (Nat.le_refl _) values member) described.enough
  bounded ends := by
    have short := described.bounded (isUnion.rest.mp ends values member)
    exact Nat.le_trans short ((isUnion.fixedCount _).mp (Nat.le_refl _) values member)
  typed position value found :=
    Ntype.contains_of_proves (isUnion.proves_member member position)
      (described.typed position value found)

end IsUnion

theorem nth_required (within : position < values.required.length) :
    values.nth position = values.required[position] := by
  rw [nth_eq_getD, List.getElem?_append_left within, List.getElem?_eq_getElem within,
    Option.getD_some]

theorem nth_optional (within : position < values.optional.length) :
    values.nth (values.minimum + position) = values.optional[position] := by
  rw [nth_eq_getD, minimum, List.getElem?_append_right (Nat.le_add_right _ _),
    Nat.add_sub_cancel_left, List.getElem?_eq_getElem within, Option.getD_some]

/-- Descriptions with the same numbers of positions and the same types there are the same. -/
theorem same_of_nth (sameMinimum : first.minimum = second.minimum)
    (sameCount : first.fixedCount = second.fixedCount)
    (ends : first.rest = Option.none ↔ second.rest = Option.none)
    (each : ∀ position, (first.nth position).same (second.nth position) = true) :
    first.same second = true := by
  have optionalLength : first.optional.length = second.optional.length := by
    unfold minimum at sameMinimum
    unfold fixedCount at sameCount
    omega
  have required : sameList first.required second.required = true := by
    refine sameList_iff.mpr
      (List.forall₂_iff_get.mpr ⟨sameMinimum, fun position inFirst inSecond => ?_⟩)
    have own := each position
    rwa [nth_required inFirst, nth_required inSecond] at own
  have optional : sameList first.optional second.optional = true := by
    refine sameList_iff.mpr
      (List.forall₂_iff_get.mpr ⟨optionalLength, fun position inFirst inSecond => ?_⟩)
    have own := each (first.minimum + position)
    rwa [nth_optional inFirst, sameMinimum, nth_optional inSecond] at own
  have rest : sameRest first.rest second.rest = true := by
    have own := each first.fixedCount
    rw [nth_past (Nat.le_refl _), nth_past (Nat.le_of_eq sameCount.symm)] at own
    cases firstRest : first.rest <;> cases secondRest : second.rest <;>
      rw [firstRest, secondRest] at own ends
    · rfl
    · cases ends.mp rfl
    · cases ends.mpr rfl
    · exact own
  simp only [ValuesNtype.same, required, optional, rest, Bool.and_true]

/-- Descriptions have one union. -/
theorem IsUnion.same (isFirst : first.IsUnion members) (isSecond : second.IsUnion members) :
    first.same second = true := by
  refine same_of_nth ?_ ?_ (isFirst.rest.trans isSecond.rest.symm) fun position => ?_
  · exact Nat.le_antisymm ((isSecond.minimum _).mpr ((isFirst.minimum _).mp (Nat.le_refl _)))
      ((isFirst.minimum _).mpr ((isSecond.minimum _).mp (Nat.le_refl _)))
  · exact Nat.le_antisymm ((isFirst.fixedCount _).mpr ((isSecond.fixedCount _).mp (Nat.le_refl _)))
      ((isSecond.fixedCount _).mpr ((isFirst.fixedCount _).mp (Nat.le_refl _)))
  · refine Ntype.same_of_bounds (interned_nth isFirst.interned position)
      (interned_nth isSecond.interned position) fun bound boundInterned => ?_
    exact (isFirst.proves position bound boundInterned).trans
      (isSecond.proves position bound boundInterned).symm

end ValuesNtype

end Narrowing
