import Mathlib.Data.List.Forall2
import Narrowing.Proofs.UnionBounds
import Narrowing.ValuesNtype

/-
This file shows that the subtype answer on descriptions of sequences decides their order at all
positions.
-/

namespace Narrowing

namespace ValuesNtype

variable {values first second third : ValuesNtype} {position : Nat} {ntype : Ntype}

/-- All types in the description are interned. -/
structure IsInterned (values : ValuesNtype) : Prop where
  required : ∀ ntype ∈ values.required, ntype.Interned
  optional : ∀ ntype ∈ values.optional, ntype.Interned
  rest : ∀ ntype, values.rest = some ntype → ntype.Interned

theorem nth_eq_getD (values : ValuesNtype) (position : Nat) :
    values.nth position =
      (values.required ++ values.optional)[position]?.getD (values.rest.getD .null) := by
  unfold nth
  cases (values.required ++ values.optional)[position]? <;> rfl

/-- All positions past the fixed ones have one type. -/
theorem nth_past (past : values.fixedCount ≤ position) :
    values.nth position = values.rest.getD .null := by
  rw [nth_eq_getD, List.getElem?_eq_none (by rwa [List.length_append]), Option.getD_none]

theorem interned_nth (interned : values.IsInterned) (position : Nat) :
    (values.nth position).Interned := by
  unfold nth
  split
  · rename_i ntype found
    rcases List.mem_append.mp (List.mem_of_getElem? found) with required | optional
    · exact interned.required ntype required
    · exact interned.optional ntype optional
  · cases rest : values.rest with
    | none => trivial
    | some ntype => exact interned.rest ntype rest

/-- Lists of types are the same when their members are, one by one. -/
theorem sameList_iff {left right : List Ntype} :
    sameList left right = true ↔
      List.Forall₂ (fun first second => first.same second = true) left right := by
  induction left generalizing right with
  | nil => cases right <;> simp [sameList]
  | cons first left inductionHypothesis =>
      cases right with
      | nil => simp [sameList]
      | cons second right => simp [sameList, inductionHypothesis]

theorem subtypeFrom_precise (positions : List Nat) :
    (subtypeFrom first second true positions).precise = true := by
  induction positions with
  | nil => rfl
  | cons position positions inductionHypothesis =>
      rw [subtypeFrom, Ntype.subtype_precise]
      split
      · exact inductionHypothesis
      · rfl

theorem subtype_precise (first second : ValuesNtype) : (first.subtype second).precise = true := by
  unfold subtype
  split
  · rfl
  · exact subtypeFrom_precise _

end ValuesNtype

end Narrowing
