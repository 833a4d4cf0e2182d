import Mathlib.Data.List.Forall2
import Narrowing.Descriptor.Resolve
import Narrowing.Proofs.UnionBounds

/-
This file says when two results describe the same type, whichever identical value a singleton was
made of, and shows that the operations on types respect this.
-/

namespace Narrowing

namespace Ntype

/-- Two types agree when they are equal, or name one class, or hold one value. -/
def Agrees (first second : Ntype) : Prop := first = second ∨ first.same second = true

theorem Agrees.refl (ntype : Ntype) : ntype.Agrees ntype := .inl rfl

/-- Types that agree are equal or singletons of identical values. -/
theorem Agrees.cases {first second : Ntype} (agrees : first.Agrees second) :
    first = second ∨ ∃ left right, first = .singleton left ∧ second = .singleton right ∧
      left.identical right = true := by
  rcases agrees with equal | same
  · exact .inl equal
  · cases first with
    | primitive left =>
        cases second with
        | primitive right => exact .inl (congrArg _ (beq_iff_eq.mp same))
        | singleton right => cases same
    | singleton left =>
        cases second with
        | primitive right => cases same
        | singleton right => exact .inr ⟨left, right, rfl, rfl, same⟩

theorem Agrees.symm {first second : Ntype} (agrees : first.Agrees second) :
    second.Agrees first := by
  rcases agrees with equal | same
  · exact .inl equal.symm
  · exact .inr (same_comm first second ▸ same)

theorem Agrees.same_eq {first second : Ntype} (agrees : first.Agrees second) (third : Ntype) :
    first.same third = second.same third := by
  rcases agrees.cases with rfl | ⟨left, right, rfl, rfl, same⟩
  · rfl
  · cases third with
    | primitive primitive => rfl
    | singleton member =>
        refine Bool.eq_iff_iff.mpr ⟨fun held => ?_, Value.identical_trans same⟩
        rw [Value.identical_comm] at same
        exact Value.identical_trans same held

theorem Agrees.trans {first second third : Ntype} (left : first.Agrees second)
    (right : second.Agrees third) : first.Agrees third := by
  rcases right with rfl | same
  · exact left
  · exact .inr (left.same_eq third ▸ same)

theorem Agrees.cover_eq {first second : Ntype} (agrees : first.Agrees second) :
    first.cover = second.cover := by
  rcases agrees.cases with rfl | ⟨left, right, rfl, rfl, same⟩
  · rfl
  · exact congrArg Primitive.ofAtom (Value.atom_eq_of_identical same)

theorem Agrees.isEmpty_eq {first second : Ntype} (agrees : first.Agrees second) :
    first.isEmpty = second.isEmpty := by
  rcases agrees.cases with rfl | ⟨left, right, rfl, rfl, _⟩ <;> rfl

/-- Types that agree hold the same values. -/
theorem Agrees.contains_eq {first second : Ntype} (agrees : first.Agrees second) (value : Value) :
    first.contains value = second.contains value := by
  rcases agrees.cases with rfl | ⟨left, right, rfl, rfl, same⟩
  · rfl
  · refine Bool.eq_iff_iff.mpr ⟨fun held => Value.identical_trans held same, fun held => ?_⟩
    rw [Value.identical_comm] at same
    exact Value.identical_trans held same

theorem holds_eq {left right : Value} (same : left.identical right = true)
    (primitive : Primitive) : holds primitive left = holds primitive right :=
  congrArg primitive.atoms.contains (Value.atom_eq_of_identical same)

theorem Agrees.proves_eq {first second : Ntype} (agrees : first.Agrees second)
    {third fourth : Ntype} (others : third.Agrees fourth) :
    first.proves third = second.proves fourth := by
  have same : first.same third = second.same fourth := by
    rw [agrees.same_eq, same_comm, others.same_eq, same_comm]
  unfold proves subtype
  rw [same]
  rcases agrees.cases with rfl | ⟨left, right, rfl, rfl, own⟩ <;>
    rcases others.cases with rfl | ⟨one, two, rfl, rfl, _⟩
  · rfl
  · cases first <;> rfl
  · cases third with
    | primitive primitive => simp only [holds_eq own]
    | singleton member => rfl
  · rfl

end Ntype

namespace Estimate

/-- Two estimates agree when their types do and both or neither are exact. -/
def Agrees (first second : Estimate) : Prop :=
  first.ntype.Agrees second.ntype ∧ first.precise = second.precise

theorem Agrees.refl (estimate : Estimate) : estimate.Agrees estimate := ⟨.refl _, rfl⟩

theorem Agrees.symm {first second : Estimate} (agrees : first.Agrees second) :
    second.Agrees first := ⟨agrees.1.symm, agrees.2.symm⟩

theorem Agrees.trans {first second third : Estimate} (left : first.Agrees second)
    (right : second.Agrees third) : first.Agrees third :=
  ⟨left.1.trans right.1, left.2.trans right.2⟩

end Estimate

namespace Ntype

variable {first second third fourth : Ntype}

theorem Agrees.union (agrees : first.Agrees second) (others : third.Agrees fourth) :
    (first.union third).Agrees (second.union fourth) := by
  have same : first.same third = second.same fourth := by
    rw [agrees.same_eq, same_comm, others.same_eq, same_comm]
  unfold Ntype.union
  rw [same, agrees.isEmpty_eq, others.isEmpty_eq]
  split
  · exact ⟨agrees, rfl⟩
  · split
    · exact ⟨others, rfl⟩
    · have covers := agrees.cover_eq
      have otherCovers := others.cover_eq
      rcases agrees.cases with rfl | ⟨left, right, rfl, rfl, own⟩ <;>
        rcases others.cases with rfl | ⟨one, two, rfl, rfl, other⟩
      · exact .refl _
      · cases first with
        | primitive primitive =>
            simp only [holds_eq other, otherCovers]
            split
            · exact .refl _
            · exact .refl _
        | singleton member =>
            simp only [otherCovers]
            exact .refl _
      · cases third with
        | primitive primitive =>
            simp only [holds_eq own, covers]
            split
            · exact .refl _
            · exact .refl _
        | singleton member =>
            simp only [covers]
            exact .refl _
      · simp only [covers, otherCovers]
        exact .refl _

theorem Agrees.intersection (agrees : first.Agrees second) (others : third.Agrees fourth) :
    (first.intersection third).Agrees (second.intersection fourth) := by
  have same : first.same third = second.same fourth := by
    rw [agrees.same_eq, same_comm, others.same_eq, same_comm]
  unfold Ntype.intersection
  rw [same]
  split
  · exact ⟨agrees, rfl⟩
  · rcases agrees.cases with rfl | ⟨left, right, rfl, rfl, own⟩ <;>
      rcases others.cases with rfl | ⟨one, two, rfl, rfl, other⟩
    · exact .refl _
    · cases first with
      | primitive primitive =>
          simp only [holds_eq other]
          split
          · exact ⟨others, rfl⟩
          · exact .refl _
      | singleton member => exact .refl _
    · cases third with
      | primitive primitive =>
          simp only [holds_eq own]
          split
          · exact ⟨agrees, rfl⟩
          · exact .refl _
      | singleton member => exact .refl _
    · exact .refl _

/-- A fold over types that agree gives results that agree when each step does. -/
theorem foldl_agrees {step : Ntype → Ntype → Estimate}
    (steps : ∀ {one two left right : Ntype}, one.Agrees two → left.Agrees right →
      (step one left).Agrees (step two right))
    {left right : List Ntype} (agree : List.Forall₂ Agrees left right) {one two : Estimate}
    (starts : one.Agrees two) :
    let grow := fun (result : Estimate) (ntype : Ntype) =>
      let next := step result.ntype ntype
      (⟨next.ntype, result.precise && next.precise⟩ : Estimate)
    (left.foldl grow one).Agrees (right.foldl grow two) := by
  induction agree generalizing one two with
  | nil => exact starts
  | cons agrees _ inductionHypothesis =>
      refine inductionHypothesis ⟨(steps starts.1 agrees).1, ?_⟩
      simp only [starts.2, (steps starts.1 agrees).2]

theorem unionAll_agrees {left right : List Ntype} (agree : List.Forall₂ Agrees left right) :
    (unionAll left).Agrees (unionAll right) := foldl_agrees Agrees.union agree (.refl _)

theorem intersectAll_agrees {left right : List Ntype} (agree : List.Forall₂ Agrees left right) :
    (intersectAll left).Agrees (intersectAll right) :=
  foldl_agrees Agrees.intersection agree (.refl _)

theorem Agrees.complexOfPart_eq (agrees : first.Agrees second) :
    first.complexOfPart = second.complexOfPart := by
  unfold complexOfPart
  simp only [agrees.proves_eq (.refl _)]

end Ntype

namespace Descriptor

theorem isUniversal_eq {first second : Ntype} (agrees : first.Agrees second) :
    isUniversal first = isUniversal second := by
  rcases agrees.cases with rfl | ⟨left, right, rfl, rfl, _⟩ <;> rfl

theorem complementOf_agrees {first second : Estimate} (agrees : first.Agrees second) :
    (complementOf first).Agrees (complementOf second) := by
  obtain ⟨ntypes, precise⟩ := agrees
  unfold complementOf
  rw [precise]
  rcases ntypes.cases with equal | ⟨left, right, firstSingle, secondSingle, _⟩
  · rw [equal]
    exact .refl _
  · rw [firstSingle, secondSingle]
    cases second.precise <;> exact .refl _

end Descriptor

end Narrowing
