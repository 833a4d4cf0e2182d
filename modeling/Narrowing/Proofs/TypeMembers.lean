import Narrowing.Proofs.TypeAgreement

/-
This file says which values the intersection, the union and the complement of types hold.
-/

namespace Narrowing

namespace Ntype

variable {first second : Ntype} {value : Value}

theorem contains_empty : empty.contains value = false := AtomSet.contains_empty value.atom

/-- Two singletons that share a value are the same. -/
theorem same_of_contains {left right : Value} (inLeft : (singleton left).contains value = true)
    (inRight : (singleton right).contains value = true) :
    (singleton left).same (.singleton right) = true :=
  Value.identical_trans (Value.identical_comm.trans inLeft) inRight

/-- A singleton lies in a class as a whole or not at all. -/
theorem contains_class_of_member {primitive : Primitive} {member : Value}
    (inside : (singleton member).contains value = true) :
    (Ntype.primitive primitive).contains value = holds primitive member :=
  (holds_eq inside primitive)

/-- The intersection holds the values of both types, and it is always exact. -/
theorem intersection_spec (first second : Ntype) :
    (first.intersection second).precise = true ∧ ∀ value,
      (first.intersection second).ntype.contains value = true ↔
        first.contains value = true ∧ second.contains value = true := by
  unfold intersection
  by_cases same : first.same second = true
  · rw [if_pos same]
    refine ⟨rfl, fun value => ?_⟩
    rw [← Agrees.contains_eq (.inr same) value, and_self]
  · rw [if_neg same]
    cases first with
    | primitive left =>
        cases second with
        | primitive right =>
            obtain ⟨exact, atoms⟩ := Primitive.intersection_exact left right
            refine ⟨exact, fun value => ?_⟩
            simp only [ofEnclosing, contains, atoms, AtomSet.contains_and, Bool.and_eq_true]
        | singleton member =>
            refine ⟨rfl, fun value => ?_⟩
            simp only
            constructor
            · split
              · rename_i held
                exact fun inside => ⟨(contains_class_of_member inside).trans held, inside⟩
              · simp [contains_empty]
            · rintro ⟨inClass, inside⟩
              rw [contains_class_of_member inside] at inClass
              rwa [if_pos inClass]
    | singleton member =>
        cases second with
        | primitive right =>
            refine ⟨rfl, fun value => ?_⟩
            simp only
            constructor
            · split
              · rename_i held
                exact fun inside => ⟨inside, (contains_class_of_member inside).trans held⟩
              · simp [contains_empty]
            · rintro ⟨inside, inClass⟩
              rw [contains_class_of_member inside] at inClass
              rwa [if_pos inClass]
        | singleton other =>
            refine ⟨rfl, fun value => iff_of_false (by simp [contains_empty]) ?_⟩
            exact fun both => same (same_of_contains both.1 both.2)

/-- The intersection of some types holds the values of all, and it is always exact. -/
theorem intersectAll_spec (ntypes : List Ntype) :
    (intersectAll ntypes).precise = true ∧ ∀ value,
      (intersectAll ntypes).ntype.contains value = true ↔
        ∀ ntype ∈ ntypes, ntype.contains value = true := by
  have grown : ∀ start : Estimate, start.precise = true →
      let result := ntypes.foldl (fun result ntype =>
        let next := result.ntype.intersection ntype
        (⟨next.ntype, result.precise && next.precise⟩ : Estimate)) start
      result.precise = true ∧ ∀ value, result.ntype.contains value = true ↔
        start.ntype.contains value = true ∧ ∀ ntype ∈ ntypes, ntype.contains value = true := by
    induction ntypes with
    | nil => exact fun start exact => ⟨exact, fun value => by simp⟩
    | cons ntype rest inductionHypothesis =>
        intro start exact
        obtain ⟨precise, meets⟩ := intersection_spec start.ntype ntype
        obtain ⟨kept, held⟩ := inductionHypothesis
          ⟨(start.ntype.intersection ntype).ntype,
            start.precise && (start.ntype.intersection ntype).precise⟩ (by rw [exact, precise]; rfl)
        refine ⟨kept, fun value => (held value).trans ?_⟩
        rw [meets, List.forall_mem_cons, and_assoc]
  obtain ⟨precise, held⟩ := grown ⟨universal, true⟩ rfl
  refine ⟨precise, fun value => (held value).trans ?_⟩
  have everything : universal.contains value = true := Primitive.atoms_universal value.atom
  simp [everything]

/-- The union of some types holds the values of each, and an exact one holds no others. -/
theorem unionAll_spec (ntypes : List Ntype) (value : Value) :
    ((∃ ntype ∈ ntypes, ntype.contains value = true) →
      (unionAll ntypes).ntype.contains value = true) ∧
    ((unionAll ntypes).precise = true → (unionAll ntypes).ntype.contains value = true →
      ∃ ntype ∈ ntypes, ntype.contains value = true) := by
  have grown : ∀ start : Estimate,
      let result := ntypes.foldl (fun result ntype =>
        let next := result.ntype.union ntype
        (⟨next.ntype, result.precise && next.precise⟩ : Estimate)) start
      (start.ntype.contains value = true ∨ (∃ ntype ∈ ntypes, ntype.contains value = true) →
        result.ntype.contains value = true) ∧
      (result.precise = true → start.precise = true ∧ (result.ntype.contains value = true →
        start.ntype.contains value = true ∨ ∃ ntype ∈ ntypes, ntype.contains value = true)) := by
    induction ntypes with
    | nil => exact fun start => ⟨by simp, fun exact => ⟨exact, .inl⟩⟩
    | cons ntype rest inductionHypothesis =>
        intro start
        obtain ⟨held, kept⟩ := inductionHypothesis
          ⟨(start.ntype.union ntype).ntype, start.precise && (start.ntype.union ntype).precise⟩
        simp only [List.exists_mem_cons_iff]
        constructor
        · rintro (own | first | later)
          · exact held (.inl (contains_union (.inl own)))
          · exact held (.inl (contains_union (.inr first)))
          · exact held (.inr later)
        · intro exact
          obtain ⟨precise, parts⟩ := kept exact
          obtain ⟨startPrecise, unionPrecise⟩ := Bool.and_eq_true_iff.mp precise
          refine ⟨startPrecise, fun inside => ?_⟩
          rcases parts inside with united | later
          · rcases contains_of_union unionPrecise united with own | first
            · exact .inl own
            · exact .inr (.inl first)
          · exact .inr (.inr later)
  obtain ⟨held, kept⟩ := grown ⟨empty, true⟩
  refine ⟨fun some => held (.inr some), fun exact inside => ?_⟩
  rcases (kept exact).2 inside with impossible | some
  · rw [contains_empty] at impossible
    cases impossible
  · exact some

end Ntype

namespace Descriptor

/-- The complement of a class holds the values outside, and an exact one holds no others. -/
theorem complement_spec (primitive : Primitive) (value : Value) :
    ((Ntype.primitive primitive).contains value = false →
      (Ntype.primitive primitive.complement.primitive).contains value = true) ∧
    (primitive.complement.exact = true →
      (Ntype.primitive primitive.complement.primitive).contains value = true →
        (Ntype.primitive primitive).contains value = false) := by
  have outside : (AtomSet.all &&& ~~~primitive.atoms).contains value.atom =
      !primitive.atoms.contains value.atom := by
    have bound := value.atom.index_lt
    have all := AtomSet.contains_all value.atom
    unfold AtomSet.contains at all ⊢
    rw [BitVec.getLsbD_and, all, BitVec.getLsbD_not]
    simp [bound]
  constructor
  · intro apart
    refine Primitive.contains_enclosing (outside.trans ?_)
    rw [Bool.not_eq_true']
    exact apart
  · intro exact inside
    have atoms : primitive.complement.primitive.atoms = AtomSet.all &&& ~~~primitive.atoms :=
      Primitive.enclosing_exact exact
    rw [Ntype.contains_primitive, atoms, outside, Bool.not_eq_true'] at inside
    exact inside

end Descriptor

end Narrowing
