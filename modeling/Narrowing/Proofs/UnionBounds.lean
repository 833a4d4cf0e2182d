import Narrowing.Proofs.TypeInclusion

/-
This file shows that the union of types is their least upper bound, in whatever order and grouping
it is formed.
-/

namespace Narrowing

namespace Ntype

theorem proves_of_same {first second : Ntype} (same : first.same second = true) :
    first.proves second = true := by
  unfold proves subtype
  rw [if_pos same]

theorem same_comm (first second : Ntype) : first.same second = second.same first := by
  cases first <;> cases second
  · exact Bool.eq_iff_iff.mpr (by simp only [same, beq_iff_eq]; exact eq_comm)
  · rfl
  · rfl
  · exact Value.identical_comm

theorem proves_refl (ntype : Ntype) (interned : ntype.Interned) : ntype.proves ntype = true :=
  (proves_iff_subset interned interned).mpr fun _ inside => inside

theorem proves_trans {first second third : Ntype} (firstInterned : first.Interned)
    (thirdInterned : third.Interned) (left : first.proves second = true)
    (right : second.proves third = true) : first.proves third = true :=
  (proves_iff_subset firstInterned thirdInterned).mpr fun _ inside =>
    contains_of_proves right (contains_of_proves left inside)

/-- Types that lie in each other are the same. -/
theorem same_of_proves {first second : Ntype} (firstInterned : first.Interned)
    (left : first.proves second = true) (right : second.proves first = true) :
    first.same second = true := by
  cases first with
  | primitive first =>
      cases second with
      | primitive second =>
          have sameAtoms := AtomSet.within_antisymm (proves_primitive_iff.mp left)
            (proves_primitive_iff.mp right)
          exact beq_iff_eq.mpr (Primitive.eq_of_atoms sameAtoms)
      | singleton member =>
          rw [proves_primitive_singleton] at left
          subst left
          simp [proves_singleton_primitive, Primitive.atoms] at right
  | singleton member =>
      cases second with
      | primitive second =>
          rw [proves_primitive_singleton] at right
          subst right
          simp [proves_singleton_primitive, Primitive.atoms] at left
      | singleton other => exact same_iff_proves_singletons.mp left

theorem empty_proves (ntype : Ntype) : empty.proves ntype = true := by
  cases ntype with
  | primitive primitive =>
      refine proves_primitive_iff.mpr (AtomSet.within_iff.mpr fun atom present => ?_)
      simp [Primitive.atoms] at present
  | singleton member => exact proves_primitive_singleton.mpr rfl

theorem eq_empty_of_isEmpty {ntype : Ntype} (hollow : ntype.isEmpty = true) : ntype = empty := by
  cases ntype with
  | primitive primitive => rw [beq_iff_eq.mp hollow, empty]
  | singleton member => cases hollow

/-- A type lies in a class when the class around the type does. -/
theorem proves_primitive_iff_cover {ntype : Ntype} {primitive : Primitive} :
    ntype.proves (.primitive primitive) = true ↔
      ntype.cover.atoms.within primitive.atoms = true := by
  cases ntype with
  | primitive own => exact proves_primitive_iff
  | singleton member =>
      rw [proves_singleton_primitive]
      exact Primitive.ofAtom_within_iff.symm

/-- A union is one of the two types, or the class around both when neither holds the other. -/
theorem union_cases (first second : Ntype) :
    (first.union second = ⟨first, true⟩ ∧ second.proves first = true) ∨
      (first.union second = ⟨second, true⟩ ∧ first.proves second = true) ∨
      ((first.union second).ntype = .primitive (first.cover.union second.cover).primitive ∧
        first.same second = false ∧ first.isEmpty = false ∧ second.isEmpty = false ∧
        ((first.union second).precise = true → ∃ left right, first = .primitive left ∧
          second = .primitive right ∧ (left.union right).exact = true)) := by
  unfold union
  by_cases trivialRight : first.same second = true ∨ second.isEmpty = true
  · rw [if_pos (by simpa using trivialRight)]
    refine .inl ⟨rfl, ?_⟩
    rcases trivialRight with same | hollow
    · rw [same_comm] at same
      exact proves_of_same same
    · rw [eq_empty_of_isEmpty hollow]
      exact empty_proves first
  · rw [if_neg (by simpa using trivialRight)]
    obtain ⟨apart, filled⟩ := not_or.mp trivialRight
    by_cases hollow : first.isEmpty = true
    · rw [if_pos hollow, eq_empty_of_isEmpty hollow]
      exact .inr (.inl ⟨rfl, empty_proves second⟩)
    · rw [if_neg hollow]
      simp only [Bool.not_eq_true] at apart filled hollow
      cases first with
      | primitive left =>
          cases second with
          | primitive right =>
              exact .inr (.inr ⟨rfl, apart, hollow, filled, fun exact => ⟨left, right, rfl, rfl, exact⟩⟩)
          | singleton member =>
              simp only
              split
              · rename_i held
                exact .inl ⟨rfl, held⟩
              · exact .inr (.inr ⟨rfl, apart, hollow, filled, nofun⟩)
      | singleton member =>
          cases second with
          | primitive right =>
              simp only
              split
              · rename_i held
                exact .inr (.inl ⟨rfl, held⟩)
              · exact .inr (.inr ⟨rfl, apart, hollow, filled, nofun⟩)
          | singleton other => exact .inr (.inr ⟨rfl, apart, hollow, filled, nofun⟩)

theorem interned_union {first second : Ntype} (firstInterned : first.Interned)
    (secondInterned : second.Interned) : (first.union second).ntype.Interned := by
  rcases union_cases first second with ⟨chosen, _⟩ | ⟨chosen, _⟩ | ⟨widened, _⟩
  · rwa [chosen]
  · rwa [chosen]
  · rw [widened]
    trivial

/-- A union holds the values of both types. -/
theorem contains_union {first second : Ntype} {value : Value}
    (inside : first.contains value = true ∨ second.contains value = true) :
    (first.union second).ntype.contains value = true := by
  rcases union_cases first second with ⟨chosen, proven⟩ | ⟨chosen, proven⟩ | ⟨widened, _⟩
  · rw [chosen]
    exact inside.elim id (contains_of_proves proven)
  · rw [chosen]
    exact inside.elim (contains_of_proves proven) id
  · rw [widened, contains_primitive]
    refine Primitive.contains_enclosing ?_
    rw [AtomSet.contains_or, Bool.or_eq_true]
    exact inside.imp contains_cover contains_cover

/-- A precise union holds no other values. -/
theorem contains_of_union {first second : Ntype} {value : Value}
    (precise : (first.union second).precise = true)
    (inside : (first.union second).ntype.contains value = true) :
    first.contains value = true ∨ second.contains value = true := by
  rcases union_cases first second with ⟨chosen, _⟩ | ⟨chosen, _⟩ | ⟨widened, _, _, _, classes⟩
  · rw [chosen] at inside
    exact .inl inside
  · rw [chosen] at inside
    exact .inr inside
  · obtain ⟨left, right, rfl, rfl, exact⟩ := classes precise
    rw [widened, contains_primitive] at inside
    have sameAtoms : (left.union right).primitive.atoms = left.atoms ||| right.atoms :=
      Primitive.enclosing_exact exact
    rw [cover, cover, sameAtoms, AtomSet.contains_or, Bool.or_eq_true] at inside
    exact inside

/-- Different types with values do not lie in one singleton, and neither does their union. -/
theorem union_proves_singleton {first second : Ntype} {member : Value}
    (widened : (first.union second).ntype = .primitive (first.cover.union second.cover).primitive)
    (apart : first.same second = false) (firstFilled : first.isEmpty = false)
    (secondFilled : second.isEmpty = false) :
    (first.union second).ntype.proves (.singleton member) = true ↔
      first.proves (.singleton member) = true ∧ second.proves (.singleton member) = true := by
  have alone : ∀ {ntype : Ntype}, ntype.isEmpty = false → ntype.proves (.singleton member) = true →
      ∃ own, ntype = .singleton own ∧ own.identical member = true := by
    intro ntype filled proven
    cases ntype with
    | primitive primitive =>
        rw [proves_primitive_singleton] at proven
        subst proven
        cases filled
    | singleton own => exact ⟨own, rfl, same_iff_proves_singletons.mp proven⟩
  constructor
  · intro proven
    rw [widened, proves_primitive_singleton] at proven
    have hollow : first.proves (.primitive .empty) = true := by
      have both : (first.cover.union second.cover).primitive.atoms.within
          Primitive.empty.atoms = true := by
        rw [proven]
        exact AtomSet.within_iff.mpr fun _ => id
      exact proves_primitive_iff_cover.mpr (Primitive.union_within_iff.mp both).1
    cases first with
    | primitive primitive =>
        have none : primitive = .empty := Primitive.eq_of_atoms (AtomSet.within_antisymm
          (proves_primitive_iff.mp hollow) (proves_primitive_iff.mp (empty_proves _)))
        subst none
        cases firstFilled
    | singleton own => simp [proves_singleton_primitive, Primitive.atoms] at hollow
  · rintro ⟨left, right⟩
    obtain ⟨own, rfl, ownSame⟩ := alone firstFilled left
    obtain ⟨other, rfl, otherSame⟩ := alone secondFilled right
    rw [Value.identical_comm] at otherSame
    have same : own.identical other = true := Value.identical_trans ownSame otherSame
    cases same.symm.trans apart

/-- A union lies in the types that hold both of its parts. -/
theorem union_proves_iff {first second third : Ntype} (firstInterned : first.Interned)
    (secondInterned : second.Interned) (thirdInterned : third.Interned) :
    (first.union second).ntype.proves third = true ↔
      first.proves third = true ∧ second.proves third = true := by
  rcases union_cases first second with ⟨chosen, proven⟩ | ⟨chosen, proven⟩ |
    ⟨widened, apart, firstFilled, secondFilled, _⟩
  · rw [chosen]
    exact ⟨fun left => ⟨left, proves_trans secondInterned thirdInterned proven left⟩, And.left⟩
  · rw [chosen]
    exact ⟨fun right => ⟨proves_trans firstInterned thirdInterned proven right, right⟩, And.right⟩
  · cases third with
    | primitive bound =>
        rw [widened, proves_primitive_iff, Primitive.union_within_iff, proves_primitive_iff_cover,
          proves_primitive_iff_cover]
    | singleton member => exact union_proves_singleton widened apart firstFilled secondFilled

/-- A type is determined by the types that it lies in. -/
theorem same_of_bounds {first second : Ntype} (firstInterned : first.Interned)
    (secondInterned : second.Interned)
    (bounds : ∀ bound : Ntype, bound.Interned →
      (first.proves bound = true ↔ second.proves bound = true)) : first.same second = true :=
  same_of_proves firstInterned
    ((bounds second secondInterned).mpr (proves_refl second secondInterned))
    ((bounds first firstInterned).mp (proves_refl first firstInterned))

/-- The union of some types, from a first one on, lies in the types that hold them all. -/
theorem foldl_union_proves_iff {bound : Ntype} (boundInterned : bound.Interned)
    (ntypes : List Ntype) (start : Estimate) (startInterned : start.ntype.Interned)
    (interned : ∀ ntype ∈ ntypes, ntype.Interned) :
    let result := ntypes.foldl
      (fun result ntype =>
        let next := result.ntype.union ntype
        (⟨next.ntype, result.precise && next.precise⟩ : Estimate)) start
    result.ntype.Interned ∧ (result.ntype.proves bound = true ↔
      start.ntype.proves bound = true ∧ ∀ ntype ∈ ntypes, ntype.proves bound = true) := by
  induction ntypes generalizing start with
  | nil => exact ⟨startInterned, by simp⟩
  | cons ntype rest inductionHypothesis =>
      have own := interned ntype List.mem_cons_self
      obtain ⟨kept, bounded⟩ := inductionHypothesis
        ⟨(start.ntype.union ntype).ntype, start.precise && (start.ntype.union ntype).precise⟩
        (interned_union startInterned own)
        fun other member => interned other (List.mem_cons_of_mem ntype member)
      refine ⟨kept, bounded.trans ?_⟩
      simp only [union_proves_iff startInterned own boundInterned, List.forall_mem_cons, and_assoc]

theorem interned_unionAll {ntypes : List Ntype} (interned : ∀ ntype ∈ ntypes, ntype.Interned) :
    (unionAll ntypes).ntype.Interned :=
  (@foldl_union_proves_iff empty trivial ntypes ⟨empty, true⟩ trivial interned).1

theorem unionAll_proves_iff {ntypes : List Ntype} {bound : Ntype} (boundInterned : bound.Interned)
    (interned : ∀ ntype ∈ ntypes, ntype.Interned) :
    (unionAll ntypes).ntype.proves bound = true ↔
      ∀ ntype ∈ ntypes, ntype.proves bound = true := by
  refine (foldl_union_proves_iff boundInterned ntypes ⟨empty, true⟩ trivial interned).2.trans ?_
  simp [empty_proves]

end Ntype

end Narrowing
