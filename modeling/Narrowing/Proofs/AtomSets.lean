import Narrowing.Ntype

/-
This file relates the operations on sets of atoms and on classes to membership of atoms.
-/

namespace Narrowing

namespace AtomSet

/-- Every bit of a set stands for an atom. -/
theorem exists_atom {bit : Nat} (within : bit < 43) : ∃ atom : Atom, atom.index = bit := by
  have every : ∀ bit : Fin 43, ∃ atom ∈ Atom.all, atom.index = bit.val := by decide
  obtain ⟨atom, _, same⟩ := every ⟨bit, within⟩
  exact ⟨atom, same⟩

@[simp] theorem contains_or (first second : AtomSet) (atom : Atom) :
    contains (first ||| second) atom = (contains first atom || contains second atom) :=
  BitVec.getLsbD_or

@[simp] theorem contains_and (first second : AtomSet) (atom : Atom) :
    contains (first &&& second) atom = (contains first atom && contains second atom) :=
  BitVec.getLsbD_and

@[simp] theorem contains_empty (atom : Atom) : contains 0#43 atom = false := BitVec.getLsbD_zero

theorem contains_singleton (member atom : Atom) :
    contains (singleton member) atom = true ↔ member = atom := by
  have bound := atom.index_lt
  have own := member.index_lt
  simp only [contains, singleton, BitVec.getLsbD_shiftLeft, BitVec.getLsbD_one]
  constructor
  · intro present
    refine Atom.index_injective ?_
    simp only [Bool.and_eq_true, decide_eq_true_eq, Bool.not_eq_true'] at present
    have notBefore : ¬atom.index < member.index := by simpa using present.1.2
    have := present.2
    omega
  · intro same
    subst same
    simp [own]

theorem contains_ofList (atoms : List Atom) (atom : Atom) :
    contains (ofList atoms) atom = true ↔ atom ∈ atoms := by
  induction atoms with
  | nil => simp [ofList, contains]
  | cons first rest inductionHypothesis =>
      have unfolded : ofList (first :: rest) = singleton first ||| ofList rest := rfl
      rw [unfolded, contains_or, Bool.or_eq_true, contains_singleton, inductionHypothesis,
        List.mem_cons, eq_comm]

/-- Sets with the same atoms are equal. -/
theorem ext {first second : AtomSet}
    (same : ∀ atom, first.contains atom = true ↔ second.contains atom = true) :
    first = second := by
  refine BitVec.eq_of_getLsbD_eq fun bit within => ?_
  obtain ⟨atom, rfl⟩ := exists_atom within
  exact Bool.eq_iff_iff.mpr (same atom)

/-- Inclusion is membership of every atom. -/
theorem within_iff {first second : AtomSet} :
    first.within second = true ↔
      ∀ atom, first.contains atom = true → second.contains atom = true := by
  rw [within, beq_iff_eq]
  constructor
  · intro disjoint atom present
    have bit := congrArg (·.getLsbD atom.index) disjoint
    simp only [BitVec.getLsbD_and, BitVec.getLsbD_not, BitVec.getLsbD_zero] at bit
    rw [show first.getLsbD atom.index = true from present] at bit
    have kept : second.getLsbD atom.index = true := by simpa [atom.index_lt] using bit
    exact kept
  · intro included
    refine BitVec.eq_of_getLsbD_eq fun bit within => ?_
    obtain ⟨atom, same⟩ := exists_atom within
    subst same
    have kept := included atom
    simp only [contains] at kept
    simp only [BitVec.getLsbD_and, BitVec.getLsbD_not, BitVec.getLsbD_zero]
    cases present : first.getLsbD atom.index with
    | false => rfl
    | true => simp [kept present, atom.index_lt]

/-- All bands together are the atoms of the integers. -/
theorem contains_integers (atom : Atom) :
    contains (ofInterval ⟨none, none⟩) atom = true ↔ atom.tier? = some .integer := by
  rw [ofInterval, contains_ofList]
  cases atom <;> simp [Interval.overlaps, Atom.tier?]

/-- The atoms of the numbers of a tier; integers are fractions too. -/
theorem contains_ofTier (tier : Tier) (atom : Atom) :
    contains (ofTier tier) atom = true ↔
      atom.tier? = some tier ∨ (tier = .rational ∧ atom.tier? = some .integer) := by
  cases tier with
  | integer => simp [ofTier, contains_integers]
  | rational =>
      rw [ofTier, contains_or, Bool.or_eq_true, contains_integers, contains_singleton]
      cases atom <;> simp [Atom.tier?]
  | _ =>
      rw [ofTier, contains_singleton]
      cases atom <;> simp [Atom.tier?]

theorem contains_number (atom : Atom) :
    contains number atom = true ↔ atom.tier?.isSome = true := by
  simp only [number, real, float, complex, contains_or, contains_ofTier, contains_ofList,
    Bool.or_eq_true]
  cases atom <;> simp [Atom.tier?]

theorem contains_all (atom : Atom) : contains all atom = true :=
  (contains_ofList Atom.all atom).mpr atom.mem_all

theorem mem_tiers {set : AtomSet} {tier : Tier} :
    tier ∈ set.tiers ↔ ∃ atom, set.contains atom = true ∧ atom.tier? = some tier := by
  simp only [tiers, List.mem_filter, tier.mem_all, true_and, List.any_eq_true, Bool.and_eq_true,
    beq_iff_eq]
  constructor
  · rintro ⟨atom, _, holds⟩
    exact ⟨atom, holds⟩
  · rintro ⟨atom, holds⟩
    exact ⟨atom, atom.mem_all, holds⟩

/-- A set that grows step by step holds what some step adds. -/
theorem contains_foldl {Item : Type} {step : AtomSet → Item → AtomSet} {adds : Item → Prop}
    {atom : Atom}
    (each : ∀ set item, (step set item).contains atom = true ↔
      set.contains atom = true ∨ adds item) (items : List Item) (set : AtomSet) :
    (items.foldl step set).contains atom = true ↔
      set.contains atom = true ∨ ∃ item ∈ items, adds item := by
  induction items generalizing set with
  | nil => simp
  | cons item rest inductionHypothesis =>
      rw [List.foldl_cons, inductionHypothesis, each]
      simp [or_assoc]

end AtomSet

namespace Primitive

theorem atoms_ofTier (tier : Tier) : (ofTier tier).atoms = AtomSet.ofTier tier := by
  cases tier <;> rfl

theorem atoms_universal (atom : Atom) : universal.atoms.contains atom = true :=
  AtomSet.contains_all atom

/-- Each entry of the table names a class with its atoms. -/
theorem mem_table {entry : Primitive × AtomSet × Nat} (member : entry ∈ table) :
    entry.2.1 = entry.1.atoms := by
  obtain ⟨primitive, _, rfl⟩ := List.mem_map.mp member
  rfl

/-- The class around a set of atoms leaves none of them outside. -/
theorem contains_enclosing {set : AtomSet} {atom : Atom} (present : set.contains atom = true) :
    (enclosing set).primitive.atoms.contains atom = true := by
  unfold enclosing
  split
  · rename_i entry found
    have member := List.mem_of_find?_eq_some found
    have same := List.find?_some found
    rw [beq_iff_eq, mem_table member] at same
    rw [same]
    exact present
  · refine List.foldlRecOn (motive := fun best : Primitive × Nat => best.1.atoms.contains atom = true)
      table _ (atoms_universal atom) fun best held entry member => ?_
    split
    · rename_i better
      rw [Bool.and_eq_true, mem_table member] at better
      exact AtomSet.within_iff.mp better.1 atom present
    · exact held

theorem contains_ofAtom (atom : Atom) : (ofAtom atom).atoms.contains atom = true :=
  contains_enclosing ((AtomSet.contains_singleton atom atom).mpr rfl)

/-- The promoted atoms are those of the combined tiers. -/
theorem contains_promotedAtoms {first second : AtomSet} {atom : Atom} :
    (promotedAtoms first second).contains atom = true ↔
      ∃ left ∈ first.tiers, ∃ right ∈ second.tiers,
        (AtomSet.ofTier (left.combine right)).contains atom = true := by
  unfold promotedAtoms
  rw [AtomSet.contains_foldl fun set left => AtomSet.contains_foldl
    (fun set right => by rw [AtomSet.contains_or, Bool.or_eq_true]) second.tiers set]
  simp

/-- A number in a class shows that its class has numbers of this tier. -/
theorem tier_mem_tiers {primitive : Primitive} {atom : Atom} {tier : Tier}
    (present : primitive.atoms.contains atom = true) (isNumber : atom.tier? = some tier) :
    tier ∈ (primitive.atoms &&& AtomSet.number).tiers := by
  refine AtomSet.mem_tiers.mpr ⟨atom, ?_, isNumber⟩
  rw [AtomSet.contains_and, present, (AtomSet.contains_number atom).mpr (by simp [isNumber])]
  rfl

/-- Contagion promotes the numbers of both classes, if both have some. -/
theorem contagion_primitive {first second : Primitive} {left right : Tier}
    (leftTier : left ∈ (first.atoms &&& AtomSet.number).tiers)
    (rightTier : right ∈ (second.atoms &&& AtomSet.number).tiers) :
    (first.contagion second).primitive = (enclosing (promotedAtoms
      (first.atoms &&& AtomSet.number) (second.atoms &&& AtomSet.number))).primitive := by
  have filled : ∀ {primitive : Primitive} {tier : Tier},
      tier ∈ (primitive.atoms &&& AtomSet.number).tiers →
        primitive ≠ empty ∧ primitive.atoms &&& AtomSet.number ≠ 0#43 := by
    intro primitive tier member
    obtain ⟨atom, kept, _⟩ := AtomSet.mem_tiers.mp member
    refine ⟨?_, fun none => ?_⟩
    · rintro rfl
      simp [atoms] at kept
    · rw [none, AtomSet.contains_empty] at kept
      cases kept
  have one := filled leftTier
  have two := filled rightTier
  unfold contagion
  rw [if_neg (not_or.mpr ⟨one.1, two.1⟩)]
  simp only [one.2, two.2, or_self, if_false]

/-- Arithmetic on two numbers has its results in the class that contagion finds. -/
theorem contains_contagion {first second : Primitive} {left right atom : Atom}
    {leftTier rightTier : Tier} (leftPresent : first.atoms.contains left = true)
    (rightPresent : second.atoms.contains right = true) (leftNumber : left.tier? = some leftTier)
    (rightNumber : right.tier? = some rightTier)
    (present : (AtomSet.ofTier (leftTier.combine rightTier)).contains atom = true) :
    (first.contagion second).primitive.atoms.contains atom = true := by
  have leftMember := tier_mem_tiers leftPresent leftNumber
  have rightMember := tier_mem_tiers rightPresent rightNumber
  rw [contagion_primitive leftMember rightMember]
  exact contains_enclosing (contains_promotedAtoms.mpr
    ⟨leftTier, leftMember, rightTier, rightMember, present⟩)

theorem promotedAtoms_comm (first second : AtomSet) :
    promotedAtoms first second = promotedAtoms second first := by
  have half : ∀ {first second : AtomSet} {atom : Atom},
      (promotedAtoms first second).contains atom = true →
        (promotedAtoms second first).contains atom = true := by
    intro first second atom present
    obtain ⟨left, leftMember, right, rightMember, met⟩ := contains_promotedAtoms.mp present
    rw [Tier.combine_comm] at met
    exact contains_promotedAtoms.mpr ⟨right, rightMember, left, leftMember, met⟩
  exact AtomSet.ext fun atom => ⟨half, half⟩

theorem contagion_primitive_comm (first second : Primitive) :
    (first.contagion second).primitive = (second.contagion first).primitive := by
  unfold contagion
  by_cases hollow : first = empty ∨ second = empty
  · simp only [hollow, hollow.symm, if_true]
  · have alsoFilled : ¬(second = empty ∨ first = empty) := fun other => hollow other.symm
    simp only [hollow, alsoFilled, if_false]
    by_cases none : first.atoms &&& AtomSet.number = 0#43 ∨ second.atoms &&& AtomSet.number = 0#43
    · simp only [none, none.symm, if_true]
    · have alsoSome : ¬(second.atoms &&& AtomSet.number = 0#43 ∨
          first.atoms &&& AtomSet.number = 0#43) := fun other => none other.symm
      simp only [none, alsoSome, if_false]
      rw [promotedAtoms_comm]

/-- The sets of exact numbers that promotion reaches have classes of their own. -/
theorem enclosing_ofTier {tier : Tier} (exact : tier.isExact = true) :
    enclosing (AtomSet.ofTier tier) = ⟨ofTier tier, true⟩ := by
  have both : enclosing (AtomSet.ofTier .integer) = ⟨ofTier .integer, true⟩ ∧
      enclosing (AtomSet.ofTier .rational) = ⟨ofTier .rational, true⟩ := by decide +kernel
  cases tier with
  | integer => exact both.1
  | rational => exact both.2
  | _ => cases exact

/-- The tiers of the numbers in a set of exact numbers are exact. -/
theorem isExact_of_mem_tiers {set : AtomSet} {tier : Tier}
    (within : set.within (AtomSet.ofTier .rational) = true) (member : tier ∈ set.tiers) :
    tier.isExact = true := by
  obtain ⟨atom, present, number⟩ := AtomSet.mem_tiers.mp member
  rcases (AtomSet.contains_ofTier .rational atom).mp (AtomSet.within_iff.mp within atom present) with
    isRational | ⟨_, isInteger⟩
  · rw [number] at isRational
    cases isRational
    rfl
  · rw [number] at isInteger
    cases isInteger
    rfl

/-- Promotion of exact numbers reaches all numbers of an exact tier, if it reaches any. -/
theorem promotedAtoms_exact {first second : AtomSet} {left right : Tier}
    (firstExact : first.within (AtomSet.ofTier .rational) = true)
    (secondExact : second.within (AtomSet.ofTier .rational) = true)
    (leftTier : left ∈ first.tiers) (rightTier : right ∈ second.tiers) :
    ∃ tier : Tier, tier.isExact = true ∧ promotedAtoms first second = AtomSet.ofTier tier ∧
      (tier = .rational → ∃ left ∈ first.tiers, ∃ right ∈ second.tiers,
        left.combine right = .rational) := by
  have exact : ∀ left ∈ first.tiers, ∀ right ∈ second.tiers,
      left.combine right = .integer ∨ left.combine right = .rational := by
    intro left leftMember right rightMember
    have leftExact := isExact_of_mem_tiers firstExact leftMember
    have rightExact := isExact_of_mem_tiers secondExact rightMember
    revert leftExact rightExact
    cases left <;> cases right <;> decide
  by_cases fraction : ∃ left ∈ first.tiers, ∃ right ∈ second.tiers,
      left.combine right = .rational
  · obtain ⟨own, ownMember, other, otherMember, met⟩ := fraction
    refine ⟨.rational, rfl, AtomSet.ext fun atom => contains_promotedAtoms.trans ⟨?_, ?_⟩,
      fun _ => ⟨own, ownMember, other, otherMember, met⟩⟩
    · rintro ⟨left, leftMember, right, rightMember, present⟩
      rcases exact left leftMember right rightMember with same | same
      · rw [same, AtomSet.contains_ofTier] at present
        have integral : atom.tier? = some .integer := by simpa using present
        exact (AtomSet.contains_ofTier .rational atom).mpr (.inr ⟨rfl, integral⟩)
      · rwa [same] at present
    · intro present
      exact ⟨own, ownMember, other, otherMember, met ▸ present⟩
  · refine ⟨.integer, rfl, AtomSet.ext fun atom => contains_promotedAtoms.trans ⟨?_, ?_⟩, nofun⟩
    · rintro ⟨left, leftMember, right, rightMember, present⟩
      rcases exact left leftMember right rightMember with same | same
      · rwa [same] at present
      · exact absurd ⟨left, leftMember, right, rightMember, same⟩ fraction
    · intro present
      refine ⟨left, leftTier, right, rightTier, ?_⟩
      rcases exact left leftTier right rightTier with same | same
      · rwa [same]
      · exact absurd ⟨left, leftTier, right, rightTier, same⟩ fraction

/-- The class around a number of an exact tier stays in this tier. -/
theorem ofAtom_within {tier : Tier} (isExact : tier.isExact = true) {atom : Atom}
    (present : (ofTier tier).atoms.contains atom = true) :
    (ofAtom atom).atoms.within (ofTier tier).atoms = true := by
  have each : ∀ tier ∈ [Tier.integer, .rational], ∀ atom ∈ Atom.all,
      (ofTier tier).atoms.contains atom = true →
        (ofAtom atom).atoms.within (ofTier tier).atoms = true := by decide +kernel
  refine each tier ?_ atom atom.mem_all present
  cases tier with
  | integer | rational => decide
  | _ => cases isExact

/-- The numbers of classes in an exact tier meet in an exact tier, and integers in integers. -/
theorem contagion_exact {first second : Primitive} {left right own : Tier}
    (isExact : own.isExact = true) (firstExact : first.atoms.within (ofTier own).atoms = true)
    (secondExact : second.atoms.within (ofTier own).atoms = true)
    (leftTier : left ∈ (first.atoms &&& AtomSet.number).tiers)
    (rightTier : right ∈ (second.atoms &&& AtomSet.number).tiers) :
    ∃ tier : Tier, tier.isExact = true ∧ (own = .rational ∨ tier = .integer) ∧
      (first.contagion second).primitive = ofTier tier := by
  have numbers : ∀ {primitive : Primitive}, primitive.atoms.within (ofTier own).atoms = true →
      ∀ atom, (primitive.atoms &&& AtomSet.number).contains atom = true →
        (AtomSet.ofTier own).contains atom = true := by
    intro primitive within atom present
    rw [AtomSet.contains_and, Bool.and_eq_true] at present
    rw [← atoms_ofTier]
    exact AtomSet.within_iff.mp within atom present.1
  have rational : ∀ atom, (AtomSet.ofTier own).contains atom = true →
      (AtomSet.ofTier .rational).contains atom = true := by
    cases own with
    | integer | rational => exact AtomSet.within_iff.mp (by decide)
    | _ => cases isExact
  obtain ⟨tier, tierExact, promoted, fraction⟩ := promotedAtoms_exact
    (AtomSet.within_iff.mpr fun atom present => rational atom (numbers firstExact atom present))
    (AtomSet.within_iff.mpr fun atom present => rational atom (numbers secondExact atom present))
    leftTier rightTier
  refine ⟨tier, tierExact, ?_, ?_⟩
  · cases own with
    | rational => exact .inl rfl
    | integer =>
        have integral : ∀ {primitive : Primitive} {tier : Tier},
            primitive.atoms.within (ofTier .integer).atoms = true →
            tier ∈ (primitive.atoms &&& AtomSet.number).tiers → tier = .integer := by
          intro primitive tier within member
          obtain ⟨atom, present, isNumber⟩ := AtomSet.mem_tiers.mp member
          have held := (AtomSet.contains_ofTier .integer atom).mp (numbers within atom present)
          rw [isNumber] at held
          simpa using held
        cases tier with
        | integer => exact .inr rfl
        | rational =>
            obtain ⟨one, oneMember, two, twoMember, met⟩ := fraction rfl
            rw [integral firstExact oneMember, integral secondExact twoMember] at met
            cases met
        | _ => cases tierExact
    | _ => cases isExact
  · rw [contagion_primitive leftTier rightTier, promoted, enclosing_ofTier tierExact]

end Primitive

end Narrowing
