import Narrowing.Proofs.NumberTiers
import Narrowing.Proofs.TypeInclusion

/-
This file compares the class that contagion finds for two types with the tiers in which their
numbers meet: it is the least class around the numbers of these tiers, and the tier that is chosen
for the class is one of them and covers them all.
-/

namespace Narrowing

namespace Tier

/-- The numbers of a tier lie in the class of another one when it covers the tier. -/
theorem ofTier_within_iff {own tier : Tier} :
    (Primitive.ofTier own).atoms.within (Primitive.ofTier tier).atoms = true ↔
      tier.covers own = true := by
  rw [AtomSet.within_iff, covers_iff]
  simp only [Primitive.atoms_ofTier, AtomSet.contains_ofTier]
  constructor
  · intro included
    obtain ⟨atom, isOwn⟩ := Atom.exists_tier own
    simpa [isOwn] using included atom (.inl isOwn)
  · rintro (rfl | ⟨rfl, rfl⟩) atom held
    · exact held
    · exact .inr ⟨rfl, by simpa using held⟩

theorem rank_le_of_covers {own tier : Tier} (covers : tier.covers own = true) :
    own.rank ≤ tier.rank := by
  rcases covers_iff.mp covers with rfl | ⟨rfl, rfl⟩
  · exact Nat.le_refl own.rank
  · decide

/-- The tiers are listed from the lowest to the highest. -/
theorem all_ascending : all.Pairwise fun first second => first.rank < second.rank := by decide

/-- A search finds the lowest tier that fits. -/
theorem find?_eq_some_iff {fits : Tier → Bool} {tier : Tier} :
    all.find? fits = some tier ↔
      fits tier = true ∧ ∀ other, fits other = true → tier.rank ≤ other.rank := by
  rw [List.find?_eq_some_iff_append]
  refine and_congr_right fun _ => ?_
  constructor
  · rintro ⟨before, after, same, missed⟩ other found
    have ascending := all_ascending
    have present := other.mem_all
    rw [same] at ascending present
    rcases List.mem_append.mp present with earlier | later
    · have rejected := missed other earlier
      simp [found] at rejected
    · rcases List.mem_cons.mp later with rfl | later
      · exact Nat.le_refl other.rank
      · have higher := (List.pairwise_append.mp ascending).2.1
        exact Nat.le_of_lt (List.rel_of_pairwise_cons higher later)
  · intro lowest
    obtain ⟨before, after, same⟩ := List.append_of_mem tier.mem_all
    refine ⟨before, after, same, fun other earlier => ?_⟩
    have ascending := all_ascending
    rw [same] at ascending
    have lower := (List.pairwise_append.mp ascending).2.2 other earlier tier List.mem_cons_self
    cases found : fits other with
    | false => rfl
    | true => exact absurd (lowest other found) (Nat.not_le_of_lt lower)

end Tier

namespace Primitive

/-- The class of the numbers in one tier, where integers are no fractions. -/
def inTier (tier : Tier) : Primitive := if tier = .rational then ratio else ofTier tier

theorem contains_inTier (tier : Tier) (atom : Atom) :
    (inTier tier).atoms.contains atom = true ↔ atom.tier? = some tier := by
  unfold inTier
  split
  · rename_i fractions
    subst fractions
    rw [show ratio.atoms = AtomSet.singleton .ratio from rfl, AtomSet.contains_singleton]
    cases atom <;> simp [Atom.tier?]
  · rename_i other
    rw [atoms_ofTier, AtomSet.contains_ofTier]
    simp [other]

/-- The class around a number holds numbers of its tier alone. -/
theorem tier_of_ofAtom {number atom : Atom} {tier : Tier} (own : number.tier? = some tier)
    (present : (ofAtom number).atoms.contains atom = true) : atom.tier? = some tier := by
  have within := ofAtom_within_iff.mpr ((contains_inTier tier number).mpr own)
  exact (contains_inTier tier atom).mp (AtomSet.within_iff.mp within atom present)

theorem mem_tiers_iff {primitive : Primitive} {tier : Tier} :
    tier ∈ (primitive.atoms &&& AtomSet.number).tiers ↔
      ∃ atom, primitive.atoms.contains atom = true ∧ atom.tier? = some tier := by
  constructor
  · intro member
    obtain ⟨atom, present, own⟩ := AtomSet.mem_tiers.mp member
    rw [AtomSet.contains_and, Bool.and_eq_true] at present
    exact ⟨atom, present.1, own⟩
  · rintro ⟨atom, present, own⟩
    exact tier_mem_tiers present own

end Primitive

namespace Ntype

variable {ntype first second : Ntype} {tier met : Tier}

/-- A type has numbers of a tier. -/
def HasTier (ntype : Ntype) (tier : Tier) : Prop :=
  ∃ value, ntype.contains value = true ∧ value.tier? = some tier

/-- Some numbers of two types compute in a tier when they meet. -/
def MeetIn (first second : Ntype) (met : Tier) : Prop :=
  ∃ left right, first.HasTier left ∧ second.HasTier right ∧ left.combine right = met

/-- The class around a type that has numbers adds numbers of no other tier. -/
theorem hasTier_iff {own : Tier} (number : ntype.HasTier own) :
    ntype.HasTier tier ↔ tier ∈ (ntype.cover.atoms &&& AtomSet.number).tiers := by
  rw [Primitive.mem_tiers_iff]
  constructor
  · rintro ⟨value, inside, isNumber⟩
    exact ⟨value.atom, contains_cover inside, by rw [Value.atom_tier?, isNumber]⟩
  · rintro ⟨atom, present, isNumber⟩
    cases ntype with
    | primitive primitive =>
        obtain ⟨value, rfl⟩ := atom.exists_value
        exact ⟨value, present, by rw [← Value.atom_tier?, isNumber]⟩
    | singleton member =>
        obtain ⟨value, inside, isOwn⟩ := number
        have memberOwn : member.atom.tier? = some own := by
          rw [← Value.atom_eq_of_identical inside, Value.atom_tier?, isOwn]
        have same := Primitive.tier_of_ofAtom memberOwn present
        rw [isNumber] at same
        exact ⟨value, inside, isOwn.trans same.symm⟩

/-- Contagion finds the least class around the numbers of the tiers in which two types meet. -/
theorem contagion_proves_iff {outer : Primitive} {left right : Tier}
    (leftNumber : first.HasTier left) (rightNumber : second.HasTier right) :
    (first.contagion second).ntype.proves (.primitive outer) = true ↔
      ∀ met, first.MeetIn second met → (Primitive.ofTier met).atoms.within outer.atoms = true := by
  have leftMember := (hasTier_iff leftNumber).mp leftNumber
  have rightMember := (hasTier_iff rightNumber).mp rightNumber
  change (Ntype.primitive (first.cover.contagion second.cover).primitive).proves _ = true ↔ _
  rw [proves_primitive_iff, Primitive.contagion_primitive leftMember rightMember,
    Primitive.enclosing_least]
  simp only [AtomSet.within_iff, Primitive.contains_promotedAtoms, Primitive.atoms_ofTier]
  constructor
  · rintro within met ⟨one, other, oneNumber, otherNumber, rfl⟩ atom present
    have oneMember := (hasTier_iff leftNumber).mp oneNumber
    have otherMember := (hasTier_iff rightNumber).mp otherNumber
    exact within atom ⟨one, oneMember, other, otherMember, present⟩
  · rintro within atom ⟨one, oneMember, other, otherMember, present⟩
    have oneNumber := (hasTier_iff leftNumber).mpr oneMember
    have otherNumber := (hasTier_iff rightNumber).mpr otherMember
    exact within _ ⟨one, other, oneNumber, otherNumber, rfl⟩ atom present

/-- The contagious type lies in a tier that covers all tiers in which the two types meet. -/
theorem contagion_proves_tier_iff {left right : Tier} (leftNumber : first.HasTier left)
    (rightNumber : second.HasTier right) :
    (first.contagion second).ntype.proves tier.ntype = true ↔
      ∀ met, first.MeetIn second met → tier.covers met = true := by
  rw [Tier.ntype, contagion_proves_iff leftNumber rightNumber]
  simp only [Tier.ofTier_within_iff]

/-- The tier of the contagious type is a tier in which the types meet and which covers the others. -/
theorem contagion_tier?_iff {left right : Tier} (leftNumber : first.HasTier left)
    (rightNumber : second.HasTier right) :
    (first.contagion second).ntype.tier? = some tier ↔
      first.MeetIn second tier ∧ ∀ met, first.MeetIn second met → tier.covers met = true := by
  rw [tier?, Tier.find?_eq_some_iff]
  simp only [contagion_proves_tier_iff leftNumber rightNumber]
  constructor
  · rintro ⟨covered, lowest⟩
    refine ⟨?_, covered⟩
    rcases Tier.covers_iff.mp (covered _ ⟨left, right, leftNumber, rightNumber, rfl⟩) with
      same | ⟨rfl, integral⟩
    · exact ⟨left, right, leftNumber, rightNumber, same⟩
    · -- A choice of fractions shows that the numbers do not meet in integers alone.
      by_contra absent
      have integers : ∀ met, first.MeetIn second met → Tier.integer.covers met = true := by
        intro met meets
        rcases Tier.covers_iff.mp (covered met meets) with rfl | ⟨_, rfl⟩
        · exact absurd meets absent
        · rfl
      exact absurd (lowest .integer integers) (by decide)
  · rintro ⟨meets, covered⟩
    refine ⟨covered, fun other covers => ?_⟩
    exact Tier.rank_le_of_covers (covers tier meets)

/-- Numbers of two types meet in a tier that lies in the contagious type. If a tier is chosen for
this type, then the types meet in it and it covers every tier in which they meet: an inexact choice
is the tier of all meetings, and an exact one is an upper bound of exact tiers. -/
theorem contagion_agrees {left right : Value} {leftTier rightTier : Tier}
    (leftInside : first.contains left = true) (rightInside : second.contains right = true)
    (leftNumber : left.tier? = some leftTier) (rightNumber : right.tier? = some rightTier) :
    ((leftTier.combine rightTier).ntype.subtype (first.contagion second).ntype).value = true ∧
    (∀ chosen, (first.contagion second).ntype.tier? = some chosen →
      (chosen.isExact = false → leftTier.combine rightTier = chosen) ∧
      (chosen.isExact = true → (leftTier.combine rightTier).isExact = true ∧
        (leftTier.combine rightTier).rank ≤ chosen.rank)) ∧
    ∀ chosen, (first.contagion second).ntype.tier? = some chosen ↔
      first.MeetIn second chosen ∧ ∀ met, first.MeetIn second met → chosen.covers met = true := by
  have leftHas : first.HasTier leftTier := ⟨left, leftInside, leftNumber⟩
  have rightHas : second.HasTier rightTier := ⟨right, rightInside, rightNumber⟩
  have meets : first.MeetIn second (leftTier.combine rightTier) :=
    ⟨leftTier, rightTier, leftHas, rightHas, rfl⟩
  refine ⟨?_, fun chosen found => ?_, fun chosen => contagion_tier?_iff leftHas rightHas⟩
  · apply proves_primitive_iff.mpr
    apply (contagion_proves_iff leftHas rightHas).mp ?_ _ meets
    exact proves_primitive_iff.mpr (AtomSet.within_iff.mpr fun _ present => present)
  · have covers := ((contagion_tier?_iff leftHas rightHas).mp found).2 _ meets
    refine ⟨fun inexact => ?_, fun isExact => ⟨?_, ?_⟩⟩
    · exact Tier.eq_of_covers covers inexact
    · exact Tier.exact_of_covers isExact covers
    · exact Tier.rank_le_of_covers covers

/-- The whole fraction two and three meet in integers, but a half and three meet as fractions, so
that fractions are chosen for both. -/
theorem contagion_agrees_three :
    let three := Ntype.singleton (.integer 3)
    Tier.rational.ntype.contains (.ratio 2) = true ∧ three.contains (.integer 3) = true ∧
      (Tier.integer.ntype.subtype (Tier.rational.ntype.contagion three).ntype).value = true ∧
      (Tier.rational.ntype.contagion three).ntype.tier? = some .rational := by
  intro three
  have inside : Tier.rational.ntype.contains (.ratio 2) = true := contains_tier.mpr (.inr ⟨rfl, rfl⟩)
  have half : (Value.ratio ⟨1, 2, by decide, by decide⟩).tier? = some .rational := rfl
  have alone : three.contains (.integer 3) = true := by decide
  obtain ⟨lies, _, chosen⟩ := contagion_agrees inside alone rfl rfl
  refine ⟨inside, alone, lies, (chosen .rational).mpr ⟨?_, ?_⟩⟩
  · exact ⟨.rational, .integer, ⟨_, contains_tier.mpr (.inl half), half⟩, ⟨_, alone, rfl⟩, rfl⟩
  · rintro met ⟨left, right, ⟨value, held, isLeft⟩, ⟨other, same, isRight⟩, rfl⟩
    cases Value.eq_of_identical rfl same
    cases isRight
    rcases contains_tier.mp held with number | ⟨_, number⟩
    · cases isLeft.symm.trans number
      rfl
    · cases isLeft.symm.trans number
      rfl

end Ntype

end Narrowing
