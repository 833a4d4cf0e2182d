import Narrowing.Proofs.InferredTypes
import Narrowing.Proofs.ScalarNumbers
import Narrowing.Proofs.UnionBounds

/-
This file compares types of which one lies in the other, and the tiers that are found for them.
-/

namespace Narrowing

namespace Value

/-- A value that is no fraction with denominator one. -/
def IsBroken (value : Value) : Prop := ∀ fraction : Rat, value = .ratio fraction → fraction.den ≠ 1

theorem isBroken_of_reduced {value : Value} (reduced : value.isReduced = true) :
    value.IsBroken := by
  rintro fraction rfl
  simpa [isReduced, isStandard] using reduced

theorem isBroken_of_inexact {value : Value} {tier : Tier} (number : value.tier? = some tier)
    (inexact : tier.isExact = false) : value.IsBroken := by
  rintro fraction rfl integral
  simp only [tier?, integral, if_true, Option.some.injEq] at number
  subst number
  cases inexact

end Value

namespace Ntype

/-- A type with values, which is a class or the singleton of a value that is in lowest terms. -/
structure IsProper (type : Ntype) : Prop where
  interned : type.Interned
  inhabited : type.isEmpty = false
  broken : ∀ literal, type.constant? = some literal → literal.IsBroken

/-- One type lies in another. -/
structure Narrows (inner outer : Ntype) : Prop where
  proven : inner.proves outer = true
  innerProper : inner.IsProper
  outerProper : outer.IsProper

variable {type inner outer first second wideFirst wideSecond : Ntype} {primitive : Primitive}
  {literal : Value} {tier own : Tier}

theorem isProper_primitive (filled : primitive ≠ .empty) : (Ntype.primitive primitive).IsProper where
  interned := trivial
  inhabited := by simpa [isEmpty] using filled
  broken := nofun

theorem isProper_tier (tier : Tier) : tier.ntype.IsProper :=
  isProper_primitive (by cases tier <;> decide)

theorem isProper_number : number.IsProper := isProper_primitive (by decide)

theorem interned_ofConstant (value : Value) : (ofConstant value).Interned := by
  cases isLiteral : value.isLiteral with
  | true =>
      rw [Value.ofConstant_literal isLiteral, interned_singleton_iff]
      obtain ⟨key, hasKey, _⟩ := Value.identical_iff.mp (Value.identical_self isLiteral)
      refine ⟨key, hasKey, ?_⟩
      rintro rfl
      rw [Value.eq_missing_of_key hasKey] at isLiteral
      cases isLiteral
  | false =>
      cases value with
      | boolean | integer | ratio | double | complex | text | scalar => cases isLiteral
      | _ => trivial

theorem isProper_ofConstant {value : Value} (broken : value.IsBroken) :
    (ofConstant value).IsProper where
  interned := interned_ofConstant value
  inhabited := by
    apply Bool.eq_false_iff.mpr
    intro hollow
    have inside := contains_ofConstant value
    rw [eq_empty_of_isEmpty hollow] at inside
    cases inside.symm.trans (AtomSet.contains_empty value.atom)
  broken := by
    intro literal constant
    rw [(Value.constant?_ofConstant constant).1]
    exact broken

/-- A literal lies in the types that hold it. -/
theorem ofConstant_proves {value : Value} (isLiteral : value.isLiteral = true)
    (inside : type.contains value = true) : (ofConstant value).proves type = true := by
  rw [Value.ofConstant_literal isLiteral]
  cases type with
  | primitive primitive => exact inside
  | singleton member => exact same_iff_proves_singletons.mpr inside

namespace IsProper

theorem refl (proper : type.IsProper) : Narrows type type :=
  ⟨proves_refl type proper.interned, proper, proper⟩

/-- A type with values has an atom. -/
theorem exists_atom (proper : type.IsProper) : ∃ atom, type.cover.atoms.contains atom = true := by
  cases type with
  | primitive primitive =>
      apply Primitive.exists_contains
      rintro rfl
      cases proper.inhabited
  | singleton member => exact ⟨member.atom, Primitive.contains_ofAtom member.atom⟩

/-- A number that is known has a key, so that it is a literal. -/
theorem isLiteral (proper : type.IsProper) (constant : type.constant? = some literal)
    (number : literal.tier? = some own) : literal.isLiteral = true := by
  cases type with
  | primitive primitive => cases constant
  | singleton member =>
      cases constant
      obtain ⟨key, hasKey, _⟩ := interned_singleton_iff.mp proper.interned
      cases literal with
      | boolean | integer | ratio | double | complex | text | scalar => rfl
      | array grid => cases hasKey
      | _ => cases number

end IsProper

/-- The literal of a type of numbers is a number. -/
theorem exists_tier_of_constant (isNumber : type.proves .number = true)
    (constant : type.constant? = some literal) : ∃ own, literal.tier? = some own := by
  cases type with
  | primitive primitive => cases constant
  | singleton member =>
      cases constant
      have inside : number.contains literal = true := isNumber
      exact Option.isSome_iff_exists.mp (contains_number.mp inside)

/-- The literal of a type of numbers has an atom among them. -/
theorem proves_number_of_constant (constant : type.constant? = some literal)
    (number : literal.tier? = some own) : type.proves .number = true := by
  cases type with
  | primitive primitive => cases constant
  | singleton member =>
      cases constant
      have inside : Ntype.number.contains literal = true := by
        rw [contains_number, number]
        rfl
      exact inside

/-- The atoms of a class that has a tier tell this tier. -/
theorem tier_of_atom {atom : Atom} (proven : type.proves tier.ntype = true)
    (inside : type.cover.atoms.contains atom = true) (number : atom.tier? = some own) :
    own = tier ∨ (tier = .rational ∧ own = .integer) := by
  have within := proves_primitive_iff_cover.mp proven
  have kept := AtomSet.within_iff.mp within atom inside
  rw [Primitive.atoms_ofTier, AtomSet.contains_ofTier, number] at kept
  simpa using kept

/-- A type that lies in a tier has a tier that this one covers. -/
theorem exists_narrower_tier {atom : Atom} (proven : type.proves tier.ntype = true)
    (least : tier = .integer → type.tier? = some .integer)
    (inside : type.cover.atoms.contains atom = true) (number : atom.tier? = some own) :
    ∃ narrower, type.tier? = some narrower ∧ tier.covers narrower = true := by
  have found : type.tier?.isSome = true :=
    List.find?_isSome.mpr ⟨tier, tier.mem_all, proven⟩
  obtain ⟨narrower, found⟩ := Option.isSome_iff_exists.mp found
  refine ⟨narrower, found, Tier.covers_iff.mpr ?_⟩
  rcases tier_of_atom (proves_of_tier? found) inside number with same | ⟨rational, integral⟩ <;>
    rcases tier_of_atom proven inside number with alsoSame | ⟨alsoRational, alsoIntegral⟩
  · exact .inl (same.symm.trans alsoSame)
  · exact .inr ⟨alsoRational, same.symm.trans alsoIntegral⟩
  · have integer := least (alsoSame.symm.trans integral)
    cases found.symm.trans integer
    cases rational
  · exact .inl (rational.trans alsoRational.symm)

theorem tier?_integer (proven : type.proves Tier.integer.ntype = true) :
    type.tier? = some .integer := List.find?_cons_of_pos proven

namespace Narrows

theorem trans (narrows : Narrows first second) (others : Narrows second type) :
    Narrows first type :=
  ⟨proves_trans narrows.innerProper.interned others.outerProper.interned narrows.proven
    others.proven, narrows.innerProper, others.outerProper⟩

theorem proves (narrows : Narrows inner outer)
    (proven : outer.proves (.primitive primitive) = true) :
    inner.proves (.primitive primitive) = true :=
  proves_trans narrows.innerProper.interned trivial narrows.proven proven

/-- Only a type of one value lies in a type of one value, and it is the same value. -/
theorem exists_singleton {member : Value} (narrows : Narrows inner (.singleton member)) :
    ∃ other, inner = .singleton other ∧ other.identical member = true := by
  cases inner with
  | primitive primitive =>
      rw [proves_primitive_singleton.mp narrows.proven] at narrows
      cases narrows.innerProper.inhabited
  | singleton other => exact ⟨other, rfl, same_iff_proves_singletons.mp narrows.proven⟩

/-- Only a literal itself lies in its type. -/
theorem eq_of_constant (narrows : Narrows inner outer) (constant : outer.constant? = some literal)
    (isLiteral : literal.isLiteral = true) : inner = outer := by
  cases outer with
  | primitive primitive => cases constant
  | singleton member =>
      cases constant
      obtain ⟨other, rfl, same⟩ := narrows.exists_singleton
      rw [Value.eq_of_identical isLiteral same]

theorem eq_of_number (narrows : Narrows inner outer) (isNumber : outer.proves .number = true)
    (constant : outer.constant? = some literal) : inner = outer := by
  obtain ⟨own, number⟩ := exists_tier_of_constant isNumber constant
  exact narrows.eq_of_constant constant (narrows.outerProper.isLiteral constant number)

/-- A type has the atoms of the types in it. -/
theorem contains_cover {atom : Atom} (narrows : Narrows inner outer)
    (inside : inner.cover.atoms.contains atom = true) :
    outer.cover.atoms.contains atom = true := by
  cases outer with
  | primitive primitive =>
      exact AtomSet.within_iff.mp (proves_primitive_iff_cover.mp narrows.proven) atom inside
  | singleton member =>
      obtain ⟨other, rfl, same⟩ := narrows.exists_singleton
      rwa [cover, Value.primitiveClass, ← Value.atom_eq_of_identical same]

end Narrows

/-- A type of numbers has an atom of a number. -/
theorem IsProper.exists_number (proper : type.IsProper) (isNumber : type.proves .number = true) :
    ∃ atom tier, type.cover.atoms.contains atom = true ∧ atom.tier? = some tier := by
  obtain ⟨atom, inside⟩ := proper.exists_atom
  have kept := AtomSet.within_iff.mp (proves_primitive_iff_cover.mp isNumber) atom inside
  obtain ⟨tier, number⟩ := Option.isSome_iff_exists.mp ((AtomSet.contains_number atom).mp kept)
  exact ⟨atom, tier, inside, number⟩

/-- A type has a tier when a type around it has one. -/
theorem Narrows.exists_tier (narrows : Narrows inner outer) (found : outer.tier? = some tier) :
    ∃ narrower, inner.tier? = some narrower ∧ tier.covers narrower = true := by
  have proven := narrows.proves (proves_of_tier? found)
  obtain ⟨atom, own, inside, number⟩ :=
    narrows.innerProper.exists_number (proves_number_of_tier proven)
  apply exists_narrower_tier proven ?_ inside number
  rintro rfl
  exact tier?_integer proven

/-- Types meet in no more classes than the types around them. -/
theorem Narrows.contagion (narrows : Narrows first wideFirst) (others : Narrows second wideSecond)
    (firstNumber : wideFirst.proves .number = true)
    (secondNumber : wideSecond.proves .number = true) :
    (first.contagion second).ntype.proves (wideFirst.contagion wideSecond).ntype = true := by
  obtain ⟨left, leftTier, leftInside, leftIsNumber⟩ :=
    narrows.innerProper.exists_number (narrows.proves firstNumber)
  obtain ⟨right, rightTier, rightInside, rightIsNumber⟩ :=
    others.innerProper.exists_number (others.proves secondNumber)
  refine proves_primitive_iff.mpr ?_
  rw [Primitive.contagion_primitive (Primitive.tier_mem_tiers leftInside leftIsNumber)
    (Primitive.tier_mem_tiers rightInside rightIsNumber), Primitive.enclosing_least]
  -- Both meet in the least class around their promoted atoms, so that atoms are enough.
  refine AtomSet.within_iff.mpr fun atom promoted => ?_
  obtain ⟨one, oneMember, two, twoMember, present⟩ := Primitive.contains_promotedAtoms.mp promoted
  obtain ⟨oneAtom, oneInside, oneNumber⟩ := AtomSet.mem_tiers.mp oneMember
  obtain ⟨twoAtom, twoInside, twoNumber⟩ := AtomSet.mem_tiers.mp twoMember
  rw [AtomSet.contains_and, Bool.and_eq_true] at oneInside twoInside
  exact Primitive.contains_contagion (narrows.contains_cover oneInside.1)
    (others.contains_cover twoInside.1) oneNumber twoNumber present

/-- Numbers meet in a tier when the numbers around them do. -/
theorem Narrows.exists_met (narrows : Narrows first wideFirst) (others : Narrows second wideSecond)
    (firstNumber : wideFirst.proves .number = true)
    (secondNumber : wideSecond.proves .number = true)
    (found : (wideFirst.contagion wideSecond).ntype.tier? = some tier) :
    ∃ narrower, (first.contagion second).ntype.tier? = some narrower ∧
      tier.covers narrower = true := by
  have proven : (first.contagion second).ntype.proves tier.ntype = true :=
    proves_within (narrows.contagion others firstNumber secondNumber)
      (proves_primitive_iff.mp (proves_of_tier? found))
  obtain ⟨left, leftTier, leftInside, leftIsNumber⟩ :=
    narrows.innerProper.exists_number (narrows.proves firstNumber)
  obtain ⟨right, rightTier, rightInside, rightIsNumber⟩ :=
    others.innerProper.exists_number (others.proves secondNumber)
  obtain ⟨atom, isNumber⟩ := Atom.exists_tier (leftTier.combine rightTier)
  apply exists_narrower_tier proven ?_ (Primitive.contains_contagion leftInside rightInside
    leftIsNumber rightIsNumber ((AtomSet.contains_ofTier _ atom).mpr (.inl isNumber))) isNumber
  rintro rfl
  exact tier?_integer proven

/-- A type whose literal has a standard representation. -/
def standardized : Ntype → Ntype
  | .primitive primitive => .primitive primitive
  | .singleton member => .singleton member.standardized

theorem standardized_proves (type : Ntype) (primitive : Primitive) :
    type.standardized.proves (.primitive primitive) = type.proves (.primitive primitive) := by
  cases type with
  | primitive own => rfl
  | singleton member =>
      change primitive.atoms.contains member.standardized.atom = primitive.atoms.contains member.atom
      rw [Value.atom_standardized]

theorem cover_standardized (type : Ntype) : type.standardized.cover = type.cover := by
  cases type with
  | primitive own => rfl
  | singleton member => exact congrArg Primitive.ofAtom (Value.atom_standardized member)

theorem contagion_standardized (first second : Ntype) :
    first.standardized.contagion second.standardized = first.contagion second := by
  simp only [Ntype.contagion, cover_standardized]

theorem tier?_standardized (type : Ntype) : type.standardized.tier? = type.tier? := by
  simp only [Ntype.tier?, Tier.ntype, standardized_proves]

theorem standardized_of_varied (varied : type.constant? = none) : type.standardized = type := by
  cases type with
  | primitive primitive => rfl
  | singleton member => cases varied

theorem constant?_standardized (type : Ntype) :
    type.standardized.constant? = type.constant?.map Value.standardized := by
  cases type <;> rfl

/-- A type admits the numbers that the literals in it stand for. -/
theorem Narrows.admits (narrows : Narrows inner outer) (constant : inner.constant? = some literal)
    (number : literal.tier? = some own) :
    (Operand.ofType outer.standardized).Admits literal.standardized := by
  have isLiteral := narrows.innerProper.isLiteral constant number
  refine ⟨?_, (Value.inTier_standardized isLiteral number).isStandard⟩
  have inside := contains_of_proves narrows.proven (contains_constant constant isLiteral)
  cases outer with
  | primitive primitive =>
      change primitive.atoms.contains literal.standardized.atom = true
      rw [Value.atom_standardized]
      exact inside
  | singleton member =>
      rw [contains_singleton, Value.identical_comm] at inside
      rw [Value.eq_of_identical isLiteral inside]
      exact Value.identical_self (Value.isLiteral_standardized isLiteral)

end Ntype

end Narrowing
