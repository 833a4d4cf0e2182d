import Mathlib.Tactic.ByContra
import Narrowing.Library.Rule
import Narrowing.Proofs.AtomSets

/-
This file says which values lie in the types that the rules of the library work with.
-/

namespace Narrowing

/-- Numbers meet in an exact tier only when both are exact. -/
theorem Tier.isExact_combine (first second : Tier) :
    (first.combine second).isExact = (first.isExact && second.isExact) := by
  cases first <;> cases second <;> rfl

/-- A number that meets another one in an exact tier is in this tier; integers are fractions too. -/
theorem Tier.eq_of_combine_exact {own other tier : Tier} (isExact : tier.isExact = true)
    (met : own.combine other = tier ∨ (tier = .rational ∧ own.combine other = .integer)) :
    own = tier ∨ (tier = .rational ∧ own = .integer) := by
  have each : ∀ own ∈ all, ∀ other ∈ all, ∀ tier ∈ all, tier.isExact = true →
      (own.combine other = tier ∨ (tier = .rational ∧ own.combine other = .integer)) →
        own = tier ∨ (tier = .rational ∧ own = .integer) := by decide +kernel
  exact each own own.mem_all other other.mem_all tier tier.mem_all isExact met

namespace Atom

theorem exists_tier (tier : Tier) : ∃ atom : Atom, atom.tier? = some tier := by
  cases tier with
  | integer => exact ⟨.band 0, rfl⟩
  | rational => exact ⟨.ratio, rfl⟩
  | float16 => exact ⟨.half, rfl⟩
  | float32 => exact ⟨.single, rfl⟩
  | float64 => exact ⟨.double, rfl⟩
  | complex64 => exact ⟨.complexSingle, rfl⟩
  | complex128 => exact ⟨.complexDouble, rfl⟩

end Atom

/-- The atom of the values with a key; a number in a tuple counts as part of it. -/
def Key.atom : Key → Atom
  | .missing => Value.atom .missing
  | .boolean value => Value.atom (.boolean value)
  | .integer value => Value.atom (.integer value)
  | .ratio value => Value.atom (.ratio value)
  | .double value => Value.atom (.double value)
  | .complex value => Value.atom (.complex value)
  | .text value => Value.atom (.text value)
  | .scalar value => Value.atom (.scalar value)
  | .function value => Value.atom (.function value)
  | .tuple _ _ => .cons
  | _ => .other

namespace Value

theorem numberAtom_tier? (value : Value) (tier : Tier) :
    (value.numberAtom tier).tier? = some tier := by cases tier <;> rfl

theorem arrayAtom_tier? (grid : NumberArray) : (arrayAtom grid).tier? = none := by
  unfold arrayAtom
  split
  · split <;> rfl
  · split <;> rfl

/-- The atom of a value tells its tier. -/
theorem atom_tier? (value : Value) : value.atom.tier? = value.tier? := by
  unfold atom
  cases found : value.tier? with
  | some tier => exact numberAtom_tier? value tier
  | none =>
      cases value with
      | text name =>
          simp only
          split <;> rfl
      | tuple items =>
          simp only
          split <;> rfl
      | array grid => exact arrayAtom_tier? grid
      | _ => rfl

theorem atom_of_key? {value : Value} {key : Key} (found : value.key? = some key) :
    value.atom = key.atom := by
  cases value with
  | array grid => simp [key?] at found
  | list items => simp [key?] at found
  | dictionary keys items => simp [key?] at found
  | tuple items =>
      cases items with
      | nil =>
          simp only [key?, tupleKey?, Option.some.injEq] at found
          subst found
          rfl
      | cons item rest =>
          simp only [key?, tupleKey?] at found
          split at found
          · cases found
            rfl
          · cases found
  | singleton inner =>
      simp only [key?, Option.map_eq_some_iff] at found
      obtain ⟨_, _, rfl⟩ := found
      rfl
  | _ =>
      simp only [key?, Option.some.injEq] at found
      subst found
      rfl

theorem identical_iff {first second : Value} :
    first.identical second = true ↔ ∃ key, first.key? = some key ∧ second.key? = some key := by
  unfold identical
  split
  · rename_i left right leftFound rightFound
    rw [beq_iff_eq, leftFound, rightFound]
    constructor
    · rintro rfl
      exact ⟨left, rfl, rfl⟩
    · rintro ⟨key, leftSame, rightSame⟩
      rw [Option.some.inj leftSame, Option.some.inj rightSame]
  · rename_i missing
    constructor
    · intro impossible
      cases impossible
    · rintro ⟨key, leftFound, rightFound⟩
      exact absurd rightFound (missing key key leftFound)

/-- Identical values lie in one atom. -/
theorem atom_eq_of_identical {first second : Value} (same : first.identical second = true) :
    first.atom = second.atom := by
  obtain ⟨key, firstKey, secondKey⟩ := identical_iff.mp same
  rw [atom_of_key? firstKey, atom_of_key? secondKey]

theorem identical_trans {first second third : Value} (left : first.identical second = true)
    (right : second.identical third = true) : first.identical third = true := by
  obtain ⟨key, firstKey, secondKey⟩ := identical_iff.mp left
  obtain ⟨other, secondOther, thirdKey⟩ := identical_iff.mp right
  rw [secondKey] at secondOther
  cases secondOther
  exact identical_iff.mpr ⟨key, firstKey, thirdKey⟩

theorem identical_comm {first second : Value} :
    first.identical second = second.identical first := by
  refine Bool.eq_iff_iff.mpr ?_
  rw [identical_iff, identical_iff]
  exact exists_congr fun key => and_comm

theorem tupleKey?_cases {items : List Value} {key : Key} (found : tupleKey? items = some key) :
    key = .emptyTuple ∨ ∃ head tail, key = .tuple head tail := by
  cases items with
  | nil =>
      simp only [tupleKey?, Option.some.injEq] at found
      exact .inl found.symm
  | cons item rest =>
      simp only [tupleKey?] at found
      split at found
      · cases found
        exact .inr ⟨_, _, rfl⟩
      · cases found

/-- Literals are the values that keep all that they are in their keys. -/
def isLiteral : Value → Bool
  | .boolean _ | .integer _ | .ratio _ | .double _ | .complex _ | .text _ | .scalar _ => true
  | _ => false

/-- A literal is identical to itself alone. -/
theorem eq_of_identical {value literal : Value} (isLiteral : literal.isLiteral = true)
    (same : value.identical literal = true) : value = literal := by
  obtain ⟨key, valueKey, literalKey⟩ := identical_iff.mp same
  cases literal with
  | boolean | integer | ratio | double | complex | text | scalar =>
      cases literalKey
      cases value with
      | tuple items =>
          rcases tupleKey?_cases valueKey with impossible | ⟨_, _, impossible⟩ <;> cases impossible
      | _ => simp_all [key?]
  | _ => cases isLiteral

/-- An outcome is known when its value is identical to a literal. -/
theorem eq_ok_of_identical {outcome : Except Fault Value} {literal : Value}
    (isLiteral : literal.isLiteral = true)
    (same : outcome.toOption.any (·.identical literal) = true) : outcome = .ok literal := by
  cases outcome with
  | error fault => cases same
  | ok result => rw [eq_of_identical isLiteral same]

theorem identical_self {literal : Value} (isLiteral : literal.isLiteral = true) :
    literal.identical literal = true := by
  cases literal with
  | boolean | integer | ratio | double | complex | text | scalar =>
      exact identical_iff.mpr ⟨_, rfl, rfl⟩
  | _ => cases isLiteral

theorem ofConstant_literal {literal : Value} (isLiteral : literal.isLiteral = true) :
    Ntype.ofConstant literal = .singleton literal := by
  cases literal with
  | boolean | integer | ratio | double | complex | text | scalar => rfl
  | _ => cases isLiteral

end Value

namespace Ntype

theorem contains_primitive {primitive : Primitive} {value : Value} :
    (Ntype.primitive primitive).contains value = true ↔
      primitive.atoms.contains value.atom = true := Iff.rfl

theorem contains_singleton {member value : Value} :
    (Ntype.singleton member).contains value = true ↔ value.identical member = true := Iff.rfl

/-- A type that is proven to lie in another one has its values there. -/
theorem contains_of_proves {first second : Ntype} {value : Value}
    (proven : first.proves second = true) (inside : first.contains value = true) :
    second.contains value = true := by
  unfold proves subtype at proven
  by_cases same : first.same second = true
  · cases first <;> cases second <;> simp only [Ntype.same] at same
    · rw [beq_iff_eq] at same
      rwa [← same]
    · cases same
    · cases same
    · exact Value.identical_trans inside same
  · rw [if_neg same] at proven
    cases first with
    | primitive left =>
        cases second with
        | primitive right => exact AtomSet.within_iff.mp proven value.atom inside
        | singleton member =>
            have isEmpty : left = .empty := by simpa [Ntype.isEmpty] using proven
            subst isEmpty
            simp [contains, Primitive.atoms] at inside
    | singleton member =>
        cases second with
        | primitive right =>
            rw [contains_primitive, Value.atom_eq_of_identical inside]
            exact proven
        | singleton other => cases proven

theorem proves_primitive_iff {first second : Primitive} :
    (Ntype.primitive first).proves (.primitive second) = true ↔
      first.atoms.within second.atoms = true := by
  unfold proves subtype
  by_cases same : first = second
  · subst same
    simp [Ntype.same, AtomSet.within_iff]
  · simp [Ntype.same, same, Primitive.subtype]

/-- The class around a type holds the atoms of its values. -/
theorem contains_cover {ntype : Ntype} {value : Value} (inside : ntype.contains value = true) :
    ntype.cover.atoms.contains value.atom = true := by
  cases ntype with
  | primitive primitive => exact inside
  | singleton member =>
      rw [Value.atom_eq_of_identical inside]
      exact Primitive.contains_ofAtom member.atom

theorem contains_tier {tier : Tier} {value : Value} :
    tier.ntype.contains value = true ↔
      value.tier? = some tier ∨ (tier = .rational ∧ value.tier? = some .integer) := by
  rw [Tier.ntype, contains_primitive, Primitive.atoms_ofTier, AtomSet.contains_ofTier,
    Value.atom_tier?]

theorem contains_number {value : Value} :
    number.contains value = true ↔ value.tier?.isSome = true := by
  rw [number, contains_primitive, ← Value.atom_tier?]
  exact AtomSet.contains_number value.atom

theorem proves_of_tier? {ntype : Ntype} {tier : Tier} (found : ntype.tier? = some tier) :
    ntype.proves tier.ntype = true := by
  have proven := (List.find?_eq_some_iff_append.mp found).1
  exact proven

/-- A number of a type with a tier is a number of this tier; integers are fractions too. -/
theorem tier_of_contains {ntype : Ntype} {value : Value} {tier : Tier}
    (found : ntype.tier? = some tier) (inside : ntype.contains value = true) :
    value.tier? = some tier ∨ (tier = .rational ∧ value.tier? = some .integer) :=
  contains_tier.mp (contains_of_proves (proves_of_tier? found) inside)

/-- The tier of a contagious type is the tier where the atoms of both types meet. -/
theorem tier_of_contagious_atoms {first second : Ntype} {left right : Atom}
    {leftTier rightTier tier : Tier}
    (found : (first.contagion second).ntype.tier? = some tier)
    (leftInside : first.cover.atoms.contains left = true)
    (rightInside : second.cover.atoms.contains right = true)
    (leftNumber : left.tier? = some leftTier) (rightNumber : right.tier? = some rightTier) :
    leftTier.combine rightTier = tier ∨
      (tier = .rational ∧ leftTier.combine rightTier = .integer) := by
  obtain ⟨atom, number⟩ := Atom.exists_tier (leftTier.combine rightTier)
  have promoted : (first.cover.contagion second.cover).primitive.atoms.contains atom = true :=
    Primitive.contains_contagion leftInside rightInside leftNumber rightNumber
      ((AtomSet.contains_ofTier _ atom).mpr (.inl number))
  have proven := proves_primitive_iff.mp (proves_of_tier? found)
  have kept := AtomSet.within_iff.mp proven atom promoted
  rw [Primitive.atoms_ofTier, AtomSet.contains_ofTier, number] at kept
  simpa using kept

/-- The tier of a contagious type is the tier where the values of both types meet. -/
theorem tier_of_contagion {first second : Ntype} {left right : Value}
    {leftTier rightTier tier : Tier}
    (found : (first.contagion second).ntype.tier? = some tier)
    (leftInside : first.contains left = true) (rightInside : second.contains right = true)
    (leftNumber : left.tier? = some leftTier) (rightNumber : right.tier? = some rightTier) :
    leftTier.combine rightTier = tier ∨
      (tier = .rational ∧ leftTier.combine rightTier = .integer) :=
  tier_of_contagious_atoms found (contains_cover leftInside) (contains_cover rightInside)
    ((Value.atom_tier? left).trans leftNumber) ((Value.atom_tier? right).trans rightNumber)

theorem contagion_ntype_comm (first second : Ntype) :
    (first.contagion second).ntype = (second.contagion first).ntype :=
  congrArg Ntype.primitive (Primitive.contagion_primitive_comm first.cover second.cover)

/-- A type that does not lie in a class has an atom outside it. -/
theorem exists_atom_outside {ntype : Ntype} {primitive : Primitive}
    (unproven : ntype.proves (.primitive primitive) = false) :
    ∃ atom, ntype.cover.atoms.contains atom = true ∧ primitive.atoms.contains atom = false ∧
      ∀ other, ntype.proves (.primitive other) = true → other.atoms.contains atom = true := by
  cases ntype with
  | primitive own =>
      by_contra absent
      have within : own.atoms.within primitive.atoms = true := by
        refine AtomSet.within_iff.mpr fun atom present => ?_
        by_contra outside
        refine absent ⟨atom, present, by simpa using outside, fun other proven => ?_⟩
        exact AtomSet.within_iff.mp (proves_primitive_iff.mp proven) atom present
      rw [proves_primitive_iff.mpr within] at unproven
      cases unproven
  | singleton member =>
      exact ⟨member.atom, Primitive.contains_ofAtom member.atom, unproven, fun _ proven => proven⟩

/-- Numbers whose contagious type has an exact tier are numbers of this tier. -/
theorem proves_of_contagion {first second : Ntype} {right : Atom}
    {rightTier tier : Tier} (isNumber : first.proves number = true)
    (found : (first.contagion second).ntype.tier? = some tier) (isExact : tier.isExact = true)
    (rightInside : second.cover.atoms.contains right = true)
    (rightNumber : right.tier? = some rightTier) :
    first.proves tier.ntype = true := by
  by_contra unproven
  obtain ⟨atom, present, outside, others⟩ :=
    exists_atom_outside (Bool.eq_false_iff.mpr unproven)
  have numeric := (AtomSet.contains_number atom).mp (others .number isNumber)
  obtain ⟨own, ownTier⟩ := Option.isSome_iff_exists.mp numeric
  have met := tier_of_contagious_atoms found present rightInside ownTier rightNumber
  rw [Primitive.atoms_ofTier, ← Bool.not_eq_true, AtomSet.contains_ofTier, ownTier] at outside
  exact outside (by simpa using Tier.eq_of_combine_exact isExact met)

/-- The same for the second type. -/
theorem proves_of_contagion_right {first second : Ntype} {left : Atom}
    {leftTier tier : Tier} (isNumber : second.proves number = true)
    (found : (first.contagion second).ntype.tier? = some tier) (isExact : tier.isExact = true)
    (leftInside : first.cover.atoms.contains left = true)
    (leftNumber : left.tier? = some leftTier) :
    second.proves tier.ntype = true := by
  refine proves_of_contagion isNumber ?_ isExact leftInside leftNumber
  rwa [contagion_ntype_comm]

/-- A type in a class lies in every wider class. -/
theorem proves_within {ntype : Ntype} {inner outer : Primitive}
    (proven : ntype.proves (.primitive inner) = true)
    (within : inner.atoms.within outer.atoms = true) :
    ntype.proves (.primitive outer) = true := by
  have wider := AtomSet.within_iff.mp within
  cases ntype with
  | primitive own =>
      refine proves_primitive_iff.mpr (AtomSet.within_iff.mpr fun atom present => ?_)
      exact wider atom (AtomSet.within_iff.mp (proves_primitive_iff.mp proven) atom present)
  | singleton member => exact wider member.atom proven

theorem proves_rational_of_exact {ntype : Ntype} {tier : Tier} (isExact : tier.isExact = true)
    (proven : ntype.proves tier.ntype = true) : ntype.proves Tier.rational.ntype = true := by
  refine proves_within proven ?_
  cases tier with
  | integer | rational => decide
  | _ => cases isExact

/-- The class around a type in an exact tier stays in this tier. -/
theorem cover_within {ntype : Ntype} {tier : Tier} (isExact : tier.isExact = true)
    (proven : ntype.proves tier.ntype = true) :
    ntype.cover.atoms.within (Primitive.ofTier tier).atoms = true := by
  cases ntype with
  | primitive primitive => exact proves_primitive_iff.mp proven
  | singleton member => exact Primitive.ofAtom_within isExact proven

/-- Inhabited types in an exact tier meet in an exact tier, and integers meet in integers. -/
theorem contagion_exact {first second : Ntype} {left right : Atom}
    {leftTier rightTier own : Tier} (isExact : own.isExact = true)
    (firstExact : first.proves own.ntype = true) (secondExact : second.proves own.ntype = true)
    (leftInside : first.cover.atoms.contains left = true)
    (rightInside : second.cover.atoms.contains right = true)
    (leftNumber : left.tier? = some leftTier) (rightNumber : right.tier? = some rightTier) :
    ∃ tier : Tier, tier.isExact = true ∧ (own = .rational ∨ tier = .integer) ∧
      (first.contagion second).ntype.tier? = some tier := by
  obtain ⟨tier, tierExact, held, same⟩ := Primitive.contagion_exact isExact
    (cover_within isExact firstExact) (cover_within isExact secondExact)
    (Primitive.tier_mem_tiers leftInside leftNumber)
    (Primitive.tier_mem_tiers rightInside rightNumber)
  have whole : (first.contagion second).ntype = tier.ntype := congrArg Ntype.primitive same
  refine ⟨tier, tierExact, held, ?_⟩
  rw [whole]
  cases tier with
  | integer | rational => decide
  | _ => cases tierExact

/-- The numbers of a tier are numbers. -/
theorem proves_number_of_tier {ntype : Ntype} {tier : Tier}
    (proven : ntype.proves tier.ntype = true) : ntype.proves number = true :=
  proves_within proven (by cases tier <;> decide)

/-- A type in an exact tier has an exact tier, and a type of integers that of integers. -/
theorem tier?_of_proves {ntype : Ntype} {own : Tier} (isExact : own.isExact = true)
    (proven : ntype.proves own.ntype = true) :
    ∃ tier : Tier, tier.isExact = true ∧ (own = .rational ∨ tier = .integer) ∧
      ntype.tier? = some tier := by
  by_cases integral : ntype.proves Tier.integer.ntype = true
  · exact ⟨.integer, rfl, .inr rfl, List.find?_cons_of_pos integral⟩
  · cases own with
    | integer => exact absurd proven integral
    | rational =>
        refine ⟨.rational, rfl, .inl rfl, ?_⟩
        simp [tier?, Tier.all, integral, proven]
    | _ => cases isExact

end Ntype

end Narrowing
