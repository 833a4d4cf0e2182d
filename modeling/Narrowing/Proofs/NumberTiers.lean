import Narrowing.Proofs.ExactArithmetic

/-
This file says how the numbers of each tier are represented, and when two numbers have one atom.
-/

namespace Narrowing

/-- The numbers of one tier are numbers of another; integers are fractions too. -/
def Tier.covers (tier own : Tier) : Bool := own = tier || (tier = .rational && own = .integer)

theorem Tier.covers_iff {tier own : Tier} :
    tier.covers own = true ↔ own = tier ∨ (tier = .rational ∧ own = .integer) := by
  simp [covers]

theorem Tier.covers_self (tier : Tier) : tier.covers tier = true := by simp [covers]

theorem Tier.eq_of_covers {tier own : Tier} (covers : tier.covers own = true)
    (inexact : tier.isExact = false) : own = tier := by
  rcases covers_iff.mp covers with same | ⟨rfl, _⟩
  · exact same
  · cases inexact

theorem Tier.exact_of_covers {tier own : Tier} (isExact : tier.isExact = true)
    (covers : tier.covers own = true) : own.isExact = true := by
  rcases covers_iff.mp covers with rfl | ⟨_, rfl⟩
  · exact isExact
  · rfl

namespace Value

/-- The representations of numbers that operations give back, and all values that are no numbers. -/
def isStandard : Value → Bool
  | .integer _ | .ratio _ | .double _ | .complex _ => true
  | .scalar (.half _) | .scalar (.single _) | .scalar (.complexSingle _) => true
  | value => value.tier?.isNone

/-- A standard value that is no fraction with denominator one. -/
def isReduced (value : Value) : Bool :=
  value.isStandard &&
    match value with
    | .ratio fraction => fraction.den != 1
    | _ => true

theorem isStandard_of_reduced {value : Value} (reduced : value.isReduced = true) :
    value.isStandard = true := by
  unfold isReduced at reduced
  rw [Bool.and_eq_true] at reduced
  exact reduced.1

/-- A number of a tier in a standard representation. -/
inductive InTier : Value → Tier → Prop
  | integer (whole : Int) : InTier (.integer whole) .integer
  | whole (fraction : Rat) (integral : fraction.den = 1) : InTier (.ratio fraction) .integer
  | ratio (fraction : Rat) (broken : fraction.den ≠ 1) : InTier (.ratio fraction) .rational
  | half (number : Half) : InTier (.scalar (.half number)) .float16
  | single (number : Float32) : InTier (.scalar (.single number)) .float32
  | double (number : Float) : InTier (.double number) .float64
  | complexSingle (number : ComplexSingle) : InTier (.scalar (.complexSingle number)) .complex64
  | complexDouble (number : ComplexDouble) : InTier (.complex number) .complex128

variable {value first second third : Value} {tier : Tier}

theorem InTier.isStandard (inside : value.InTier tier) : value.isStandard = true := by
  cases inside <;> rfl

theorem InTier.tier? (inside : value.InTier tier) : value.tier? = some tier := by
  cases inside with
  | whole fraction integral => simp [Value.tier?, integral]
  | ratio fraction broken => simp [Value.tier?, broken]
  | _ => rfl

/-- The tier of a standard number tells its representation. -/
theorem inTier_of_tier? (standard : value.isStandard = true) (number : value.tier? = some tier) :
    value.InTier tier := by
  have absent : value.tier?.isNone = false := by rw [number]; rfl
  cases value with
  | integer whole =>
      cases number
      exact .integer whole
  | ratio fraction =>
      by_cases integral : fraction.den = 1
      · simp only [Value.tier?, integral, if_true, Option.some.injEq] at number
        subst number
        exact .whole fraction integral
      · simp only [Value.tier?, integral, if_false, Option.some.injEq] at number
        subst number
        exact .ratio fraction integral
  | double float =>
      cases number
      exact .double float
  | complex pair =>
      cases number
      exact .complexDouble pair
  | scalar scalar =>
      cases scalar with
      | half float =>
          cases number
          exact .half float
      | single float =>
          cases number
          exact .single float
      | complexSingle pair =>
          cases number
          exact .complexSingle pair
      | _ => exact absurd (absent.symm.trans standard) (by decide)
  | _ => exact absurd (absent.symm.trans standard) (by decide)

theorem exists_inTier (standard : value.isStandard = true) (number : value.tier?.isSome = true) :
    ∃ tier, value.InTier tier := by
  obtain ⟨tier, own⟩ := Option.isSome_iff_exists.mp number
  exact ⟨tier, inTier_of_tier? standard own⟩

/-- Exactly the numbers of exact tiers are equal to fractions. -/
theorem InTier.exactNumber?_isSome (inside : value.InTier tier) :
    value.exactNumber?.isSome = tier.isExact := by cases inside <;> rfl

theorem InTier.exists_exact (inside : value.InTier tier) (isExact : tier.isExact = true) :
    ∃ number, value.exactNumber? = some number :=
  Option.isSome_iff_exists.mp (inside.exactNumber?_isSome.trans isExact)

theorem InTier.exactNumber?_eq_none (inside : value.InTier tier) (inexact : tier.isExact = false) :
    value.exactNumber? = none := by
  apply Option.not_isSome_iff_eq_none.mp
  rw [inside.exactNumber?_isSome, inexact]
  decide

theorem inTier_of_exact {number : Rat} (exact : value.exactNumber? = some number) :
    value.InTier (if number.den = 1 then .integer else .rational) := by
  apply inTier_of_tier? ?_ (tier?_of_exact exact)
  rcases exact_cases exact with ⟨whole, rfl, _⟩ | rfl <;> rfl

theorem isReduced_ofRat (number : Rat) : (ofRat number).isReduced = true := by
  unfold ofRat
  split
  · rfl
  · rename_i broken
    simp [isReduced, isStandard, broken]

theorem isReduced_normalized {number : Rat} (exact : value.exactNumber? = some number) :
    value.normalized.isReduced = true := by
  rcases exact_cases exact with ⟨whole, rfl, _⟩ | rfl
  · rfl
  · exact isReduced_ofRat number

/-- A reduced number in the integer tier is an integer. -/
theorem exists_integer (inside : value.InTier .integer) (reduced : value.isReduced = true) :
    ∃ whole, value = .integer whole := by
  cases inside with
  | integer whole => exact ⟨whole, rfl⟩
  | whole fraction integral => simp [isReduced, integral] at reduced

theorem isReduced_of_inexact (inside : value.InTier tier) (inexact : tier.isExact = false) :
    value.isReduced = true := by
  cases inside with
  | integer | whole | ratio => cases inexact
  | _ => rfl

/-- A reduced exact number is the one representation of its fraction. -/
theorem eq_ofRat_of_reduced {number : Rat} (reduced : value.isReduced = true)
    (exact : value.exactNumber? = some number) : value = ofRat number := by
  rcases exact_cases exact with ⟨whole, rfl, rfl⟩ | rfl
  · simp [ofRat]
  · have broken : number.den ≠ 1 := by
      simpa [isReduced, isStandard] using reduced
    simp [ofRat, broken]

/-- Two numbers of one tier, which are equal if they are exact. -/
def Resembles (first second : Value) : Prop :=
  ∃ tier, first.InTier tier ∧ second.InTier tier ∧ first.exactNumber? = second.exactNumber?

theorem Resembles.refl (inside : value.InTier tier) : value.Resembles value :=
  ⟨tier, inside, inside, rfl⟩

theorem Resembles.symm (same : first.Resembles second) : second.Resembles first := by
  obtain ⟨tier, left, right, exact⟩ := same
  exact ⟨tier, right, left, exact.symm⟩

theorem Resembles.trans (before : first.Resembles second) (after : second.Resembles third) :
    first.Resembles third := by
  obtain ⟨tier, left, middle, exact⟩ := before
  obtain ⟨other, again, right, alsoExact⟩ := after
  have same : tier = other := Option.some.inj (middle.tier?.symm.trans again.tier?)
  subst same
  exact ⟨tier, left, right, exact.trans alsoExact⟩

theorem resembles_of_exact {number : Rat} (firstExact : first.exactNumber? = some number)
    (secondExact : second.exactNumber? = some number) : first.Resembles second :=
  ⟨_, inTier_of_exact firstExact, inTier_of_exact secondExact, firstExact.trans secondExact.symm⟩

theorem resembles_of_inexact (firstInside : first.InTier tier) (secondInside : second.InTier tier)
    (inexact : tier.isExact = false) : first.Resembles second := by
  apply Exists.intro tier
  rw [firstInside.exactNumber?_eq_none inexact, secondInside.exactNumber?_eq_none inexact]
  exact ⟨firstInside, secondInside, rfl⟩

/-- The exact number tells the integer of a number in the integer tier. -/
theorem whole?_of_exact {whole : Int} (exact : value.exactNumber? = some (whole : Rat)) :
    value.whole? = some whole := by
  rcases exact_cases exact with ⟨other, rfl, same⟩ | rfl
  · have same : whole = other := by exact_mod_cast same
    rw [same]
    rfl
  · simp [whole?]

theorem atom_eq_of_resembles (same : first.Resembles second) : first.atom = second.atom := by
  obtain ⟨tier, left, right, exact⟩ := same
  simp only [atom, left.tier?, right.tier?]
  cases tier with
  | integer =>
      obtain ⟨number, known⟩ := left.exists_exact rfl
      have integral : number.den = 1 := (tier?_integer_iff known).mp left.tier?
      rw [← (Rat.den_eq_one_iff number).mp integral] at known
      rw [numberAtom, numberAtom, whole?_of_exact known, whole?_of_exact (exact ▸ known)]
  | _ => rfl

end Value

namespace Ntype

/-- A type that is not constant holds all numbers that resemble one of its numbers. -/
theorem contains_of_resembles {ntype : Ntype} {first second : Value}
    (varied : ntype.constant? = none) (inside : ntype.contains first = true)
    (same : first.Resembles second) : ntype.contains second = true := by
  cases ntype with
  | primitive primitive =>
      rw [contains_primitive] at inside ⊢
      rwa [← Value.atom_eq_of_resembles same]
  | singleton member => cases varied

/-- The numbers of a tier among the standard values. -/
theorem contains_tier_of_inTier {tier own : Tier} {value : Value} (inside : value.InTier own)
    (covers : tier.covers own = true) : tier.ntype.contains value = true := by
  rw [contains_tier, inside.tier?]
  rcases Tier.covers_iff.mp covers with rfl | ⟨rfl, rfl⟩
  · exact .inl rfl
  · exact .inr ⟨rfl, rfl⟩

theorem exists_inTier_of_contains {tier : Tier} {value : Value}
    (standard : value.isStandard = true) (inside : tier.ntype.contains value = true) :
    ∃ own, value.InTier own ∧ tier.covers own = true := by
  rcases contains_tier.mp inside with same | ⟨rational, integral⟩
  · exact ⟨tier, Value.inTier_of_tier? standard same, Tier.covers_iff.mpr (.inl rfl)⟩
  · exact ⟨.integer, Value.inTier_of_tier? standard integral,
      Tier.covers_iff.mpr (.inr ⟨rational, rfl⟩)⟩

end Ntype

end Narrowing
