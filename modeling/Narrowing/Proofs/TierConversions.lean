import Narrowing.Proofs.TierResults

/-
This file finds the representations that conversions to the tiers give.
-/

namespace Narrowing

namespace Value

variable {value first second result : Value} {own target : Tier}

/-- A conversion to an exact tier gives a reduced number of this tier. -/
theorem toTier_reduced (isExact : target.isExact = true)
    (converted : value.toTier target = .ok result) :
    (∃ own, result.InTier own ∧ target.covers own = true) ∧ result.isReduced = true := by
  have integral : ∀ {result : Value}, value.toInteger.map .integer = .ok result →
      ∃ whole, result = .integer whole := by
    intro result converted
    obtain ⟨whole, _, same⟩ := exists_of_map converted
    exact ⟨whole, same.symm⟩
  cases target with
  | integer =>
      obtain ⟨whole, rfl⟩ := integral converted
      exact ⟨⟨.integer, .integer whole, rfl⟩, rfl⟩
  | rational =>
      change value.toRational = .ok result at converted
      unfold toRational at converted
      split at converted
      · cases converted
        exact ⟨Tier.covers_of_exact rfl (exactNumber?_ofRat _) (.inl rfl), isReduced_ofRat _⟩
      · obtain ⟨whole, rfl⟩ := integral converted
        exact ⟨⟨.integer, .integer whole, rfl⟩, rfl⟩
  | _ => cases isExact

theorem convert_half (scalar : Scalar) : (Value.scalar (scalar.convert .half)).InTier .float16 :=
  .half _

theorem convert_single (scalar : Scalar) :
    (Value.scalar (scalar.convert .single)).InTier .float32 := .single _

theorem convert_complexSingle (scalar : Scalar) :
    (Value.scalar (scalar.convert .complexSingle)).InTier .complex64 := .complexSingle _

/-- A narrow conversion of a standard number gives a scalar of the storage class. -/
theorem exists_of_toNarrow {storage : Storage} (inside : value.InTier own)
    (converted : value.toNarrow storage = .ok result) :
    ∃ scalar : Scalar, result = .scalar (scalar.convert storage) := by
  have real : ∀ {number : Value},
      (do .ok (.scalar ((Scalar.double (← number.toDouble)).convert storage)) :
        Except Fault Value) = .ok result →
      ∃ scalar : Scalar, result = .scalar (scalar.convert storage) := by
    intro number finished
    obtain ⟨float, _, finished⟩ := exists_of_bind finished
    cases finished
    exact ⟨_, rfl⟩
  cases inside with
  | integer | whole | ratio | double => exact real converted
  | half | single | complexSingle =>
      cases converted
      exact ⟨_, rfl⟩
  | complexDouble =>
      simp only [toNarrow] at converted
      split at converted <;> cases converted
      exact ⟨_, rfl⟩

/-- A conversion of a standard number gives a number of the tier. -/
theorem toTier_inTier (inside : value.InTier own) (converted : value.toTier target = .ok result) :
    (∃ other, result.InTier other ∧ target.covers other = true) ∧ result.isReduced = true := by
  have inexact : target.isExact = false → result.InTier target →
      (∃ other, result.InTier other ∧ target.covers other = true) ∧ result.isReduced = true :=
    fun inexact inside => ⟨⟨target, inside, target.covers_self⟩, isReduced_of_inexact inside inexact⟩
  cases target with
  | integer | rational => exact toTier_reduced rfl converted
  | float16 =>
      obtain ⟨scalar, rfl⟩ := exists_of_toNarrow inside converted
      exact inexact rfl (convert_half scalar)
  | float32 =>
      obtain ⟨scalar, rfl⟩ := exists_of_toNarrow inside converted
      exact inexact rfl (convert_single scalar)
  | complex64 =>
      obtain ⟨scalar, rfl⟩ := exists_of_toNarrow inside converted
      exact inexact rfl (convert_complexSingle scalar)
  | float64 =>
      obtain ⟨float, _, rfl⟩ := exists_of_map converted
      exact inexact rfl (.double float)
  | complex128 =>
      obtain ⟨pair, _, rfl⟩ := exists_of_map converted
      exact inexact rfl (.complexDouble pair)

/-- Inexact numbers convert to all inexact tiers, except for complex numbers to real ones. -/
theorem exists_toTier (inside : value.InTier own) (inexact : own.isExact = false)
    (targetInexact : target.isExact = false) (stays : own.isComplex = true → target.isComplex = true) :
    ∃ result, value.toTier target = .ok result := by
  cases inside with
  | integer | whole | ratio => cases inexact
  | half | single | double =>
      cases target with
      | integer | rational => cases targetInexact
      | _ => exact ⟨_, rfl⟩
  | complexSingle | complexDouble =>
      cases target with
      | complex64 | complex128 => exact ⟨_, rfl⟩
      | _ => cases stays rfl

/-- Both representations of a whole number have the same double. -/
theorem ofRat?_intCast (whole : Int) : Double.ofRat? whole = Double.ofInt? whole := by
  simp only [Double.ofInt?, Double.ofRat?, Double.ofInt, Double.ofRat, Rat.num_intCast,
    Rat.den_intCast]
  rfl

theorem toTier_intCast (whole : Int) (inexact : target.isExact = false) :
    (Value.ratio whole).toTier target = (Value.integer whole).toTier target := by
  have sameDouble : (Value.ratio whole).toDouble = (Value.integer whole).toDouble :=
    congrArg (orFault · Fault.overflow) (ofRat?_intCast whole)
  have narrow : ∀ storage, (Value.ratio whole).toNarrow storage =
      (Value.integer whole).toNarrow storage := by
    intro storage
    change (Value.ratio whole).toDouble >>= _ = (Value.integer whole).toDouble >>= _
    rw [sameDouble]
  cases target with
  | integer | rational => cases inexact
  | float16 | float32 | complex64 => exact narrow _
  | float64 => exact congrArg (Except.map Value.double) sameDouble
  | complex128 =>
      change ((Value.ratio whole).toDouble.map _).map _ = ((Value.integer whole).toDouble.map _).map _
      rw [sameDouble]

/-- Equal exact numbers convert to the same inexact number. -/
theorem toTier_congr {number : Rat} (firstExact : first.exactNumber? = some number)
    (secondExact : second.exactNumber? = some number) (inexact : target.isExact = false) :
    first.toTier target = second.toTier target := by
  rcases exact_cases firstExact with ⟨whole, rfl, rfl⟩ | rfl <;>
    rcases exact_cases secondExact with ⟨other, rfl, same⟩ | rfl
  · rw [show whole = other by exact_mod_cast same]
  · exact (toTier_intCast whole inexact).symm
  · rw [same]
    exact toTier_intCast other inexact
  · rfl

end Value

end Narrowing
