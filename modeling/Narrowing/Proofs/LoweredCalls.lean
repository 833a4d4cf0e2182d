import Mathlib.Data.List.TakeWhile
import Narrowing.Lowering
import Narrowing.Proofs.ArithmeticFaults
import Narrowing.Proofs.LibraryCalls

/-
This file shows that the device has a computation for every operation of the library.
-/

namespace Narrowing

/-- The computation does not fail for want of an operation on the device. -/
def Lowers {Result : Type} (outcome : Except Fault Result) : Prop :=
  ∀ operation, outcome ≠ .error (.noLowering operation)

/-- No failure of arithmetic is the want of an operation. -/
theorem Foldable.lowers {Result : Type} {outcome : Except Fault Result}
    (foldable : Foldable outcome) : Lowers outcome := by
  intro operation failed
  cases foldable (.noLowering operation) failed

namespace Tier

theorem ofName?_name (tier : Tier) : ofName? tier.name = some tier := by cases tier <;> decide

/-- Names of tiers hold no point. -/
theorem ne_point (tier : Tier) : ∀ character ∈ tier.name.toList, (character != '.') = true := by
  rw [← List.all_eq_true]
  cases tier <;> decide

theorem takeWhile_name (tier : Tier) (part : String) :
    (tier.name ++ "." ++ part).toList.takeWhile (· != '.') = tier.name.toList := by
  simp [List.takeWhile_append_of_pos tier.ne_point]

theorem dropWhile_name (tier : Tier) (part : String) :
    (tier.name ++ "." ++ part).toList.dropWhile (· != '.') = '.' :: part.toList := by
  simp [List.dropWhile_append_of_pos tier.ne_point]

end Tier

namespace Operation

theorem ofName?_name (operation : Operation) : ofName? operation.name = some operation := by
  cases operation <;> decide

end Operation

namespace Lowering

variable {name : String} {operation : Operation}

theorem tierPart?_name (tier : Tier) (part : String) :
    tierPart? (tier.name ++ "." ++ part) = some part := by
  simp only [tierPart?, tier.takeWhile_name, tier.dropWhile_name, String.ofList_toList,
    tier.ofName?_name, Option.isSome_some, if_true]

theorem tierPart?_eq_none (plain : name.toList.contains '.' = false) : tierPart? name = none := by
  have none : name.toList.dropWhile (· != '.') = [] := by
    rw [List.dropWhile_eq_nil_iff]
    intro character member
    have different : character ≠ '.' := by
      rintro rfl
      simp [member] at plain
    simpa using different
  simp only [tierPart?, none]

theorem foldable_unary (operation : Operation) (value : Value) :
    Foldable (unary operation value) := by
  cases operation with
  | neg => exact Device.foldable_neg value
  | abs => exact Device.foldable_abs value
  | sqrt | exp | log | sin | cos | tan => exact Device.foldable_float _ value
  | _ => exact foldable_operand

theorem foldable_binary (operation : Operation) (first second : Value) :
    Foldable (binary operation first second) := by
  cases operation with
  | add | sub | mul => exact Device.foldable_binary _ first second
  | div => exact Device.foldable_div first second
  | expt => exact Device.foldable_pow first second
  | lt | eq => exact Device.foldable_compare _ first second
  | _ => exact foldable_operand

theorem foldable_apply (operation : Operation) (values : List Value) :
    Foldable (apply operation values) := by
  unfold apply
  split
  · exact foldable_ite (foldable_unary operation _) foldable_operand
  · exact foldable_ite foldable_operand (foldable_binary operation _ _)
  · exact foldable_operand

theorem foldable_floor (values : List Value) : Foldable (floor values) := by
  unfold floor
  split
  · exact Device.foldable_floor _
  · exact Device.foldable_floorQuotient _ _
  · exact foldable_operand

theorem lowers_chain (operation : Operation) (values : List Value) :
    Lowers (chain operation values) := by
  cases values with
  | nil => nofun
  | cons first rest => exact (foldable_foldlM (foldable_binary operation) first).lowers

theorem lowers_coerce (tier : Tier) (values : List Value) : Lowers (coerce tier values) := by
  cases values with
  | nil => nofun
  | cons value rest => exact (Device.foldable_ofTier tier value).lowers

theorem lowers_applyGeneric (operation : Operation) (values : List Value) :
    Lowers (applyGeneric operation values) := by
  unfold applyGeneric
  split
  · exact lowers_chain .add _
  · exact lowers_chain .mul _
  · exact (Device.foldable_neg _).lowers
  · exact (Device.foldable_div _ _).lowers
  · exact lowers_chain .sub values
  · exact lowers_chain .div values
  · exact (foldable_apply operation values).lowers

/-- The device computes the operations of all tiers. -/
theorem lowers_tierCall (tier : Tier) (operation : Operation) (values : List Value) :
    Lowers (call (tier.operationName operation) values) := by
  have named : tierPart? (tier.operationName operation) = some operation.name :=
    tierPart?_name tier operation.name
  simp only [call, named, operation.ofName?_name, orFault]
  exact (foldable_apply operation values).lowers

/-- A name without a point stands for the floor, a conversion or a generic operation. -/
def resolves (name : String) : Bool :=
  !name.toList.contains '.' && (name == "floor" ||
    match Tier.ofName? name with
    | some tier => !tier.isExact
    | none => (generic? name).isSome)

theorem lowers_plainCall (resolved : resolves name = true) (values : List Value) :
    Lowers (call name values) := by
  simp only [resolves, Bool.and_eq_true, Bool.not_eq_true', Bool.or_eq_true, beq_iff_eq] at resolved
  obtain ⟨plain, known⟩ := resolved
  simp only [call, tierPart?_eq_none plain]
  split
  · exact (foldable_floor values).lowers
  rename_i others
  have known := known.resolve_left others
  cases found : Tier.ofName? name with
  | some tier =>
      rw [found] at known
      have inexact : tier.isExact = false := by simpa using known
      simp only [inexact]
      exact lowers_coerce tier values
  | none =>
      rw [found] at known
      obtain ⟨operation, generic⟩ := Option.isSome_iff_exists.mp known
      simp only [generic, orFault]
      exact lowers_applyGeneric operation values

end Lowering

namespace Library

theorem resolves_plain : ∀ record ∈ plainRecords, Lowering.resolves record.name = true := by
  decide +kernel

/-- The device computes all operations of the library. -/
theorem lowers_call {record : Record} (member : record ∈ records) (values : List Value) :
    Lowers (Lowering.call record.name values) := by
  rcases mem_cases member with plain | ⟨tier, operation, _, rfl⟩
  · exact Lowering.lowers_plainCall (resolves_plain record plain) values
  · exact Lowering.lowers_tierCall tier operation values

end Library

end Narrowing
