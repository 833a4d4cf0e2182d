import Narrowing.Descriptor.Resolve
import Narrowing.Proofs.LeastClasses
import Narrowing.Proofs.TypeInclusion

/-
This file compares intervals of integers with the bands that atoms divide the integers into.
-/

namespace Narrowing

namespace Atom

/-- In a sorted list the items up to a value come first. -/
theorem sorted_split {cuts : List Int} (sorted : cuts.Pairwise (· < ·)) (value : Int) :
    (∀ index cut, cuts[index]? = some cut →
      (cut ≤ value ↔ index < cuts.countP (· ≤ value))) := by
  induction cuts with
  | nil => exact nofun
  | cons first rest inductionHypothesis =>
      obtain ⟨above, restSorted⟩ := List.pairwise_cons.mp sorted
      intro index cut found
      by_cases below : first ≤ value
      · rw [List.countP_cons_of_pos (by simpa using below)]
        cases index with
        | zero =>
            obtain rfl := Option.some.inj found
            exact iff_of_true below (Nat.succ_pos _)
        | succ index =>
            rw [inductionHypothesis restSorted index cut found]
            exact Nat.succ_lt_succ_iff.symm
      · have none : rest.countP (· ≤ value) = 0 := by
          rw [List.countP_eq_zero]
          intro other member
          have later := above other member
          simp only [decide_eq_true_eq]
          omega
        rw [List.countP_cons_of_neg (by simpa using below), none]
        refine iff_of_false (fun inside => ?_) (Nat.not_lt_zero index)
        cases index with
        | zero =>
            obtain rfl := Option.some.inj found
            exact below inside
        | succ index =>
            have later := above cut (List.mem_of_getElem? found)
            omega

/-- An integer lies in the interval of its band. -/
theorem exists_band (value : Int) :
    ∃ index : Fin 15, ofInt value = .band index ∧ (bandInterval index).contains value = true := by
  refine ⟨_, rfl, ?_⟩
  have split := sorted_split (by decide : integerCuts.Pairwise (· < ·)) value
  unfold bandInterval Interval.contains
  simp only [Bool.and_eq_true]
  constructor
  · split
    · rfl
    · rename_i some
      cases found : integerCuts[integerCuts.countP (· ≤ value) - 1]? with
      | none => rfl
      | some cut =>
          have inside := (split _ cut found).mpr (by omega)
          simpa using inside
  · cases found : integerCuts[integerCuts.countP (· ≤ value)]? with
    | none => rfl
    | some cut =>
        have outside := mt (split _ cut found).mp (Nat.lt_irrefl _)
        simp only [Option.map_some, Option.all_some, decide_eq_true_eq]
        omega

end Atom

namespace AtomSet

/-- The atoms of an interval are the bands that meet it. -/
theorem contains_ofInterval {interval : Interval} {atom : Atom} :
    (ofInterval interval).contains atom = true ↔
      ∃ index, atom = .band index ∧ (Atom.bandInterval index).overlaps interval = true := by
  unfold ofInterval
  rw [contains_ofList, List.mem_map]
  constructor
  · rintro ⟨index, member, rfl⟩
    exact ⟨index, rfl, (List.mem_filter.mp member).2⟩
  · rintro ⟨index, rfl, meets⟩
    exact ⟨index, List.mem_filter.mpr ⟨List.mem_finRange index, meets⟩, rfl⟩

/-- The bands around an interval hold its integers. -/
theorem contains_ofInt {interval : Interval} {value : Int}
    (inside : interval.contains value = true) :
    (ofInterval interval).contains (.ofInt value) = true := by
  obtain ⟨index, same, own⟩ := Atom.exists_band value
  exact contains_ofInterval.mpr ⟨index, same, Interval.overlaps_of_contains own inside⟩

end AtomSet

namespace Interval

/-- Every integer of the first interval lies in the second. -/
def inside (first second : Interval) : Bool :=
  second.lower.all (fun low => first.lower.any (low ≤ ·)) &&
    second.upper.all (fun high => first.upper.any (· ≤ high))

theorem contains_of_inside {first second : Interval} (included : first.inside second = true)
    {value : Int} (held : first.contains value = true) : second.contains value = true := by
  obtain ⟨firstLow, firstHigh⟩ := first
  obtain ⟨secondLow, secondHigh⟩ := second
  cases firstLow <;> cases firstHigh <;> cases secondLow <;> cases secondHigh <;>
    simp_all [contains, inside] <;> omega

/-- The greatest lower end of two intervals, or their least upper end where there is no lower one. -/
def common (first second : Interval) : Int :=
  match first.lower, second.lower, first.upper, second.upper with
  | some left, some right, _, _ => max left right
  | some limit, none, _, _ | none, some limit, _, _ => limit
  | none, none, some left, some right => min left right
  | none, none, some limit, none | none, none, none, some limit => limit
  | none, none, none, none => 0

theorem contains_iff {interval : Interval} {value : Int} :
    interval.contains value = true ↔
      (∀ low, interval.lower = some low → low ≤ value) ∧
        ∀ high, interval.upper = some high → value ≤ high := by
  obtain ⟨low, high⟩ := interval
  cases low <;> cases high <;> simp [contains]

/-- Intervals that overlap share an integer when the ends of neither cross. -/
theorem contains_common {first second : Interval} (firstFilled : first.overlaps first = true)
    (secondFilled : second.overlaps second = true) (meets : first.overlaps second = true) :
    first.contains (common first second) = true ∧
      second.contains (common first second) = true := by
  rw [contains_iff, contains_iff]
  obtain ⟨firstLow, firstHigh⟩ := first
  obtain ⟨secondLow, secondHigh⟩ := second
  cases firstLow <;> cases firstHigh <;> cases secondLow <;> cases secondHigh <;>
    simp [overlaps, common] at * <;> omega

end Interval

/-- The band of an integer is the one whose interval holds it. -/
theorem Atom.ofInt_of_contains {index : Fin 15} {value : Int}
    (inside : (bandInterval index).contains value = true) : ofInt value = .band index := by
  have apart : ∀ first second : Fin 15,
      (bandInterval first).overlaps (bandInterval second) = true → first = second := by decide
  obtain ⟨own, same, held⟩ := exists_band value
  rw [same, apart own index (Interval.overlaps_of_contains held inside)]

/-- A band around an interval holds one of its integers. -/
theorem AtomSet.exists_integer {interval : Interval} (filled : interval.overlaps interval = true)
    {atom : Atom} (around : (ofInterval interval).contains atom = true) :
    ∃ value, interval.contains value = true ∧ atom = .ofInt value := by
  obtain ⟨index, rfl, meets⟩ := contains_ofInterval.mp around
  have band : ∀ index : Fin 15,
      (Atom.bandInterval index).overlaps (Atom.bandInterval index) = true := by decide
  obtain ⟨own, inside⟩ := Interval.contains_common (band index) filled meets
  exact ⟨_, inside, (Atom.ofInt_of_contains own).symm⟩

namespace IntegerClass

/-- The interval of a class of integers is made of whole bands. -/
theorem contains_iff {narrowed : IntegerClass} {value : Int} :
    (Primitive.integers narrowed).atoms.contains (.ofInt value) = true ↔
      narrowed.interval.contains value = true := by
  have whole : ∀ narrowed ∈ all, ∀ index : Fin 15,
      (Atom.bandInterval index).overlaps narrowed.interval = true →
        (Atom.bandInterval index).inside narrowed.interval = true := by decide
  constructor
  · intro present
    obtain ⟨index, same, meets⟩ := AtomSet.contains_ofInterval.mp present
    obtain ⟨own, ownSame, held⟩ := Atom.exists_band value
    cases same.symm.trans ownSame
    exact Interval.contains_of_inside (whole narrowed narrowed.mem_all index meets) held
  · exact AtomSet.contains_ofInt

theorem interval_of_found {interval : Interval} {narrowed : IntegerClass}
    (found : ofInterval? interval = some narrowed) : narrowed.interval = interval := by
  have same := List.find?_some found
  exact beq_iff_eq.mp same

end IntegerClass

namespace Value

/-- The values in the integer tier are the whole numbers. -/
theorem integerTier_iff {value : Value} :
    value.tier? = some .integer ↔ ∃ whole, value.whole? = some whole := by
  cases value with
  | integer whole => exact iff_of_true rfl ⟨whole, rfl⟩
  | ratio ratio =>
      by_cases unit : ratio.den = 1
      · exact iff_of_true (by simp [tier?, unit]) ⟨ratio.num, by simp [whole?, unit]⟩
      · simp [tier?, whole?, unit]
  | scalar scalar => cases scalar <;> simp [tier?, whole?, scalar?, Scalar.storage, Storage.tier?]
  | array grid =>
      cases single : grid.scalar? with
      | none => simp [tier?, whole?, scalar?, single]
      | some scalar =>
          cases scalar <;>
            simp [tier?, whole?, scalar?, single, Scalar.storage, Storage.tier?]
  | _ => simp [tier?, whole?, scalar?]

/-- The atom of a whole number is its band. -/
theorem atom_of_whole {value : Value} {whole : Int} (isWhole : value.whole? = some whole) :
    value.atom = .ofInt whole := by
  have number := integerTier_iff.mpr ⟨whole, isWhole⟩
  unfold atom
  rw [number]
  simp only [numberAtom, isWhole, Option.getD_some]

/-- A value in a band of integers is a whole number. -/
theorem exists_whole {value : Value} {index : Fin 15} (banded : value.atom = .band index) :
    ∃ whole, value.whole? = some whole := by
  refine integerTier_iff.mp ?_
  rw [← atom_tier?, banded]
  rfl

/-- A whole number is an integer object, not a scalar, an array or a fraction. -/
def WholeIsInteger (value : Value) : Prop :=
  ∀ whole, value.whole? = some whole → value = .integer whole

end Value

namespace Ntype

theorem contains_integer_iff {value : Value} {number : Int} :
    (singleton (.integer number)).contains value = true ↔ value = .integer number := by
  constructor
  · exact Value.eq_of_identical rfl
  · rintro rfl
    exact @Value.identical_self (.integer number) rfl

theorem isVoid_iff {interval : Interval} :
    isVoid interval = true ↔ ∃ low high, interval = ⟨some low, some high⟩ ∧ high < low := by
  obtain ⟨low, high⟩ := interval
  cases low <;> cases high <;> simp [isVoid]

theorem onlyInteger?_iff {interval : Interval} {only : Int} :
    onlyInteger? interval = some only ↔ interval = ⟨some only, some only⟩ := by
  obtain ⟨low, high⟩ := interval
  cases low <;> cases high <;> simp [onlyInteger?]
  constructor
  · rintro ⟨rfl, rfl⟩
    exact ⟨rfl, rfl⟩
  · rintro ⟨rfl, rfl⟩
    exact ⟨rfl, rfl⟩

/-- The type of an interval holds its integers. -/
theorem contains_ofInterval {interval : Interval} {number : Int}
    (inside : interval.contains number = true) :
    (ofInterval interval).ntype.contains (.integer number) = true := by
  unfold ofInterval
  split
  · rename_i void
    obtain ⟨low, high, rfl, crossed⟩ := isVoid_iff.mp void
    simp only [Interval.contains, Option.all_some, Bool.and_eq_true, decide_eq_true_eq] at inside
    omega
  · split
    · rename_i only found
      rw [onlyInteger?_iff.mp found] at inside
      simp only [Interval.contains, Option.all_some, Bool.and_eq_true, decide_eq_true_eq] at inside
      exact contains_integer_iff.mpr (congrArg _ (by omega))
    · unfold ofWideInterval
      split
      · rename_i narrowed found
        rw [← IntegerClass.interval_of_found found] at inside
        exact IntegerClass.contains_iff.mpr inside
      · exact Primitive.contains_enclosing (AtomSet.contains_ofInt inside)

/-- A precise type of an interval holds nothing but its integers. -/
theorem exists_integer_of_interval {interval : Interval} {value : Value}
    (whole : value.WholeIsInteger) (precise : (ofInterval interval).precise = true)
    (held : (ofInterval interval).ntype.contains value = true) :
    ∃ number, value = .integer number ∧ interval.contains number = true := by
  unfold ofInterval at precise held
  split at held
  · simp [empty, contains, Primitive.atoms] at held
  · rename_i filled
    split at held
    · rename_i only found
      refine ⟨only, contains_integer_iff.mp held, ?_⟩
      rw [onlyInteger?_iff.mp found]
      simp [Interval.contains]
    · rename_i several
      unfold ofWideInterval at precise held
      simp only [filled, several] at precise
      split at held
      · rename_i narrowed found
        obtain ⟨index, banded, _⟩ := AtomSet.contains_ofInterval.mp held
        obtain ⟨number, isWhole⟩ := Value.exists_whole banded
        refine ⟨number, whole number isWhole, ?_⟩
        rw [← IntegerClass.interval_of_found found]
        refine IntegerClass.contains_iff.mp ?_
        rw [← Value.atom_of_whole isWhole]
        exact held
      · rename_i missing
        simp [missing] at precise

end Ntype

end Narrowing
