import Narrowing.Proofs.IntegerBands
import Narrowing.Proofs.UnionBounds

/-
This file compares a range of integers with the type that stands for it: the type is the least one
around the range and precise if it holds no other integer, and it takes whole numbers in every
representation unless the range is one integer alone.
-/

namespace Narrowing

namespace Interval

variable {first second : Interval} {shared value limit only : Int}

theorem contains_only_iff : (Interval.mk (some only) (some only)).contains value = true ↔
    value = only := by
  simp [contains]
  omega

/-- The integers up to a held one are held down to the lower end, or all if there is none. -/
theorem contains_of_le (held : first.contains shared = true) (below : value ≤ shared)
    (reached : ∀ low, first.lower = some low → low ≤ value) : first.contains value = true := by
  rw [contains_iff] at held ⊢
  refine ⟨reached, fun high ends => ?_⟩
  have above := held.2 high ends
  omega

theorem contains_of_ge (held : first.contains shared = true) (above : shared ≤ value)
    (reached : ∀ high, first.upper = some high → value ≤ high) : first.contains value = true := by
  rw [contains_iff] at held ⊢
  refine ⟨fun low starts => ?_, reached⟩
  have below := held.1 low starts
  omega

/-- An interval that holds no integer below a limit starts at the limit or above it. -/
theorem exists_lower (held : first.contains shared = true)
    (bounded : ∀ value, first.contains value = true → limit ≤ value) :
    ∃ low, first.lower = some low ∧ limit ≤ low := by
  cases starts : first.lower with
  | none =>
      -- Without a lower end the interval goes below the limit.
      have below : min shared limit - 1 ≤ shared := by omega
      have reached := bounded _ (contains_of_le held below (by simp [starts]))
      omega
  | some low =>
      have least : low ≤ shared := (contains_iff.mp held).1 low starts
      exact ⟨low, rfl, bounded low (contains_of_le held least (by simp [starts]))⟩

/-- The same at the upper end. -/
theorem exists_upper (held : first.contains shared = true)
    (bounded : ∀ value, first.contains value = true → value ≤ limit) :
    ∃ high, first.upper = some high ∧ high ≤ limit := by
  cases ends : first.upper with
  | none =>
      have above : shared ≤ max shared limit + 1 := by omega
      have reached := bounded _ (contains_of_ge held above (by simp [ends]))
      omega
  | some high =>
      have greatest : shared ≤ high := (contains_iff.mp held).2 high ends
      exact ⟨high, rfl, bounded high (contains_of_ge held greatest (by simp [ends]))⟩

/-- An interval whose integers lie in another one reaches no further on either side. -/
theorem inside_of_contains (held : first.contains shared = true)
    (included : ∀ value, first.contains value = true → second.contains value = true) :
    first.inside second = true := by
  simp only [inside, Bool.and_eq_true]
  constructor
  · cases starts : second.lower with
    | none => rfl
    | some limit =>
        obtain ⟨low, found, above⟩ := exists_lower held fun value inside =>
          (contains_iff.mp (included value inside)).1 limit starts
        simpa [found] using above
  · cases ends : second.upper with
    | none => rfl
    | some limit =>
        obtain ⟨high, found, below⟩ := exists_upper held fun value inside =>
          (contains_iff.mp (included value inside)).2 limit ends
        simpa [found] using below

theorem eq_of_inside (left : first.inside second = true) (right : second.inside first = true) :
    first = second := by
  obtain ⟨low, high⟩ := first
  obtain ⟨otherLow, otherHigh⟩ := second
  cases low <;> cases high <;> cases otherLow <;> cases otherHigh <;>
    simp [inside] at left right ⊢ <;> omega

/-- Intervals with the same integers are one interval, if they have any. -/
theorem eq_of_contains (held : first.contains shared = true)
    (same : ∀ value, first.contains value = true ↔ second.contains value = true) :
    first = second :=
  eq_of_inside (inside_of_contains held fun value => (same value).mp)
    (inside_of_contains ((same shared).mp held) fun value => (same value).mpr)

end Interval

namespace Primitive

theorem enclosing_ne_empty {set : AtomSet} {atom : Atom} (present : set.contains atom = true) :
    (enclosing set).primitive ≠ empty := by
  intro hollow
  have held := contains_enclosing present
  rw [hollow] at held
  simp [atoms] at held

/-- The classes within the integers are those of integers, and the empty one. -/
theorem exists_integers {primitive : Primitive} (filled : primitive ≠ empty)
    (within : primitive.atoms.within (integers .integer).atoms = true) :
    ∃ narrowed, primitive = integers narrowed := by
  cases primitive with
  | empty => exact absurd rfl filled
  | integers narrowed => exact ⟨narrowed, rfl⟩
  | arrayOf storage =>
      have held := AtomSet.within_iff.mp within (.array storage)
        ((AtomSet.contains_singleton _ _).mpr rfl)
      rw [show (integers .integer).atoms = AtomSet.ofTier .integer from rfl,
        AtomSet.contains_ofTier] at held
      simp [Atom.tier?] at held
  | _ => exact absurd within (by decide)

end Primitive

/-- A class of integers is found by its interval. -/
theorem IntegerClass.exists_found (narrowed : IntegerClass) :
    ∃ found, ofInterval? narrowed.interval = some found := by
  have present : (ofInterval? narrowed.interval).isSome = true :=
    List.find?_isSome.mpr ⟨narrowed, narrowed.mem_all, beq_self_eq_true _⟩
  exact Option.isSome_iff_exists.mp present

namespace Ntype

variable {interval : Interval} {ntype : Ntype} {value : Value} {number : Int}

/-- A range that is neither void nor one integer has two integers. -/
theorem exists_two_integers (filled : isVoid interval = false)
    (several : onlyInteger? interval = none) :
    ∃ one other, one ≠ other ∧ interval.contains one = true ∧ interval.contains other = true := by
  obtain ⟨low, high⟩ := interval
  simp only [Interval.contains_iff]
  cases low with
  | none =>
      cases high with
      | none => exact ⟨0, 1, by omega, by simp, by simp⟩
      | some greatest =>
          refine ⟨greatest, greatest - 1, by omega, by simp, by simp, fun high ends => ?_⟩
          cases ends
          omega
  | some least =>
      cases high with
      | none =>
          refine ⟨least, least + 1, by omega, by simp, fun low starts => ?_, by simp⟩
          cases starts
          omega
      | some greatest =>
          simp [isVoid] at filled
          simp [onlyInteger?] at several
          exact ⟨least, greatest, several, by simpa using filled, by simpa using filled⟩

/-- The type of a range is empty, the singleton of an integer or the class around several. -/
theorem ofInterval_cases (interval : Interval) :
    ((∀ number, interval.contains number = false) ∧ ofInterval interval = ⟨empty, true⟩) ∨
    (∃ only, interval = ⟨some only, some only⟩ ∧
      ofInterval interval = ⟨.singleton (.integer only), true⟩) ∨
    ((∃ one other, one ≠ other ∧ interval.contains one = true ∧ interval.contains other = true) ∧
      ofInterval interval = ofWideInterval interval) := by
  unfold ofInterval
  cases void : isVoid interval with
  | true =>
      refine .inl ⟨fun number => ?_, rfl⟩
      obtain ⟨low, high, rfl, crossed⟩ := isVoid_iff.mp void
      simp [Interval.contains]
      omega
  | false =>
      cases found : onlyInteger? interval with
      | some only => exact .inr (.inl ⟨only, onlyInteger?_iff.mp found, rfl⟩)
      | none => exact .inr (.inr ⟨exists_two_integers void found, rfl⟩)

/-- The type of several integers is the class around their bands, also where it has a name. -/
theorem ofWideInterval_ntype (interval : Interval) :
    (ofWideInterval interval).ntype =
      .primitive (Primitive.enclosing (AtomSet.ofInterval interval)).primitive := by
  unfold ofWideInterval
  split
  · rename_i narrowed found
    rw [← IntegerClass.interval_of_found found]
    have exact := Primitive.enclosing_atoms (.integers narrowed)
    rw [show AtomSet.ofInterval narrowed.interval = (Primitive.integers narrowed).atoms from rfl,
      exact]
  · rfl

/-- A class holds the bands of a range just when it holds its integers. -/
theorem ofInterval_within_iff {primitive : Primitive} (held : interval.contains number = true) :
    (AtomSet.ofInterval interval).within primitive.atoms = true ↔
      ∀ number, interval.contains number = true →
        primitive.atoms.contains (.ofInt number) = true := by
  rw [AtomSet.within_iff]
  constructor
  · intro within number inside
    exact within _ (AtomSet.contains_ofInt inside)
  · intro every atom around
    have filled := Interval.overlaps_of_contains held held
    obtain ⟨number, inside, rfl⟩ := AtomSet.exists_integer filled around
    exact every number inside

/-- No singleton holds two integers. -/
theorem eq_of_singleton {member : Value} {one other : Int}
    (left : (singleton member).contains (.integer one) = true)
    (right : (singleton member).contains (.integer other) = true) : one = other := by
  have same : (Value.integer one).identical (.integer other) = true := by
    apply Value.identical_trans left
    rw [Value.identical_comm]
    exact right
  cases Value.eq_of_identical rfl same
  rfl

/-- The class around several integers lies in the types that hold them all. -/
theorem ofWideInterval_proves_iff {one other : Int} (apart : one ≠ other)
    (oneInside : interval.contains one = true) (otherInside : interval.contains other = true) :
    (ofWideInterval interval).ntype.proves ntype = true ↔
      ∀ number, interval.contains number = true → ntype.contains (.integer number) = true := by
  rw [ofWideInterval_ntype]
  cases ntype with
  | primitive outer =>
      rw [proves_primitive_iff, Primitive.enclosing_least]
      exact ofInterval_within_iff oneInside
  | singleton member =>
      rw [proves_primitive_singleton]
      constructor
      · intro hollow
        exact absurd hollow (Primitive.enclosing_ne_empty (AtomSet.contains_ofInt oneInside))
      · intro every
        exact absurd (eq_of_singleton (every one oneInside) (every other otherInside)) apart

/-- A type holds the integers of a range just when the type of the range lies in it. -/
theorem ofInterval_proves_iff (interval : Interval) (ntype : Ntype) :
    (ofInterval interval).ntype.proves ntype = true ↔
      ∀ number, interval.contains number = true → ntype.contains (.integer number) = true := by
  obtain ⟨none, same⟩ | ⟨only, rfl, same⟩ | ⟨⟨one, other, apart, oneInside, otherInside⟩, same⟩ :=
    ofInterval_cases interval
  · rw [same]
    refine iff_of_true (empty_proves ntype) fun number inside => ?_
    rw [none number] at inside
    cases inside
  · rw [same]
    simp only [Interval.contains_only_iff, forall_eq]
    cases ntype with
    | primitive outer => exact Iff.rfl
    | singleton member => exact same_iff_proves_singletons
  · rw [same]
    exact ofWideInterval_proves_iff apart oneInside otherInside

/-- The class around several integers is precise just when it holds no others. -/
theorem ofWideInterval_precise_iff (held : interval.contains number = true) :
    (ofWideInterval interval).precise = true ↔ ∀ number,
      (ofWideInterval interval).ntype.contains (.integer number) = true ↔
        interval.contains number = true := by
  constructor
  · intro precise number
    cases found : IntegerClass.ofInterval? interval with
    | none => simp [ofWideInterval, found] at precise
    | some narrowed =>
        simp only [ofWideInterval, found]
        rw [← IntegerClass.interval_of_found found]
        exact IntegerClass.contains_iff
  · intro same
    rw [ofWideInterval_ntype] at same
    -- The class lies within the integers and holds one, so it is a class of integers.
    have within : (Primitive.enclosing (AtomSet.ofInterval interval)).primitive.atoms.within
        (Primitive.integers .integer).atoms = true := by
      rw [Primitive.enclosing_least, ofInterval_within_iff held]
      exact fun number _ => IntegerClass.contains_iff.mpr rfl
    have filled := Primitive.enclosing_ne_empty (AtomSet.contains_ofInt held)
    obtain ⟨narrowed, named⟩ := Primitive.exists_integers filled within
    rw [named] at same
    have whole : narrowed.interval = interval := by
      apply Interval.eq_of_contains (IntegerClass.contains_iff.mp ((same number).mpr held))
      exact fun number => IntegerClass.contains_iff.symm.trans (same number)
    obtain ⟨found, isFound⟩ := narrowed.exists_found
    rw [whole] at isFound
    simp [ofWideInterval, isFound]

/-- The type of a range is precise just when it holds no integers but those of the range. -/
theorem ofInterval_precise_iff (interval : Interval) :
    (ofInterval interval).precise = true ↔ ∀ number,
      (ofInterval interval).ntype.contains (.integer number) = true ↔
        interval.contains number = true := by
  obtain ⟨none, same⟩ | ⟨only, rfl, same⟩ | ⟨⟨one, other, apart, oneInside, otherInside⟩, same⟩ :=
    ofInterval_cases interval
  · rw [same]
    refine iff_of_true rfl fun number => ?_
    rw [none number]
    simp [empty, contains, Primitive.atoms]
  · rw [same]
    refine iff_of_true rfl fun number => ?_
    rw [contains_integer_iff, Interval.contains_only_iff, Value.integer.injEq]
  · rw [same]
    exact ofWideInterval_precise_iff oneInside

/-- The type of a range holds its integers and lies in every type that holds them, and it is precise
just when it holds no other integer. -/
theorem ofInterval_tightest (interval : Interval) :
    (∀ number, interval.contains number = true →
      (ofInterval interval).ntype.contains (.integer number) = true) ∧
    (∀ ntype : Ntype, ((ofInterval interval).ntype.subtype ntype).value = true ↔
      ∀ number, interval.contains number = true → ntype.contains (.integer number) = true) ∧
    ((ofInterval interval).precise = true ↔ ∀ number,
      (ofInterval interval).ntype.contains (.integer number) = true ↔
        interval.contains number = true) := by
  refine ⟨fun number inside => ?_, ?_, ?_⟩
  · exact contains_ofInterval inside
  · exact ofInterval_proves_iff interval
  · exact ofInterval_precise_iff interval

/-- The numbers from minus one to a hundred need a signed byte, which also holds others. -/
theorem ofInterval_tightest_hundred :
    let range : Interval := ⟨some (-1), some 100⟩
    (ofInterval range).ntype.contains (.integer (-1)) = true ∧
      ((ofInterval range).ntype.subtype (.primitive (.integers .signed8))).value = true ∧
      ((ofInterval range).ntype.subtype (.primitive (.integers .unsigned64))).value = false ∧
      (ofInterval range).precise = false := by
  intro range
  obtain ⟨held, least, _⟩ := ofInterval_tightest range
  refine ⟨held (-1) (by decide), ?_, ?_, by decide⟩
  · apply (least _).mpr
    intro number inside
    exact IntegerClass.contains_iff.mpr (Interval.contains_of_inside (by decide) inside)
  · rw [← Bool.not_eq_true, least]
    intro every
    exact absurd (every (-1) (by decide)) (by decide)

/-- The class around several integers sees whole numbers and not how they are represented. -/
theorem ofWideInterval_contains_whole (isWhole : value.whole? = some number) :
    (ofWideInterval interval).ntype.contains value =
      (ofWideInterval interval).ntype.contains (.integer number) := by
  rw [ofWideInterval_ntype]
  have same : value.atom = (Value.integer number).atom := Value.atom_of_whole isWhole
  simp only [contains, same]

/-- A range takes its whole numbers in every representation, unless it is one integer alone. -/
theorem contains_whole_iff (isWhole : value.whole? = some number)
    (inside : interval.contains number = true) :
    (ofInterval interval).ntype.contains value = true ↔
      (interval = ⟨some number, some number⟩ → value = .integer number) := by
  obtain ⟨none, same⟩ | ⟨only, rfl, same⟩ | ⟨⟨one, other, apart, oneInside, otherInside⟩, same⟩ :=
    ofInterval_cases interval
  · rw [none number] at inside
    cases inside
  · rw [Interval.contains_only_iff] at inside
    subst inside
    rw [same, contains_integer_iff]
    simp
  · have held := contains_ofInterval inside
    rw [same] at held ⊢
    rw [ofWideInterval_contains_whole isWhole]
    refine iff_of_true held fun alone => ?_
    rw [alone, Interval.contains_only_iff] at oneInside otherInside
    exact absurd (oneInside.trans otherInside.symm) apart

/-- A number in the type of a range is in this type as an integer. -/
theorem contains_integer_of_whole (isWhole : value.whole? = some number)
    (held : (ofInterval interval).ntype.contains value = true) :
    (ofInterval interval).ntype.contains (.integer number) = true := by
  obtain ⟨_, same⟩ | ⟨only, rfl, same⟩ | ⟨_, same⟩ := ofInterval_cases interval
  · rw [same] at held ⊢
    simp [empty, contains, Primitive.atoms] at held
  · rw [same, contains_integer_iff] at held
    subst held
    cases isWhole
    rw [same, contains_integer_iff]
  · rw [same] at held ⊢
    rwa [← ofWideInterval_contains_whole isWhole]

/-- The type of a range holds the numbers of the integer tier in the range in every representation,
except that a range of one integer holds the integer itself alone; if it is precise, it holds no
other number of this tier. -/
theorem ofInterval_contains_whole (interval : Interval) (value : Value)
    (integral : value.tier? = some .integer) :
    ∃ number, value.whole? = some number ∧
      (interval.contains number = true →
        ((ofInterval interval).ntype.contains value = true ↔
          (interval = ⟨some number, some number⟩ → value = .integer number))) ∧
      ((ofInterval interval).precise = true → interval.contains number = false →
        (ofInterval interval).ntype.contains value = false) := by
  obtain ⟨number, isWhole⟩ := Value.integerTier_iff.mp integral
  refine ⟨number, isWhole, contains_whole_iff isWhole, fun precise outside => ?_⟩
  rw [← Bool.not_eq_true] at outside ⊢
  intro held
  apply outside
  exact ((ofInterval_precise_iff interval).mp precise number).mp
    (contains_integer_of_whole isWhole held)

/-- The word five of 32 bits. -/
def wordFive : Value := .scalar (.word ⟨.int32, 5, by decide⟩)

/-- A word and a whole fraction lie in a range of bytes, and a fraction beyond it does not. -/
theorem ofInterval_contains_whole_bytes :
    let range : Interval := ⟨some 0, some 255⟩
    wordFive.tier? = some .integer ∧ (Value.ratio 7).tier? = some .integer ∧
      (Value.ratio 256).tier? = some .integer ∧
      (ofInterval range).ntype.contains wordFive = true ∧
      (ofInterval range).ntype.contains (.ratio 7) = true ∧
      (ofInterval range).ntype.contains (.ratio 256) = false := by
  intro range
  obtain ⟨five, ⟨⟩, word, _⟩ := ofInterval_contains_whole range wordFive rfl
  obtain ⟨seven, ⟨⟩, fraction, _⟩ := ofInterval_contains_whole range (.ratio 7) rfl
  obtain ⟨beyond, ⟨⟩, _, outside⟩ := ofInterval_contains_whole range (.ratio 256) rfl
  refine ⟨rfl, rfl, rfl, ?_, ?_, ?_⟩
  · exact (word (by decide)).mpr (by simp [range])
  · exact (fraction (by decide)).mpr (by simp [range])
  · exact outside (by decide) (by decide)

/-- The range from five to five holds the integer five and not the word five, though both have the
same number, which lies in the range. -/
theorem ofInterval_misses_word :
    wordFive.tier? = some .integer ∧ wordFive.whole? = some 5 ∧
      (Interval.mk (some 5) (some 5)).contains 5 = true ∧
      (ofInterval ⟨some 5, some 5⟩).ntype.contains (.integer 5) = true ∧
      (ofInterval ⟨some 5, some 5⟩).ntype.contains wordFive = false := by
  decide

end Ntype

end Narrowing
