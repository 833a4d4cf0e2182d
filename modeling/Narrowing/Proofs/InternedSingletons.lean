import Narrowing.Arithmetic.Host
import Narrowing.Proofs.LookupRuns
import Narrowing.Proofs.PrimitiveMeanings

/-
This file says when two values share one singleton type.
-/

namespace Narrowing

namespace Value

mutual

/-- Literals, the missing value and tuples of such values. -/
def isInternable : Value → Bool
  | .missing => true
  | .tuple items => areInternable items
  | value => value.isLiteral

def areInternable : List Value → Bool
  | [] => true
  | item :: rest => isInternable item && areInternable rest

end

mutual

/-- No tuple in the value has a number as an item. -/
def isNumberless : Value → Bool
  | .tuple items => areNumberless items
  | _ => true

def areNumberless : List Value → Bool
  | [] => true
  | item :: rest => item.content?.isNone && isNumberless item && areNumberless rest

end

mutual

/-- The numbers in the value are host numbers that are equal to themselves. -/
def isComparable : Value → Bool
  | .missing | .boolean _ | .integer _ | .ratio _ | .text _ => true
  | .double value => !value.isNaN
  | .complex value => !value.real.isNaN && !value.imaginary.isNaN
  | .tuple items => areComparable items
  | _ => false

def areComparable : List Value → Bool
  | [] => true
  | item :: rest => isComparable item && areComparable rest

end

end Value

/-- Defined numbers agree when they are the same. -/
theorem Extended.agrees_iff {first second : Extended} (defined : first ≠ .undefined) :
    first.agrees second = true ↔ first = second := by
  cases first <;> cases second <;> simp_all [agrees]

namespace PlainNumber

/-- Both parts of the number are defined. -/
def IsDefined (number : PlainNumber) : Prop :=
  number.places.1 ≠ .undefined ∧ number.places.2 ≠ .undefined

theorem equals_iff {first second : PlainNumber} (defined : first.IsDefined) :
    first.equals second = true ↔ first.places = second.places := by
  rw [equals, Bool.and_eq_true, Extended.agrees_iff defined.1, Extended.agrees_iff defined.2,
    Prod.ext_iff]

end PlainNumber

theorem Double.toExtended_ne_undefined {value : Float} (isNumber : value.isNaN = false) :
    Double.toExtended value ≠ .undefined := by
  unfold Double.toExtended
  rw [isNumber]
  cases value.isFinite <;> nofun

namespace Value

/-- A number in a tuple keeps its places on the extended line. -/
theorem content?_eq (value : Value) :
    value.content? = (Operator.bare? value).map fun number =>
      Key.number number.places.1 number.places.2 := by
  cases value with
  | boolean truth => cases truth <;> rfl
  | scalar value =>
      cases value with
      | boolean truth => cases truth <;> rfl
      | _ => rfl
  | _ => rfl

theorem key?_ne_number (value : Value) (real imaginary : Extended) :
    value.key? ≠ some (.number real imaginary) := by
  intro found
  cases value with
  | tuple items =>
      rcases tupleKey?_cases found with impossible | ⟨_, _, impossible⟩ <;> cases impossible
  | singleton inner =>
      simp only [key?, Option.map_eq_some_iff] at found
      obtain ⟨_, _, impossible⟩ := found
      cases impossible
  | _ => cases found

/-- The key of a value as an item of a tuple. -/
def itemKey? (value : Value) : Option Key := value.content? <|> value.key?

theorem itemKey?_number {value : Value} {number : PlainNumber}
    (isNumber : Operator.bare? value = some number) :
    value.itemKey? = some (.number number.places.1 number.places.2) := by
  rw [itemKey?, content?_eq, isNumber]
  rfl

theorem itemKey?_other {value : Value} (noNumber : Operator.bare? value = none) :
    value.itemKey? = value.key? := by
  rw [itemKey?, content?_eq, noNumber]
  rfl

theorem tupleKey?_cons {item : Value} {rest : List Value} {key : Key} :
    tupleKey? (item :: rest) = some key ↔
      ∃ head tail, item.itemKey? = some head ∧ tupleKey? rest = some tail ∧
        key = .tuple head tail := by
  rw [tupleKey?, itemKey?]
  cases item.content? <|> item.key? <;> cases tupleKey? rest <;> simp [eq_comm]

mutual

/-- Internable values have keys. -/
theorem exists_key : ∀ value : Value, value.isInternable = true → ∃ key, value.key? = some key
  | .missing, _ | .boolean _, _ | .integer _, _ | .ratio _, _ | .double _, _ | .complex _, _
  | .text _, _ | .scalar _, _ => ⟨_, rfl⟩
  | .tuple items, internable => exists_tupleKey items internable

theorem exists_tupleKey : ∀ items : List Value, areInternable items = true →
    ∃ key, tupleKey? items = some key
  | [], _ => ⟨_, rfl⟩
  | item :: rest, internable => by
      obtain ⟨own, others⟩ := Bool.and_eq_true_iff.mp internable
      obtain ⟨key, hasKey⟩ := exists_key item own
      obtain ⟨tail, tailKey⟩ := exists_tupleKey rest others
      cases isNumber : Operator.bare? item with
      | none =>
          exact ⟨_, tupleKey?_cons.mpr
            ⟨key, tail, (itemKey?_other isNumber).trans hasKey, tailKey, rfl⟩⟩
      | some number =>
          exact ⟨_, tupleKey?_cons.mpr ⟨_, tail, itemKey?_number isNumber, tailKey, rfl⟩⟩

end

/-- Only tuples have the keys of tuples. -/
theorem exists_items {value : Value} {key : Key}
    (kind : key = .emptyTuple ∨ ∃ head tail, key = .tuple head tail)
    (hasKey : value.key? = some key) : ∃ items, value = .tuple items := by
  cases value with
  | tuple items => exact ⟨items, rfl⟩
  | singleton inner =>
      simp only [key?, Option.map_eq_some_iff] at hasKey
      obtain ⟨_, _, rfl⟩ := hasKey
      rcases kind with impossible | ⟨_, _, impossible⟩ <;> cases impossible
  | _ => rcases kind with rfl | ⟨_, _, rfl⟩ <;> cases hasKey

mutual

/-- A value without numbers in tuples shares its key with no other value. -/
theorem eq_of_key? : ∀ (value other : Value) (key : Key), value.isInternable = true →
    value.isNumberless = true → value.key? = some key → other.key? = some key → other = value
  | .missing, other, _, _, _, rfl, otherKey => eq_missing_of_key otherKey
  | .boolean _, other, _, _, _, own, otherKey | .integer _, other, _, _, _, own, otherKey
  | .ratio _, other, _, _, _, own, otherKey | .double _, other, _, _, _, own, otherKey
  | .complex _, other, _, _, _, own, otherKey | .text _, other, _, _, _, own, otherKey
  | .scalar _, other, _, _, _, own, otherKey =>
      eq_of_identical rfl (identical_iff.mpr ⟨_, otherKey, own⟩)
  | .tuple items, other, key, internable, numberless, own, otherKey => by
      obtain ⟨others, rfl⟩ := exists_items (tupleKey?_cases own) otherKey
      exact congrArg Value.tuple
        (eq_of_tupleKey? items others key internable numberless own otherKey)

theorem eq_of_tupleKey? : ∀ (items others : List Value) (key : Key),
    areInternable items = true → areNumberless items = true → tupleKey? items = some key →
    tupleKey? others = some key → others = items
  | [], [], _, _, _, _, _ => rfl
  | [], other :: others, _, _, _, rfl, otherKey => by
      obtain ⟨_, _, _, _, impossible⟩ := tupleKey?_cons.mp otherKey
      cases impossible
  | item :: rest, others, key, internable, numberless, own, otherKey => by
      obtain ⟨itemInternable, restInternable⟩ := Bool.and_eq_true_iff.mp internable
      simp only [areNumberless, Bool.and_eq_true, Option.isNone_iff_eq_none] at numberless
      obtain ⟨⟨noContent, itemNumberless⟩, restNumberless⟩ := numberless
      obtain ⟨head, tail, headKey, tailKey, rfl⟩ := tupleKey?_cons.mp own
      cases others with
      | nil => cases otherKey
      | cons other others =>
          obtain ⟨_, _, otherHead, otherTail, same⟩ := tupleKey?_cons.mp otherKey
          cases same
          have noNumber : Operator.bare? item = none := by
            rwa [content?_eq, Option.map_eq_none_iff] at noContent
          rw [itemKey?_other noNumber] at headKey
          cases isNumber : Operator.bare? other with
          | some number =>
              rw [itemKey?_number isNumber] at otherHead
              cases otherHead
              exact absurd headKey (key?_ne_number item _ _)
          | none =>
              rw [itemKey?_other isNumber] at otherHead
              rw [eq_of_key? item other head itemInternable itemNumberless headKey otherHead,
                eq_of_tupleKey? rest others tail restInternable restNumberless tailKey otherTail]

end

/-- A comparable number has defined parts. -/
theorem isDefined_of_comparable {value : Value} {number : PlainNumber}
    (comparable : value.isComparable = true) (isNumber : Operator.bare? value = some number) :
    number.IsDefined := by
  cases value with
  | boolean | integer | ratio =>
      cases isNumber
      exact ⟨nofun, nofun⟩
  | double value =>
      cases isNumber
      exact ⟨Double.toExtended_ne_undefined (by simpa [isComparable] using comparable), nofun⟩
  | complex value =>
      cases isNumber
      simp only [isComparable, Bool.and_eq_true, Bool.not_eq_true'] at comparable
      exact ⟨Double.toExtended_ne_undefined comparable.1,
        Double.toExtended_ne_undefined comparable.2⟩
  | scalar => cases comparable
  | _ => cases isNumber

/-- The values that are identical to a number are this number. -/
theorem bare?_of_identical {first second : Value} {number : PlainNumber}
    (isNumber : Operator.bare? first = some number) (same : second.identical first = true) :
    Operator.bare? second = some number := by
  have isLiteral : first.isLiteral = true := by
    cases first with
    | boolean | integer | ratio | double | complex | scalar => rfl
    | _ => cases isNumber
  rw [eq_of_identical isLiteral same, isNumber]

/-- A number and another value are not identical, and they share no key. -/
theorem not_identical_of_bare {first second : Value} {number : PlainNumber}
    (isNumber : Operator.bare? first = some number) (noNumber : Operator.bare? second = none) :
    ¬ second.identical first = true ∧
      ¬ ∃ key, second.itemKey? = some key ∧ first.itemKey? = some key := by
  constructor
  · intro same
    rw [bare?_of_identical isNumber same] at noNumber
    cases noNumber
  · rintro ⟨key, hasKey, numberKey⟩
    rw [itemKey?_number isNumber] at numberKey
    rw [itemKey?_other noNumber, ← numberKey] at hasKey
    exact key?_ne_number second _ _ hasKey

/-- Items that are not both tuples agree when they share a key. -/
theorem agrees_iff_of_single {first second : Value} (comparable : first.isComparable = true)
    (single : ∀ items others, first = .tuple items → second ≠ .tuple others) :
    first.agrees second = true ↔
      ∃ key, first.itemKey? = some key ∧ second.itemKey? = some key := by
  unfold agrees
  split
  · exact absurd rfl (single _ _ rfl)
  · cases comparable
  · cases comparable
  · split
    · rename_i left right isNumber otherNumber
      rw [itemKey?_number isNumber, itemKey?_number otherNumber,
        PlainNumber.equals_iff (isDefined_of_comparable comparable isNumber)]
      simp [Prod.ext_iff, eq_comm]
    · rename_i mixed
      cases isNumber : Operator.bare? first with
      | some left =>
          cases otherNumber : Operator.bare? second with
          | some right => exact absurd otherNumber (mixed left right isNumber)
          | none =>
              obtain ⟨different, apart⟩ := not_identical_of_bare isNumber otherNumber
              rw [identical_comm, exists_congr fun key => and_comm]
              exact iff_of_false different apart
      | none =>
          cases otherNumber : Operator.bare? second with
          | some right =>
              obtain ⟨different, apart⟩ := not_identical_of_bare otherNumber isNumber
              exact iff_of_false different apart
          | none =>
              rw [itemKey?_other isNumber, itemKey?_other otherNumber]
              exact identical_iff

mutual

theorem agrees_iff : ∀ first second : Value, first.isComparable = true →
    second.isComparable = true → (first.agrees second = true ↔
      ∃ key, first.itemKey? = some key ∧ second.itemKey? = some key)
  | .tuple items, second => by
      intro comparable otherComparable
      cases second with
      | tuple others => exact agreesAll_iff items others comparable otherComparable
      | _ => exact agrees_iff_of_single comparable nofun
  | .missing, _ | .boolean _, _ | .integer _, _ | .ratio _, _ | .double _, _ | .complex _, _
  | .text _, _ | .scalar _, _ | .array _, _ | .list _, _ | .dictionary _ _, _ | .hostClass _, _
  | .dtype _, _ | .scalarType _, _ | .function _, _ | .primitive _, _ | .singleton _, _ =>
      fun comparable _ => agrees_iff_of_single comparable nofun

/-- Tuples agree when they share a key. -/
theorem agreesAll_iff : ∀ items others : List Value, areComparable items = true →
    areComparable others = true → (agreesAll items others = true ↔
      ∃ key, tupleKey? items = some key ∧ tupleKey? others = some key)
  | [], [] => fun _ _ => by simp [agreesAll, tupleKey?]
  | [], other :: others => fun _ _ => by
      refine iff_of_false nofun ?_
      rintro ⟨key, emptyKey, hasKey⟩
      obtain ⟨_, _, _, _, rfl⟩ := tupleKey?_cons.mp hasKey
      cases emptyKey
  | item :: rest, [] => fun _ _ => by
      refine iff_of_false nofun ?_
      rintro ⟨key, hasKey, emptyKey⟩
      obtain ⟨_, _, _, _, rfl⟩ := tupleKey?_cons.mp hasKey
      cases emptyKey
  | item :: rest, other :: others => by
      intro comparable otherComparable
      obtain ⟨own, later⟩ := Bool.and_eq_true_iff.mp comparable
      obtain ⟨otherOwn, otherLater⟩ := Bool.and_eq_true_iff.mp otherComparable
      rw [agreesAll, Bool.and_eq_true, agrees_iff item other own otherOwn,
        agreesAll_iff rest others later otherLater]
      constructor
      · rintro ⟨⟨head, headKey, otherHead⟩, tail, tailKey, otherTail⟩
        exact ⟨.tuple head tail, tupleKey?_cons.mpr ⟨head, tail, headKey, tailKey, rfl⟩,
          tupleKey?_cons.mpr ⟨head, tail, otherHead, otherTail, rfl⟩⟩
      · rintro ⟨key, key?, otherKey⟩
        obtain ⟨head, tail, headKey, tailKey, rfl⟩ := tupleKey?_cons.mp key?
        obtain ⟨_, _, otherHead, otherTail, same⟩ := tupleKey?_cons.mp otherKey
        cases same
        exact ⟨⟨head, headKey, otherHead⟩, tail, tailKey, otherTail⟩

end

end Value

namespace Descriptor

/-- The tables after singletons were made of some values in turn, from empty tables. -/
def tablesMaking (values : List Value) : Tables :=
  values.foldl (fun tables value => (Lookup.singleton? value).after tables) .empty

namespace Tables

/-- A table keeps the first value with each key. -/
def Keeps (earlier later : Tables) : Prop :=
  ∀ key first, find? key earlier.singletons = some first → find? key later.singletons = some first

theorem Keeps.trans {first second third : Tables} (left : first.Keeps second)
    (right : second.Keeps third) : first.Keeps third :=
  fun key value found => right key value (left key value found)

theorem find?_append_of_some {Result : Type} {key : Key} {entries : List (Key × Result)}
    {result : Result} (found : find? key entries = some result) (more : List (Key × Result)) :
    find? key (entries ++ more) = some result := by
  obtain ⟨entry, first, same⟩ := Option.map_eq_some_iff.mp found
  rw [find?, List.find?_append, first, Option.some_or, Option.map_some, same]

/-- A singleton that is made leaves the first value with its key in the tables. -/
theorem find?_after_singleton? {value : Value} {key : Key} (present : value ≠ .missing)
    (hasKey : value.key? = some key) (tables : Tables) :
    find? key ((Lookup.singleton? value).after tables).singletons =
      some ((find? key tables.singletons).getD value) := by
  rw [(singleton?_keyed present hasKey tables).2]
  cases found : find? key tables.singletons with
  | some first => exact found
  | none =>
      unfold find? at found ⊢
      rw [Option.map_eq_none_iff] at found
      simp [List.find?_append, found]

theorem keeps_singleton? (tables : Tables) (value : Value) :
    tables.Keeps ((Lookup.singleton? value).after tables) := by
  intro key first found
  by_cases present : value = .missing
  · subst present
    exact found
  · cases hasKey : value.key? with
    | none =>
        rw [singleton?_keyless hasKey]
        exact found
    | some own =>
        rw [(singleton?_keyed present hasKey tables).2]
        cases find? own tables.singletons with
        | some _ => exact found
        | none => exact find?_append_of_some found _

end Tables

theorem tablesMaking_append (earlier later : List Value) :
    tablesMaking (earlier ++ later) = later.foldl
      (fun tables value => (Lookup.singleton? value).after tables) (tablesMaking earlier) :=
  List.foldl_append

/-- Singletons that are made later leave the earlier ones in the tables. -/
theorem keeps_tablesMaking (earlier later : List Value) :
    (tablesMaking earlier).Keeps (tablesMaking (earlier ++ later)) := by
  rw [tablesMaking_append]
  generalize tablesMaking earlier = tables
  induction later generalizing tables with
  | nil => exact fun _ _ found => found
  | cons value rest inductionHypothesis =>
      exact (tables.keeps_singleton? value).trans (inductionHypothesis _)

theorem valid_tablesMaking (values : List Value) : (tablesMaking values).Valid ∅ := by
  have grown : ∀ tables : Tables, tables.Valid ∅ →
      (values.foldl (fun tables value => (Lookup.singleton? value).after tables) tables).Valid ∅ := by
    induction values with
    | nil => exact fun _ valid => valid
    | cons value rest inductionHypothesis =>
        intro tables valid
        obtain ⟨_, _, _, later⟩ := singleton?_agrees valid value
        exact inductionHypothesis _ later
  exact grown .empty (Tables.valid_empty ∅)

/-- The singleton of a value holds the values that are identical to it, at any time. -/
theorem exists_singleton_made (earlier : List Value) {value : Value} {key : Key}
    (hasKey : value.key? = some key) :
    ∃ ntype, (Lookup.singleton? value).outcome (tablesMaking earlier) = .ok (some ntype) ∧
      ntype.same ntype = true ∧
      ∀ other, ntype.contains other = true ↔ other.identical value = true := by
  obtain ⟨result, made, agrees, _⟩ := singleton?_agrees (valid_tablesMaking earlier) value
  rw [Ntype.eql?_of_key hasKey] at agrees
  cases result with
  | none => cases agrees
  | some ntype =>
      refine ⟨ntype, made, ?_, fun other => ?_⟩
      · rw [agrees.same_eq, Ntype.same_comm, agrees.same_eq, Ntype.single_same hasKey]
      · rw [agrees.contains_eq, Ntype.contains_single hasKey]

/-- Identical values get one singleton, the one that was made first. -/
theorem singleton?_eq_of_identical (earlier between : List Value) {first second : Value}
    (same : first.identical second = true) :
    (Lookup.singleton? second).outcome (tablesMaking (earlier ++ first :: between)) =
      (Lookup.singleton? first).outcome (tablesMaking earlier) := by
  obtain ⟨key, firstKey, secondKey⟩ := Value.identical_iff.mp same
  by_cases absent : first = .missing
  · subst absent
    cases firstKey
    rw [Value.eq_missing_of_key secondKey]
    rfl
  · have present : second ≠ .missing := by
      rintro rfl
      cases secondKey
      exact absent (Value.eq_missing_of_key firstKey)
    have stored := Tables.find?_after_singleton? absent firstKey (tablesMaking earlier)
    have made : (Lookup.singleton? first).after (tablesMaking earlier) =
        tablesMaking (earlier ++ [first]) := (tablesMaking_append earlier [first]).symm
    have kept := keeps_tablesMaking (earlier ++ [first]) between key _ (made ▸ stored)
    rw [List.append_assoc, List.singleton_append] at kept
    rw [(singleton?_keyed absent firstKey _).1, (singleton?_keyed present secondKey _).1, kept,
      Option.getD_some]

/-- The singletons of two values, the second made at any later time, are one type exactly under a
condition; then they are the same, and each holds the other value. -/
def ShareSingleton (earlier between : List Value) (first second : Value) (condition : Prop) :
    Prop :=
  ∃ one two, (Lookup.singleton? first).outcome (tablesMaking earlier) = .ok (some one) ∧
    (Lookup.singleton? second).outcome (tablesMaking (earlier ++ first :: between)) =
      .ok (some two) ∧
    (one = two ↔ condition) ∧ (one.same two = true ↔ condition) ∧
    (one.contains second = true ↔ condition) ∧ (two.contains first = true ↔ condition)

/-- Values with keys share a singleton when they are identical. -/
theorem shareSingleton_identical (earlier between : List Value) {first second : Value}
    {key other : Key} (firstKey : first.key? = some key) (secondKey : second.key? = some other) :
    ShareSingleton earlier between first second (first.identical second = true) := by
  obtain ⟨one, firstMade, oneSame, oneHolds⟩ := exists_singleton_made earlier firstKey
  obtain ⟨two, secondMade, _, twoHolds⟩ :=
    exists_singleton_made (earlier ++ first :: between) secondKey
  have own : one.contains first = true :=
    (oneHolds first).mpr (Value.identical_iff.mpr ⟨key, firstKey, firstKey⟩)
  have identical : one.Agrees two → first.identical second = true := fun agrees =>
    (twoHolds first).mp (agrees.contains_eq first ▸ own)
  have shared (same : first.identical second = true) : one = two := by
    rw [singleton?_eq_of_identical earlier between same, firstMade] at secondMade
    cases secondMade
    rfl
  refine ⟨one, two, firstMade, secondMade, ⟨fun equal => identical (.inl equal), shared⟩,
    ⟨fun same => identical (.inr same), fun same => shared same ▸ oneSame⟩, ?_, twoHolds first⟩
  rw [oneHolds, Value.identical_comm]

/-- A singleton that is made of a value without numbers in tuples is shared with this value alone.
Tuples of host numbers that are equal to themselves share a singleton when they are equal, even if
their items are of different types. -/
theorem shareSingleton_iff (earlier between : List Value) {first second : Value}
    (firstInternable : first.isInternable = true) (secondInternable : second.isInternable = true) :
    ((first.isNumberless = true ∨ second.isNumberless = true) →
      ShareSingleton earlier between first second (first = second)) ∧
    (∀ items others, first = .tuple items → second = .tuple others →
      first.isComparable = true → second.isComparable = true →
        ShareSingleton earlier between first second (first.agrees second = true)) := by
  obtain ⟨key, firstKey⟩ := Value.exists_key first firstInternable
  obtain ⟨other, secondKey⟩ := Value.exists_key second secondInternable
  have shared := shareSingleton_identical earlier between firstKey secondKey
  constructor
  · intro numberless
    have exact : first.identical second = true ↔ first = second := by
      rw [Value.identical_iff]
      constructor
      · rintro ⟨common, firstCommon, secondCommon⟩
        rcases numberless with own | own
        · exact (Value.eq_of_key? first second common firstInternable own firstCommon
            secondCommon).symm
        · exact Value.eq_of_key? second first common secondInternable own secondCommon firstCommon
      · rintro rfl
        exact ⟨key, firstKey, firstKey⟩
    rwa [propext exact] at shared
  · rintro items others rfl rfl comparable otherComparable
    have equal : (Value.tuple items).identical (.tuple others) = true ↔
        (Value.tuple items).agrees (.tuple others) = true :=
      Value.identical_iff.trans (Value.agreesAll_iff items others comparable otherComparable).symm
    rwa [propext equal] at shared

/-- The pair of the integers one and two. -/
def wholePair : Value := .tuple [.integer 1, .integer 2]

/-- The pair of the double one and the integer two. -/
def mixedPair : Value := .tuple [.double 1.0, .integer 2]

/-- Both pairs share a singleton, though they are different; both zeros of the doubles do not. -/
theorem shareSingleton_iff_pairs :
    wholePair ≠ mixedPair ∧ ShareSingleton [] [] wholePair mixedPair True ∧
      ShareSingleton [] [] (.double 0.0) (.double (-0.0)) False := by
  have pairs := (shareSingleton_iff [] [] (rfl : wholePair.isInternable = true)
    (rfl : mixedPair.isInternable = true)).2 _ _ rfl rfl (by decide +kernel) (by decide +kernel)
  have zeros := (shareSingleton_iff [] [] (rfl : (Value.double 0.0).isInternable = true)
    (rfl : (Value.double (-0.0)).isInternable = true)).1 (.inl rfl)
  have equal : wholePair.agrees mixedPair = true := by decide +kernel
  have signs : (0.0 : Float) ≠ -0.0 := by decide +kernel
  refine ⟨fun same => ?_, (propext (iff_true_intro equal)) ▸ pairs, ?_⟩
  · simp [wholePair, mixedPair] at same
  · rwa [Value.double.injEq, eq_false signs] at zeros

end Descriptor

end Narrowing
