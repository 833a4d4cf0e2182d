import Narrowing.Proofs.SetMembers

/-
This file compares the storage class of described arrays with the first one that keeps all elements
of the described set.
-/

namespace Narrowing

namespace Ntype

/-- A class holds a set when it holds every member. -/
def Holds (primitive : Primitive) (set : Value → Prop) : Prop :=
  ∀ value, set value → (Ntype.primitive primitive).contains value = true

end Ntype

namespace Estimate

/-- The type of an estimate lies in every class that holds a set. -/
structure Least (estimate : Estimate) (set : Value → Prop) : Prop where
  interned : estimate.ntype.Interned
  proves : ∀ primitive, Ntype.Holds primitive set →
    estimate.ntype.proves (.primitive primitive) = true

end Estimate

namespace SetDescriptor

open Descriptor

variable {interpretation : Interpretation}

mutual

/-- A description joins classes, values and ranges of integers. -/
def IsJoin : SetDescriptor → Prop
  | .named _ | .eql _ | .member _ | .integers _ _ | .signedByte _ | .unsignedByte _ | .modulo _ =>
      True
  | .either parts => AreJoins parts
  | _ => False

def AreJoins : List SetDescriptor → Prop
  | [] => True
  | part :: rest => IsJoin part ∧ AreJoins rest

end

theorem least_named (primitive : Primitive) :
    Estimate.Least ⟨.primitive primitive, true⟩ primitive.Describes where
  interned := trivial
  proves other holds := by
    refine Ntype.proves_primitive_iff.mpr (AtomSet.within_iff.mpr fun atom present => ?_)
    obtain ⟨value, rfl⟩ := atom.exists_value
    exact holds value (Primitive.contains_iff_describes.mp present)

/-- The type of one value lies in the classes that hold it. -/
theorem proves_single {value : Value} {key : Key} (hasKey : value.key? = some key)
    {primitive : Primitive} (inside : (Ntype.primitive primitive).contains value = true) :
    (Ntype.single value).proves (.primitive primitive) = true := by
  rcases Ntype.single_cases hasKey with ⟨rfl, single⟩ | ⟨_, single⟩
  · rw [single]
    refine Ntype.proves_primitive_iff.mpr (AtomSet.within_iff.mpr fun atom present => ?_)
    rw [← (AtomSet.contains_singleton .null atom).mp present]
    exact inside
  · rw [single]
    exact inside

theorem least_eql {value : Value} (singular : value.IsSingular) :
    Estimate.Least ⟨.single value, true⟩ (· = value) := by
  obtain ⟨_, key, hasKey⟩ := singular
  exact ⟨Ntype.interned_single hasKey, fun primitive holds => proves_single hasKey (holds value rfl)⟩

theorem least_member {values : List Value} (singular : ∀ value ∈ values, value.IsSingular) :
    Estimate.Least (Ntype.unionAll (values.map .single)) (· ∈ values) := by
  have interned : ∀ ntype ∈ values.map Ntype.single, ntype.Interned := by
    rw [List.forall_mem_map]
    intro value member
    obtain ⟨_, key, hasKey⟩ := singular value member
    exact Ntype.interned_single hasKey
  refine ⟨Ntype.interned_unionAll interned, fun primitive holds => ?_⟩
  have bound : (Ntype.primitive primitive).Interned := trivial
  rw [Ntype.unionAll_proves_iff bound interned, List.forall_mem_map]
  intro value member
  obtain ⟨_, key, hasKey⟩ := singular value member
  exact proves_single hasKey (holds value member)

/-- The type of an interval lies in the classes that hold its integers. -/
theorem least_interval (interval : Interval) :
    (Ntype.ofInterval interval).Least fun value =>
      ∃ whole, value = .integer whole ∧ interval.contains whole = true := by
  unfold Ntype.ofInterval
  split
  · exact ⟨trivial, fun primitive _ => Ntype.empty_proves (.primitive primitive)⟩
  · rename_i filled
    split
    · rename_i only found
      rw [Ntype.onlyInteger?_iff.mp found]
      refine ⟨rfl, fun primitive holds => holds (.integer only) ⟨only, rfl, ?_⟩⟩
      simp [Interval.contains]
    · have open_ : interval.overlaps interval = true := by
        obtain ⟨low, high⟩ := interval
        cases low <;> cases high <;> simp_all [Interval.overlaps, Ntype.isVoid]
      have within {primitive : Primitive}
          (holds : Ntype.Holds primitive fun value =>
            ∃ whole, value = .integer whole ∧ interval.contains whole = true) :
          (AtomSet.ofInterval interval).within primitive.atoms = true := by
        refine AtomSet.within_iff.mpr fun atom around => ?_
        obtain ⟨whole, inside, rfl⟩ := AtomSet.exists_integer open_ around
        exact holds (.integer whole) ⟨whole, rfl, inside⟩
      unfold Ntype.ofWideInterval
      split
      · rename_i narrowed found
        refine ⟨trivial, fun primitive holds => Ntype.proves_primitive_iff.mpr ?_⟩
        rw [Primitive.atoms, IntegerClass.interval_of_found found]
        exact within holds
      · exact ⟨trivial, fun primitive holds =>
          Ntype.proves_primitive_iff.mpr (Primitive.enclosing_least.mpr (within holds))⟩

theorem least_range {part : SetDescriptor} {interval : Interval}
    (ranged : part.range? = some interval) :
    (Ntype.ofInterval interval).Least (part.Denotes interpretation) := by
  have same : part.Denotes interpretation = fun value =>
      ∃ whole, value = .integer whole ∧ interval.contains whole = true :=
    funext fun value => propext (denotes_range ranged)
  rw [same]
  exact least_interval interval

/-- The types of some parts lie in the classes that hold their sets together. -/
theorem least_parts {parts : List SetDescriptor} {estimates : List Estimate}
    (each : List.Forall₂ (fun part estimate =>
      Estimate.Least estimate (Denotes interpretation part)) parts estimates) :
    (∀ estimate ∈ estimates, estimate.ntype.Interned) ∧
      ∀ primitive, Ntype.Holds primitive (DenoteSome interpretation parts) →
        ∀ estimate ∈ estimates, estimate.ntype.proves (.primitive primitive) = true := by
  induction each with
  | nil => exact ⟨nofun, fun _ _ => nofun⟩
  | cons own _ inductionHypothesis =>
      obtain ⟨interned, proves⟩ := inductionHypothesis
      refine ⟨List.forall_mem_cons.mpr ⟨own.interned, interned⟩, fun primitive holds => ?_⟩
      exact List.forall_mem_cons.mpr ⟨own.proves primitive fun value member => holds value (.inl member),
        proves primitive fun value member => holds value (.inr member)⟩

mutual

/-- The type of a join lies in every class that holds the set. -/
theorem least_estimate (interpretation : Interpretation) : ∀ part : SetDescriptor,
    part.WellKeyed → part.IsJoin → part.estimate.Least (part.Denotes interpretation)
  | .named primitive, _, _ => least_named primitive
  | .eql _, singular, _ => least_eql singular
  | .member _, singular, _ => least_member singular
  | .integers _ _, _, _ | .signedByte _, _, _ | .unsignedByte _, _, _ | .modulo _, _, _ =>
      least_range rfl
  | .either parts, keyed, joins => by
      obtain ⟨interned, proves⟩ := least_parts (least_estimates interpretation parts keyed joins)
      have all : ∀ ntype ∈ (estimates parts).map Estimate.ntype, ntype.Interned :=
        List.forall_mem_map.mpr interned
      refine ⟨Ntype.interned_unionAll all, fun primitive holds => ?_⟩
      have bound : (Ntype.primitive primitive).Interned := trivial
      exact (Ntype.unionAll_proves_iff bound all).mpr
        (List.forall_mem_map.mpr (proves primitive holds))

theorem least_estimates (interpretation : Interpretation) : ∀ parts : List SetDescriptor,
    AllWellKeyed parts → AreJoins parts → List.Forall₂ (fun part estimate =>
      Estimate.Least estimate (Denotes interpretation part)) parts (estimates parts)
  | [], _, _ => .nil
  | part :: rest, ⟨own, later⟩, ⟨join, joins⟩ =>
      .cons (least_estimate interpretation part own join)
        (least_estimates interpretation rest later joins)

end

end SetDescriptor

namespace Descriptor

open Classical in
/-- The first storage class whose class of elements holds a set. -/
noncomputable def storageHolding (set : Value → Prop) : Storage :=
  (storageOrder.find? fun storage => decide (Ntype.Holds storage.element set)).getD .object

/-- An array description denotes the class of the storage class of its elements. -/
theorem ntype_array {value : Value} {estimate : Estimate} (described : Describable value)
    (noStar : value.isStar = false) (denoted : ntype value = .ok estimate) :
    ntype (.tuple [.text "array", value]) =
      .ok ⟨.primitive (.arrayOf (storageOf estimate.ntype)), estimate.precise⟩ := by
  have analysed : body (.tuple [.text "array", value]) = .arrayOf (ofValue value) false := by
    change arrayOfPart (some (ofValue value)) false = _
    simp [arrayOfPart, ofValue, source?, noStar]
  rw [ntype_arrayOf (keyed_compound (List.forall_mem_singleton.mpr described.2)) analysed
    described.1 denoted, Bool.not_false, Bool.and_true]

/-- A search ends with an item that passes its test, if the item that stands for none does. -/
theorem find?_getD_passes {Item : Type} {test : Item → Bool} (items : List Item) {none : Item}
    (passes : test none = true) : test ((items.find? test).getD none) = true := by
  cases found : items.find? test with
  | none => exact passes
  | some item => exact List.find?_some found

/-- Two searches, of which one has the stronger test, end alike exactly when the item of the weaker
one passes this test, if the item that stands for none passes it. -/
theorem find?_getD_eq_iff {Item : Type} {weak strong : Item → Bool} (items : List Item)
    {none : Item} (implies : ∀ item, strong item = true → weak item = true)
    (passes : strong none = true) :
    (items.find? strong).getD none = (items.find? weak).getD none ↔
      strong ((items.find? weak).getD none) = true := by
  induction items with
  | nil => exact iff_of_true rfl passes
  | cons item rest inductionHypothesis =>
      rw [List.find?_cons, List.find?_cons]
      cases held : strong item with
      | true => simp [implies item held, held]
      | false =>
          cases weak item with
          | false => exact inductionHypothesis
          | true =>
              simp only [Option.getD_some, held, Bool.false_eq_true, iff_false]
              rintro rfl
              exact Bool.false_ne_true (held.symm.trans (find?_getD_passes rest passes))

open Classical in
theorem holds_storageHolding (set : Value → Prop) :
    Ntype.Holds (storageHolding set).element set := by
  unfold storageHolding
  cases found : storageOrder.find? fun storage => decide (Ntype.Holds storage.element set) with
  | none => exact fun value _ => Ntype.contains_universal value
  | some storage =>
      have held := List.find?_some found
      exact of_decide_eq_true held

open Classical in
/-- A type that holds a set is kept where the set is when it lies in the class of elements there. -/
theorem storageOf_eq_iff {element : Ntype} {set : Value → Prop}
    (holds : ∀ value, set value → element.contains value = true) :
    storageOf element = storageHolding set ↔
      element.proves (.primitive (storageHolding set).element) = true := by
  have everything : element.proves (.primitive Storage.object.element) = true :=
    Ntype.proves_primitive_iff_cover.mpr
      (AtomSet.within_iff.mpr fun atom _ => Primitive.atoms_universal atom)
  exact find?_getD_eq_iff storageOrder (fun storage proven => decide_eq_true fun value member =>
    Ntype.contains_of_proves proven (holds value member)) everything

/-- All arrays of a storage class are of the array type of this class alone. -/
theorem storedIn_iff {storage kept : Storage} :
    (∀ value : Value, value.StoredIn storage →
      (Ntype.primitive (.arrayOf kept)).contains value = true) ↔ kept = storage := by
  simp only [Primitive.contains_iff_describes]
  constructor
  · intro all
    exact (all (.array ⟨false, .stored storage, false, [1], []⟩) ⟨rfl, rfl⟩).2.symm
  · rintro rfl value stored
    exact stored

end Descriptor

/-- Every atom holds a value that is no whole number but an integer. -/
theorem Atom.exists_wholeIsInteger (atom : Atom) :
    ∃ value : Value, value.atom = atom ∧ value.WholeIsInteger := by
  obtain ⟨value, rfl⟩ := atom.exists_value
  cases isWhole : value.whole? with
  | none => exact ⟨value, rfl, fun _ found => by rw [isWhole] at found; cases found⟩
  | some whole =>
      have own : (Value.integer whole).whole? = some whole := rfl
      refine ⟨.integer whole, ?_, ?_⟩
      · rw [Value.atom_of_whole own, Value.atom_of_whole isWhole]
      · rintro number ⟨⟩
        rfl

/-- An exact type lies in the classes that hold the set, if a value that it holds alone is a member. -/
theorem Estimate.Approximates.proves {estimate : Estimate} {set : Value → Prop}
    (approximates : estimate.Approximates set) (precise : estimate.precise = true)
    (single : ∀ member, estimate.ntype = .singleton member → set member) {primitive : Primitive}
    (holds : Ntype.Holds primitive set) :
    estimate.ntype.proves (.primitive primitive) = true := by
  cases own : estimate.ntype with
  | singleton member => exact holds member (single member own)
  | primitive class_ =>
      refine Ntype.proves_primitive_iff.mpr (AtomSet.within_iff.mpr fun atom present => ?_)
      obtain ⟨value, rfl, whole⟩ := atom.exists_wholeIsInteger
      exact holds value ((approximates value whole).2 precise (by rw [own]; exact present))

namespace SetDescriptor

open Descriptor

/-- A description is no wildcard, which is the alias of a class. -/
theorem isStar_toValue {part : SetDescriptor} (keyed : part.WellKeyed) :
    part.toValue.isStar = false := by
  cases part with
  | named primitive =>
      cases primitive with
      | integers narrowed => cases narrowed <;> rfl
      | _ => rfl
  | unknown name =>
      obtain ⟨_, noAlias, _⟩ := keyed
      refine Bool.eq_false_iff.mpr fun star => ?_
      rw [show name = "*" from eq_of_beq star] at noAlias
      revert noAlias
      decide +kernel
  | _ => rfl

/-- The arrays of the first storage class that keeps a described set are of the described array type
exactly when the type of the set lies in the class of elements of this storage class. This is so for
joins and for exact types, but not for all intersections and complements. -/
theorem ntypeOf_array_holds_iff (interpretation : Interpretation) {part : SetDescriptor}
    (keyed : part.WellKeyed)
    {calls : List Descriptor.Call} (plain : ∀ call ∈ calls, call.source.isPlain = true) :
    ∃ element array, (ntypeOf part.toValue).outcome (tablesAfter calls) = .ok element ∧
      (ntypeOf (.tuple [.text "array", part.toValue])).outcome (tablesAfter calls) = .ok array ∧
      ((∀ value : Value, value.StoredIn (storageHolding (part.Denotes interpretation)) →
          array.ntype.contains value = true) ↔
        element.ntype.proves
          (.primitive (storageHolding (part.Denotes interpretation)).element) = true) ∧
      (part.IsJoin → element.ntype.proves
        (.primitive (storageHolding (part.Denotes interpretation)).element) = true) ∧
      (part.WellFormed → element.precise = true →
        (∀ member, element.ntype = .singleton member → part.Denotes interpretation member) →
          element.ntype.proves
            (.primitive (storageHolding (part.Denotes interpretation)).element) = true) := by
  obtain ⟨own, denoted, agrees⟩ := yields_estimate part keyed
  have described := describable_toValue part keyed
  have valid := valid_tablesAfter faithful_plain plain
  obtain ⟨element, elementFound, elementAgrees, _⟩ := resolve_found valid described.1 denoted
  obtain ⟨array, arrayFound, arrayAgrees, _⟩ :=
    resolve_found valid (describable_compound (List.forall_mem_singleton.mpr described)).1
      (ntype_array described (isStar_toValue keyed) denoted)
  have same : element.Agrees part.estimate := elementAgrees.trans agrees
  have covers (value : Value) (member : part.Denotes interpretation value) :
      element.ntype.contains value = true := by
    rw [same.1.contains_eq]
    exact (covers_estimate interpretation part keyed).holds value member
  have kept := holds_storageHolding (part.Denotes interpretation)
  refine ⟨element, array, elementFound, arrayFound, ?_, fun join => ?_,
    fun wellFormed precise single => ?_⟩
  · rw [← storageOf_eq_iff covers, ← storedIn_iff]
    simp only [arrayAgrees.1.contains_eq, storageOf_agrees elementAgrees.1]
  · rw [same.1.proves_eq (.refl _)]
    exact (least_estimate interpretation part keyed join).proves _ kept
  · exact ((approximates_estimate interpretation part wellFormed).of_agrees same).proves precise
      single kept

/-- The integers of a range of three hundred that lie in a range up to two hundred. -/
def smallMeet : SetDescriptor :=
  .both [.integers (.inclusive 0) (.inclusive 300), .integers (.inclusive (-10)) (.inclusive 200)]

theorem storageHolding_smallMeet (interpretation : Interpretation) :
    storageHolding (smallMeet.Denotes interpretation) = .word .uint8 := by
  have noTruth : ¬ Ntype.Holds Storage.boolean.element (smallMeet.Denotes interpretation) := by
    intro holds
    have member : smallMeet.Denotes interpretation (.integer 5) := by
      simp [smallMeet, Denotes, DenoteAll, Bound.Admits]
    exact absurd (holds (.integer 5) member) (by decide +kernel)
  have bytes : Ntype.Holds (Storage.word .uint8).element (smallMeet.Denotes interpretation) := by
    rintro value ⟨⟨whole, rfl, lower, _⟩, ⟨_, same, _, upper⟩, _⟩
    cases same
    have isWhole : (Value.integer whole).whole? = some whole := rfl
    rw [Ntype.contains_primitive, Value.atom_of_whole isWhole]
    have ends : WordKind.uint8.integers.interval = ⟨some 0, some 255⟩ := by decide
    refine IntegerClass.contains_iff.mpr ?_
    rw [ends, Interval.contains_iff]
    simp only [Bound.Admits] at lower upper
    simp only [Option.some.injEq, forall_eq']
    omega
  have order : storageOrder = .boolean :: .word .uint8 :: storageOrder.drop 2 := by decide
  rw [storageHolding, order]
  simp [noTruth, bytes]

/-- Unsigned bytes keep the common integers of the two ranges, but the types of the ranges have more
of them in common. -/
theorem ntypeOf_array_holds_iff_meet :
    ∃ array, (ntypeOf (.tuple [.text "array", smallMeet.toValue])).outcome (tablesAfter []) =
        .ok array ∧
      storageHolding (smallMeet.Denotes ⟨fun _ _ => False, fun _ _ => False⟩) = .word .uint8 ∧
      ∃ value : Value, value.StoredIn (.word .uint8) ∧ array.ntype.contains value = false := by
  let meaning : Interpretation := ⟨fun _ _ => False, fun _ _ => False⟩
  have keyed : smallMeet.WellKeyed := ⟨trivial, trivial, trivial⟩
  have plain : ∀ call ∈ ([] : List Descriptor.Call), call.source.isPlain = true := nofun
  obtain ⟨element, array, elementFound, arrayFound, holds, _⟩ :=
    ntypeOf_array_holds_iff meaning keyed plain
  obtain ⟨own, denoted, agrees⟩ := yields_estimate smallMeet keyed
  have sameElement : element = own := Except.ok.inj (elementFound.symm.trans denoted)
  subst sameElement
  have unproven : element.ntype.proves (.primitive (.integers .unsigned8)) = false := by
    rw [agrees.1.proves_eq (.refl _)]
    decide +kernel
  have kept := storageHolding_smallMeet meaning
  refine ⟨array, arrayFound, kept, ?_⟩
  rw [kept] at holds
  have missing := mt holds.mp (Bool.eq_false_iff.mp unproven)
  simpa using missing

end SetDescriptor

end Narrowing
