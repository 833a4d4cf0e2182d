import Narrowing.Proofs.LookupTransparency

/-
This file runs the parts of a description on different tables.
-/

namespace Narrowing

namespace Descriptor

variable {set : Set Value}

/-- The singletons of some values are united to types that agree. -/
theorem matches_memberUnion (source origin : Value) (values : List Value)
    {first second : Estimate} (agrees : first.Agrees second) :
    Matches set Estimate.Agrees (memberUnion source values first)
      (memberUnion origin values second) := by
  induction values generalizing first second with
  | nil => exact matches_pure agrees
  | cons value rest inductionHypothesis =>
      refine (matches_singleton? value).bind fun left right found => ?_
      cases left with
      | none =>
          cases right with
          | none => exact matches_malformed _ _ source origin
          | some ntype => cases found
      | some ntype =>
          cases right with
          | none => cases found
          | some other =>
              have united := agrees.1.union found
              exact inductionHypothesis ⟨united.1, by rw [agrees.2, united.2]⟩

/-- The element class of a storage class is looked up by its descriptor. -/
theorem lookupPrimitive_element {storage : Storage} (member : storage ∈ storageOrder) :
    lookupPrimitive storage.element = resolve (ofValue storage.element.descriptor) := by
  have known (primitive : Primitive)
      (analysed : body primitive.descriptor = .known (.primitive primitive)) :
      Lookup.ntype primitive.descriptor (pure ⟨.primitive primitive, true⟩) =
        resolve (ofValue primitive.descriptor) := by
    rw [resolve_ofValue, analysed, resolve]
  have word (primitive : Primitive) (interval : Interval)
      (analysed : body primitive.descriptor = .integers interval)
      (denoted : Ntype.ofInterval interval = ⟨.primitive primitive, true⟩) :
      Lookup.ntype primitive.descriptor (pure ⟨.primitive primitive, true⟩) =
        resolve (ofValue primitive.descriptor) := by
    rw [resolve_ofValue, analysed, resolve, denoted]
  have complexOf (primitive part : Primitive)
      (analysed : body primitive.descriptor = .complexOf (ofValue part.descriptor))
      (inner : body part.descriptor = .known (.primitive part)) :
      Lookup.ntype primitive.descriptor (do
        let part ← Lookup.ntype part.descriptor (pure ⟨.primitive part, true⟩)
        pure ⟨.primitive part.ntype.complexOfPart, part.precise⟩) =
        resolve (ofValue primitive.descriptor) := by
    rw [resolve_ofValue, analysed, resolve, resolve_ofValue, inner, resolve]
  cases storage with
  | object => exact absurd member (by decide)
  | complexSingle => exact complexOf .complexSingle .singleFloat rfl rfl
  | complexDouble => exact complexOf .complexDouble .doubleFloat rfl rfl
  | word kind => cases kind <;> exact word _ _ rfl rfl
  | _ => exact known _ rfl

/-- The element class of a storage class is settled by its descriptor. -/
theorem matches_lookupPrimitive (faithful : Faithful set)
    (stored : ∀ storage ∈ storageOrder, storage.element.descriptor ∈ set) {storage : Storage}
    (member : storage ∈ storageOrder) :
    Matches set Estimate.Agrees (lookupPrimitive storage.element)
      (lookupPrimitive storage.element) := by
  have known (ntype : Ntype) : Matches set Estimate.Agrees (resolve (.known ntype))
      (resolve (.known ntype)) := by
    rw [resolve]
    exact matches_pure (.refl _)
  have integers (interval : Interval) : Matches set Estimate.Agrees
      (resolve (.integers interval)) (resolve (.integers interval)) := by
    rw [resolve]
    exact matches_pure (.refl _)
  have complexOf (primitive : Primitive) (inside : primitive.descriptor ∈ set)
      (analysed : body primitive.descriptor = .known (.primitive primitive)) :
      Matches set Estimate.Agrees (resolve (.complexOf (ofValue primitive.descriptor)))
        (resolve (.complexOf (ofValue primitive.descriptor))) := by
    have settled := settles_ntype faithful inside (analysed ▸ known _)
    rw [resolve, resolve_ofValue]
    refine (settled.matches settled).bind fun left right agrees => matches_pure ?_
    exact ⟨.inl (congrArg Ntype.primitive agrees.1.complexOfPart_eq), agrees.2⟩
  have computed : Matches set Estimate.Agrees (resolve (body storage.element.descriptor))
      (resolve (body storage.element.descriptor)) := by
    cases storage with
    | object => exact absurd member (by decide)
    | complexSingle => exact complexOf .singleFloat (stored .single (by decide)) rfl
    | complexDouble => exact complexOf .doubleFloat (stored .double (by decide)) rfl
    | word kind => cases kind <;> exact integers _
    | _ => exact known _
  have settled := settles_ntype faithful (stored storage member) computed
  rw [lookupPrimitive_element member, resolve_ofValue]
  exact settled.matches settled

/-- Types that agree are stored in one class. -/
theorem matches_storageFor (faithful : Faithful set)
    (stored : ∀ storage ∈ storageOrder, storage.element.descriptor ∈ set) {first second : Ntype}
    (agrees : first.Agrees second) (order : List Storage)
    (known : ∀ storage ∈ order, storage ∈ storageOrder) :
    Matches set Eq (storageFor first order) (storageFor second order) := by
  induction order with
  | nil => exact matches_pure rfl
  | cons storage rest inductionHypothesis =>
      obtain ⟨member, later⟩ := List.forall_mem_cons.mp known
      refine (matches_lookupPrimitive faithful stored member).bind fun left right found => ?_
      rw [agrees.proves_eq found.1]
      split
      · exact matches_pure rfl
      · exact inductionHypothesis later

/-- Parts that match themselves give lists of types that agree. -/
theorem matches_resolveAll {parts : List Descriptor}
    (each : ∀ part ∈ parts, Matches set Estimate.Agrees (resolve part) (resolve part)) :
    Matches set (List.Forall₂ Estimate.Agrees) (resolveAll parts) (resolveAll parts) := by
  induction parts with
  | nil =>
      rw [resolveAll]
      exact matches_pure .nil
  | cons part rest inductionHypothesis =>
      obtain ⟨own, later⟩ := List.forall_mem_cons.mp each
      rw [resolveAll]
      refine own.bind fun left right agrees => ?_
      refine (inductionHypothesis later).bind fun lefts rights agree => matches_pure ?_
      exact .cons agrees agree

theorem ntypes_agree {left right : List Estimate} (agree : List.Forall₂ Estimate.Agrees left right) :
    List.Forall₂ Ntype.Agrees (left.map Estimate.ntype) (right.map Estimate.ntype) := by
  induction agree with
  | nil => exact .nil
  | cons agrees _ inductionHypothesis => exact .cons agrees.1 inductionHypothesis

/-- A test that agrees on estimates that agree holds for all of one list or of the other. -/
theorem all_eq {left right : List Estimate} (agree : List.Forall₂ Estimate.Agrees left right)
    {test : Estimate → Bool} (same : ∀ one two, one.Agrees two → test one = test two) :
    left.all test = right.all test := by
  induction agree with
  | nil => rfl
  | cons agrees _ inductionHypothesis =>
      rw [List.all_cons, List.all_cons, same _ _ agrees, inductionHypothesis]

/-- The states of two lists of values agree when they hold types that agree. -/
structure Sections.Agree (first second : Sections) : Prop where
  current : first.current = second.current
  required : List.Forall₂ Ntype.Agrees first.required second.required
  optional : List.Forall₂ Ntype.Agrees first.optional second.optional
  rest : List.Forall₂ Ntype.Agrees first.rest second.rest
  precise : first.precise = second.precise

namespace Sections.Agree

variable {first second : Sections}

theorem start : Agree .start .start := ⟨rfl, .nil, .nil, .nil, rfl⟩

theorem add (agree : Agree first second) {left right : Estimate} (agrees : left.Agrees right) :
    Agree (first.add left) (second.add right) := by
  unfold Sections.add
  rw [agree.current, agree.precise, agrees.2]
  cases second.current with
  | required => exact ⟨rfl, .cons agrees.1 agree.required, agree.optional, agree.rest, rfl⟩
  | optional => exact ⟨rfl, agree.required, .cons agrees.1 agree.optional, agree.rest, rfl⟩
  | rest => exact ⟨rfl, agree.required, agree.optional, .cons agrees.1 agree.rest, rfl⟩

end Sections.Agree

/-- Two results for several values agree when the types of their first values do. -/
def PrimariesAgree (first second : ValuesEstimate) : Prop :=
  (primaryEstimate first).Agrees (primaryEstimate second)

/-- The first value of a finished list has types that agree. -/
theorem primaries_agree {left right optionals others : List Ntype} {rest other : Option Ntype}
    (required : List.Forall₂ Ntype.Agrees left right)
    (optional : List.Forall₂ Ntype.Agrees optionals others)
    (repeated : (rest.getD .null).Agrees (other.getD .null)) (precise : Bool)
    (serial number : Option Nat) :
    PrimariesAgree ⟨⟨left, optionals, rest⟩, precise, serial⟩
      ⟨⟨right, others, other⟩, precise, number⟩ := by
  unfold PrimariesAgree primaryEstimate ValuesNtype.primary ValuesNtype.nth
  cases required with
  | cons agrees later => exact ⟨agrees, rfl⟩
  | nil =>
      cases optional with
      | nil => exact ⟨(repeated.union (.refl _)).1, rfl⟩
      | cons agrees later => exact ⟨(agrees.union (.refl _)).1, rfl⟩

theorem Sections.Agree.finish {first second : Sections} (agree : Agree first second)
    (source origin : Value) :
    Matches set PrimariesAgree (first.finish source) (second.finish origin) := by
  have heads {left right : List Ntype} (types : List.Forall₂ Ntype.Agrees left right) :
      (left.head?.getD .null).Agrees (right.head?.getD .null) ∧
        left.head?.isNone = right.head?.isNone ∧ left.isEmpty = right.isEmpty := by
    cases types with
    | nil => exact ⟨.refl _, rfl, rfl⟩
    | cons agrees later => exact ⟨agrees, rfl, rfl⟩
  obtain ⟨repeated, absent, _⟩ := heads agree.rest
  have required := List.rel_reverse agree.required
  have optional := List.rel_reverse agree.optional
  obtain ⟨_, _, blank⟩ := heads optional
  have primaries := primaries_agree required optional repeated second.precise
  unfold Sections.finish
  simp only [agree.current, agree.rest.length_eq, agree.precise, required.length_eq, absent, blank]
  split
  · exact matches_malformed _ _ source origin
  · split
    · exact matches_pure (primaries none none)
    · exact matches_fresh.bind fun serial number _ => matches_pure (primaries serial number)

theorem Sections.Agree.enter? {first second : Sections} (agree : Agree first second)
    (name : String) :
    (first.enter? name = none ∧ second.enter? name = none) ∨
      ∃ left right, first.enter? name = some left ∧ second.enter? name = some right ∧
        Agree left right := by
  unfold Sections.enter?
  rw [agree.current]
  cases Section.ofKeyword? name with
  | none => exact .inl ⟨rfl, rfl⟩
  | some target =>
      simp only
      split
      · exact .inr ⟨_, _, rfl, rfl, rfl, agree.required, agree.optional, agree.rest, agree.precise⟩
      · exact .inl ⟨rfl, rfl⟩

/-- Items that match themselves give sections whose first values agree. -/
theorem matches_resolveSections (source origin : Value) {items : List Descriptor}
    (each : ∀ item ∈ items, Matches set Estimate.Agrees (resolve item) (resolve item))
    {first second : Sections} (agree : first.Agree second) :
    Matches set PrimariesAgree (resolveSections source items first)
      (resolveSections origin items second) := by
  induction items generalizing first second with
  | nil =>
      rw [resolveSections, resolveSections]
      exact agree.finish source origin
  | cons item rest inductionHypothesis =>
      obtain ⟨own, later⟩ := List.forall_mem_cons.mp each
      have plain : Matches set PrimariesAgree
          (resolve item >>= fun estimate => resolveSections source rest (first.add estimate))
          (resolve item >>= fun estimate => resolveSections origin rest (second.add estimate)) :=
        own.bind fun left right agrees => inductionHypothesis later (agree.add agrees)
      simp only [resolveSections]
      split
      · rename_i name _
        split
        · rcases agree.enter? name with ⟨left, right⟩ | ⟨one, two, left, right, entered⟩
          · rw [left, right]
            exact matches_malformed _ _ source origin
          · rw [left, right]
            exact inductionHypothesis later entered
        · exact plain
      · exact plain

/-- A list of values is settled by the look-up of its sections, under any of its sources. -/
theorem settles_sections {source origin : Value} {key : Key}
    (hasKey : source.descriptorKey = .ok key) {items : List Descriptor}
    (analysed : body source = .sections origin items)
    (each : ∀ item ∈ items, Matches set Estimate.Agrees (resolve item) (resolve item)) :
    SettlesValues set (resolveSections source items .start) source := by
  intro tables valid
  obtain ⟨missed, _⟩ := Lookup.values_miss ((sections_key analysed).trans hasKey)
    (rfl : Tables.find? key { Tables.empty with misses := 1 }.values = none)
    (resolveSections origin items .start)
  obtain ⟨agrees, after, _⟩ := matches_resolveSections source origin each .start tables
    { Tables.empty with misses := 2 } valid ((Tables.valid_empty set).recount 0 2 0)
  refine ⟨?_, after⟩
  rw [ntype_of_keyed hasKey, analysed, resolve, Lookup.outcome_bind, missed]
  generalize (resolveSections source items .start).outcome tables = found at agrees ⊢
  generalize (resolveSections origin items .start).outcome _ = first at agrees ⊢
  cases found <;> cases first <;> exact agrees

/-- What holds for each part of a description: it matches itself, the items of a list of values
match themselves, and its values are settled. -/
structure Settled (set : Set Value) (part : Descriptor) : Prop where
  types : Matches set Estimate.Agrees (resolve part) (resolve part)
  items : ∀ origin items, part = .sections origin items →
    ∀ item ∈ items, Matches set Estimate.Agrees (resolve item) (resolve item)
  values : ∀ source, part = ofValue source → source.isStar = false →
    SettlesValues set (resolveValues part) source

namespace Settled

/-- A part that is neither looked up nor a list of values has to match itself alone. -/
theorem ofTypes {part : Descriptor} (types : Matches set Estimate.Agrees (resolve part) (resolve part))
    (plain : ∀ origin items, part ≠ .sections origin items)
    (owned : ∀ source inner, part ≠ .lookup source inner) : Settled set part :=
  ⟨types, fun origin items same => absurd same (plain origin items),
    fun source same => absurd same (owned source (body source))⟩

/-- A part that denotes one type is settled. -/
theorem constant {part : Descriptor} {estimate : Estimate} (denoted : resolve part = pure estimate)
    (plain : ∀ origin items, part ≠ .sections origin items)
    (owned : ∀ source inner, part ≠ .lookup source inner) : Settled set part := by
  refine .ofTypes ?_ plain owned
  rw [denoted]
  exact matches_pure (.refl _)

/-- A description is settled when its body is. -/
theorem lookup (faithful : Faithful set) {source : Value} (member : source ∈ set)
    (inner : Settled set (body source)) : Settled set (ofValue source) := by
  have settled := settles_ntype faithful member inner.types
  refine ⟨?_, fun origin items same => ?_, fun other same named => ?_⟩
  · rw [resolve_ofValue]
    exact settled.matches settled
  · cases same
  · cases same
    have single : ∀ values, resolveValues (ofValue source) = Lookup.values source values →
        values = (do
          let estimate ← Lookup.ntype source (resolve (body source))
          pure ⟨.single estimate.ntype, estimate.precise, none⟩) →
        SettlesValues set (resolveValues (ofValue source)) source := by
      rintro values analysed rfl
      rw [analysed]
      refine settles_values faithful member named fun key hasKey tables valid => ?_
      obtain ⟨agrees, after⟩ := settled tables valid
      simp only [Lookup.outcome_bind, Lookup.after_bind]
      generalize (Lookup.ntype source (resolve (body source))).outcome tables = found at agrees ⊢
      generalize ntype source = denoted at agrees ⊢
      cases found <;> cases denoted <;> exact ⟨agrees, after⟩
    unfold ofValue at single ⊢
    cases analysed : body source with
    | sections origin items =>
        rw [resolveValues]
        exact settles_values faithful member named fun key hasKey =>
          settles_sections hasKey analysed (inner.items origin items analysed)
    | _ =>
        rw [analysed] at single
        refine single _ ?_ rfl
        rw [resolveValues]
        intro _ _ same
        cases same

end Settled

/-- The first results of a list of values are the results of its sections. -/
theorem matches_sections (faithful : Faithful set) {source : Value} {items : List Descriptor}
    (member : source ∈ set) (named : source.isStar = false)
    (analysed : body source = .sections source items)
    (each : ∀ item ∈ items, Matches set Estimate.Agrees (resolve item) (resolve item)) :
    Matches set Estimate.Agrees (resolve (.sections source items))
      (resolve (.sections source items)) := by
  have settled := settles_values faithful member named fun key hasKey =>
    settles_sections hasKey analysed each
  have primary : Settles set (resolve (.sections source items)) source := by
    intro tables valid
    obtain ⟨agrees, after⟩ := settled tables valid
    rw [resolve]
    simp only [Lookup.outcome_bind, Lookup.after_bind]
    generalize (Lookup.values source _).outcome tables = found at agrees ⊢
    generalize ntype source = denoted at agrees ⊢
    cases found <;> cases denoted <;> exact ⟨agrees, after⟩
  exact primary.matches primary

mutual

/-- Every part whose look-ups lie in a faithful set is settled. -/
theorem settled (faithful : Faithful set) : ∀ part : Descriptor, part.Within set →
    Settled set part
  | .lookup source part, within => by
      have inner := settled faithful part within.2.2
      obtain ⟨member, rfl, _⟩ := within
      exact .lookup faithful member inner
  | .known _, _ | .unknown, _ | .integers _, _ | .realRange _ _, _ | .arrays _, _ =>
      .constant (by rw [resolve]) nofun nofun
  | .malformed cause source, _ => by
      refine .ofTypes ?_ nofun nofun
      rw [resolve]
      exact matches_malformed _ _ source source
  | .eql source value, _ => by
      refine .ofTypes ?_ nofun nofun
      rw [resolve]
      refine (matches_singleton? value).bind fun left right agrees => ?_
      cases left <;> cases right
      · exact matches_malformed _ _ source source
      · cases agrees
      · cases agrees
      · exact matches_pure ⟨agrees, rfl⟩
  | .member source values, _ => by
      refine .ofTypes ?_ nofun nofun
      rw [resolve]
      exact matches_memberUnion source source values (.refl _)
  | .complexOf part, within => by
      refine .ofTypes ?_ nofun nofun
      rw [resolve]
      refine (settled faithful part within).types.bind fun left right agrees => matches_pure ?_
      exact ⟨.inl (congrArg Ntype.primitive agrees.1.complexOfPart_eq), agrees.2⟩
  | .arrayOf element sized, within => by
      refine .ofTypes ?_ nofun nofun
      rw [resolve]
      refine (settled faithful element within.2).types.bind fun left right agrees => ?_
      refine (matches_storageFor faithful within.1 agrees.1 storageOrder fun _ own => own).bind
        fun storage other same => matches_pure ?_
      exact ⟨.inl (congrArg (Ntype.primitive ∘ Primitive.arrayOf) same), by rw [agrees.2]⟩
  | .cons parts, within => by
      refine .ofTypes ?_ nofun nofun
      rw [resolve]
      refine (matches_resolveAll (allSettled faithful parts within)).bind
        fun left right agree => matches_pure ⟨.refl _, ?_⟩
      exact all_eq agree fun one two agrees => by rw [isUniversal_eq agrees.1, agrees.2]
  | .function parameters constrained, within => by
      refine .ofTypes ?_ nofun nofun
      rw [resolve]
      exact (matches_resolveAll (allSettled faithful parameters within)).bind
        fun left right agree => matches_pure (.refl _)
  | .functionTo parameters result, within => by
      refine .ofTypes ?_ nofun nofun
      obtain ⟨parametersWithin, ⟨source, analysed, named⟩, resultWithin⟩ := within
      have values := (settled faithful result resultWithin).values source analysed named
      rw [resolve]
      exact (matches_resolveAll (allSettled faithful parameters parametersWithin)).bind
        fun left right _ => values.matches.bind fun one two _ => matches_pure (.refl _)
  | .sections source items, within => by
      obtain ⟨member, named, analysed, itemsWithin⟩ := within
      have each := allSettled faithful items itemsWithin
      refine ⟨matches_sections faithful member named analysed each, ?_, nofun⟩
      rintro origin parts same
      cases same
      exact each
  | .both parts, within => by
      refine .ofTypes ?_ nofun nofun
      rw [resolve]
      refine (matches_resolveAll (allSettled faithful parts within)).bind
        fun left right agree => matches_pure ?_
      obtain ⟨ntypes, precise⟩ := Ntype.intersectAll_agrees (ntypes_agree agree)
      exact ⟨ntypes, by rw [precise, all_eq agree fun one two agrees => agrees.2]⟩
  | .either parts, within => by
      refine .ofTypes ?_ nofun nofun
      rw [resolve]
      refine (matches_resolveAll (allSettled faithful parts within)).bind
        fun left right agree => matches_pure ?_
      obtain ⟨ntypes, precise⟩ := Ntype.unionAll_agrees (ntypes_agree agree)
      exact ⟨ntypes, by rw [precise, all_eq agree fun one two agrees => agrees.2]⟩
  | .complement part, within => by
      refine .ofTypes ?_ nofun nofun
      rw [resolve]
      exact (settled faithful part within).types.bind
        fun left right agrees => matches_pure (complementOf_agrees agrees)

theorem allSettled (faithful : Faithful set) : ∀ parts : List Descriptor, AllWithin set parts →
    ∀ part ∈ parts, Matches set Estimate.Agrees (resolve part) (resolve part)
  | [], _ => nofun
  | part :: rest, within =>
      List.forall_mem_cons.mpr
        ⟨(settled faithful part within.1).types, allSettled faithful rest within.2⟩

end

end Descriptor

end Narrowing
