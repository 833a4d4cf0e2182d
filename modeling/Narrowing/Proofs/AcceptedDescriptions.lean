import Narrowing.Proofs.LayoutRuns

/-
This file says when a description is accepted whatever was looked up before, and shows that it is if
nothing in it is malformed.
-/

namespace Narrowing

namespace Descriptor

/-- A value is a description if it has a type whatever was looked up before. -/
def IsDescription (value : Value) : Prop :=
  ∀ calls : List Call, ∃ estimate, (ntypeOf value).outcome (tablesAfter calls) = .ok estimate

section Calls

variable {tables : Tables}

/-- The tables are those after some calls, perhaps with other counters. -/
def Tables.Follows (tables : Tables) : Prop :=
  ∃ calls hits misses, tables = { tablesAfter calls with hits := hits, misses := misses }

theorem Tables.Follows.ntypeOf (follows : tables.Follows) (value : Value) :
    ((ntypeOf value).after tables).Follows := by
  obtain ⟨calls, hits, misses, rfl⟩ := follows
  obtain ⟨-, hits, misses, left⟩ := uncounted_ntypeOf value (tablesAfter calls) hits misses
  have next : tablesAfter (calls ++ [.ntype value]) =
      (Descriptor.ntypeOf value).after (tablesAfter calls) := by
    rw [tablesAfter, List.foldl_append]
    rfl
  exact ⟨calls ++ [.ntype value], hits, misses, by rw [left, next]⟩

theorem IsDescription.found {value : Value} (described : IsDescription value)
    (follows : tables.Follows) :
    ∃ estimate, (Descriptor.ntypeOf value).outcome tables = .ok estimate := by
  obtain ⟨calls, hits, misses, rfl⟩ := follows
  rw [(uncounted_ntypeOf value (tablesAfter calls) hits misses).1]
  exact described calls

end Calls

instance (scanned : Scanned) : Decidable scanned.IsComplete :=
  inferInstanceAs (Decidable (scanned.last = .rest → scanned.rest.length = 1))

/-- A complete scan meets all items. -/
def hasLayout (items : List Value) : Bool :=
  match scan .required items with
  | some scanned => decide scanned.IsComplete
  | none => false

theorem hasLayout_iff {items : List Value} :
    hasLayout items = true ↔ ∃ layout : Layout, layout.Lists items := by
  rw [exists_layout_iff, hasLayout]
  cases scan .required items <;> simp

/-- A value may be the content of a singleton. -/
def isHashable (value : Value) : Bool := value.key?.isSome

mutual

/-- Nothing in a part is malformed: all that is looked up has a key, all lists of values have a
layout, and all values of singletons can be stored. -/
def isSound : Descriptor → Bool
  | .lookup source part => source.descriptorKey.isOk && part.isSound
  | .malformed _ _ => false
  | .eql _ value => isHashable value
  | .member _ values => values.all isHashable
  | .complexOf part | .complement part => part.isSound
  | .arrayOf element _ => element.isSound
  | .cons parts | .function parts _ | .both parts | .either parts => areSound parts
  | .functionTo parameters result => areSound parameters && result.isSound
  | .sections source items =>
      source.descriptorKey.isOk && areSoundItems items && hasLayout (items.filterMap source?)
  | _ => true

def areSound : List Descriptor → Bool
  | [] => true
  | part :: rest => part.isSound && areSound rest

/-- Each item is a keyword, or nothing in it is malformed. -/
def areSoundItems : List Descriptor → Bool
  | [] => true
  | item :: rest => (item.source?.any isKeyword || item.isSound) && areSoundItems rest

end

/-- A look-up succeeds whatever was looked up before. -/
def Succeeds {Result : Type} (lookup : Lookup Result) : Prop :=
  ∀ tables, ∃ result, lookup.outcome tables = .ok result

section

variable {First Second : Type} {source : Value}

theorem succeeds_pure (result : First) : Succeeds (pure result) := fun _ => ⟨result, rfl⟩

theorem Succeeds.bind {first : Lookup First} {next : First → Lookup Second}
    (starts : Succeeds first) (continues : ∀ result, Succeeds (next result)) :
    Succeeds (first >>= next) := by
  intro tables
  obtain ⟨result, found⟩ := starts tables
  rw [Lookup.outcome_bind, found]
  exact continues result _

theorem succeeds_ntype {compute : Lookup Estimate} (keyed : Keyed source)
    (computed : Succeeds compute) : Succeeds (Lookup.ntype source compute) := by
  intro tables
  obtain ⟨key, hasKey⟩ := keyed
  cases found : Tables.find? key tables.ntypes with
  | some result => exact ⟨result, (Lookup.ntype_hit hasKey found compute).1⟩
  | none =>
      rw [(Lookup.ntype_miss hasKey found compute).1]
      exact computed _

theorem succeeds_values {compute : Lookup ValuesEstimate} (keyed : Keyed source)
    (computed : Succeeds compute) : Succeeds (Lookup.values source compute) := by
  intro tables
  obtain ⟨key, hasKey⟩ := keyed
  cases found : Tables.find? key tables.values with
  | some result => exact ⟨result, (Lookup.values_hit hasKey found compute).1⟩
  | none =>
      rw [(Lookup.values_miss hasKey found compute).1]
      exact computed _

/-- Successful look-ups of parts make successful ones of what they are parts of. -/
theorem composes_succeeds : Composes {source | Keyed source} @Succeeds where
  pure := succeeds_pure
  bind := Succeeds.bind
  ntype source keyed computed := by
    rw [resolve_ofValue]
    exact succeeds_ntype keyed computed

theorem keyed_storage : ∀ storage ∈ storageOrder, Keyed storage.element.descriptor := by
  intro storage _
  cases storage with
  | word kind => cases kind <;> exact ⟨_, rfl⟩
  | _ => exact ⟨_, rfl⟩

/-- The singleton of a value that can be stored is found. -/
theorem singleton?_found {value : Value} (hashable : isHashable value = true) (tables : Tables) :
    ∃ ntype, (Lookup.singleton? value).outcome tables = .ok (some ntype) := by
  obtain ⟨key, hasKey⟩ := Option.isSome_iff_exists.mp hashable
  by_cases absent : value = .missing
  · subst absent
    exact ⟨_, rfl⟩
  · exact ⟨_, (singleton?_keyed absent hasKey tables).1⟩

theorem succeeds_memberUnion (source : Value) {values : List Value}
    (hashable : ∀ value ∈ values, isHashable value = true) (united : Estimate) :
    Succeeds (memberUnion source values united) := by
  induction values generalizing united with
  | nil => exact succeeds_pure united
  | cons value rest inductionHypothesis =>
      obtain ⟨own, later⟩ := List.forall_mem_cons.mp hashable
      intro tables
      obtain ⟨ntype, found⟩ := singleton?_found own tables
      rw [memberUnion, Lookup.outcome_bind, found]
      exact inductionHypothesis later _ _

theorem sources_parts (values : List Value) : (parts values).filterMap source? = values := by
  induction values with
  | nil => rfl
  | cons value rest inductionHypothesis => exact congrArg (value :: ·) inductionHypothesis

/-- Sections with a layout succeed when all their descriptions do. -/
theorem succeeds_sections (source : Value) {items : List Value}
    (each : ∀ item ∈ items, isKeyword item = true ∨ Succeeds (ntypeOf item))
    (layout : hasLayout items = true) :
    Succeeds (resolveSections source (parts items) .start) := by
  intro tables
  have found (item : Value) (member : item ∈ items) : isKeyword item = true ∨
      ∀ tables, True → ∃ estimate, (ntypeOf item).outcome tables = .ok estimate :=
    (each item member).imp_right fun succeeds tables _ => succeeds tables
  obtain ⟨scanned, scans, complete⟩ := exists_layout_iff.mp (hasLayout_iff.mp layout)
  have decided : Decided source items (resolveSections source (parts items) .start) tables :=
    decided_sections (fun _ _ _ => trivial) found trivial
  rcases decided with ⟨_, result, _, _, accepted, _⟩ | ⟨incomplete, _⟩
  · exact ⟨result, accepted⟩
  · exact absurd complete (incomplete scanned scans)

end

/-- What succeeds for a part: the look-up of its type, what is computed for its values, and its
sections under any source. -/
structure Granted (part : Descriptor) : Prop where
  types : Succeeds (resolve part)
  values : ∀ source, part = ofValue source → Succeeds (computedValues source)
  sections : ∀ origin items, part = .sections origin items →
    ∀ source, Succeeds (resolveSections source items .start)

namespace Granted

/-- A part that is neither looked up nor a list of values. -/
theorem ofTypes {part : Descriptor} (types : Succeeds (resolve part))
    (plain : ∀ origin items, part ≠ .sections origin items)
    (owned : ∀ source inner, part ≠ .lookup source inner) : Granted part :=
  ⟨types, fun source same => absurd same (owned source (body source)),
    fun origin items same => absurd same (plain origin items)⟩

theorem lookup {source : Value} (keyed : Keyed source) (inner : Granted (body source)) :
    Granted (ofValue source) := by
  have types := composes_succeeds.ntype source keyed inner.types
  refine ⟨types, fun other same => ?_, nofun⟩
  cases same
  unfold computedValues
  split
  · exact succeeds_pure _
  · split
    · rename_i origin items analysed
      exact inner.sections origin items analysed source
    · rw [← resolve_ofValue]
      exact types.bind fun _ => succeeds_pure _

end Granted

theorem keyed_of_isOk {source : Value} (found : source.descriptorKey.isOk = true) :
    Keyed source := by
  cases keyed : source.descriptorKey with
  | ok key => exact ⟨key, keyed⟩
  | error part =>
      rw [keyed] at found
      cases found

mutual

/-- A sound part is found whatever was looked up before. -/
theorem granted : ∀ part : Descriptor, part.Within Set.univ → part.isSound = true → Granted part
  | .lookup source part, within, sound => by
      obtain ⟨keyed, inside⟩ := Bool.and_eq_true_iff.mp sound
      have inner := granted part within.2.2 inside
      obtain ⟨-, rfl, -⟩ := within
      exact .lookup (keyed_of_isOk keyed) inner
  | .known _, _, _ | .unknown, _, _ | .integers _, _, _ | .realRange _ _, _, _
  | .arrays _, _, _ => by
      refine .ofTypes ?_ nofun nofun
      rw [resolve]
      exact succeeds_pure _
  | .malformed _ _, _, sound => by cases sound
  | .eql source value, _, sound => by
      refine .ofTypes (fun tables => ?_) nofun nofun
      obtain ⟨ntype, found⟩ := singleton?_found sound tables
      rw [resolve, Lookup.outcome_bind, found]
      exact ⟨_, rfl⟩
  | .member source values, _, sound => by
      refine .ofTypes ?_ nofun nofun
      rw [resolve]
      exact succeeds_memberUnion source (List.all_eq_true.mp sound) _
  | .complexOf part, within, sound | .complement part, within, sound => by
      refine .ofTypes ?_ nofun nofun
      rw [resolve]
      exact (granted part within sound).types.bind fun _ => succeeds_pure _
  | .arrayOf element sized, within, sound => by
      refine .ofTypes ?_ nofun nofun
      rw [resolve]
      refine (granted element within.2 sound).types.bind fun found => ?_
      exact (composes_succeeds.storageFor keyed_storage found.ntype fun _ own => own).bind
        fun _ => succeeds_pure _
  | .cons parts, within, sound | .function parts _, within, sound | .both parts, within, sound
  | .either parts, within, sound => by
      refine .ofTypes ?_ nofun nofun
      rw [resolve]
      exact (composes_succeeds.resolveAll (allGranted parts within sound)).bind
        fun _ => succeeds_pure _
  | .functionTo parameters result, within, sound => by
      obtain ⟨parametersWithin, ⟨source, rfl, named⟩, resultWithin⟩ := within
      obtain ⟨parametersSound, resultSound⟩ := Bool.and_eq_true_iff.mp sound
      have keyed := keyed_of_isOk (Bool.and_eq_true_iff.mp resultSound).1
      have values := succeeds_values keyed
        ((granted _ resultWithin resultSound).values source rfl)
      rw [← valuesOf_eq, valuesOf, named] at values
      refine .ofTypes ?_ nofun nofun
      rw [resolve]
      refine (composes_succeeds.resolveAll
        (allGranted parameters parametersWithin parametersSound)).bind fun _ => ?_
      exact values.bind fun _ => succeeds_pure _
  | .sections source items, within, sound => by
      obtain ⟨-, -, analysed, itemsWithin⟩ := within
      obtain ⟨both, layout⟩ := Bool.and_eq_true_iff.mp sound
      obtain ⟨keyed, itemsSound⟩ := Bool.and_eq_true_iff.mp both
      have each := itemsGranted items itemsWithin itemsSound
      obtain ⟨arguments, -, -, rfl⟩ := sections_of_body analysed
      rw [sources_parts] at layout
      rw [parts_eq_map, List.forall_mem_map] at each
      have sections (origin : Value) := succeeds_sections origin each layout
      refine ⟨?_, nofun, fun _ _ same origin => ?_⟩
      · rw [resolve]
        exact (succeeds_values (keyed_of_isOk keyed) (sections source)).bind
          fun _ => succeeds_pure _
      · cases same
        exact sections origin

theorem allGranted : ∀ parts : List Descriptor, AllWithin Set.univ parts → areSound parts = true →
    ∀ part ∈ parts, Succeeds (resolve part)
  | [], _, _ => nofun
  | part :: rest, within, sound =>
      have both := Bool.and_eq_true_iff.mp sound
      List.forall_mem_cons.mpr
        ⟨(granted part within.1 both.1).types, allGranted rest within.2 both.2⟩

theorem itemsGranted : ∀ items : List Descriptor, AllWithin Set.univ items →
    areSoundItems items = true →
      ∀ item ∈ items, item.source?.any isKeyword = true ∨ Succeeds (resolve item)
  | [], _, _ => nofun
  | item :: rest, within, sound =>
      have both := Bool.and_eq_true_iff.mp sound
      List.forall_mem_cons.mpr
        ⟨(Bool.or_eq_true_iff.mp both.1).imp_right fun own => (granted item within.1 own).types,
          itemsGranted rest within.2 both.2⟩

end

/-- A sound description is accepted whatever was looked up before. -/
theorem isDescription_of_isSound {value : Value} (sound : (ofValue value).isSound = true) :
    IsDescription value := fun calls =>
  (granted _ (traced_ofValue value _ fun _ _ => Set.mem_univ _) sound).types (tablesAfter calls)

end Descriptor

end Narrowing
