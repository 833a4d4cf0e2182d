import Narrowing.Proofs.LookupClosure
import Narrowing.Proofs.SetDescriptors

/-
This file shows that classes, singletons of literals and lists of these are found by their own
descriptors.
-/

namespace Narrowing

namespace Ntype

/-- A class, or the singleton of a literal that has a key of its own as a description. -/
def isPlain : Ntype → Bool
  | .primitive _ => true
  | .singleton value => value.isLiteral && value.isPlain

variable {type : Ntype}

/-- Nothing but itself agrees with a plain type. -/
theorem Agrees.eq_of_isPlain {found : Ntype} (agrees : found.Agrees type)
    (plain : type.isPlain = true) : found = type := by
  rcases agrees.cases with same | ⟨left, right, rfl, rfl, identical⟩
  · exact same
  · exact congrArg _ (Value.eq_of_identical (Bool.and_eq_true_iff.mp plain).1 identical)

/-- A literal has a key as a value and as a description. -/
theorem exists_keys {value : Value} (isLiteral : value.isLiteral = true) :
    ∃ key own, value.key? = some key ∧ value.descriptorKey = .ok own ∧ value ≠ .missing := by
  cases value with
  | scalar value => cases value <;> exact ⟨_, _, rfl, rfl, nofun⟩
  | boolean | integer | ratio | double | complex | text => exact ⟨_, _, rfl, rfl, nofun⟩
  | _ => cases isLiteral

theorem describable_descriptor (plain : type.isPlain = true) :
    Descriptor.Describable type.descriptor := by
  cases type with
  | primitive primitive => exact SetDescriptor.describable_descriptor primitive
  | singleton value =>
      obtain ⟨isLiteral, ownPlain⟩ := Bool.and_eq_true_iff.mp plain
      obtain ⟨_, own, _, keyed, _⟩ := exists_keys isLiteral
      exact Descriptor.describable_compound (List.forall_mem_singleton.mpr ⟨ownPlain, own, keyed⟩)

/-- A plain type is denoted by its descriptor. -/
theorem ntype_descriptor (plain : type.isPlain = true) :
    Descriptor.ntype type.descriptor = .ok ⟨type, true⟩ := by
  cases type with
  | primitive primitive => exact Descriptor.ntype_descriptor primitive
  | singleton value =>
      obtain ⟨_, _, hasKey, keyed, present⟩ := exists_keys (Bool.and_eq_true_iff.mp plain).1
      exact Descriptor.ntype_eql keyed present hasKey

/-- The descriptor of a type is no keyword of a list of values. -/
theorem isKeyword_descriptor (type : Ntype) : Descriptor.isKeyword type.descriptor = false := by
  have classes : ∀ primitive ∈ Primitive.all,
      Descriptor.isKeyword primitive.descriptor = false := by decide +kernel
  cases type with
  | primitive primitive => exact classes primitive primitive.mem_all
  | singleton value => rfl

end Ntype

namespace Descriptor

/-- A look-up gives a certain kind of result on all valid tables. -/
def Gives {Result : Type} (property : Result → Prop) (lookup : Lookup Result) : Prop :=
  ∀ tables : Tables, tables.Valid plainValues → ∃ result, lookup.outcome tables = .ok result ∧
    property result ∧ (lookup.after tables).Valid plainValues

section

variable {First Second : Type} {property : First → Prop} {other : Second → Prop}

theorem gives_pure {result : First} (holds : property result) : Gives property (pure result) :=
  fun _ valid => ⟨result, rfl, holds, valid⟩

theorem Gives.bind {first : Lookup First} {next : First → Lookup Second}
    (gives : Gives property first)
    (continues : ∀ result, property result → Gives other (next result)) :
    Gives other (first >>= next) := by
  intro tables valid
  obtain ⟨result, outcome, holds, after⟩ := gives tables valid
  rw [Lookup.outcome_bind, Lookup.after_bind, outcome]
  exact continues result holds _ after

theorem gives_fresh : Gives (fun _ => True) Lookup.fresh :=
  fun tables valid => ⟨tables.serial, rfl, trivial,
    valid.recount tables.hits tables.misses (tables.serial + 1)⟩

end

/-- A plain type is found by its descriptor. -/
theorem gives_descriptor {type : Ntype} (plain : type.isPlain = true) :
    Gives (· = ⟨type, true⟩) (resolve (ofValue type.descriptor)) := by
  intro tables valid
  obtain ⟨found, outcome, ⟨agrees, precise⟩, after⟩ := resolve_found valid
    (Ntype.describable_descriptor plain).1 (Ntype.ntype_descriptor plain)
  obtain ⟨ntype, exact⟩ := found
  cases agrees.eq_of_isPlain plain
  cases precise
  exact ⟨_, outcome, rfl, after⟩

/-- Exact types join the section that is open. -/
def Sections.extend (state : Sections) (types : List Ntype) : Sections :=
  types.foldl (fun state type => state.add ⟨type, true⟩) state

theorem Sections.extend_eq (state : Sections) (types : List Ntype) :
    state.extend types =
      match state.current with
      | .required => { state with required := types.reverse ++ state.required }
      | .optional => { state with optional := types.reverse ++ state.optional }
      | .rest => { state with rest := types.reverse ++ state.rest } := by
  induction types generalizing state with
  | nil =>
      obtain ⟨current, required, optional, rest, precise⟩ := state
      cases current <;> rfl
  | cons type types inductionHypothesis =>
      obtain ⟨current, required, optional, rest, precise⟩ := state
      rw [extend, List.foldl_cons]
      refine (inductionHypothesis _).trans ?_
      cases current <;> simp [Sections.add]

theorem parts_append (first second : List Value) :
    parts (first ++ second) = parts first ++ parts second := by
  induction first with
  | nil => rfl
  | cons value rest inductionHypothesis => simp only [List.cons_append, parts, inductionHypothesis]

section

variable {source : Value} {state : Sections} {more : List Descriptor}
  {property : ValuesEstimate → Prop}

theorem gives_types {types : List Ntype} (plain : ∀ type ∈ types, type.isPlain = true)
    (continues : Gives property (resolveSections source more (state.extend types))) :
    Gives property
      (resolveSections source (parts (types.map Ntype.descriptor) ++ more) state) := by
  induction types generalizing state with
  | nil => exact continues
  | cons type types inductionHypothesis =>
      obtain ⟨own, later⟩ := List.forall_mem_cons.mp plain
      have unfolded : parts ((type :: types).map Ntype.descriptor) ++ more =
          ofValue type.descriptor :: (parts (types.map Ntype.descriptor) ++ more) := rfl
      rw [unfolded, resolveSections_item type.isKeyword_descriptor]
      refine (gives_descriptor own).bind fun estimate same => ?_
      subst same
      exact inductionHypothesis later continues

/-- The sections that stand in the state give the values that they hold. -/
theorem gives_finish (source : Value) (state : Sections)
    (single : state.current = .rest → state.rest.length = 1) (precise : state.precise = true) :
    Gives (fun result => result.values =
        ⟨state.required.reverse, state.optional.reverse, state.rest.head?⟩ ∧ result.precise = true)
      (state.finish source) := by
  unfold Sections.finish
  rw [if_neg fun several => several.2 (single several.1)]
  simp only
  split
  · exact gives_pure ⟨rfl, precise⟩
  · exact gives_fresh.bind fun serial _ => gives_pure ⟨rfl, precise⟩

end

end Descriptor

namespace ValuesNtype

/-- All types of the list are plain. -/
def isPlain (values : ValuesNtype) : Bool :=
  values.required.all Ntype.isPlain && values.optional.all Ntype.isPlain &&
    values.rest.all Ntype.isPlain

/-- The keyword of the optional types and their descriptors. -/
def optionalItems (types : List Ntype) : List Value :=
  if types.isEmpty then [] else .text "&optional" :: types.map Ntype.descriptor

/-- The keyword of the repeating type and its descriptor. -/
def restItems : Option Ntype → List Value
  | Option.none => []
  | some type => [.text "&rest", type.descriptor]

theorem descriptor_of_not_any {values : ValuesNtype} (fixed : values.same any = false) :
    values.descriptor = .tuple (.text "values" :: (values.required.map Ntype.descriptor ++
      optionalItems values.optional ++ restItems values.rest)) := by
  rw [descriptor, fixed]
  cases rest : values.rest <;> simp [optionalItems, restItems]

end ValuesNtype

namespace Descriptor

open ValuesNtype

variable {source : Value} {state : Sections}

/-- The repeating type comes last and closes the list. -/
theorem gives_rest {rest : Option Ntype} (plain : rest.all Ntype.isPlain = true)
    (opens : state.current ≠ .rest) (empty : state.rest = []) (precise : state.precise = true) :
    Gives (fun result => result.values = ⟨state.required.reverse, state.optional.reverse, rest⟩ ∧
        result.precise = true)
      (resolveSections source (parts (restItems rest)) state) := by
  cases rest with
  | none =>
      have finished := gives_finish source state (fun same => absurd same opens) precise
      rw [empty] at finished
      rw [restItems, parts, resolveSections]
      exact finished
  | some type =>
      let last : Sections := { state with current := .rest }
      have entered : state.enter? "&rest" = some last := by
        obtain ⟨current, _⟩ := state
        cases current with
        | rest => exact absurd rfl opens
        | _ => rfl
      have keyword : "&rest".startsWith "&" = true := by decide +kernel
      have unfolded : resolveSections source (parts (restItems (some type))) state =
          resolve (ofValue type.descriptor) >>= fun estimate =>
            (last.add estimate).finish source := by
        change resolveSections source [ofValue (.text "&rest"), ofValue type.descriptor] state = _
        rw [resolveSections_keyword keyword entered, resolveSections_item type.isKeyword_descriptor]
        simp only [resolveSections]
      have only : (last.add ⟨type, true⟩).rest = [type] := congrArg (type :: ·) empty
      have finished := gives_finish source (last.add ⟨type, true⟩)
        (fun _ => congrArg List.length only) ((Bool.and_true _).trans precise)
      rw [only] at finished
      rw [unfolded]
      refine (gives_descriptor plain).bind fun estimate same => ?_
      subst same
      exact finished

/-- The optional types stand between the required ones and the repeating one. -/
theorem gives_optional {optional : List Ntype} {rest : Option Ntype}
    (optionalPlain : optional.all Ntype.isPlain = true) (restPlain : rest.all Ntype.isPlain = true)
    (opens : state.current = .required) (absent : state.optional = [])
    (empty : state.rest = []) (precise : state.precise = true) :
    Gives (fun result => result.values = ⟨state.required.reverse, optional, rest⟩ ∧
        result.precise = true)
      (resolveSections source (parts (optionalItems optional) ++ parts (restItems rest))
        state) := by
  by_cases none : optional.isEmpty = true
  · obtain rfl := List.isEmpty_iff.mp none
    have given := @gives_rest source state rest restPlain (by rw [opens]; nofun) empty precise
    rw [absent] at given
    exact given
  · let next : Sections := { state with current := .optional }
    have entered : state.enter? "&optional" = some next := by
      obtain ⟨current, _⟩ := state
      cases opens
      rfl
    have keyword : "&optional".startsWith "&" = true := by decide +kernel
    have extended : next.extend optional = { next with optional := optional.reverse } := by
      rw [Sections.extend_eq]
      simp [next, absent]
    rw [optionalItems, if_neg none]
    change Gives _ (resolveSections source (ofValue (.text "&optional") ::
      (parts (optional.map Ntype.descriptor) ++ parts (restItems rest))) state)
    rw [resolveSections_keyword keyword entered]
    refine gives_types (List.all_eq_true.mp optionalPlain) ?_
    rw [extended]
    have given := @gives_rest source { next with optional := optional.reverse } rest restPlain
      nofun empty precise
    simp only [List.reverse_reverse] at given
    exact given

/-- The items of a list of plain types give the list. -/
theorem gives_sections {values : ValuesNtype} (plain : values.isPlain = true) :
    Gives (fun result => result.values = values ∧ result.precise = true)
      (resolveSections source (parts (values.required.map Ntype.descriptor ++
        optionalItems values.optional ++ restItems values.rest)) .start) := by
  obtain ⟨required, optional, rest⟩ := values
  simp only [ValuesNtype.isPlain, Bool.and_eq_true] at plain
  obtain ⟨⟨requiredPlain, optionalPlain⟩, restPlain⟩ := plain
  have extended : Sections.start.extend required =
      { Sections.start with required := required.reverse } := by
    rw [Sections.extend_eq]
    simp [Sections.start]
  rw [parts_append, parts_append, List.append_assoc]
  refine gives_types (List.all_eq_true.mp requiredPlain) ?_
  rw [extended]
  have given := @gives_optional source { Sections.start with required := required.reverse } optional
    rest optionalPlain restPlain rfl rfl rfl rfl
  simp only [List.reverse_reverse] at given
  exact given

theorem describable_items {values : ValuesNtype} (plain : values.isPlain = true) :
    ∀ item ∈ values.required.map Ntype.descriptor ++ optionalItems values.optional ++
      restItems values.rest, Describable item := by
  obtain ⟨required, optional, rest⟩ := values
  simp only [ValuesNtype.isPlain, Bool.and_eq_true, List.all_eq_true] at plain
  obtain ⟨⟨requiredPlain, optionalPlain⟩, restPlain⟩ := plain
  have described : ∀ types : List Ntype, (∀ type ∈ types, type.isPlain = true) →
      ∀ item ∈ types.map Ntype.descriptor, Describable item := fun types plain =>
    List.forall_mem_map.mpr fun type member => Ntype.describable_descriptor (plain type member)
  have keyword (name : String) : Describable (.text name) := ⟨rfl, _, rfl⟩
  refine List.forall_mem_append.mpr ⟨List.forall_mem_append.mpr ⟨described _ requiredPlain, ?_⟩, ?_⟩
  · unfold optionalItems
    split
    · exact nofun
    · exact List.forall_mem_cons.mpr ⟨keyword _, described _ optionalPlain⟩
  · cases rest with
    | none => exact nofun
    | some type =>
        exact List.forall_mem_cons.mpr ⟨keyword _,
          List.forall_mem_singleton.mpr (Ntype.describable_descriptor restPlain)⟩

theorem eq_any_of_same {values : ValuesNtype} (same : values.same .any = true) : values = .any := by
  obtain ⟨required, optional, rest⟩ := values
  simp only [ValuesNtype.same, Bool.and_eq_true] at same
  obtain ⟨⟨noneRequired, noneOptional⟩, repeating⟩ := same
  cases required with
  | cons => cases noneRequired
  | nil =>
      cases optional with
      | cons => cases noneOptional
      | nil =>
          cases rest with
          | none => cases repeating
          | some type =>
              cases type with
              | singleton => cases repeating
              | primitive primitive =>
                  obtain rfl : primitive = .universal := eq_of_beq repeating
                  rfl

/-- A first look-up of the descriptor of a list of plain types gives the list. -/
theorem gives_list {values : ValuesNtype} (plain : values.isPlain = true) :
    Gives (fun result => result.values = values ∧ result.precise = true)
      (computedValues values.descriptor) := by
  cases any : values.same .any with
  | true =>
      obtain rfl := eq_any_of_same any
      exact gives_pure ⟨rfl, rfl⟩
  | false =>
      rw [descriptor_of_not_any any]
      exact gives_sections plain

theorem describable_list {values : ValuesNtype} (plain : values.isPlain = true) :
    Describable values.descriptor := by
  cases any : values.same .any with
  | true =>
      obtain rfl := eq_any_of_same any
      exact ⟨rfl, _, rfl⟩
  | false =>
      rw [descriptor_of_not_any any]
      exact describable_compound (describable_items plain)

end Descriptor

end Narrowing
