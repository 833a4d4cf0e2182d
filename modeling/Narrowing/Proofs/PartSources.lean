import Narrowing.Proofs.LookupTransparency

/-
This file draws properties of all that is looked up for a compound from its parts.
-/

namespace Narrowing

/-- The items of a compound with a key have keys. -/
theorem Value.keys_of_cons {item : Value} {rest : List Value} {key : Key}
    (hasKey : descriptorKeys (item :: rest) = .ok key) :
    ∃ head tail, item.descriptorKey = .ok head ∧ descriptorKeys rest = .ok tail ∧
      key = .tuple head tail := by
  simp only [descriptorKeys] at hasKey
  split at hasKey
  · cases hasKey
  · split at hasKey <;> cases hasKey
    exact ⟨_, _, ‹_›, ‹_›, rfl⟩

namespace Descriptor

/-- A list of values is looked up by its own description again; these are the other descriptions
that are looked up for a part. -/
def inner : Descriptor → List Value
  | .sections _ items => allSources items
  | part => part.sources

theorem mem_sources_of_inner {part : Descriptor} {source : Value} (own : source ∈ part.inner) :
    source ∈ part.sources := by
  cases part with
  | sections origin items => exact List.mem_cons_of_mem origin own
  | _ => exact own

theorem inner_eq {part : Descriptor} (plain : ∀ origin items, part ≠ .sections origin items) :
    part.inner = part.sources := by
  cases part with
  | sections origin items => exact absurd rfl (plain origin items)
  | _ => rfl

theorem inner_or_origin {part : Descriptor} {source : Value} (own : source ∈ part.sources) :
    source ∈ part.inner ∨ ∃ items, part = .sections source items := by
  cases part with
  | sections origin items =>
      rcases List.mem_cons.mp own with rfl | later
      · exact .inr ⟨items, rfl⟩
      · exact .inl later
  | _ => exact .inl own

/-- The heads of descriptions whose elements are compared with those of every storage class. -/
def arrayHeads : List String := ["array", "simple-array", "vector"]

/-- Some parts look nothing up. -/
theorem property_of_nil {property : Value → Prop} {part : Descriptor} (nothing : part.inner = []) :
    ∀ source ∈ part.inner, property source := by
  rw [nothing]
  exact List.forall_mem_nil _

section

variable {property : Value → Prop} {parts nested : List Descriptor} {name : String}
  (each : ∀ part ∈ parts, ∀ source ∈ part.sources, property source)

include each

theorem property_allSources : ∀ source ∈ allSources parts, property source := by
  intro source present
  obtain ⟨part, member, own⟩ := mem_allSources.mp present
  exact each part member source own

theorem property_arrayOfPart
    (stored : ∀ storage ∈ storageOrder, property storage.element.descriptor)
    (sized : Bool) : ∀ source ∈ (arrayOfPart parts.head? sized).inner, property source := by
  unfold arrayOfPart
  cases first : parts.head? with
  | none => exact nofun
  | some part =>
      simp only
      split
      · exact nofun
      · exact List.forall_mem_append.mpr
          ⟨List.forall_mem_map.mpr stored, each part (List.mem_of_mem_head? first)⟩

theorem property_function (within : ∀ part ∈ nested, ∀ source ∈ part.sources, property source)
    (origin : Value) (arguments : List Value) :
    ∀ source ∈ (ofFunction origin arguments parts nested).inner, property source := by
  have parameters := property_allSources fun part (member : part ∈ withoutKeywords nested) =>
    within part (List.mem_filter.mp member).1
  rcases ofFunction_cases origin arguments parts nested with
    ⟨constrained, same⟩ | ⟨part, member, _, same⟩ | same <;> rw [same]
  · exact parameters
  · exact List.forall_mem_append.mpr ⟨parameters, each part member⟩
  · exact nofun

/-- A head looks up its parts, and perhaps the elements of the storage classes. -/
theorem property_ofHead (within : ∀ part ∈ nested, ∀ source ∈ part.sources, property source)
    (stored : name ∈ arrayHeads → ∀ storage ∈ storageOrder, property storage.element.descriptor)
    (origin : Value) (arguments : List Value) :
    ∀ source ∈ (ofHead origin name arguments parts nested).inner, property source := by
  unfold ofHead
  split
  case h_1 | h_2 => exact property_of_nil rfl
  case h_3 | h_4 | h_5 => split <;> exact property_of_nil rfl
  case h_6 =>
    split
    · split <;> exact property_of_nil rfl
    · exact property_of_nil rfl
  case h_7 =>
    split
    · exact property_of_nil rfl
    · split
      · exact property_of_nil rfl
      · exact fun source own => each _ List.mem_cons_self source own
  case h_8 | h_9 | h_10 =>
    have elements := stored (by decide)
    split
    · split
      · exact property_arrayOfPart each elements _
      · exact property_of_nil rfl
    · exact property_arrayOfPart each elements _
  case h_11 =>
    exact property_allSources fun part member => each part (List.mem_filter.mp member).1
  case h_12 => exact property_function each within origin arguments
  case h_13 => exact property_allSources each
  case h_14 => exact property_allSources each
  case h_15 => exact property_allSources each
  case h_16 =>
    split
    · exact fun source own => each _ List.mem_cons_self source own
    · exact property_of_nil rfl
  case h_17 =>
    split
    · exact property_of_nil rfl
    · split <;> exact property_of_nil rfl

theorem property_compound (within : ∀ part ∈ nested, ∀ source ∈ part.sources, property source)
    (stored : name ∈ arrayHeads → ∀ storage ∈ storageOrder, property storage.element.descriptor)
    (arguments : List Value) :
    ∀ source ∈ (compound (.text name) arguments parts nested).inner, property source := by
  unfold compound
  simp only
  split
  · split
    · exact nofun
    · exact property_ofHead each within stored _ arguments
  · exact property_ofHead each within stored _ arguments

end

end Descriptor

end Narrowing
