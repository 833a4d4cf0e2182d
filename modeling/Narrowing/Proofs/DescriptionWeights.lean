import Narrowing.Proofs.PartSources

/-
This file weighs descriptions: whatever is looked up for a description is lighter than it, so that
no description is looked up while its own type is computed.
-/

namespace Narrowing

namespace Descriptor

/-- A symbol weighs more than the descriptions that it stands for or that its elements are compared
with. -/
def symbolWeight (name : String) : Nat :=
  match name with
  | "*" => 1
  | "signed-byte" | "unsigned-byte" => 5
  | "array" => 10
  | name => if (alias? name).isSome then 100 else 0

/-- Descriptions with one key have one weight. -/
def keyWeight : Key → Nat
  | .text name => symbolWeight name
  | .integer _ | .emptyTuple => 0
  | .tuple head tail => keyWeight head + keyWeight tail + 1
  | _ => 100

/-- A description without a key, which is never looked up, has no weight. -/
def weight (source : Value) : Nat :=
  match source.descriptorKey with
  | .ok key => keyWeight key
  | .error _ => 0

/-- All of some descriptions are lighter than a bound. -/
def Lighter (bound : Nat) (sources : List Value) : Prop := ∀ source ∈ sources, weight source < bound

theorem lighter_of_all {bound : Nat} {sources : List Value}
    (checked : (sources.all fun source => weight source < bound) = true) : Lighter bound sources :=
  fun source member => by simpa using List.all_eq_true.mp checked source member

theorem Lighter.mono {bound greater : Nat} {sources : List Value} (lighter : Lighter bound sources)
    (le : bound ≤ greater) : Lighter greater sources :=
  fun source member => Nat.lt_of_lt_of_le (lighter source member) le

section Leaves

theorem lighter_storages : Lighter 10 (storageOrder.map (·.element.descriptor)) :=
  lighter_of_all (by decide +kernel)

theorem lighter_ofPrimitive (primitive : Primitive) :
    Lighter 100 (ofPrimitive primitive).sources := by
  refine lighter_of_all ?_
  cases primitive with
  | integers narrowed => cases narrowed <;> decide +kernel
  | arrayOf storage =>
      cases storage with
      | word kind => cases kind <;> decide +kernel
      | _ => decide +kernel
  | _ => decide +kernel

/-- The descriptions that a symbol stands for are lighter than the symbol. -/
theorem lighter_ofSymbol (name : String) : Lighter (symbolWeight name) (ofSymbol name).sources := by
  unfold ofSymbol
  split
  · exact nofun
  · split
    · rename_i target found
      refine lighter_of_all ?_
      unfold alias? at found
      split at found <;> cases found <;> decide +kernel
    · split <;> exact nofun

theorem lighter_ofHostClass (host : HostClass) : Lighter 100 (ofHostClass host).sources :=
  lighter_of_all (by cases host <;> decide +kernel)

theorem weight_sized (head : String) (size : Int) :
    weight (.tuple [.text head, .integer size]) = symbolWeight head + 2 := rfl

theorem lighter_ofElementType (name : String) : Lighter 100 (ofElementType name).sources := by
  unfold ofElementType
  split
  · exact nofun
  · exact lighter_ofPrimitive _
  · split
    · refine List.forall_mem_singleton.mpr ?_
      rw [weight_sized]
      decide +kernel
    · refine List.forall_mem_singleton.mpr ?_
      rw [weight_sized]
      decide +kernel
    · exact nofun

theorem lighter_ofScalar (value : Scalar) : Lighter 100 (ofScalar value).sources := by
  unfold ofScalar
  split
  · exact nofun
  · exact nofun
  · exact lighter_ofElementType _

end Leaves

section Compounds

variable {key : Key} {source : Value}

theorem weight_of_key (hasKey : source.descriptorKey = .ok key) :
    weight source = keyWeight key := by
  rw [weight, hasKey]

/-- The items of a keyed compound have keys, and they are lighter than all of them together. -/
theorem keyed_items {items : List Value} (hasKey : Value.descriptorKeys items = .ok key) :
    ∀ item ∈ items, (∃ own, item.descriptorKey = .ok own) ∧ weight item < keyWeight key := by
  induction items generalizing key with
  | nil => exact nofun
  | cons item rest inductionHypothesis =>
      obtain ⟨head, tail, own, later, rfl⟩ := Value.keys_of_cons hasKey
      refine List.forall_mem_cons.mpr ⟨⟨⟨head, own⟩, ?_⟩, fun other member => ?_⟩
      · rw [weight_of_key own, keyWeight]
        omega
      · obtain ⟨keyed, lighter⟩ := inductionHypothesis later other member
        refine ⟨keyed, Nat.lt_of_lt_of_le lighter ?_⟩
        rw [keyWeight]
        omega

/-- What is looked up for a description is no heavier than it, when all but the description itself
is lighter. -/
theorem sources_le (lighter : Lighter (weight source) (body source).inner) :
    ∀ other ∈ (ofValue source).sources, weight other ≤ weight source := by
  refine List.forall_mem_cons.mpr ⟨Nat.le_refl _, fun other own => ?_⟩
  rcases inner_or_origin own with inside | ⟨items, analysed⟩
  · exact Nat.le_of_lt (lighter other inside)
  · rw [weight, weight, sections_key analysed]

/-- A description is described by its lighter parts. -/
def Descends (source : Value) : Prop :=
  ∀ key, source.descriptorKey = .ok key → Lighter (weight source) (body source).inner

theorem lighter_parts {arguments : List Value}
    (descends : ∀ argument ∈ arguments, Descends argument)
    (hasKey : Value.descriptorKeys arguments = .ok key) :
    ∀ part ∈ parts arguments, Lighter (keyWeight key) part.sources := by
  intro part member
  rw [parts_eq_map] at member
  obtain ⟨argument, present, rfl⟩ := List.mem_map.mp member
  obtain ⟨⟨own, keyed⟩, lighter⟩ := keyed_items hasKey argument present
  exact fun other found => Nat.lt_of_le_of_lt
    (sources_le (descends argument present own keyed) other found) lighter

theorem lighter_firstParts {arguments : List Value}
    (nested : ∀ items, arguments.head? = some (.tuple items) → ∀ item ∈ items, Descends item)
    (hasKey : Value.descriptorKeys arguments = .ok key) :
    ∀ part ∈ firstParts arguments, Lighter (keyWeight key) part.sources := by
  cases arguments with
  | nil => exact nofun
  | cons first rest =>
      obtain ⟨⟨own, keyed⟩, lighter⟩ := keyed_items hasKey first List.mem_cons_self
      cases first with
      | tuple items =>
          intro part member
          refine (lighter_parts (nested items rfl) keyed part member).mono ?_
          rw [weight_of_key keyed] at lighter
          exact Nat.le_of_lt lighter
      | _ => exact nofun

/-- A compound weighs more than its parts, and an array more than the storage classes. -/
theorem lighter_compound {head : Value} {arguments : List Value}
    (descends : ∀ argument ∈ arguments, Descends argument)
    (nested : ∀ items, arguments.head? = some (.tuple items) → ∀ item ∈ items, Descends item)
    (hasKey : Value.descriptorKeys (head :: arguments) = .ok key) :
    Lighter (keyWeight key)
      (compound head arguments (parts arguments) (firstParts arguments)).inner := by
  obtain ⟨first, tail, own, later, rfl⟩ := Value.keys_of_cons hasKey
  have bound : keyWeight first + keyWeight tail ≤ keyWeight (.tuple first tail) := Nat.le_succ _
  cases head with
  | text name =>
      cases own
      refine property_compound (fun part member => ?_) (fun part member => ?_) (fun array => ?_)
        arguments
      · exact (lighter_parts descends later part member).mono (by omega)
      · exact (lighter_firstParts nested later part member).mono (by omega)
      · have each : ∀ name ∈ arrayHeads, 10 ≤ keyWeight (.text name) := by decide +kernel
        have heavy := each name array
        exact List.forall_mem_map.mp (lighter_storages.mono (by omega))
  | _ => exact nofun

end Compounds

mutual

/-- Whatever is looked up for a description is lighter than it. -/
theorem descends : ∀ source : Value, Descends source
  | .text name => fun _ _ other own => lighter_ofSymbol name other (mem_sources_of_inner own)
  | .tuple [] | .list [] => fun _ _ => nofun
  | .tuple (head :: arguments) => fun key hasKey => by
      rw [weight_of_key hasKey]
      exact lighter_compound (descends_all arguments) (descends_first arguments) hasKey
  | .list (head :: arguments) => fun key hasKey => by
      rw [weight_of_key hasKey]
      exact lighter_compound (descends_all arguments) (descends_first arguments) hasKey
  | .hostClass value => fun _ _ other own =>
      lighter_ofHostClass value other (mem_sources_of_inner own)
  | .dtype name => fun _ _ other own => lighter_ofElementType name other (mem_sources_of_inner own)
  | .scalarType name => fun _ _ other own =>
      lighter_ofElementType (scalarTypeName name) other (mem_sources_of_inner own)
  | .scalar value => fun _ _ other own => by
      have heavy : weight (.scalar value) = 100 := by cases value <;> rfl
      rw [heavy]
      exact lighter_ofScalar value other (mem_sources_of_inner own)
  | .primitive _ | .singleton _ | .missing | .boolean _ | .integer _ | .ratio _ | .double _
  | .complex _ | .function _ | .array _ | .dictionary _ _ => fun _ _ => nofun

theorem descends_all : ∀ sources : List Value, ∀ source ∈ sources, Descends source
  | [] => nofun
  | source :: rest => List.forall_mem_cons.mpr ⟨descends source, descends_all rest⟩

theorem descends_first : ∀ arguments : List Value, ∀ items,
    arguments.head? = some (.tuple items) → ∀ item ∈ items, Descends item
  | [], _ => nofun
  | first :: _, items => by
      cases first with
      | tuple own =>
          intro same
          obtain rfl := Value.tuple.inj (Option.some.inj same)
          exact descends_all own
      | _ => exact nofun

end

end Descriptor

end Narrowing
