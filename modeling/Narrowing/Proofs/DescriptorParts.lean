import Mathlib.Data.List.Basic
import Mathlib.Data.Set.Basic
import Narrowing.Descriptor.Resolve

/-
This file finds the descriptions that are looked up for a description.
-/

namespace Narrowing

namespace Descriptor

mutual

/-- The descriptions that are looked up for a description, at every depth. The elements of an array
are compared with those of every storage class. -/
def sources : Descriptor → List Value
  | .lookup source part => source :: sources part
  | .complexOf part => sources part
  | .arrayOf element _ => storageOrder.map (·.element.descriptor) ++ sources element
  | .cons parts => allSources parts
  | .function parameters _ => allSources parameters
  | .functionTo parameters result => allSources parameters ++ sources result
  | .sections source items => source :: allSources items
  | .both parts => allSources parts
  | .either parts => allSources parts
  | .complement part => sources part
  | _ => []

def allSources : List Descriptor → List Value
  | [] => []
  | part :: rest => sources part ++ allSources rest

end

mutual

/-- All that is looked up lies in a set, and each part that is looked up is the analysis of its own
source. -/
def Within (set : Set Value) : Descriptor → Prop
  | .lookup source part => source ∈ set ∧ part = body source ∧ Within set part
  | .complexOf part => Within set part
  | .arrayOf element _ =>
      (∀ storage ∈ storageOrder, storage.element.descriptor ∈ set) ∧ Within set element
  | .cons parts => AllWithin set parts
  | .function parameters _ => AllWithin set parameters
  | .functionTo parameters result =>
      AllWithin set parameters ∧ (∃ source, result = ofValue source ∧ source.isStar = false) ∧
        Within set result
  | .sections source items =>
      source ∈ set ∧ source.isStar = false ∧ body source = .sections source items ∧
        AllWithin set items
  | .both parts => AllWithin set parts
  | .either parts => AllWithin set parts
  | .complement part => Within set part
  | _ => True

def AllWithin (set : Set Value) : List Descriptor → Prop
  | [] => True
  | part :: rest => Within set part ∧ AllWithin set rest

end

theorem mem_allSources {source : Value} {parts : List Descriptor} :
    source ∈ allSources parts ↔ ∃ part ∈ parts, source ∈ part.sources := by
  induction parts with
  | nil => simp [allSources]
  | cons part rest inductionHypothesis => simp [allSources, inductionHypothesis]

theorem allWithin_iff {set : Set Value} {parts : List Descriptor} :
    AllWithin set parts ↔ ∀ part ∈ parts, part.Within set := by
  induction parts with
  | nil => simp [AllWithin]
  | cons part rest inductionHypothesis => simp [AllWithin, inductionHypothesis]

theorem ofPrimitive_eq {primitive : Primitive} (plain : ∀ storage, primitive ≠ .arrayOf storage) :
    ofPrimitive primitive = ofValue primitive.descriptor := by
  cases primitive with
  | integers narrowed => cases narrowed <;> rfl
  | arrayOf storage => exact absurd rfl (plain storage)
  | _ => rfl

/-- The lookups of a part are within a set if the set has all its sources. -/
def Traced (part : Descriptor) : Prop :=
  ∀ set : Set Value, (∀ source ∈ part.sources, source ∈ set) → part.Within set

theorem Traced.known (ntype : Ntype) : (Descriptor.known ntype).Traced := fun _ _ => trivial

theorem Traced.ofValue (source : Value) (traced : (body source).Traced) :
    (ofValue source).Traced := by
  intro set held
  exact ⟨held source List.mem_cons_self, rfl,
    traced set fun other member => held other (List.mem_cons_of_mem source member)⟩

theorem Traced.all {parts : List Descriptor} (traced : ∀ part ∈ parts, part.Traced)
    {set : Set Value} (held : ∀ source ∈ allSources parts, source ∈ set) : AllWithin set parts := by
  refine allWithin_iff.mpr fun part member => traced part member set fun source own => ?_
  exact held source (mem_allSources.mpr ⟨part, member, own⟩)

theorem Traced.both {parts : List Descriptor} (traced : ∀ part ∈ parts, part.Traced) :
    (Descriptor.both parts).Traced := fun _ => Traced.all traced

theorem Traced.either {parts : List Descriptor} (traced : ∀ part ∈ parts, part.Traced) :
    (Descriptor.either parts).Traced := fun _ => Traced.all traced

theorem Traced.complement {part : Descriptor} (traced : part.Traced) :
    (Descriptor.complement part).Traced := traced

theorem Traced.complexOf {part : Descriptor} (traced : part.Traced) :
    (Descriptor.complexOf part).Traced := traced

theorem Traced.arrayOf {element : Descriptor} (traced : element.Traced) (sized : Bool) :
    (Descriptor.arrayOf element sized).Traced := by
  intro set held
  refine ⟨fun storage member => held _ ?_, traced set fun source member => held source ?_⟩
  · exact List.mem_append_left _ (List.mem_map_of_mem member)
  · exact List.mem_append_right _ member

theorem traced_ofPrimitive (primitive : Primitive)
    (plain : ∀ storage, primitive ≠ .arrayOf storage) : (ofPrimitive primitive).Traced := by
  have single : (Descriptor.ofValue (.text "single-float")).Traced := Traced.ofValue _ (.known _)
  have double : (Descriptor.ofValue (.text "double-float")).Traced := Traced.ofValue _ (.known _)
  rw [ofPrimitive_eq plain]
  cases primitive with
  | integers narrowed => cases narrowed <;> exact Traced.ofValue _ fun _ _ => trivial
  | arrayOf storage => exact absurd rfl (plain storage)
  | complexSingle => exact Traced.ofValue _ single.complexOf
  | complexDouble => exact Traced.ofValue _ double.complexOf
  | _ => exact Traced.ofValue _ (.known _)

theorem traced_vectors : vectors.Traced :=
  Traced.ofValue (.tuple [.text "array", .star, .integer 1]) fun _ _ => trivial

/-- Each alias stands for a description that is looked up by its own source. -/
theorem traced_alias {name : String} {target : Descriptor} (found : alias? name = some target) :
    target.Traced := by
  have natural : (Descriptor.ofValue (.tuple [.text "integer", .integer 0, .star])).Traced :=
    Traced.ofValue _ fun _ _ => trivial
  have fixnum := traced_ofPrimitive (.integers .signed64) nofun
  have large : (Descriptor.ofValue
      (.tuple [.text "not", Primitive.descriptor (.integers .signed64)])).Traced :=
    Traced.ofValue _ fixnum.complement
  have bignum : (Descriptor.ofValue (.tuple [.text "and", .text "integer",
      .tuple [.text "not", Primitive.descriptor (.integers .signed64)]])).Traced := by
    refine Traced.ofValue _ (Traced.both fun part member => ?_)
    rcases List.mem_pair.mp member with rfl | rfl
    · exact traced_ofPrimitive (.integers .integer) nofun
    · exact large
  have simple : (Descriptor.ofValue (.tuple [.text "array", .text "t", .integer 1])).Traced :=
    Traced.ofValue _ ((traced_ofPrimitive .universal nofun).arrayOf true)
  have sequence : (Descriptor.ofValue
      (.tuple [.text "or", .text "list", .tuple [.text "array", .star, .integer 1]])).Traced := by
    refine Traced.ofValue _ (Traced.either fun part member => ?_)
    rcases List.mem_pair.mp member with rfl | rfl
    · exact traced_ofPrimitive .list nofun
    · exact traced_vectors
  have noCons : (Descriptor.ofValue (.tuple [.text "not", .text "cons"])).Traced :=
    Traced.ofValue _ (traced_ofPrimitive .cons nofun).complement
  unfold alias? at found
  split at found
  case h_22 => cases found
  all_goals
    obtain rfl := Option.some.inj found
    first
    | exact traced_ofPrimitive _ nofun
    | assumption
    | exact traced_vectors

theorem traced_ofSymbol (name : String) : (ofSymbol name).Traced := by
  unfold ofSymbol
  split
  · exact .known _
  · split
    · rename_i found
      exact traced_alias found
    · split <;> exact fun _ _ => trivial

theorem traced_ofHostClass (host : HostClass) : (ofHostClass host).Traced := by
  cases host with
  | text =>
      refine Traced.ofValue (.tuple [.text "or", .text "character", .text "string"])
        (Traced.either fun part member => ?_)
      rcases List.mem_pair.mp member with rfl | rfl
      · exact traced_ofPrimitive .character nofun
      · exact traced_ofPrimitive .string nofun
  | list =>
      exact Traced.ofValue (.tuple [.text "array", .text "t", .star])
        ((traced_ofPrimitive .universal nofun).arrayOf false)
  | boolean => exact traced_ofPrimitive .boolean nofun
  | integer => exact traced_ofPrimitive (.integers .integer) nofun
  | fraction => exact traced_ofPrimitive .rational nofun
  | float => exact traced_ofPrimitive .doubleFloat nofun
  | complex => exact traced_ofPrimitive .complexDouble nofun
  | missing => exact traced_ofPrimitive .null nofun
  | dictionary | tuple | bytes => exact fun _ _ => trivial

theorem traced_ofElementType (name : String) : (ofElementType name).Traced := by
  have widths : ∀ width : Nat, ∀ signed : Bool,
      foreignWidth? name = some (signed, width) → width = 2 ∨ width = 4 := by
    intro width signed found
    unfold foreignWidth? at found
    split at found <;> cases found <;> decide
  unfold ofElementType
  split
  · exact fun _ _ => trivial
  · rename_i storage _ _
    refine traced_ofPrimitive _ fun other same => ?_
    cases storage <;> cases same
  · split
    · rename_i width found
      rcases widths width true found with rfl | rfl
      · exact Traced.ofValue (.tuple [.text "signed-byte", .integer 2]) fun _ _ => trivial
      · exact Traced.ofValue (.tuple [.text "signed-byte", .integer 4]) fun _ _ => trivial
    · rename_i width found
      rcases widths width false found with rfl | rfl
      · exact Traced.ofValue (.tuple [.text "unsigned-byte", .integer 2])
          fun _ _ => trivial
      · exact Traced.ofValue (.tuple [.text "unsigned-byte", .integer 4])
          fun _ _ => trivial
    · exact fun _ _ => trivial

theorem traced_ofScalar (value : Scalar) : (ofScalar value).Traced := by
  unfold ofScalar
  split
  · exact fun _ _ => trivial
  · exact fun _ _ => trivial
  · exact traced_ofElementType _

/-- The result of a function description is a part, when the description names one. -/
theorem ofFunction_cases (source : Value) (arguments : List Value)
    (parts nested : List Descriptor) :
    (∃ constrained, ofFunction source arguments parts nested =
      .function (withoutKeywords nested) constrained) ∨
    (∃ part ∈ parts, part.source?.any Value.isStar = false ∧
      ofFunction source arguments parts nested = .functionTo (withoutKeywords nested) part) ∨
    ofFunction source arguments parts nested = .malformed .functionParameters source := by
  cases later : parts.drop 1 with
  | nil =>
      simp only [ofFunction, later]
      repeat' split
      all_goals simp
  | cons part rest =>
      have member : part ∈ parts := List.mem_of_mem_drop (later ▸ List.mem_cons_self)
      cases star : part.source?.any Value.isStar with
      | true =>
          simp only [ofFunction, later, star, if_true]
          repeat' split
          all_goals simp
      | false =>
          simp only [ofFunction, later, star, Bool.false_eq_true, if_false]
          repeat' split
          all_goals simp [member, star]

theorem parts_eq_map (arguments : List Value) : parts arguments = arguments.map ofValue := by
  induction arguments with
  | nil => rfl
  | cons argument rest inductionHypothesis => rw [parts, inductionHypothesis, List.map_cons, ofValue]

section

variable {arguments : List Value} (traced : ∀ argument ∈ arguments, (ofValue argument).Traced)

include traced

theorem traced_parts : ∀ part ∈ parts arguments, part.Traced := by
  intro part member
  rw [parts_eq_map] at member
  obtain ⟨argument, present, rfl⟩ := List.mem_map.mp member
  exact traced argument present

theorem traced_arrayOfPart (sized : Bool) : (arrayOfPart (parts arguments).head? sized).Traced := by
  unfold arrayOfPart
  cases first : (parts arguments).head? with
  | none => exact fun _ _ => trivial
  | some part =>
      simp only
      split
      · exact fun _ _ => trivial
      · exact (traced_parts traced part (List.mem_of_mem_head? first)).arrayOf sized

theorem traced_function (nested : ∀ part ∈ firstParts arguments, part.Traced) (source : Value) :
    (ofFunction source arguments (parts arguments) (firstParts arguments)).Traced := by
  have parameters : ∀ part ∈ withoutKeywords (firstParts arguments), part.Traced :=
    fun part member => nested part (List.mem_filter.mp member).1
  intro set
  rcases ofFunction_cases source arguments (parts arguments) (firstParts arguments) with
    ⟨constrained, same⟩ | ⟨part, member, named, same⟩ | same <;> rw [same]
  · exact Traced.all parameters
  · intro held
    refine ⟨Traced.all parameters fun source own => held source (List.mem_append_left _ own), ?_,
      traced_parts traced part member set fun source own => held source (List.mem_append_right _ own)⟩
    rw [parts_eq_map] at member
    obtain ⟨argument, _, rfl⟩ := List.mem_map.mp member
    exact ⟨argument, rfl, by simpa [Descriptor.ofValue, source?] using named⟩
  · exact fun _ => trivial

theorem traced_sections :
    (Descriptor.sections (.tuple (.text "values" :: arguments)) (parts arguments)).Traced := by
  intro set held
  exact ⟨held _ List.mem_cons_self, rfl, rfl, Traced.all (traced_parts traced)
    fun source own => held source (List.mem_cons_of_mem _ own)⟩

/-- The analysis of a head with parameters looks up nothing but its parts. -/
theorem traced_ofHead (nested : ∀ part ∈ firstParts arguments, part.Traced) (name : String) :
    (ofHead (.tuple (.text name :: arguments)) name arguments (parts arguments)
      (firstParts arguments)).Traced := by
  have each := traced_parts traced
  unfold ofHead
  split
  case h_1 | h_2 => exact fun _ _ => trivial
  case h_3 | h_4 | h_5 => split <;> exact fun _ _ => trivial
  case h_6 =>
    split
    · split <;> exact fun _ _ => trivial
    · exact fun _ _ => trivial
  case h_7 =>
    split
    · exact fun _ _ => trivial
    · rename_i part rest found
      split
      · exact fun _ _ => trivial
      · exact (each part (found ▸ List.mem_cons_self)).complexOf
  case h_8 | h_9 | h_10 =>
    split
    · split
      · exact traced_arrayOfPart traced _
      · exact fun _ _ => trivial
    · exact traced_arrayOfPart traced _
  case h_11 =>
    exact fun set held => Traced.all (fun part member => each part (List.mem_filter.mp member).1) held
  case h_12 => exact traced_function traced nested _
  case h_13 => exact traced_sections traced
  case h_14 => exact Traced.both each
  case h_15 => exact Traced.either each
  case h_16 =>
    split
    · rename_i part rest found
      exact (each part (found ▸ List.mem_cons_self)).complement
    · exact fun _ _ => trivial
  case h_17 =>
    split
    · exact fun _ _ => trivial
    · split <;> exact fun _ _ => trivial

theorem traced_compound (nested : ∀ part ∈ firstParts arguments, part.Traced) (head : Value) :
    (compound head arguments (parts arguments) (firstParts arguments)).Traced := by
  cases head with
  | text name =>
      unfold compound
      simp only
      split
      · split
        · exact fun _ _ => trivial
        · exact traced_ofHead traced nested name
      · exact traced_ofHead traced nested name
  | _ => exact fun _ _ => trivial

end

mutual

/-- The analysis of a value looks up nothing but parts analysed in the same way. -/
theorem traced_body : ∀ value : Value, (body value).Traced
  | .text name => traced_ofSymbol name
  | .tuple [] | .list [] => fun _ _ => trivial
  | .tuple (head :: arguments) | .list (head :: arguments) =>
      traced_compound (traced_all arguments) (traced_first arguments) head
  | .hostClass value => traced_ofHostClass value
  | .dtype name => traced_ofElementType name
  | .scalarType name => traced_ofElementType (scalarTypeName name)
  | .scalar value => traced_ofScalar value
  | .primitive _ => .known _
  | .singleton _ => .known _
  | .missing | .boolean _ | .integer _ | .ratio _ | .double _ | .complex _ | .function _ | .array _
  | .dictionary _ _ => fun _ _ => trivial

theorem traced_all : ∀ values : List Value, ∀ value ∈ values, (ofValue value).Traced
  | [] => nofun
  | value :: rest =>
      List.forall_mem_cons.mpr ⟨Traced.ofValue value (traced_body value), traced_all rest⟩

theorem traced_first : ∀ arguments : List Value, ∀ part ∈ firstParts arguments, part.Traced
  | [] => nofun
  | first :: _ => by
      cases first with
      | tuple items => exact traced_parts (traced_all items)
      | _ => nofun

end

/-- The description of a value looks up nothing but parts analysed in the same way. -/
theorem traced_ofValue (value : Value) : (ofValue value).Traced := .ofValue value (traced_body value)

/-- The descriptors of storage elements are looked up for each other alone. -/
theorem storage_sources {storage : Storage} (member : storage ∈ storageOrder) {source : Value}
    (own : source ∈ (ofValue storage.element.descriptor).sources) :
    source ∈ storageOrder.map (·.element.descriptor) := by
  cases storage with
  | complexSingle =>
      rcases List.mem_pair.mp own with rfl | rfl
      · exact List.mem_map_of_mem member
      · exact List.mem_map.mpr ⟨.single, by decide, rfl⟩
  | complexDouble =>
      rcases List.mem_pair.mp own with rfl | rfl
      · exact List.mem_map_of_mem member
      · exact List.mem_map.mpr ⟨.double, by decide, rfl⟩
  | object => exact absurd member (by decide)
  | word kind =>
      cases kind <;> exact List.mem_singleton.mp own ▸ List.mem_map_of_mem member
  | _ => exact List.mem_singleton.mp own ▸ List.mem_map_of_mem member

mutual

/-- What is looked up for a part within a set is in the set, with all its own parts. -/
theorem within_sources {set : Set Value} : ∀ part : Descriptor, part.Within set →
    ∀ source ∈ part.sources, source ∈ set ∧ (ofValue source).Within set
  | .lookup origin part, within, source, present => by
      obtain ⟨inside, rfl, deeper⟩ := within
      rcases List.mem_cons.mp present with rfl | later
      · exact ⟨inside, inside, rfl, deeper⟩
      · exact within_sources _ deeper source later
  | .complexOf part, within, source, present => within_sources part within source present
  | .arrayOf element _, within, source, present => by
      rcases List.mem_append.mp present with stored | later
      · obtain ⟨storage, member, rfl⟩ := List.mem_map.mp stored
        refine ⟨within.1 storage member, traced_ofValue _ set fun other own => ?_⟩
        obtain ⟨kept, keptMember, rfl⟩ := List.mem_map.mp (storage_sources member own)
        exact within.1 kept keptMember
      · exact within_sources element within.2 source later
  | .cons parts, within, source, present => allWithin_sources parts within source present
  | .function parts _, within, source, present => allWithin_sources parts within source present
  | .functionTo parts result, within, source, present => by
      rcases List.mem_append.mp present with earlier | later
      · exact allWithin_sources parts within.1 source earlier
      · exact within_sources result within.2.2 source later
  | .sections origin items, within, source, present => by
      rcases List.mem_cons.mp present with rfl | later
      · refine ⟨within.1, within.1, rfl, ?_⟩
        rw [within.2.2.1]
        exact within
      · exact allWithin_sources items within.2.2.2 source later
  | .both parts, within, source, present => allWithin_sources parts within source present
  | .either parts, within, source, present => allWithin_sources parts within source present
  | .complement part, within, source, present => within_sources part within source present

theorem allWithin_sources {set : Set Value} : ∀ parts : List Descriptor, AllWithin set parts →
    ∀ source ∈ allSources parts, source ∈ set ∧ (ofValue source).Within set
  | part :: rest, within, source, present => by
      rcases List.mem_append.mp present with earlier | later
      · exact within_sources part within.1 source earlier
      · exact allWithin_sources rest within.2 source later

end

end Descriptor

end Narrowing
