import Narrowing.Proofs.LeastClasses
import Narrowing.Proofs.Membership

/-
This file shows that the subtype answers decide inclusion of types.
-/

namespace Narrowing

/-- Every atom but that of the missing value holds two values that are not identical. -/
theorem Atom.exists_two {atom : Atom} (present : atom ≠ .null) :
    ∃ first second : Value, first.atom = atom ∧ second.atom = atom ∧
      first.identical second = false := by
  have bands : ∀ index : Fin 15, ∃ value ∈ (-Int.pow 2 63 - 1) :: integerCuts,
      Atom.ofInt value = .band index := by decide +kernel
  let grid (element : Storage) (shape : List Nat) (items : List Scalar) : Value :=
    .array ⟨false, .stored element, false, shape, items⟩
  have unkeyed : ∀ element shape items,
      (grid element shape items).identical (grid element shape items) = false := fun _ _ _ => rfl
  have twice : ∀ element shape items, (grid element shape items).atom = atom →
      ∃ first second : Value, first.atom = atom ∧ second.atom = atom ∧
        first.identical second = false :=
    fun element shape items held => ⟨_, _, held, held, unkeyed element shape items⟩
  cases atom with
  | band index =>
      obtain ⟨value, _, held⟩ := bands index
      have whole : (Value.ratio value).atom = Atom.ofInt value := by
        simp [Value.atom, Value.tier?, Value.numberAtom, Value.whole?]
      exact ⟨.integer value, .ratio value, held, whole.trans held, rfl⟩
  | ratio =>
      exact ⟨.ratio (1 / 2), .ratio (1 / 3), by decide +kernel, by decide +kernel, by decide +kernel⟩
  | half => exact twice .half [] [.half (.ofBits 0)] rfl
  | single => exact twice .single [] [.single 0.0] rfl
  | double => exact twice .double [] [.double 0.0] rfl
  | complexSingle => exact twice .complexSingle [] [.complexSingle ⟨0.0, 0.0⟩] rfl
  | complexDouble => exact twice .complexDouble [] [.complexDouble ⟨0.0, 0.0⟩] rfl
  | character => exact ⟨.text "a", .text "b", rfl, rfl, rfl⟩
  | string => exact ⟨.text "", .text "ab", rfl, rfl, rfl⟩
  | boolean => exact ⟨.boolean false, .boolean true, rfl, rfl, rfl⟩
  | null => exact absurd rfl present
  | cons => exact ⟨.tuple [.missing], .tuple [.text ""], rfl, rfl, rfl⟩
  | function => exact ⟨.function "abs", .function "len", rfl, rfl, rfl⟩
  | array storage => exact twice storage [0] [] rfl
  | other => exact ⟨.tuple [], .hostClass .integer, rfl, rfl, rfl⟩

theorem Atom.exists_value (atom : Atom) : ∃ value : Value, value.atom = atom := by
  by_cases absent : atom = .null
  · subst absent
    exact ⟨.missing, rfl⟩
  · obtain ⟨value, _, held, _⟩ := exists_two absent
    exact ⟨value, held⟩

/-- Only the missing value has its key. -/
theorem Value.eq_missing_of_key {value : Value} (found : value.key? = some .missing) :
    value = .missing := by
  cases value with
  | missing => rfl
  | tuple items =>
      rcases tupleKey?_cases found with impossible | ⟨_, _, impossible⟩ <;> cases impossible
  | _ => simp_all [key?]

namespace Ntype

/-- A type is interned if it is a class or the singleton that some value has. -/
def Interned : Ntype → Prop
  | .primitive _ => True
  | .singleton member => eql? member = some (.singleton member)

theorem eql?_of_ne {value : Value} (present : value ≠ .missing) :
    eql? value = value.key?.map fun _ => .singleton value := by
  cases value with
  | missing => exact absurd rfl present
  | _ => rfl

/-- A singleton exists for each value that has a key and is not the missing value. -/
theorem interned_singleton_iff {member : Value} :
    (singleton member).Interned ↔ ∃ key, member.key? = some key ∧ key ≠ .missing := by
  change eql? member = some (.singleton member) ↔ _
  by_cases absent : member = .missing
  · subst absent
    simp [eql?, null, Value.key?]
  · rw [eql?_of_ne absent, Option.map_eq_some_iff]
    constructor
    · rintro ⟨key, hasKey, _⟩
      refine ⟨key, hasKey, ?_⟩
      rintro rfl
      exact absent (Value.eq_missing_of_key hasKey)
    · rintro ⟨key, hasKey, _⟩
      exact ⟨key, hasKey, rfl⟩

/-- The value of a singleton lies in it. -/
theorem Interned.contains_member {member : Value} (interned : (singleton member).Interned) :
    (singleton member).contains member = true := by
  obtain ⟨key, hasKey, _⟩ := interned_singleton_iff.mp interned
  exact Value.identical_iff.mpr ⟨key, hasKey, hasKey⟩

/-- Only the empty class lies in a singleton. -/
theorem eq_empty_of_subset {primitive : Primitive} {member : Value}
    (interned : (singleton member).Interned)
    (included : ∀ value : Value, primitive.atoms.contains value.atom = true →
      value.identical member = true) : primitive = .empty := by
  by_contra inhabited
  obtain ⟨atom, present⟩ := Primitive.exists_contains inhabited
  by_cases absent : atom = .null
  · subst absent
    obtain ⟨key, missingKey, memberKey⟩ := Value.identical_iff.mp (included .missing present)
    obtain ⟨own, ownKey, filled⟩ := interned_singleton_iff.mp interned
    rw [memberKey] at ownKey
    cases ownKey
    cases missingKey
    exact filled rfl
  · obtain ⟨left, right, leftAtom, rightAtom, apart⟩ := Atom.exists_two absent
    have leftSame := included left (leftAtom ▸ present)
    have rightSame := included right (rightAtom ▸ present)
    rw [Value.identical_comm] at rightSame
    rw [Value.identical_trans leftSame rightSame] at apart
    cases apart

theorem same_iff_proves_singletons {first second : Value} :
    (singleton first).proves (.singleton second) = true ↔ first.identical second = true := by
  unfold proves subtype
  cases same : (singleton first).same (.singleton second) with
  | true => simpa [Ntype.same] using same
  | false => simpa [Ntype.same] using same

theorem proves_singleton_primitive {member : Value} {primitive : Primitive} :
    (singleton member).proves (.primitive primitive) = true ↔
      primitive.atoms.contains member.atom = true := Iff.rfl

theorem proves_primitive_singleton {primitive : Primitive} {member : Value} :
    (Ntype.primitive primitive).proves (.singleton member) = true ↔ primitive = .empty := by
  simp [proves, subtype, Ntype.same, isEmpty]

/-- A proven subtype is an included type, and the other way round. -/
theorem proves_iff_subset {first second : Ntype} (firstInterned : first.Interned)
    (secondInterned : second.Interned) :
    first.proves second = true ↔
      ∀ value, first.contains value = true → second.contains value = true := by
  constructor
  · intro proven value inside
    exact contains_of_proves proven inside
  · intro included
    cases first with
    | singleton member =>
        have inside := included member firstInterned.contains_member
        cases second with
        | singleton other => exact same_iff_proves_singletons.mpr inside
        | primitive right => exact inside
    | primitive left =>
        cases second with
        | singleton member =>
            exact proves_primitive_singleton.mpr (eq_empty_of_subset secondInterned included)
        | primitive right =>
            refine proves_primitive_iff.mpr (AtomSet.within_iff.mpr fun atom present => ?_)
            obtain ⟨value, rfl⟩ := atom.exists_value
            exact included value present

theorem subtype_precise (first second : Ntype) : (first.subtype second).precise = true := by
  unfold subtype
  split
  · rfl
  · split <;> rfl

end Ntype

end Narrowing
