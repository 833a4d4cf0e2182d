import Narrowing.Proofs.IntegerBands

/-
This file says which values the primitive classes stand for, without their atoms.
-/

namespace Narrowing

namespace Value

/-- An array with axes whose elements a storage class keeps; a list keeps objects. -/
def StoredIn (storage : Storage) : Value → Prop
  | .list _ => storage = .object
  | .array grid =>
      grid.shape.isEmpty = false ∧
        match grid.element with
        | .stored own => own = storage
        | .foreign _ => storage = .object
  | _ => False

/-- A truth value of the host, a truth scalar or an array of one truth value without axes. -/
def IsTruth (value : Value) : Prop :=
  value.tier? = none ∧
    match value with
    | .boolean _ | .scalar _ => True
    | .array grid => grid.shape.isEmpty = true ∧ grid.element = .stored .boolean
    | _ => False

/-- What a value of an atom is, when the atom holds no numbers. -/
def OfKind : Atom → Value → Prop
  | .character, value => ∃ name, value = .text name ∧ name.length = 1
  | .string, value => ∃ name, value = .text name ∧ name.length ≠ 1
  | .boolean, value => value.IsTruth
  | .null, value => value = .missing
  | .cons, value => ∃ first rest, value = .tuple (first :: rest)
  | .function, value => ∃ name, value = .function name
  | .array storage, value => value.StoredIn storage
  | _, _ => True

theorem atom_of_other (value : Value) : value.tier? = none →
    value.atom =
      match value with
      | .missing => .null
      | .boolean _ | .scalar _ => .boolean
      | .text name => if name.length = 1 then .character else .string
      | .tuple items => if items.isEmpty then .other else .cons
      | .list _ => .array .object
      | .array grid => arrayAtom grid
      | .function _ => .function
      | _ => .other := by
  intro other
  unfold atom
  generalize value.tier? = own at other ⊢
  subst other
  cases value <;> rfl

/-- A value that is no number is of the kind that its atom names. -/
theorem ofKind_atom {value : Value} (other : value.tier? = none) : value.OfKind value.atom := by
  rw [atom_of_other _ other]
  cases value with
  | missing => exact rfl
  | boolean | scalar => exact ⟨other, trivial⟩
  | text name =>
      simp only
      split
      · exact ⟨name, rfl, ‹_›⟩
      · exact ⟨name, rfl, ‹_›⟩
  | tuple items =>
      cases items with
      | nil => trivial
      | cons first rest => exact ⟨first, rest, rfl⟩
  | list items => exact rfl
  | function name => exact ⟨name, rfl⟩
  | array grid =>
      simp only [arrayAtom]
      split
      · split
        · exact ⟨other, ‹_›, ‹_›⟩
        · trivial
      · rename_i axes
        split <;> rename_i kept
        · exact ⟨Bool.eq_false_iff.mpr axes, by rw [kept]⟩
        · exact ⟨Bool.eq_false_iff.mpr axes, by rw [kept]⟩
  | _ => trivial

/-- An array with axes is no number. -/
theorem tier?_of_stored {value : Value} {storage : Storage} (stored : value.StoredIn storage) :
    value.tier? = none := by
  cases value with
  | list items => rfl
  | array grid =>
      have single : grid.scalar? = none := by
        unfold NumberArray.scalar?
        rw [stored.1]
        rfl
      simp only [tier?, single, Option.bind_none]
  | _ => cases stored

/-- The atom of a value follows from its kind. -/
theorem atom_of_kind {value : Value} {atom : Atom} (ofKind : value.OfKind atom)
    (other : atom.tier? = none) (named : atom ≠ .other) : value.atom = atom := by
  cases atom with
  | character | string =>
      obtain ⟨name, rfl, size⟩ := ofKind
      rw [atom_of_other _ rfl]
      simp [size]
  | boolean =>
      obtain ⟨otherValue, truth⟩ := ofKind
      rw [atom_of_other _ otherValue]
      cases value with
      | boolean | scalar => rfl
      | array grid => simp only [arrayAtom, truth.1, truth.2, if_true]
      | _ => cases truth
  | null =>
      obtain rfl := ofKind
      rfl
  | cons =>
      obtain ⟨first, rest, rfl⟩ := ofKind
      rfl
  | function =>
      obtain ⟨name, rfl⟩ := ofKind
      rfl
  | array storage =>
      rw [atom_of_other _ (tier?_of_stored ofKind)]
      cases value with
      | list items =>
          cases ofKind
          rfl
      | array grid =>
          obtain ⟨axes, kept⟩ := ofKind
          simp only [arrayAtom, axes]
          cases element : grid.element <;> simp_all
      | _ => cases ofKind
  | other => exact absurd rfl named
  | _ => cases other

theorem atom_eq_iff {value : Value} {atom : Atom} (other : atom.tier? = none)
    (named : atom ≠ .other) : atom = value.atom ↔ value.OfKind atom := by
  constructor
  · rintro rfl
    exact ofKind_atom (by rw [← atom_tier?, other])
  · exact fun ofKind => (atom_of_kind ofKind other named).symm

end Value

namespace Primitive

/-- The tiers of a class that holds all numbers of some tiers and nothing else. -/
def numberTiers? : Primitive → Option (List Tier)
  | .ratio => some [.rational]
  | .rational => some [.integer, .rational]
  | .shortFloat => some [.float16]
  | .singleFloat => some [.float32]
  | .doubleFloat => some [.float64]
  | .float => some [.float16, .float32, .float64]
  | .real => some [.integer, .rational, .float16, .float32, .float64]
  | .complexSingle => some [.complex64]
  | .complexDouble => some [.complex128]
  | .complex => some [.complex64, .complex128]
  | .number => some Tier.all
  | _ => none

/-- The meaning of a class that is not a class of whole tiers. -/
def DescribesKind : Primitive → Value → Prop
  | .integers narrowed, value =>
      ∃ whole, value.whole? = some whole ∧ narrowed.interval.contains whole = true
  | .character, value => ∃ name, value = .text name ∧ name.length = 1
  | .string, value => ∃ name, value = .text name ∧ name.length ≠ 1
  | .boolean, value => value.IsTruth
  | .null, value => value = .missing
  | .cons, value => ∃ first rest, value = .tuple (first :: rest)
  | .list, value => value = .missing ∨ ∃ first rest, value = .tuple (first :: rest)
  | .function, value => ∃ name, value = .function name
  | .arrayOf storage, value => value.StoredIn storage
  | .array, value => ∃ storage, value.StoredIn storage
  | .universal, _ => True
  | _, _ => False

/-- A value belongs to a class by its tier or by its kind. -/
def Describes (primitive : Primitive) (value : Value) : Prop :=
  match primitive.numberTiers? with
  | some tiers => ∃ tier ∈ tiers, value.tier? = some tier
  | none => primitive.DescribesKind value

/-- The atoms of a class of whole tiers are the atoms of the tiers. -/
theorem contains_numberTiers {primitive : Primitive} {tiers : List Tier}
    (numeric : primitive.numberTiers? = some tiers) (atom : Atom) :
    primitive.atoms.contains atom = tiers.any fun tier => atom.tier? == some tier := by
  have each : ∀ primitive ∈ all, primitive.numberTiers?.all fun tiers => Atom.all.all fun atom =>
      primitive.atoms.contains atom == tiers.any fun tier => atom.tier? == some tier := by
    decide +kernel
  have own := each primitive primitive.mem_all
  rw [numeric] at own
  exact beq_iff_eq.mp (List.all_eq_true.mp own atom atom.mem_all)

/-- A class holds the values that it stands for. -/
theorem contains_iff_describes {primitive : Primitive} {value : Value} :
    (Ntype.primitive primitive).contains value = true ↔ primitive.Describes value := by
  rw [Ntype.contains_primitive]
  unfold Describes
  cases numeric : primitive.numberTiers? with
  | some tiers =>
      rw [contains_numberTiers numeric, List.any_eq_true, Value.atom_tier?]
      simp only [beq_iff_eq]
  | none =>
      simp only
      have kind {atom : Atom} (other : atom.tier? = none) (named : atom ≠ .other) :
          (AtomSet.singleton atom).contains value.atom = true ↔ value.OfKind atom :=
        (AtomSet.contains_singleton atom value.atom).trans (Value.atom_eq_iff other named)
      cases primitive with
      | empty => exact iff_of_false (by simp [atoms]) not_false
      | integers narrowed =>
          constructor
          · intro present
            obtain ⟨index, banded, _⟩ := AtomSet.contains_ofInterval.mp present
            obtain ⟨whole, isWhole⟩ := Value.exists_whole banded
            rw [Value.atom_of_whole isWhole] at present
            exact ⟨whole, isWhole, IntegerClass.contains_iff.mp present⟩
          · rintro ⟨whole, isWhole, inside⟩
            rw [Value.atom_of_whole isWhole]
            exact IntegerClass.contains_iff.mpr inside
      | character | string | boolean | null | cons | function | arrayOf => exact kind rfl (by simp)
      | list =>
          refine (AtomSet.contains_ofList _ _).trans ?_
          rw [List.mem_pair, eq_comm, @Value.atom_eq_iff value .null rfl (by simp),
            @eq_comm _ value.atom, @Value.atom_eq_iff value .cons rfl (by simp)]
          rfl
      | array =>
          refine (AtomSet.contains_ofList _ _).trans (List.mem_map.trans ?_)
          have stored (storage : Storage) :=
            @Value.atom_eq_iff value (.array storage) rfl (by simp)
          constructor
          · rintro ⟨storage, _, same⟩
            exact ⟨storage, (stored storage).mp same⟩
          · rintro ⟨storage, inside⟩
            exact ⟨storage, storage.mem_all, (stored storage).mpr inside⟩
      | universal => exact iff_of_true (atoms_universal _) trivial
      | _ => cases numeric

end Primitive

namespace Ntype

/-- The type of one value that has a key. -/
def single (value : Value) : Ntype := (eql? value).getD .empty

variable {value : Value} {key : Key}

theorem eql?_of_key (hasKey : value.key? = some key) : eql? value = some (single value) := by
  by_cases missing : value = .missing
  · subst missing
    rfl
  · rw [single, eql?_of_ne missing, hasKey]
    rfl

theorem single_cases (hasKey : value.key? = some key) :
    (value = .missing ∧ single value = .null) ∨
      (key ≠ .missing ∧ single value = .singleton value) := by
  by_cases missing : value = .missing
  · subst missing
    exact .inl ⟨rfl, rfl⟩
  · refine .inr ⟨?_, by rw [single, eql?_of_ne missing, hasKey]; rfl⟩
    rintro rfl
    exact missing (Value.eq_missing_of_key hasKey)

/-- The type of one value holds the values that are identical to it. -/
theorem contains_single (hasKey : value.key? = some key) {other : Value} :
    (single value).contains other = true ↔ other.identical value = true := by
  rcases single_cases hasKey with ⟨rfl, single⟩ | ⟨_, single⟩
  · rw [single]
    refine Primitive.contains_iff_describes.trans ⟨?_, fun same => ?_⟩
    · rintro rfl
      rfl
    · obtain ⟨own, otherKey, missingKey⟩ := Value.identical_iff.mp same
      cases missingKey
      exact Value.eq_missing_of_key otherKey
  · rw [single]
    exact Iff.rfl

theorem interned_single (hasKey : value.key? = some key) : (single value).Interned := by
  rcases single_cases hasKey with ⟨_, single⟩ | ⟨present, single⟩
  · rw [single]
    trivial
  · rw [single]
    exact interned_singleton_iff.mpr ⟨key, hasKey, present⟩

theorem single_same (hasKey : value.key? = some key) :
    (single value).same (single value) = true := by
  rcases single_cases hasKey with ⟨_, single⟩ | ⟨_, single⟩
  · rw [single]
    rfl
  · rw [single]
    exact Value.identical_iff.mpr ⟨key, hasKey, hasKey⟩

end Ntype

end Narrowing
