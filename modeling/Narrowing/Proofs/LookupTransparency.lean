import Narrowing.Proofs.DescriptorParts
import Narrowing.Proofs.LookupRuns

/-
This file shows when earlier look-ups leave the results of later ones as they are.
-/

namespace Narrowing

namespace Descriptor

theorem resolve_ofValue (source : Value) :
    resolve (ofValue source) = Lookup.ntype source (resolve (body source)) := by
  rw [ofValue, resolve]

theorem ntype_eq_outcome (source : Value) :
    ntype source = (Lookup.ntype source (resolve (body source))).outcome .empty := by
  rw [← resolve_ofValue]
  rfl

section

variable {source origin : Value} {items : List Descriptor}

theorem ofPrimitive_ne_sections (primitive : Primitive) :
    ofPrimitive primitive ≠ .sections origin items := by
  cases primitive <;> nofun

theorem ofSymbol_ne_sections (name : String) : ofSymbol name ≠ .sections origin items := by
  intro analysed
  unfold ofSymbol at analysed
  split at analysed
  · cases analysed
  · split at analysed
    · rename_i named
      unfold alias? at named
      split at named <;> cases named <;> cases analysed
    · split at analysed <;> cases analysed

theorem ofElementType_ne_sections (name : String) :
    ofElementType name ≠ .sections origin items := by
  intro analysed
  unfold ofElementType at analysed
  split at analysed
  · cases analysed
  · exact ofPrimitive_ne_sections _ analysed
  · split at analysed <;> cases analysed

theorem ofScalar_ne_sections (value : Scalar) : ofScalar value ≠ .sections origin items := by
  intro analysed
  unfold ofScalar at analysed
  split at analysed
  · cases analysed
  · cases analysed
  · exact ofElementType_ne_sections _ analysed

theorem arrayOfPart_ne_sections (part : Option Descriptor) (sized : Bool) :
    arrayOfPart part sized ≠ .sections origin items := by
  intro analysed
  unfold arrayOfPart at analysed
  split at analysed
  · cases analysed
  · split at analysed <;> cases analysed

theorem ofFunction_ne_sections (arguments : List Value) (parts nested : List Descriptor) :
    ofFunction source arguments parts nested ≠ .sections origin items := by
  intro analysed
  rcases ofFunction_cases source arguments parts nested with
    ⟨_, same⟩ | ⟨_, _, _, same⟩ | same <;> cases same.symm.trans analysed

/-- Only the head of values gives sections, which keep the compound as their source. -/
theorem sections_of_ofHead {name : String} {arguments : List Value}
    {parts nested : List Descriptor}
    (analysed : ofHead source name arguments parts nested = .sections origin items) :
    name = "values" ∧ origin = source ∧ items = parts := by
  unfold ofHead at analysed
  split at analysed
  case h_13 =>
    cases analysed
    exact ⟨rfl, rfl, rfl⟩
  case h_8 | h_9 =>
    split at analysed
    · split at analysed
      · exact absurd analysed (arrayOfPart_ne_sections _ _)
      · cases analysed
    · exact absurd analysed (arrayOfPart_ne_sections _ _)
  case h_10 =>
    split at analysed
    · split at analysed
      · exact absurd analysed (arrayOfPart_ne_sections _ _)
      · cases analysed
    · exact absurd analysed (arrayOfPart_ne_sections _ _)
  case h_12 => exact absurd analysed (ofFunction_ne_sections _ _ _)
  case h_1 | h_2 | h_11 | h_14 | h_15 => cases analysed
  case h_3 | h_4 | h_5 | h_16 => split at analysed <;> cases analysed
  case h_6 | h_7 | h_17 =>
    split at analysed
    · first | cases analysed | (split at analysed <;> cases analysed)
    · first | cases analysed | (split at analysed <;> cases analysed)

theorem sections_of_compound {head : Value} {arguments : List Value}
    {parts nested : List Descriptor}
    (analysed : compound head arguments parts nested = .sections origin items) :
    head = .text "values" ∧ origin = .tuple (.text "values" :: arguments) ∧ items = parts := by
  unfold compound at analysed
  split at analysed
  · have whole {name : String} (given : ofHead (.tuple (.text name :: arguments)) name arguments
        parts nested = .sections origin items) : Value.text name = .text "values" ∧
        origin = .tuple (.text "values" :: arguments) ∧ items = parts := by
      obtain ⟨rfl, rfl, rfl⟩ := sections_of_ofHead given
      exact ⟨rfl, rfl, rfl⟩
    split at analysed
    · split at analysed
      · cases analysed
      · exact whole analysed
    · exact whole analysed
  · cases analysed

/-- A description gives sections if it is a compound of values, and they are those of its items. -/
theorem sections_of_body (analysed : body source = .sections origin items) :
    ∃ arguments, (source = .tuple (.text "values" :: arguments) ∨
      source = .list (.text "values" :: arguments)) ∧
      origin = .tuple (.text "values" :: arguments) ∧ items = parts arguments := by
  cases source with
  | text name => exact absurd analysed (ofSymbol_ne_sections name)
  | tuple values =>
      cases values with
      | nil => cases analysed
      | cons head arguments =>
          obtain ⟨rfl, rfl, rfl⟩ := sections_of_compound analysed
          exact ⟨arguments, .inl rfl, rfl, rfl⟩
  | list values =>
      cases values with
      | nil => cases analysed
      | cons head arguments =>
          obtain ⟨rfl, rfl, rfl⟩ := sections_of_compound analysed
          exact ⟨arguments, .inr rfl, rfl, rfl⟩
  | hostClass host => cases host <;> cases analysed
  | dtype name => exact absurd analysed (ofElementType_ne_sections name)
  | scalarType name => exact absurd analysed (ofElementType_ne_sections _)
  | scalar value => exact absurd analysed (ofScalar_ne_sections value)
  | _ => cases analysed

/-- A list of values and its sections are looked up by one key. -/
theorem sections_key (analysed : body source = .sections origin items) :
    origin.descriptorKey = source.descriptorKey := by
  obtain ⟨arguments, rfl | rfl, rfl, rfl⟩ := sections_of_body analysed <;> rfl

end

/-- A set of descriptions is faithful if it has all that is looked up for its members, and members
with one key denote types that agree. -/
structure Faithful (set : Set Value) : Prop where
  closed : ∀ source ∈ set, (ofValue source).Within set
  keys : ∀ first ∈ set, ∀ second ∈ set, first.descriptorKey = second.descriptorKey →
    OutcomesAgree Estimate.Agrees (ntype first) (ntype second)

/-- The type that a result for several values has as a description of one value. -/
def PrimaryAgrees (result : ValuesEstimate) (estimate : Estimate) : Prop :=
  (primaryEstimate result).Agrees estimate

section

variable {set : Set Value} {tables : Tables} {source : Value} {key : Key}

/-- A description without a key denotes nothing. -/
theorem ntype_of_keyless {part : Value} (keyless : source.descriptorKey = .error part) :
    ntype source = .error (.malformed .unhashable part) := by
  rw [ntype_eq_outcome]
  exact (Lookup.keyless_fails keyless .empty _ (pure ⟨.none, true, none⟩)).1.1

/-- The first look-up of a description computes its type. -/
theorem ntype_of_keyed (hasKey : source.descriptorKey = .ok key) :
    ntype source = (resolve (body source)).outcome { Tables.empty with misses := 1 } := by
  rw [ntype_eq_outcome]
  exact (Lookup.ntype_miss hasKey rfl _).1

theorem Tables.Valid.storeNtype (valid : tables.Valid set) (faithful : Faithful set)
    (member : source ∈ set) (hasKey : source.descriptorKey = .ok key) {result : Estimate}
    (agrees : OutcomesAgree Estimate.Agrees (.ok result) (ntype source)) :
    Tables.Valid set { tables with ntypes := tables.ntypes ++ [(key, result)] } := by
  refine ⟨fun other stored found origin originMember originKey => ?_, valid.values,
    valid.singletons⟩
  rcases Tables.find?_append found with earlier | ⟨rfl, rfl⟩
  · exact valid.ntypes other stored earlier origin originMember originKey
  · exact (faithful.keys origin originMember source member (originKey.trans hasKey.symm)).trans
      agrees.symm

theorem Tables.Valid.storeValues (valid : tables.Valid set) (faithful : Faithful set)
    (member : source ∈ set) (hasKey : source.descriptorKey = .ok key) {result : ValuesEstimate}
    (agrees : OutcomesAgree PrimaryAgrees (.ok result) (ntype source)) :
    Tables.Valid set { tables with values := tables.values ++ [(key, result)] } := by
  refine ⟨valid.ntypes, fun other stored found origin originMember named originKey => ?_,
    valid.singletons⟩
  rcases Tables.find?_append found with earlier | ⟨rfl, rfl⟩
  · exact valid.values other stored earlier origin originMember named originKey
  · have primary : OutcomesAgree Estimate.Agrees (ntype source) (.ok (primaryEstimate stored)) := by
      cases denoted : ntype source with
      | error fault =>
          rw [denoted] at agrees
          cases agrees
      | ok estimate =>
          rw [denoted] at agrees
          exact Estimate.Agrees.symm agrees
    exact (faithful.keys origin originMember source member (originKey.trans hasKey.symm)).trans
      primary

/-- A look-up settles a description if it always finds what the description denotes. -/
def Settles (set : Set Value) (lookup : Lookup Estimate) (source : Value) : Prop :=
  ∀ tables : Tables, tables.Valid set →
    OutcomesAgree Estimate.Agrees (lookup.outcome tables) (ntype source) ∧
      (lookup.after tables).Valid set

/-- The same for the values that a description denotes. -/
def SettlesValues (set : Set Value) (lookup : Lookup ValuesEstimate) (source : Value) : Prop :=
  ∀ tables : Tables, tables.Valid set →
    OutcomesAgree PrimaryAgrees (lookup.outcome tables) (ntype source) ∧
      (lookup.after tables).Valid set

theorem Settles.matches {first second : Lookup Estimate} (left : Settles set first source)
    (right : Settles set second source) : Matches set Estimate.Agrees first second := by
  intro leftTables rightTables leftValid rightValid
  obtain ⟨leftAgrees, leftAfter⟩ := left leftTables leftValid
  obtain ⟨rightAgrees, rightAfter⟩ := right rightTables rightValid
  exact ⟨leftAgrees.trans rightAgrees.symm, leftAfter, rightAfter⟩

theorem SettlesValues.matches {lookup : Lookup ValuesEstimate}
    (settles : SettlesValues set lookup source) : Matches set (fun _ _ => True) lookup lookup := by
  intro leftTables rightTables leftValid rightValid
  obtain ⟨leftAgrees, leftAfter⟩ := settles leftTables leftValid
  obtain ⟨rightAgrees, rightAfter⟩ := settles rightTables rightValid
  refine ⟨?_, leftAfter, rightAfter⟩
  generalize lookup.outcome leftTables = left at leftAgrees ⊢
  generalize lookup.outcome rightTables = right at rightAgrees ⊢
  generalize ntype source = denoted at leftAgrees rightAgrees
  cases left <;> cases right <;> cases denoted <;> trivial

/-- A look-up of a member settles it when the computation matches itself. -/
theorem settles_ntype (faithful : Faithful set) (member : source ∈ set)
    (computed : Matches set Estimate.Agrees (resolve (body source)) (resolve (body source))) :
    Settles set (Lookup.ntype source (resolve (body source))) source := by
  intro tables valid
  cases keyed : source.descriptorKey with
  | error part =>
      obtain ⟨failed, left⟩ :=
        (Lookup.keyless_fails keyed tables (resolve (body source)) (pure ⟨.none, true, none⟩)).1
      rw [failed, left, ntype_of_keyless keyed]
      exact ⟨trivial, valid⟩
  | ok key =>
      cases found : Tables.find? key tables.ntypes with
      | some result =>
          obtain ⟨hit, left⟩ := Lookup.ntype_hit keyed found (resolve (body source))
          rw [hit, left]
          exact ⟨(valid.ntypes key result found source member keyed).symm,
            valid.recount _ tables.misses tables.serial⟩
      | none =>
          obtain ⟨missed, left⟩ := Lookup.ntype_miss keyed found (resolve (body source))
          obtain ⟨agrees, after, _⟩ := computed _ { Tables.empty with misses := 1 }
            (valid.recount tables.hits (tables.misses + 1) tables.serial)
            ((Tables.valid_empty set).recount 0 1 0)
          rw [← ntype_of_keyed keyed] at agrees
          rw [missed, left]
          refine ⟨agrees, ?_⟩
          split
          · rename_i result computedResult
            rw [computedResult] at agrees
            exact after.storeNtype faithful member keyed agrees
          · exact after

/-- A look-up of the values of a member settles it when the computation does. -/
theorem settles_values (faithful : Faithful set) (member : source ∈ set)
    (named : source.isStar = false) {compute : Lookup ValuesEstimate}
    (computed : ∀ key, source.descriptorKey = .ok key → SettlesValues set compute source) :
    SettlesValues set (Lookup.values source compute) source := by
  intro tables valid
  cases keyed : source.descriptorKey with
  | error part =>
      obtain ⟨failed, left⟩ := (Lookup.keyless_fails keyed tables (pure ⟨.empty, true⟩) compute).2
      rw [failed, left, ntype_of_keyless keyed]
      exact ⟨trivial, valid⟩
  | ok key =>
      cases found : Tables.find? key tables.values with
      | some result =>
          obtain ⟨hit, left⟩ := Lookup.values_hit keyed found compute
          rw [hit, left]
          refine ⟨?_, valid.recount _ tables.misses tables.serial⟩
          have stored := valid.values key result found source member named keyed
          cases denoted : ntype source with
          | error fault =>
              rw [denoted] at stored
              cases stored
          | ok estimate =>
              rw [denoted] at stored
              exact Estimate.Agrees.symm stored
      | none =>
          obtain ⟨missed, left⟩ := Lookup.values_miss keyed found compute
          obtain ⟨agrees, after⟩ := computed key keyed _
            (valid.recount tables.hits (tables.misses + 1) tables.serial)
          rw [missed, left]
          refine ⟨agrees, ?_⟩
          split
          · rename_i result computedResult
            rw [computedResult] at agrees
            exact after.storeValues faithful member keyed agrees
          · exact after

end

end Descriptor

end Narrowing
