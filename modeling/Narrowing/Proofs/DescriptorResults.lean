import Narrowing.Proofs.LookupHistories

/-
This file finds the types of compound descriptions from the types of their parts.
-/

namespace Narrowing

namespace Descriptor

/-- The values whose look-ups are transparent. -/
def plainValues : Set Value := {value | value.isPlain = true}

/-- A value with a key can be looked up. -/
def Keyed (value : Value) : Prop := ∃ key, value.descriptorKey = .ok key

/-- A plain value with a key has a type that no earlier look-up changes, or none. -/
def Describable (value : Value) : Prop := value.isPlain = true ∧ Keyed value

theorem keys_of_keyed {values : List Value} (keyed : ∀ value ∈ values, Keyed value) :
    ∃ key, Value.descriptorKeys values = .ok key := by
  induction values with
  | nil => exact ⟨.emptyTuple, rfl⟩
  | cons value rest inductionHypothesis =>
      obtain ⟨⟨head, own⟩, later⟩ := List.forall_mem_cons.mp keyed
      obtain ⟨tail, others⟩ := inductionHypothesis later
      exact ⟨.tuple head tail, by simp only [Value.descriptorKeys, own, others]⟩

theorem keyed_compound {head : String} {values : List Value}
    (keyed : ∀ value ∈ values, Keyed value) : Keyed (.tuple (.text head :: values)) := by
  obtain ⟨key, found⟩ := keys_of_keyed keyed
  exact ⟨.tuple (.text head) key, by simp only [Value.descriptorKey, Value.descriptorKeys, found]⟩

theorem describable_compound {head : String} {values : List Value}
    (each : ∀ value ∈ values, Describable value) :
    Describable (.tuple (.text head :: values)) :=
  ⟨Value.arePlain_iff.mpr (List.forall_mem_cons.mpr ⟨rfl, fun value member => (each value member).1⟩),
    keyed_compound fun value member => (each value member).2⟩

/-- The type of a description is computed once it has a key. -/
theorem exists_computed {source : Value} (keyed : Keyed source) :
    ntype source = (resolve (body source)).outcome { Tables.empty with misses := 1 } := by
  obtain ⟨key, hasKey⟩ := keyed
  exact ntype_of_keyed hasKey

section

variable {tables : Tables}

theorem valid_computing : Tables.Valid plainValues { Tables.empty with misses := 1 } :=
  (Tables.valid_empty plainValues).recount 0 1 0

/-- A part is found with a type that agrees with the type that it denotes. -/
theorem resolve_found (valid : tables.Valid plainValues) {value : Value}
    (plain : value.isPlain = true) {estimate : Estimate} (denoted : ntype value = .ok estimate) :
    ∃ found, (resolve (ofValue value)).outcome tables = .ok found ∧ found.Agrees estimate ∧
      ((resolve (ofValue value)).after tables).Valid plainValues := by
  obtain ⟨agrees, after⟩ := settles_ntypeOf faithful_plain plain tables valid
  rw [denoted] at agrees
  unfold ntypeOf at agrees after
  cases outcome : (resolve (ofValue value)).outcome tables with
  | error fault =>
      rw [outcome] at agrees
      cases agrees
  | ok found =>
      rw [outcome] at agrees
      exact ⟨found, rfl, agrees, after⟩

/-- The estimates that some values denote. -/
def Denoted (values : List Value) (estimates : List Estimate) : Prop :=
  List.Forall₂ (fun value estimate => Describable value ∧ ntype value = .ok estimate) values
    estimates

theorem Denoted.keyed {values : List Value} {estimates : List Estimate}
    (denoted : Denoted values estimates) : ∀ value ∈ values, Keyed value := by
  induction denoted with
  | nil => exact nofun
  | cons own _ inductionHypothesis => exact List.forall_mem_cons.mpr ⟨own.1.2, inductionHypothesis⟩

theorem resolveAll_found {values : List Value} {estimates : List Estimate}
    (denoted : Denoted values estimates) (valid : tables.Valid plainValues) :
    ∃ found, (resolveAll (parts values)).outcome tables = .ok found ∧
      List.Forall₂ Estimate.Agrees found estimates := by
  induction denoted generalizing tables with
  | nil => exact ⟨[], by rw [parts, resolveAll]; rfl, .nil⟩
  | @cons value estimate rest others own _ inductionHypothesis =>
      obtain ⟨first, firstOutcome, firstAgrees, after⟩ := resolve_found valid own.1.1 own.2
      obtain ⟨found, outcome, agree⟩ := inductionHypothesis after
      refine ⟨first :: found, ?_, .cons firstAgrees agree⟩
      unfold ofValue at firstOutcome outcome
      simp only [parts, resolveAll, Lookup.outcome_bind, firstOutcome, outcome, Lookup.outcome_pure]

end

/-- The type of all parts together, exact when the parts are. -/
def combined (combine : List Ntype → Estimate) (estimates : List Estimate) : Estimate :=
  ⟨(combine (estimates.map Estimate.ntype)).ntype,
    (combine (estimates.map Estimate.ntype)).precise && estimates.all Estimate.precise⟩

/-- A description that combines the types of its parts denotes what their estimates give. -/
theorem ntype_combined {combine : List Ntype → Estimate}
    (respects : ∀ left right : List Ntype, List.Forall₂ Ntype.Agrees left right →
      (combine left).Agrees (combine right)) {head : String} {values : List Value}
    (analysed : resolve (body (.tuple (.text head :: values))) =
      resolveAll (parts values) >>= fun estimates => pure (combined combine estimates))
    {estimates : List Estimate} (denoted : Denoted values estimates) :
    ∃ result, ntype (.tuple (.text head :: values)) = .ok result ∧
      result.Agrees (combined combine estimates) := by
  obtain ⟨found, outcome, agree⟩ := resolveAll_found denoted valid_computing
  obtain ⟨ntypes, precise⟩ := respects _ _ (ntypes_agree agree)
  refine ⟨combined combine found, ?_, ntypes, ?_⟩
  · rw [exists_computed (keyed_compound denoted.keyed), analysed, Lookup.outcome_bind, outcome]
    rfl
  · simp only [combined, precise, all_eq agree fun one two agrees => agrees.2]

/-- A conjunction denotes the intersection of its parts. -/
theorem ntype_both {values : List Value} {estimates : List Estimate}
    (denoted : Denoted values estimates) :
    ∃ result, ntype (.tuple (.text "and" :: values)) = .ok result ∧
      result.Agrees (combined Ntype.intersectAll estimates) := by
  have analysed : body (.tuple (.text "and" :: values)) = .both (parts values) := rfl
  refine ntype_combined (fun _ _ => Ntype.intersectAll_agrees) ?_ denoted
  rw [analysed, resolve]
  rfl

/-- A disjunction denotes the union of its parts. -/
theorem ntype_either {values : List Value} {estimates : List Estimate}
    (denoted : Denoted values estimates) :
    ∃ result, ntype (.tuple (.text "or" :: values)) = .ok result ∧
      result.Agrees (combined Ntype.unionAll estimates) := by
  have analysed : body (.tuple (.text "or" :: values)) = .either (parts values) := rfl
  refine ntype_combined (fun _ _ => Ntype.unionAll_agrees) ?_ denoted
  rw [analysed, resolve]
  rfl

/-- A negation denotes the complement of its part. -/
theorem ntype_complement {value : Value} {estimate : Estimate} (described : Describable value)
    (denoted : ntype value = .ok estimate) :
    ∃ result, ntype (.tuple [.text "not", value]) = .ok result ∧
      result.Agrees (complementOf estimate) := by
  have analysed : body (.tuple [.text "not", value]) = .complement (ofValue value) := rfl
  obtain ⟨found, outcome, agrees, _⟩ := resolve_found valid_computing described.1 denoted
  refine ⟨_, ?_, complementOf_agrees agrees⟩
  rw [exists_computed (keyed_compound (List.forall_mem_singleton.mpr described.2)), analysed, resolve,
    Lookup.outcome_bind, outcome]
  rfl

/-- The singletons of some values are united from the left. -/
theorem memberUnion_found {source : Value} {values : List Value} {ntypes : List Ntype}
    (interned : List.Forall₂ (fun value ntype => Ntype.eql? value = some ntype) values ntypes)
    {tables : Tables} (valid : tables.Valid plainValues) {first second : Estimate}
    (starts : first.Agrees second) :
    ∃ found, (memberUnion source values first).outcome tables = .ok found ∧
      found.Agrees (ntypes.foldl (fun result ntype =>
        let next := result.ntype.union ntype
        (⟨next.ntype, result.precise && next.precise⟩ : Estimate)) second) := by
  induction interned generalizing tables first second with
  | nil => exact ⟨first, rfl, starts⟩
  | @cons value ntype rest others own _ inductionHypothesis =>
      obtain ⟨single, outcome, agrees, after⟩ := singleton?_agrees valid value
      rw [own] at agrees
      cases single with
      | none => cases agrees
      | some single =>
          have united := starts.1.union agrees
          let grown (result : Estimate) (ntype : Ntype) : Estimate :=
            ⟨(result.ntype.union ntype).ntype,
              result.precise && (result.ntype.union ntype).precise⟩
          have next : (grown first single).Agrees (grown second ntype) :=
            ⟨united.1, by simp only [grown, starts.2, united.2]⟩
          obtain ⟨found, final, agree⟩ := inductionHypothesis after next
          refine ⟨found, ?_, agree⟩
          simp only [memberUnion, Lookup.outcome_bind, outcome]
          exact final

/-- An enumeration denotes the union of the singletons of its values. -/
theorem ntype_member {values : List Value} {ntypes : List Ntype}
    (keyed : ∀ value ∈ values, Keyed value)
    (interned : List.Forall₂ (fun value ntype => Ntype.eql? value = some ntype) values ntypes) :
    ∃ result, ntype (.tuple (.text "member" :: values)) = .ok result ∧
      result.Agrees (Ntype.unionAll ntypes) := by
  have analysed : body (.tuple (.text "member" :: values)) =
      .member (.tuple (.text "member" :: values)) values := rfl
  obtain ⟨found, outcome, agrees⟩ :=
    @memberUnion_found (.tuple (.text "member" :: values)) values ntypes interned _ valid_computing
      ⟨.empty, true⟩ ⟨.empty, true⟩ (.refl _)
  refine ⟨found, ?_, agrees⟩
  rw [exists_computed (keyed_compound keyed), analysed, resolve, outcome]

/-- The type of an interval of integers is found when it is described. -/
theorem ntype_integers {source : Value} {interval : Interval} (keyed : Keyed source)
    (analysed : body source = .integers interval) :
    ntype source = .ok (Ntype.ofInterval interval) := by
  rw [exists_computed keyed, analysed, resolve]
  rfl

/-- A known type is found when it is described. -/
theorem ntype_known {source : Value} {ntype : Ntype} (keyed : Keyed source)
    (analysed : body source = .known ntype) : Descriptor.ntype source = .ok ⟨ntype, true⟩ := by
  rw [exists_computed keyed, analysed, resolve]
  rfl

/-- A class of complex numbers is found by the class of its parts. -/
theorem ntype_complexOf {source : Value} {part : Primitive} (keyed : Keyed source)
    (analysed : body source = .complexOf (ofValue part.descriptor))
    (plain : part.descriptor.isPlain = true)
    (denoted : ntype part.descriptor = .ok ⟨.primitive part, true⟩) :
    ntype source = .ok ⟨.primitive (Ntype.primitive part).complexOfPart, true⟩ := by
  obtain ⟨found, outcome, agrees, _⟩ := resolve_found valid_computing plain denoted
  rw [exists_computed keyed, analysed, resolve, Lookup.outcome_bind, outcome]
  simp only [Lookup.outcome_pure, agrees.1.complexOfPart_eq, agrees.2]

/-- A class that is not a class of arrays is found by its descriptor. -/
theorem ntype_element {primitive : Primitive} (plain : ∀ storage, primitive ≠ .arrayOf storage) :
    ntype primitive.descriptor = .ok ⟨.primitive primitive, true⟩ := by
  have single : ntype (.text "single-float") = .ok ⟨.primitive .singleFloat, true⟩ :=
    ntype_known ⟨_, rfl⟩ rfl
  have double : ntype (.text "double-float") = .ok ⟨.primitive .doubleFloat, true⟩ :=
    ntype_known ⟨_, rfl⟩ rfl
  cases primitive with
  | integers narrowed =>
      cases narrowed with
      | bit | integer => exact ntype_known ⟨_, rfl⟩ rfl
      | _ => exact Eq.trans (ntype_integers ⟨_, rfl⟩ rfl) rfl
  | complexSingle => exact @ntype_complexOf _ .singleFloat ⟨_, rfl⟩ rfl rfl single
  | complexDouble => exact @ntype_complexOf _ .doubleFloat ⟨_, rfl⟩ rfl rfl double
  | arrayOf storage => exact absurd rfl (plain storage)
  | _ => exact ntype_known ⟨_, rfl⟩ rfl

/-- The storage class that keeps the elements of a type. -/
def storageOf (element : Ntype) : Storage :=
  (storageOrder.find? fun storage => element.proves (.primitive storage.element)).getD .object

theorem storageOf_agrees {first second : Ntype} (agrees : first.Agrees second) :
    storageOf first = storageOf second := by
  simp only [storageOf, agrees.proves_eq (.refl _)]

/-- The storage classes are tried in order. -/
theorem storageFor_found {order : List Storage} (known : ∀ storage ∈ order, storage ∈ storageOrder)
    (element : Ntype) {tables : Tables} (valid : tables.Valid plainValues) :
    (storageFor element order).outcome tables =
      .ok ((order.find? fun storage => element.proves (.primitive storage.element)).getD .object) := by
  induction order generalizing tables with
  | nil => rfl
  | cons storage rest inductionHypothesis =>
      obtain ⟨member, later⟩ := List.forall_mem_cons.mp known
      have denoted : ntype storage.element.descriptor = .ok ⟨.primitive storage.element, true⟩ :=
        ntype_element fun other same => by cases storage <;> cases same
      have described : storage.element.descriptor.isPlain = true := by
        cases storage with
        | word kind => cases kind <;> rfl
        | _ => rfl
      obtain ⟨found, outcome, agrees, after⟩ := resolve_found valid described denoted
      rw [← lookupPrimitive_element member] at outcome after
      simp only [storageFor, Lookup.outcome_bind, outcome, List.find?_cons,
        Ntype.Agrees.proves_eq (.refl element) agrees.1]
      cases element.proves (.primitive storage.element) with
      | true => rfl
      | false => exact inductionHypothesis later after

/-- A class of arrays is found by the type of its elements. -/
theorem ntype_arrayOf {source value : Value} {sized : Bool} {estimate : Estimate}
    (keyed : Keyed source) (analysed : body source = .arrayOf (ofValue value) sized)
    (plain : value.isPlain = true) (denoted : ntype value = .ok estimate) :
    ntype source = .ok ⟨.primitive (.arrayOf (storageOf estimate.ntype)),
      estimate.precise && !sized⟩ := by
  obtain ⟨found, outcome, agrees, after⟩ := resolve_found valid_computing plain denoted
  have kept : (storageFor found.ntype storageOrder).outcome _ = .ok (storageOf found.ntype) :=
    storageFor_found (fun _ member => member) found.ntype after
  rw [exists_computed keyed, analysed, resolve, Lookup.outcome_bind, outcome]
  simp only [Lookup.outcome_bind, Lookup.outcome_pure, kept, storageOf_agrees agrees.1, agrees.2]

/-- The class of elements of a storage class is kept there. -/
theorem storageOf_element (storage : Storage) :
    storageOf (.primitive storage.element) = storage := by
  have each : ∀ storage ∈ Storage.all, storageOf (.primitive storage.element) = storage := by
    decide +kernel
  exact each storage storage.mem_all

/-- Every class is found by its own descriptor. -/
theorem ntype_descriptor (primitive : Primitive) :
    ntype primitive.descriptor = .ok ⟨.primitive primitive, true⟩ := by
  cases primitive with
  | arrayOf storage =>
      have noArray : ∀ other, storage.element ≠ .arrayOf other := by
        intro other same
        cases storage <;> cases same
      have described : storage.element.descriptor.isPlain = true ∧
          Keyed (Primitive.arrayOf storage).descriptor ∧
          body (Primitive.arrayOf storage).descriptor =
            .arrayOf (ofValue storage.element.descriptor) false := by
        cases storage with
        | word kind => cases kind <;> exact ⟨rfl, ⟨_, rfl⟩, rfl⟩
        | _ => exact ⟨rfl, ⟨_, rfl⟩, rfl⟩
      obtain ⟨plain, keyed, analysed⟩ := described
      rw [ntype_arrayOf keyed analysed plain (ntype_element noArray), storageOf_element]
      rfl
  | _ => exact ntype_element nofun

end Descriptor

end Narrowing
