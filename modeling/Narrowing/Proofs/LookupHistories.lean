import Narrowing.Proofs.PlainDescriptions

/-
This file says when the outcome of a look-up does not depend on the calls before it.
-/

namespace Narrowing

namespace Descriptor

/-- A call looks up the type that a value describes, or the values. -/
inductive Call where
  | ntype (source : Value)
  | values (source : Value)

namespace Call

def source : Call → Value
  | .ntype source => source
  | .values source => source

/-- The tables that a call leaves behind. -/
def after (tables : Tables) : Call → Tables
  | .ntype source => (ntypeOf source).after tables
  | .values source => (valuesOf source).after tables

end Call

/-- The tables after some calls that started with empty ones. -/
def tablesAfter (calls : List Call) : Tables := calls.foldl Call.after .empty

/-- Earlier calls on members of the set leave the outcome of a look-up of a member as it is. -/
def Transparent (set : Set Value) : Prop :=
  ∀ calls : List Call, (∀ call ∈ calls, call.source ∈ set) → ∀ value ∈ set,
    OutcomesAgree Estimate.Agrees ((ntypeOf value).outcome (tablesAfter calls)) (ntype value)

variable {set : Set Value} {tables : Tables}

/-- Only the wildcard has the key of the wildcard. -/
theorem eq_of_text_key {source : Value} {name : String}
    (hasKey : source.descriptorKey = .ok (.text name)) : source = .text name := by
  have noText : ∀ items : List Value, Value.descriptorKeys items ≠ .ok (.text name) := by
    intro items found
    cases items with
    | nil => cases found
    | cons item rest =>
        obtain ⟨_, _, _, _, same⟩ := Value.keys_of_cons found
        cases same
  cases source with
  | text other =>
      cases hasKey
      rfl
  | tuple items => exact absurd hasKey (noText items)
  | list items => exact absurd hasKey (noText items)
  | scalar value => cases value <;> cases hasKey
  | singleton value =>
      simp only [Value.descriptorKey] at hasKey
      split at hasKey <;> cases hasKey
  | _ => cases hasKey

theorem settles_ntypeOf (faithful : Faithful set) {source : Value} (member : source ∈ set) :
    Settles set (ntypeOf source) source := by
  have within := faithful.closed source member
  unfold ntypeOf
  rw [resolve_ofValue]
  exact settles_ntype faithful member (settled faithful (body source) within.2.2).types

/-- One call keeps the tables valid. -/
theorem Tables.Valid.call (faithful : Faithful set) (valid : tables.Valid set) {call : Call}
    (member : call.source ∈ set) : (call.after tables).Valid set := by
  cases call with
  | ntype source => exact (settles_ntypeOf faithful member tables valid).2
  | values source =>
      unfold Call.after valuesOf
      by_cases star : source.isStar = true
      · simp only [star, if_true]
        cases source with
        | text name =>
            cases found : Tables.find? (.text name) tables.values with
            | some result =>
                rw [(Lookup.values_hit rfl found _).2]
                exact valid.recount _ tables.misses tables.serial
            | none =>
                rw [(Lookup.values_miss rfl found _).2]
                refine ⟨valid.ntypes, fun key result stored other inside named otherKey => ?_,
                  valid.singletons⟩
                rcases Tables.find?_append stored with earlier | ⟨rfl, rfl⟩
                · exact valid.values key result earlier other inside named otherKey
                · rw [eq_of_text_key otherKey, star] at named
                  cases named
        | _ => cases star
      · simp only [star]
        have within := faithful.closed source member
        exact ((settled faithful (ofValue source) within).values source rfl
          (Bool.eq_false_iff.mpr star) tables valid).2

/-- Any number of calls keep the tables valid. -/
theorem valid_tablesAfter (faithful : Faithful set) {calls : List Call}
    (members : ∀ call ∈ calls, call.source ∈ set) : (tablesAfter calls).Valid set := by
  have grown : ∀ tables : Tables, tables.Valid set →
      (calls.foldl Call.after tables).Valid set := by
    induction calls with
    | nil => exact fun _ valid => valid
    | cons call rest inductionHypothesis =>
        obtain ⟨own, later⟩ := List.forall_mem_cons.mp members
        exact fun tables valid => inductionHypothesis later _ (valid.call faithful own)
  exact grown .empty (Tables.valid_empty set)

theorem Faithful.transparent (faithful : Faithful set) : Transparent set :=
  fun _ members _ member =>
    (settles_ntypeOf faithful member _ (valid_tablesAfter faithful members)).1

/-- A type that was found is stored under the key of its description. -/
theorem exists_stored {source : Value} {key : Key} (hasKey : source.descriptorKey = .ok key)
    {estimate : Estimate} (denoted : ntype source = .ok estimate) :
    ∃ stored, Tables.find? key (tablesAfter [.ntype source]).ntypes = some stored := by
  have computed := ntype_of_keyed hasKey
  rw [denoted] at computed
  have left := (Lookup.ntype_miss hasKey (rfl : Tables.find? key Tables.empty.ntypes = none)
    (resolve (body source))).2
  have computedAgain : (resolve (body source)).outcome
      { Tables.empty with misses := Tables.empty.misses + 1 } = .ok estimate := computed.symm
  simp only [computedAgain] at left
  change ∃ stored, Tables.find? key ((resolve (ofValue source)).after .empty).ntypes = some stored
  rw [resolve_ofValue, left]
  unfold Tables.find?
  rw [List.find?_append]
  cases List.find? (fun entry : Key × Estimate => entry.1 == key) _ with
  | some entry => exact ⟨entry.2, rfl⟩
  | none => exact ⟨estimate, by simp⟩

/-- Where look-ups are transparent, descriptions with one key denote types that agree. -/
theorem Transparent.keys (transparent : Transparent set) {first second : Value}
    (firstMember : first ∈ set) (secondMember : second ∈ set)
    (same : first.descriptorKey = second.descriptorKey) :
    OutcomesAgree Estimate.Agrees (ntype first) (ntype second) := by
  have stored {one two : Value} (oneMember : one ∈ set) (twoMember : two ∈ set)
      (keys : one.descriptorKey = two.descriptorKey) {estimate : Estimate}
      (denoted : ntype one = .ok estimate) :
      OutcomesAgree Estimate.Agrees (ntype one) (ntype two) := by
    cases keyed : one.descriptorKey with
    | error part =>
        rw [ntype_of_keyless keyed] at denoted
        cases denoted
    | ok key =>
        obtain ⟨result, found⟩ := exists_stored keyed denoted
        have answers := transparent [.ntype one] (List.forall_mem_singleton.mpr oneMember)
        have oneAnswer := answers one oneMember
        have twoAnswer := answers two twoMember
        unfold ntypeOf at oneAnswer twoAnswer
        rw [resolve_ofValue, (Lookup.ntype_hit keyed found _).1] at oneAnswer
        rw [resolve_ofValue, (Lookup.ntype_hit (keys ▸ keyed) found _).1] at twoAnswer
        exact oneAnswer.symm.trans twoAnswer
  cases firstDenoted : ntype first with
  | ok estimate => exact firstDenoted ▸ stored firstMember secondMember same firstDenoted
  | error fault =>
      cases secondDenoted : ntype second with
      | error other => trivial
      | ok estimate =>
          have agrees := stored secondMember firstMember same.symm secondDenoted
          rw [firstDenoted, secondDenoted] at agrees
          cases agrees

/-- The singleton of a value that has keys is exact. -/
theorem ntype_eql {value : Value} {own key : Key} (described : value.descriptorKey = .ok own)
    (present : value ≠ .missing) (hasKey : value.key? = some key) :
    ntype (.tuple [.text "eql", value]) = .ok ⟨.singleton value, true⟩ := by
  have keyed : (Value.tuple [.text "eql", value]).descriptorKey =
      .ok (.tuple (.text "eql") (.tuple own .emptyTuple)) := by
    simp only [Value.descriptorKey, Value.descriptorKeys, described]
  have analysed : body (.tuple [.text "eql", value]) = .eql (.tuple [.text "eql", value]) value := rfl
  rw [ntype_of_keyed keyed, analysed, resolve, Lookup.outcome_bind,
    (singleton?_keyed present hasKey _).1]
  rfl

/-- No singleton is made of a list. -/
theorem ntype_eql_list {items : List Value} {own : Key}
    (described : Value.descriptorKeys items = .ok own) :
    ntype (.tuple [.text "eql", .list items]) =
      .error (.malformed .unhashableSingleton (.tuple [.text "eql", .list items])) := by
  have keyed : (Value.tuple [.text "eql", .list items]).descriptorKey =
      .ok (.tuple (.text "eql") (.tuple own .emptyTuple)) := by
    simp only [Value.descriptorKey, Value.descriptorKeys, described]
  have analysed : body (.tuple [.text "eql", .list items]) =
      .eql (.tuple [.text "eql", .list items]) (.list items) := rfl
  rw [ntype_of_keyed keyed, analysed, resolve, Lookup.outcome_bind]
  rfl

/-- A truth value and its scalar are different values with one key, so that the singleton of one is
found for the other. -/
theorem truths_not_transparent {truth : Bool}
    (host : .tuple [.text "eql", .boolean truth] ∈ set)
    (scalar : .tuple [.text "eql", .scalar (.boolean truth)] ∈ set) : ¬ Transparent set := by
  intro transparent
  have agrees := transparent.keys host scalar rfl
  have hostDenoted : ntype (.tuple [.text "eql", .boolean truth]) =
      .ok ⟨.singleton (.boolean truth), true⟩ := ntype_eql rfl nofun rfl
  have scalarDenoted : ntype (.tuple [.text "eql", .scalar (.boolean truth)]) =
      .ok ⟨.singleton (.scalar (.boolean truth)), true⟩ := ntype_eql rfl nofun rfl
  rw [hostDenoted, scalarDenoted] at agrees
  rcases agrees.1 with equal | same
  · cases equal
  · cases same

/-- A tuple and a list of the same items have one key, so that the singleton of the tuple is found
for the list, of which none is made. -/
theorem lists_not_transparent {items : List Value} {own key : Key}
    (described : Value.descriptorKeys items = .ok own)
    (hasKey : Value.tupleKey? items = some key)
    (tuple : .tuple [.text "eql", .tuple items] ∈ set)
    (list : .tuple [.text "eql", .list items] ∈ set) : ¬ Transparent set := by
  intro transparent
  have agrees := transparent.keys tuple list rfl
  rw [@ntype_eql (.tuple items) own key described nofun hasKey, ntype_eql_list described] at agrees
  cases agrees

end Descriptor

end Narrowing
