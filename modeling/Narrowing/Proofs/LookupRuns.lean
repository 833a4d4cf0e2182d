import Mathlib.Data.Set.Basic
import Narrowing.Proofs.TypeAgreement

/-
This file compares look-ups that start with different tables.
-/

namespace Narrowing

namespace Descriptor

namespace Lookup

variable {Result Other : Type}

/-- The result of a look-up that starts with some tables. -/
def outcome (lookup : Lookup Result) (tables : Tables) : Except Fault Result :=
  (lookup.run tables).1

/-- The tables that a look-up leaves behind. -/
def after (lookup : Lookup Result) (tables : Tables) : Tables := (lookup.run tables).2

@[simp] theorem outcome_pure (result : Result) (tables : Tables) :
    (pure result : Lookup Result).outcome tables = .ok result := rfl

@[simp] theorem after_pure (result : Result) (tables : Tables) :
    (pure result : Lookup Result).after tables = tables := rfl

@[simp] theorem outcome_malformed (cause : Cause) (source : Value) (tables : Tables) :
    (malformed cause source : Lookup Result).outcome tables = .error (.malformed cause source) :=
  rfl

@[simp] theorem after_malformed (cause : Cause) (source : Value) (tables : Tables) :
    (malformed cause source : Lookup Result).after tables = tables := rfl

@[simp] theorem outcome_get (tables : Tables) :
    (get : Lookup Tables).outcome tables = .ok tables := rfl

@[simp] theorem after_get (tables : Tables) : (get : Lookup Tables).after tables = tables := rfl

@[simp] theorem outcome_modify (change : Tables → Tables) (tables : Tables) :
    (modify change : Lookup Unit).outcome tables = .ok () := rfl

@[simp] theorem after_modify (change : Tables → Tables) (tables : Tables) :
    (modify change : Lookup Unit).after tables = change tables := rfl

@[simp] theorem outcome_bind (lookup : Lookup Result) (next : Result → Lookup Other)
    (tables : Tables) :
    (lookup >>= next).outcome tables =
      match lookup.outcome tables with
      | .ok result => (next result).outcome (lookup.after tables)
      | .error fault => .error fault := by
  change ((ExceptT.bind lookup next).run tables).1 = _
  unfold outcome after
  simp only [ExceptT.bind, ExceptT.run, ExceptT.mk, bind, StateT.bind]
  cases lookup tables with
  | mk result tables => cases result <;> rfl

@[simp] theorem after_bind (lookup : Lookup Result) (next : Result → Lookup Other)
    (tables : Tables) :
    (lookup >>= next).after tables =
      match lookup.outcome tables with
      | .ok result => (next result).after (lookup.after tables)
      | .error _ => lookup.after tables := by
  change ((ExceptT.bind lookup next).run tables).2 = _
  unfold outcome after
  simp only [ExceptT.bind, ExceptT.run, ExceptT.mk, bind, StateT.bind]
  cases lookup tables with
  | mk result tables => cases result <;> rfl

theorem outcome_keyOf {source : Value} {key : Key} (hasKey : source.descriptorKey = .ok key)
    (tables : Tables) :
    (keyOf source).outcome tables = .ok key ∧ (keyOf source).after tables = tables := by
  unfold keyOf
  rw [hasKey]
  exact ⟨rfl, rfl⟩

/-- A stored type is found again, and nothing is computed. -/
theorem ntype_hit {source : Value} {key : Key} {tables : Tables} {result : Estimate}
    (hasKey : source.descriptorKey = .ok key) (found : Tables.find? key tables.ntypes = some result)
    (compute : Lookup Estimate) :
    (ntype source compute).outcome tables = .ok result ∧
      (ntype source compute).after tables = { tables with hits := tables.hits + 1 } := by
  simp only [ntype, outcome_bind, after_bind, outcome_keyOf hasKey, found, recordHit, outcome_get,
    after_get, outcome_modify, after_modify, outcome_pure, after_pure, and_self]

/-- A type that is not stored is computed. -/
theorem ntype_miss {source : Value} {key : Key} {tables : Tables}
    (hasKey : source.descriptorKey = .ok key) (missing : Tables.find? key tables.ntypes = none)
    (compute : Lookup Estimate) :
    let missed := { tables with misses := tables.misses + 1 }
    (ntype source compute).outcome tables = compute.outcome missed ∧
      (ntype source compute).after tables =
        match compute.outcome missed with
        | .ok result =>
            let left := compute.after missed
            { left with ntypes := left.ntypes ++ [(key, result)] }
        | .error _ => compute.after missed := by
  simp only [ntype, outcome_bind, after_bind, outcome_keyOf hasKey, missing, recordMiss,
    outcome_get, after_get, outcome_modify, after_modify]
  cases compute.outcome { tables with misses := tables.misses + 1 } <;> simp

theorem values_hit {source : Value} {key : Key} {tables : Tables} {result : ValuesEstimate}
    (hasKey : source.descriptorKey = .ok key) (found : Tables.find? key tables.values = some result)
    (compute : Lookup ValuesEstimate) :
    (values source compute).outcome tables = .ok result ∧
      (values source compute).after tables = { tables with hits := tables.hits + 1 } := by
  simp only [values, outcome_bind, after_bind, outcome_keyOf hasKey, found, recordHit, outcome_get,
    after_get, outcome_modify, after_modify, outcome_pure, after_pure, and_self]

theorem values_miss {source : Value} {key : Key} {tables : Tables}
    (hasKey : source.descriptorKey = .ok key) (missing : Tables.find? key tables.values = none)
    (compute : Lookup ValuesEstimate) :
    let missed := { tables with misses := tables.misses + 1 }
    (values source compute).outcome tables = compute.outcome missed ∧
      (values source compute).after tables =
        match compute.outcome missed with
        | .ok result =>
            let left := compute.after missed
            { left with values := left.values ++ [(key, result)] }
        | .error _ => compute.after missed := by
  simp only [values, outcome_bind, after_bind, outcome_keyOf hasKey, missing, recordMiss,
    outcome_get, after_get, outcome_modify, after_modify]
  cases compute.outcome { tables with misses := tables.misses + 1 } <;> simp

/-- A description without a key is never looked up. -/
theorem keyless_fails {source part : Value} (keyless : source.descriptorKey = .error part)
    (tables : Tables) (types : Lookup Estimate) (results : Lookup ValuesEstimate) :
    ((ntype source types).outcome tables = .error (.malformed .unhashable part) ∧
        (ntype source types).after tables = tables) ∧
      (values source results).outcome tables = .error (.malformed .unhashable part) ∧
        (values source results).after tables = tables := by
  have failed : keyOf source = malformed .unhashable part := by
    unfold keyOf
    rw [keyless]
  simp only [ntype, values, outcome_bind, after_bind, failed, outcome_malformed, after_malformed,
    and_self]

/-- The tables behind the look-up of a type are the same but for the hits, or they are those that
the computation leaves, perhaps with its result. -/
theorem after_ntype (holds : Tables → Prop) {source : Value} {compute : Lookup Estimate}
    {tables : Tables} (same : ∀ hits, holds { tables with hits := hits }) :
    let missed := { tables with misses := tables.misses + 1 }
    let left := compute.after missed
    holds left →
      (∀ key result, source.descriptorKey = .ok key → compute.outcome missed = .ok result →
        holds { left with ntypes := left.ntypes ++ [(key, result)] }) →
      holds ((ntype source compute).after tables) := by
  intro missed left computed stored
  cases keyed : source.descriptorKey with
  | error part =>
      rw [(keyless_fails keyed tables compute (pure ⟨.none, true, none⟩)).1.2]
      exact same tables.hits
  | ok key =>
      cases found : Tables.find? key tables.ntypes with
      | some result =>
          rw [(ntype_hit keyed found compute).2]
          exact same _
      | none =>
          rw [(ntype_miss keyed found compute).2]
          split
          · rename_i result outcome
            exact stored key result keyed outcome
          · exact computed

theorem after_values (holds : Tables → Prop) {source : Value} {compute : Lookup ValuesEstimate}
    {tables : Tables} (same : ∀ hits, holds { tables with hits := hits }) :
    let missed := { tables with misses := tables.misses + 1 }
    let left := compute.after missed
    holds left →
      (∀ key result, source.descriptorKey = .ok key → compute.outcome missed = .ok result →
        holds { left with values := left.values ++ [(key, result)] }) →
      holds ((values source compute).after tables) := by
  intro missed left computed stored
  cases keyed : source.descriptorKey with
  | error part =>
      rw [(keyless_fails keyed tables (pure ⟨.empty, true⟩) compute).2.2]
      exact same tables.hits
  | ok key =>
      cases found : Tables.find? key tables.values with
      | some result =>
          rw [(values_hit keyed found compute).2]
          exact same _
      | none =>
          rw [(values_miss keyed found compute).2]
          split
          · rename_i result outcome
            exact stored key result keyed outcome
          · exact computed

end Lookup

/-- Two outcomes agree when both fail or when both succeed with results in relation. -/
def OutcomesAgree {First Second : Type} (related : First → Second → Prop) :
    Except Fault First → Except Fault Second → Prop
  | .ok first, .ok second => related first second
  | .error _, .error _ => True
  | _, _ => False

theorem OutcomesAgree.symm {first second : Except Fault Estimate}
    (agree : OutcomesAgree Estimate.Agrees first second) :
    OutcomesAgree Estimate.Agrees second first := by
  cases first <;> cases second
  · trivial
  · cases agree
  · cases agree
  · exact Estimate.Agrees.symm agree

theorem OutcomesAgree.trans {first second third : Except Fault Estimate}
    (left : OutcomesAgree Estimate.Agrees first second)
    (right : OutcomesAgree Estimate.Agrees second third) :
    OutcomesAgree Estimate.Agrees first third := by
  cases first with
  | error fault =>
      cases second with
      | ok result => cases left
      | error other =>
          cases third with
          | ok result => cases right
          | error last => trivial
  | ok result =>
      cases second with
      | error other => cases left
      | ok other =>
          cases third with
          | error last => cases right
          | ok last => exact Estimate.Agrees.trans left right

namespace Tables

theorem find?_append {Result : Type} {key own : Key} {entries : List (Key × Result)}
    {result stored : Result} (found : find? key (entries ++ [(own, stored)]) = some result) :
    find? key entries = some result ∨ key = own ∧ result = stored := by
  unfold find? at found ⊢
  rw [List.find?_append] at found
  cases earlier : entries.find? fun entry => entry.1 == key with
  | some entry =>
      rw [earlier] at found
      exact .inl found
  | none =>
      rw [earlier, Option.none_or, List.find?_singleton] at found
      split at found
      · rename_i same
        cases found
        exact .inr ⟨(beq_iff_eq.mp same).symm, rfl⟩
      · cases found

/-- The stored results agree with what descriptions denote when nothing was looked up before. -/
structure Valid (sources : Set Value) (tables : Tables) : Prop where
  ntypes : ∀ key result, find? key tables.ntypes = some result →
    ∀ source ∈ sources, source.descriptorKey = .ok key →
      OutcomesAgree Estimate.Agrees (Descriptor.ntype source) (.ok result)
  values : ∀ key result, find? key tables.values = some result →
    ∀ source ∈ sources, source.isStar = false → source.descriptorKey = .ok key →
      OutcomesAgree Estimate.Agrees (Descriptor.ntype source) (.ok (primaryEstimate result))
  singletons : ∀ key first, find? key tables.singletons = some first → first.key? = some key

variable {sources : Set Value} {tables : Tables}

theorem valid_empty (sources : Set Value) : Valid sources .empty :=
  ⟨nofun, nofun, nofun⟩

theorem Valid.recount (valid : Valid sources tables) (hits misses serial : Nat) :
    Valid sources { tables with hits := hits, misses := misses, serial := serial } :=
  ⟨valid.ntypes, valid.values, valid.singletons⟩

end Tables

/-- Two look-ups match when they agree for all valid tables and leave valid tables behind. -/
def Matches {First Second : Type} (sources : Set Value) (related : First → Second → Prop)
    (first : Lookup First) (second : Lookup Second) : Prop :=
  ∀ left right : Tables, left.Valid sources → right.Valid sources →
    OutcomesAgree related (first.outcome left) (second.outcome right) ∧
      (first.after left).Valid sources ∧ (second.after right).Valid sources

section

variable {sources : Set Value} {First Second Left Right : Type}

theorem matches_pure {related : First → Second → Prop} {first : First} {second : Second}
    (holds : related first second) : Matches sources related (pure first) (pure second) :=
  fun _ _ leftValid rightValid => ⟨holds, leftValid, rightValid⟩

theorem matches_malformed {related : First → Second → Prop} (cause other : Cause)
    (source origin : Value) :
    Matches sources related (Lookup.malformed cause source) (Lookup.malformed other origin) :=
  fun _ _ leftValid rightValid => ⟨trivial, leftValid, rightValid⟩

theorem Matches.bind {related : First → Second → Prop} {met : Left → Right → Prop}
    {first : Lookup First} {second : Lookup Second} {left : First → Lookup Left}
    {right : Second → Lookup Right} (starts : Matches sources related first second)
    (continues : ∀ one two, related one two → Matches sources met (left one) (right two)) :
    Matches sources met (first >>= left) (second >>= right) := by
  intro leftTables rightTables leftValid rightValid
  obtain ⟨agree, leftAfter, rightAfter⟩ := starts leftTables rightTables leftValid rightValid
  simp only [Lookup.outcome_bind, Lookup.after_bind]
  cases one : first.outcome leftTables with
  | error fault =>
      cases two : second.outcome rightTables with
      | error other => exact ⟨trivial, leftAfter, rightAfter⟩
      | ok result =>
          rw [one, two] at agree
          cases agree
  | ok result =>
      cases two : second.outcome rightTables with
      | error other =>
          rw [one, two] at agree
          cases agree
      | ok other =>
          rw [one, two] at agree
          exact continues result other agree _ _ leftAfter rightAfter

/-- Numbering a result changes nothing that is looked up. -/
theorem matches_fresh : Matches sources (fun _ _ => True) Lookup.fresh Lookup.fresh :=
  fun left right leftValid rightValid =>
    ⟨trivial, leftValid.recount left.hits left.misses (left.serial + 1),
      rightValid.recount right.hits right.misses (right.serial + 1)⟩

/-- Two singletons of values agree when both are missing or both are types that agree. -/
def SingletonsAgree : Option Ntype → Option Ntype → Prop
  | some first, some second => first.Agrees second
  | none, none => True
  | _, _ => False

theorem SingletonsAgree.symm {first second : Option Ntype}
    (agree : SingletonsAgree first second) : SingletonsAgree second first := by
  cases first <;> cases second
  · trivial
  · cases agree
  · cases agree
  · exact Ntype.Agrees.symm agree

/-- The singleton is made of the first value with the key of the value. -/
theorem singleton?_keyed {value : Value} {key : Key} (present : value ≠ .missing)
    (hasKey : value.key? = some key) (tables : Tables) :
    (Lookup.singleton? value).outcome tables =
        .ok (some (.singleton ((Tables.find? key tables.singletons).getD value))) ∧
      (Lookup.singleton? value).after tables =
        match Tables.find? key tables.singletons with
        | some _ => tables
        | none => { tables with singletons := tables.singletons ++ [(key, value)] } := by
  unfold Lookup.singleton?
  rw [hasKey]
  cases value with
  | missing => exact absurd rfl present
  | _ =>
      simp only [Lookup.outcome_bind, Lookup.after_bind, Lookup.outcome_get, Lookup.after_get]
      cases Tables.find? key tables.singletons <;> exact ⟨rfl, rfl⟩

/-- A value without a key has no singleton. -/
theorem singleton?_keyless {value : Value} (keyless : value.key? = none) :
    Lookup.singleton? value = pure none := by
  unfold Lookup.singleton?
  rw [keyless]
  cases value with
  | missing => cases keyless
  | _ => rfl

/-- A singleton changes none of the results of earlier look-ups. -/
theorem singleton?_after (value : Value) (tables : Tables) :
    ∃ singletons, (Lookup.singleton? value).after tables =
      { tables with singletons := singletons } := by
  by_cases absent : value = .missing
  · subst absent
    exact ⟨tables.singletons, rfl⟩
  · cases hasKey : value.key? with
    | none =>
        rw [singleton?_keyless hasKey]
        exact ⟨tables.singletons, rfl⟩
    | some key =>
        rw [(singleton?_keyed absent hasKey tables).2]
        cases Tables.find? key tables.singletons with
        | none => exact ⟨_, rfl⟩
        | some first => exact ⟨tables.singletons, rfl⟩

/-- The singleton of a value holds the value, whichever value with its key was met first. -/
theorem singleton?_agrees {tables : Tables} (valid : tables.Valid sources) (value : Value) :
    ∃ result, (Lookup.singleton? value).outcome tables = .ok result ∧
      SingletonsAgree result (Ntype.eql? value) ∧
      ((Lookup.singleton? value).after tables).Valid sources := by
  by_cases absent : value = .missing
  · subst absent
    exact ⟨some .null, rfl, .refl _, valid⟩
  · cases hasKey : value.key? with
    | none =>
        rw [singleton?_keyless hasKey, Ntype.eql?_of_ne absent, hasKey]
        exact ⟨_, rfl, trivial, valid⟩
    | some key =>
        obtain ⟨made, left⟩ := singleton?_keyed absent hasKey tables
        rw [made, left, Ntype.eql?_of_ne absent, hasKey]
        cases found : Tables.find? key tables.singletons with
        | some first =>
            have same : first.identical value = true :=
              Value.identical_iff.mpr ⟨key, valid.singletons key first found, hasKey⟩
            exact ⟨_, rfl, .inr same, valid⟩
        | none =>
            refine ⟨_, rfl, .refl _, valid.ntypes, valid.values, fun other first stored => ?_⟩
            rcases Tables.find?_append stored with earlier | ⟨rfl, rfl⟩
            · exact valid.singletons other first earlier
            · exact hasKey

theorem SingletonsAgree.trans {first second third : Option Ntype}
    (left : SingletonsAgree first second) (right : SingletonsAgree second third) :
    SingletonsAgree first third := by
  cases second with
  | none =>
      cases first with
      | some one => cases left
      | none => exact right
  | some two =>
      cases first with
      | none => cases left
      | some one =>
          cases third with
          | none => cases right
          | some three => exact Ntype.Agrees.trans left right

theorem matches_singleton? (value : Value) :
    Matches sources SingletonsAgree (Lookup.singleton? value) (Lookup.singleton? value) := by
  intro left right leftValid rightValid
  obtain ⟨one, oneOutcome, oneAgrees, oneValid⟩ := singleton?_agrees leftValid value
  obtain ⟨two, twoOutcome, twoAgrees, twoValid⟩ := singleton?_agrees rightValid value
  rw [oneOutcome, twoOutcome]
  exact ⟨oneAgrees.trans twoAgrees.symm, oneValid, twoValid⟩

end

end Descriptor

end Narrowing
