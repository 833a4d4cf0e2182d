import Narrowing.Proofs.PlainTypes

/-
This file shows that lists of classes and of singletons of literals are found again by their own
descriptors, whatever was looked up before.
-/

namespace Narrowing

namespace Descriptor

/-- What is stored for a list of plain types is this list. -/
structure Tables.Remembers (tables : Tables) : Prop where
  valid : tables.Valid plainValues
  lists : ∀ values : ValuesNtype, values.isPlain = true → ∀ key,
    values.descriptor.descriptorKey = .ok key → ∀ result, find? key tables.values = some result →
      result.values = values ∧ result.precise = true

theorem Tables.remembers_empty : Tables.empty.Remembers :=
  ⟨Tables.valid_empty plainValues, fun _ _ _ _ _ found => nomatch found⟩

theorem Tables.Remembers.recount {tables : Tables} (remembers : tables.Remembers)
    (hits misses serial : Nat) :
    Remembers { tables with hits := hits, misses := misses, serial := serial } :=
  ⟨remembers.valid.recount hits misses serial, remembers.lists⟩

/-- A look-up keeps what is remembered. -/
def Retains {Result : Type} (lookup : Lookup Result) : Prop :=
  ∀ tables : Tables, tables.Remembers → (lookup.after tables).Remembers

section

variable {First Second : Type} {source : Value}

theorem retains_pure (result : First) : Retains (pure result) := fun _ remembers => remembers

theorem retains_malformed (cause : Cause) (source : Value) :
    Retains (Lookup.malformed cause source : Lookup First) := fun _ remembers => remembers

theorem retains_fresh : Retains Lookup.fresh := fun tables remembers =>
  remembers.recount tables.hits tables.misses (tables.serial + 1)

theorem Retains.bind {first : Lookup First} {next : First → Lookup Second}
    (retains : Retains first) (continues : ∀ result, Retains (next result)) :
    Retains (first >>= next) := by
  intro tables remembers
  rw [Lookup.after_bind]
  cases first.outcome tables with
  | ok result => exact continues result _ (retains tables remembers)
  | error fault => exact retains tables remembers

theorem retains_singleton? (value : Value) : Retains (Lookup.singleton? value) := by
  intro tables remembers
  obtain ⟨_, _, _, valid⟩ := singleton?_agrees remembers.valid value
  obtain ⟨singletons, left⟩ := singleton?_after value tables
  rw [left] at valid ⊢
  exact ⟨valid, remembers.lists⟩

/-- A type is stored apart from the lists. -/
theorem retains_ntype (plain : source.isPlain = true) (computed : Retains (resolve (body source))) :
    Retains (resolve (ofValue source)) := by
  intro tables remembers
  refine ⟨(settles_ntypeOf faithful_plain plain tables remembers.valid).2, ?_⟩
  rw [resolve_ofValue]
  cases keyed : source.descriptorKey with
  | error part =>
      rw [(Lookup.keyless_fails keyed tables _ (computedValues source)).1.2]
      exact remembers.lists
  | ok key =>
      cases found : Tables.find? key tables.ntypes with
      | some result =>
          rw [(Lookup.ntype_hit keyed found _).2]
          exact remembers.lists
      | none =>
          have after := computed _ (remembers.recount tables.hits (tables.misses + 1) tables.serial)
          rw [(Lookup.ntype_miss keyed found _).2]
          split <;> exact after.lists

/-- A list is stored under the key of its own descriptor alone, and it is the list that was
computed. -/
theorem retains_values (plain : source.isPlain = true)
    (computed : Retains (computedValues source)) :
    Retains (Lookup.values source (computedValues source)) := by
  intro tables remembers
  have valid : ((valuesOf source).after tables).Valid plainValues :=
    @Tables.Valid.call _ _ faithful_plain remembers.valid (.values source) plain
  rw [valuesOf_eq] at valid
  refine ⟨valid, ?_⟩
  cases keyed : source.descriptorKey with
  | error part =>
      rw [(Lookup.keyless_fails keyed tables (resolve (body source)) _).2.2]
      exact remembers.lists
  | ok key =>
      cases found : Tables.find? key tables.values with
      | some result =>
          rw [(Lookup.values_hit keyed found _).2]
          exact remembers.lists
      | none =>
          have counted := remembers.recount tables.hits (tables.misses + 1) tables.serial
          have after := computed _ counted
          rw [(Lookup.values_miss keyed found _).2]
          split
          · rename_i result outcome
            intro values listed own hasKey stored held
            rcases Tables.find?_append held with earlier | ⟨rfl, rfl⟩
            · exact after.lists values listed own hasKey stored earlier
            -- the key names one description, so that the list itself was computed
            · obtain rfl := Value.eq_of_descriptorKey plain (describable_list listed).1 keyed hasKey
              obtain ⟨given, givenOutcome, holds, _⟩ := gives_list listed _ counted.valid
              cases outcome.symm.trans givenOutcome
              exact holds
          · exact after.lists

end

/-- Look-ups of plain values keep what is remembered. -/
theorem closed_retains : Closed plainValues @Retains where
  pure := retains_pure
  malformed := retains_malformed
  bind := Retains.bind
  singleton? := retains_singleton?
  fresh := retains_fresh
  ntype _ plain computed := retains_ntype plain computed
  values _ plain computed := retains_values plain computed

/-- One call keeps what is remembered. -/
theorem Tables.Remembers.call {tables : Tables} (remembers : tables.Remembers) {call : Call}
    (plain : call.source.isPlain = true) : (call.after tables).Remembers := by
  have own := closed_retains.ofValue (faithful_plain.closed call.source plain)
  cases call with
  | ntype source => exact own.1 tables remembers
  | values source => exact own.2 tables remembers

/-- The tables after singletons, calls on plain values and resets, in any order. -/
inductive Tables.Reached : Tables → Prop where
  | start : Reached .empty
  | single (value : Value) {tables : Tables} (earlier : tables.Reached) :
      Reached ((Lookup.singleton? value).after tables)
  | call (call : Call) (plain : call.source.isPlain = true) {tables : Tables}
      (earlier : tables.Reached) : Reached (call.after tables)
  | reset {tables : Tables} (earlier : tables.Reached) : Reached tables.reset

theorem Tables.Reached.remembers {tables : Tables} (reached : tables.Reached) :
    tables.Remembers := by
  induction reached with
  | start => exact remembers_empty
  | single value _ inductionHypothesis => exact retains_singleton? value _ inductionHypothesis
  | call call plain _ inductionHypothesis => exact inductionHypothesis.call plain
  | reset _ inductionHypothesis =>
      exact ⟨⟨nofun, nofun, inductionHypothesis.valid.singletons⟩, fun _ _ _ _ _ => nofun⟩

/-- A list of plain types is found by its descriptor. -/
theorem Tables.Remembers.valuesOf {tables : Tables} (remembers : tables.Remembers)
    {values : ValuesNtype} (plain : values.isPlain = true) :
    ∃ serial, (valuesOf values.descriptor).outcome tables = .ok ⟨values, true, serial⟩ := by
  obtain ⟨_, key, hasKey⟩ := describable_list plain
  rw [valuesOf_eq]
  cases found : Tables.find? key tables.values with
  | some result =>
      obtain ⟨rfl, precise⟩ := remembers.lists values plain key hasKey result found
      obtain ⟨values, exact, serial⟩ := result
      cases precise
      exact ⟨serial, (Lookup.values_hit hasKey found _).1⟩
  | none =>
      obtain ⟨result, outcome, ⟨rfl, precise⟩, _⟩ :=
        gives_list plain _ (remembers.valid.recount tables.hits (tables.misses + 1) tables.serial)
      obtain ⟨values, exact, serial⟩ := result
      cases precise
      exact ⟨serial, (Lookup.values_miss hasKey found _).1.trans outcome⟩

/-- A plain type and a list of plain types are found again by their own descriptors, whatever plain
values were looked up before. -/
theorem descriptor_round_trip (tables : Tables) (reached : tables.Reached) :
    (∀ type : Ntype, type.isPlain = true →
      (ntypeOf type.descriptor).outcome tables = .ok ⟨type, true⟩) ∧
    ∀ values : ValuesNtype, values.isPlain = true →
      ∃ serial, (valuesOf values.descriptor).outcome tables = .ok ⟨values, true, serial⟩ := by
  have remembers := reached.remembers
  refine ⟨fun type plain => ?_, fun _ plain => remembers.valuesOf plain⟩
  obtain ⟨_, outcome, rfl, _⟩ := gives_descriptor plain tables remembers.valid
  exact outcome

/-- An integer and a half, perhaps a text that looks like a keyword, and any number of arrays. -/
def mixedValues : ValuesNtype :=
  ⟨[.primitive (.integers .integer), .singleton (.ratio (1 / 2))], [.singleton (.text "&rest")],
    some (.primitive (.arrayOf (.word .uint8)))⟩

/-- A list and one of its types are found after a singleton and another list. -/
theorem descriptor_round_trip_again :
    let tables := Call.after ((Lookup.singleton? (.boolean true)).after .empty)
      (.values (.tuple [.text "values", .text "integer", .text "real"]))
    (∃ serial, (valuesOf mixedValues.descriptor).outcome tables =
        .ok ⟨mixedValues, true, serial⟩) ∧
      (ntypeOf (Ntype.singleton (.text "&rest")).descriptor).outcome tables =
        .ok ⟨.singleton (.text "&rest"), true⟩ := by
  intro tables
  have reached : tables.Reached := .call _ rfl (.single _ .start)
  obtain ⟨types, lists⟩ := descriptor_round_trip tables reached
  exact ⟨lists mixedValues rfl, types (.singleton (.text "&rest")) rfl⟩

end Descriptor

end Narrowing
