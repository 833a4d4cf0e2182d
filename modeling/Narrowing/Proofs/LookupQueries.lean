import Mathlib.Data.List.Nodup
import Narrowing.Proofs.LookupHistories
import Narrowing.Proofs.StoredLookups

/-
This file says what one look-up after another does to the stored results and to their counters.
-/

namespace Narrowing

namespace Descriptor

/-- The types and the values of descriptions are stored apart, in slots of their own. -/
inductive Slot where
  | ntype (key : Key)
  | values (key : Key)

/-- A stored result with the key of its description. -/
inductive Entry where
  | ntype (key : Key) (result : Estimate)
  | values (key : Key) (result : ValuesEstimate)

def Entry.slot : Entry → Slot
  | .ntype key _ => .ntype key
  | .values key _ => .values key

/-- The stored results without their counters. -/
structure Results where
  ntypes : List (Key × Estimate)
  values : List (Key × ValuesEstimate)

namespace Tables

section

variable {Result : Type} {key : Key} {entries more : List (Key × Result)}

theorem find?_eq_none_iff : find? key entries = none ↔ key ∉ entries.map (·.1) := by
  unfold find?
  simp only [Option.map_eq_none_iff, List.find?_eq_none, beq_iff_eq, List.mem_map, not_exists,
    not_and]

/-- Lighter keys do not get in the way of a key. -/
theorem find?_append_light {bound : Nat} (missing : find? key entries = none)
    (light : ∀ entry ∈ more, keyWeight entry.1 < bound) (heavy : bound ≤ keyWeight key) :
    find? key (entries ++ more) = none := by
  rw [find?_eq_none_iff, List.map_append, List.mem_append, not_or]
  refine ⟨find?_eq_none_iff.mp missing, fun member => ?_⟩
  obtain ⟨entry, among, rfl⟩ := List.mem_map.mp member
  exact absurd (light entry among) (Nat.not_lt.mpr heavy)

end

def results (tables : Tables) : Results := ⟨tables.ntypes, tables.values⟩

end Tables

namespace Results

variable {results : Results} {slot : Slot} {entry stored : Entry}

def find? (results : Results) : Slot → Option Entry
  | .ntype key => (Tables.find? key results.ntypes).map (.ntype key)
  | .values key => (Tables.find? key results.values).map (.values key)

/-- The slots that hold results. -/
def slots (results : Results) : List Slot :=
  results.ntypes.map (fun entry => .ntype entry.1) ++
    results.values.map fun entry => .values entry.1

def store (results : Results) : Entry → Results
  | .ntype key result => { results with ntypes := results.ntypes ++ [(key, result)] }
  | .values key result => { results with values := results.values ++ [(key, result)] }

/-- The slots that hold no results are empty. -/
theorem find?_eq_none_iff : results.find? slot = none ↔ slot ∉ results.slots := by
  cases slot <;>
    simp only [find?, slots, Option.map_eq_none_iff, Tables.find?_eq_none_iff, List.mem_append,
      List.mem_map] <;>
    simp

theorem slots_store (results : Results) (entry : Entry) :
    (results.store entry).slots.Perm (entry.slot :: results.slots) := by
  cases entry with
  | ntype key result =>
      simp only [slots, store, List.map_append, List.map_cons, List.map_nil, List.append_assoc,
        List.singleton_append]
      exact List.perm_middle
  | values key result =>
      simp only [slots, store, List.map_append, List.map_cons, List.map_nil, ← List.append_assoc]
      exact List.perm_append_singleton _ _

/-- A result that is stored in an empty slot is found there. -/
theorem find?_store_own (missing : results.find? entry.slot = none) :
    (results.store entry).find? entry.slot = some entry := by
  cases entry with
  | ntype key result =>
      have absent := Option.map_eq_none_iff.mp missing
      have own : Tables.find? key (results.ntypes ++ [] ++ [(key, result)]) = some result :=
        Tables.find?_append_own absent nofun
      simpa [find?, store, Entry.slot] using own
  | values key result =>
      have absent := Option.map_eq_none_iff.mp missing
      have own : Tables.find? key (results.values ++ [] ++ [(key, result)]) = some result :=
        Tables.find?_append_own absent nofun
      simpa [find?, store, Entry.slot] using own

/-- Stored results stay where they are. -/
theorem find?_store (found : results.find? slot = some entry) :
    (results.store stored).find? slot = some entry := by
  cases slot with
  | ntype key =>
      obtain ⟨result, present, rfl⟩ := Option.map_eq_some_iff.mp found
      cases stored with
      | ntype other added => exact congrArg (Option.map _) (Tables.find?_append_left present)
      | values other added => exact found
  | values key =>
      obtain ⟨result, present, rfl⟩ := Option.map_eq_some_iff.mp found
      cases stored with
      | ntype other added => exact found
      | values other added => exact congrArg (Option.map _) (Tables.find?_append_left present)

end Results

theorem Tables.length_slots (tables : Tables) : tables.results.slots.length = tables.size := by
  rw [Results.slots, List.length_append, List.length_map, List.length_map]
  rfl

/-- Growth by light keys leaves the slots of heavier ones empty. -/
theorem Tables.Grown.find?_eq_none {types values : Nat} {before after : Tables} {slot : Slot}
    (grown : Grown types values before after) (missing : before.results.find? slot = none)
    (heavy : match slot with
      | .ntype key => types ≤ keyWeight key
      | .values key => values ≤ keyWeight key) : after.results.find? slot = none := by
  obtain ⟨⟨one, oneAdded, oneLight⟩, two, twoAdded, twoLight⟩ := grown
  cases slot with
  | ntype key =>
      refine Option.map_eq_none_iff.mpr ?_
      rw [results, oneAdded]
      exact find?_append_light (Option.map_eq_none_iff.mp missing) oneLight heavy
  | values key =>
      refine Option.map_eq_none_iff.mpr ?_
      rw [results, twoAdded]
      exact find?_append_light (Option.map_eq_none_iff.mp missing) twoLight heavy

namespace Call

variable {call : Call} {key : Key} {tables : Tables} {entry : Entry}

/-- The slot of the result of a call. -/
def slot (key : Key) : Call → Slot
  | .ntype _ => .ntype key
  | .values _ => .values key

/-- The result of a call, to be stored under a key. -/
def outcome (key : Key) (tables : Tables) : Call → Except Fault Entry
  | .ntype source => ((ntypeOf source).outcome tables).map (.ntype key)
  | .values source => ((valuesOf source).outcome tables).map (.values key)

/-- The tables that the computation of a result leaves, before the result is stored. -/
def computed (tables : Tables) : Call → Tables
  | .ntype source => (resolve (body source)).after tables
  | .values source => (computedValues source).after tables

theorem slot_of_outcome (done : call.outcome key tables = .ok entry) :
    entry.slot = call.slot key := by
  cases call with
  | ntype source =>
      rw [outcome] at done
      cases found : (ntypeOf source).outcome tables <;> rw [found] at done <;> cases done
      rfl
  | values source =>
      rw [outcome] at done
      cases found : (valuesOf source).outcome tables <;> rw [found] at done <;> cases done
      rfl

/-- A call on a description without a key is no look-up. -/
theorem after_keyless {part : Value} (keyless : call.source.descriptorKey = .error part) :
    call.after tables = tables := by
  cases call with
  | ntype source =>
      rw [after, ntypeOf, resolve_ofValue]
      exact (Lookup.keyless_fails keyless tables _ (computedValues source)).1.2
  | values source =>
      rw [after, valuesOf_eq]
      exact (Lookup.keyless_fails keyless tables (ntypeOf source) _).2.2

section

variable (hasKey : call.source.descriptorKey = .ok key)

include hasKey

/-- A result that is stored is found, and nothing else happens. -/
theorem hit (found : tables.results.find? (call.slot key) = some entry) :
    (call.after tables).hits = tables.hits + 1 ∧ (call.after tables).misses = tables.misses ∧
      call.outcome key tables = .ok entry ∧ (call.after tables).results = tables.results := by
  cases call with
  | ntype source =>
      change source.descriptorKey = .ok key at hasKey
      obtain ⟨result, present, rfl⟩ := Option.map_eq_some_iff.mp found
      obtain ⟨done, left⟩ := Lookup.ntype_hit hasKey present (resolve (body source))
      rw [outcome, after, ntypeOf, resolve_ofValue, done, left]
      exact ⟨rfl, rfl, rfl, rfl⟩
  | values source =>
      change source.descriptorKey = .ok key at hasKey
      obtain ⟨result, present, rfl⟩ := Option.map_eq_some_iff.mp found
      obtain ⟨done, left⟩ := Lookup.values_hit hasKey present (computedValues source)
      rw [outcome, after, valuesOf_eq, done, left]
      exact ⟨rfl, rfl, rfl, rfl⟩

/-- Otherwise a result is computed, and stored unless the computation fails. -/
theorem miss (missing : tables.results.find? (call.slot key) = none) :
    let left := call.computed { tables with misses := tables.misses + 1 }
    (call.after tables).hits = left.hits ∧ (call.after tables).misses = left.misses ∧
      (call.after tables).results =
        match call.outcome key tables with
        | .ok entry => left.results.store entry
        | .error _ => left.results := by
  cases call with
  | ntype source =>
      change source.descriptorKey = .ok key at hasKey
      have absent := Option.map_eq_none_iff.mp missing
      obtain ⟨done, left⟩ := Lookup.ntype_miss hasKey absent (resolve (body source))
      rw [outcome, after, ntypeOf, resolve_ofValue, done, left]
      cases (resolve (body source)).outcome { tables with misses := tables.misses + 1 } <;>
        exact ⟨rfl, rfl, rfl⟩
  | values source =>
      change source.descriptorKey = .ok key at hasKey
      have absent := Option.map_eq_none_iff.mp missing
      obtain ⟨done, left⟩ := Lookup.values_miss hasKey absent (computedValues source)
      rw [outcome, after, valuesOf_eq, done, left]
      cases (computedValues source).outcome { tables with misses := tables.misses + 1 } <;>
        exact ⟨rfl, rfl, rfl⟩

/-- A call does not look its own description up again while it computes, so that its slot stays
empty. -/
theorem computed_missing (missing : tables.results.find? (call.slot key) = none) :
    (call.computed tables).results.find? (call.slot key) = none := by
  have heavy := weight_of_key hasKey
  cases call with
  | ntype source =>
      exact (adds_body hasKey tables).find?_eq_none missing (Nat.le_of_eq heavy)
  | values source =>
      exact (adds_computedValues hasKey tables).find?_eq_none missing (Nat.le_of_eq heavy)

end

end Call

/-- A query is a call on a description with a key, made while some results are stored. -/
structure Query where
  call : Call
  key : Key
  hasKey : call.source.descriptorKey = .ok key
  tables : Tables

namespace Query

def slot (query : Query) : Slot := query.call.slot query.key

/-- The stored result that a query finds. -/
def found? (query : Query) : Option Entry := query.tables.results.find? query.slot

def isHit (query : Query) : Bool := query.found?.isSome

def outcome (query : Query) : Except Fault Entry := query.call.outcome query.key query.tables

/-- The computation of a query failed. -/
def isRaised (query : Query) : Bool :=
  match query.outcome with
  | .ok _ => false
  | .error _ => true

/-- The tables that a query leaves behind. -/
def after (query : Query) : Tables := query.call.after query.tables

/-- The tables with which the computation of a query starts that finds no result. -/
def missed (query : Query) : Tables :=
  { query.tables with misses := query.tables.misses + 1 }

/-- What a query does to the results that are stored when it ends: it found a stored one, or its
slot is still empty and holds its result from now on, or its computation fails. -/
inductive Acts (query : Query) (before : Results) : Prop where
  | finds {entry : Entry} (found : query.found? = some entry)
      (present : before.find? query.slot = some entry) (done : query.outcome = .ok entry)
      (same : query.after.results = before)
  | stores {entry : Entry} (missed : query.found? = none)
      (missing : before.find? query.slot = none) (done : query.outcome = .ok entry)
      (added : query.after.results = before.store entry)
  | raises {fault : Fault} (missed : query.found? = none)
      (missing : before.find? query.slot = none) (failed : query.outcome = .error fault)
      (same : query.after.results = before)

namespace Acts

variable {query : Query} {before : Results} {slot : Slot} {entry : Entry}

theorem of_found (found : query.found? = some entry) : query.Acts query.tables.results := by
  obtain ⟨_, _, done, same⟩ := Call.hit query.hasKey found
  exact .finds found found done same

theorem of_missed (missed : query.found? = none) :
    query.Acts (query.call.computed query.missed).results := by
  have missing : (query.call.computed query.missed).results.find? query.slot = none :=
    Call.computed_missing query.hasKey missed
  obtain ⟨_, _, results⟩ := Call.miss query.hasKey missed
  cases outcome : query.call.outcome query.key query.tables with
  | ok entry =>
      rw [outcome] at results
      exact .stores missed missing outcome results
  | error fault =>
      rw [outcome] at results
      exact .raises missed missing outcome results

/-- Stored results stay where they are. -/
theorem keeps (acts : query.Acts before) (stored : before.find? slot = some entry) :
    query.after.results.find? slot = some entry := by
  cases acts with
  | finds _ _ _ same | raises _ _ _ same => rw [same, stored]
  | stores _ _ _ added => rw [added, Results.find?_store stored]

/-- A query finds the result that is stored. -/
theorem finds_stored (acts : query.Acts before) (stored : before.find? query.slot = some entry) :
    query.found? = some entry ∧ query.outcome = .ok entry := by
  cases acts with
  | finds found present done _ =>
      cases present.symm.trans stored
      exact ⟨found, done⟩
  | stores _ missing _ _ | raises _ missing _ _ => cases missing.symm.trans stored

/-- A result is stored in the slot of its query. -/
theorem stored_own (acts : query.Acts before) (done : query.outcome = .ok entry) :
    query.after.results.find? query.slot = some entry := by
  cases acts with
  | finds found present other same =>
      cases other.symm.trans done
      rw [same, present]
  | stores missed missing other added =>
      cases other.symm.trans done
      have own : entry.slot = query.slot := Call.slot_of_outcome done
      rw [added, ← own]
      exact Results.find?_store_own (own ▸ missing)
  | raises _ _ failed _ => cases failed.symm.trans done

/-- A failure stores nothing in the slot of its query. -/
theorem missing_own (acts : query.Acts before) (raised : query.isRaised = true) :
    query.after.results.find? query.slot = none := by
  unfold isRaised at raised
  cases acts with
  | finds _ _ done _ | stores _ _ done _ =>
      rw [done] at raised
      cases raised
  | raises _ missing _ same => rw [same, missing]

/-- No slot comes to hold two results. -/
theorem distinct (acts : query.Acts before) (distinct : before.slots.Nodup) :
    query.after.results.slots.Nodup := by
  cases acts with
  | finds _ _ _ same | raises _ _ _ same =>
      rw [same]
      exact distinct
  | stores _ missing done added =>
      have own := Call.slot_of_outcome done
      rw [added, (Results.slots_store before _).nodup_iff, List.nodup_cons]
      exact ⟨Results.find?_eq_none_iff.mp (own ▸ missing), distinct⟩

/-- A query that finds no result adds one or is raised. -/
theorem balance (acts : query.Acts before) :
    query.after.results.slots.length + (if query.isRaised then 1 else 0) =
      before.slots.length + (if !query.isHit then 1 else 0) := by
  unfold isRaised isHit
  cases acts with
  | finds found _ done same =>
      rw [found, done, same]
      rfl
  | stores missed _ done added =>
      rw [missed, done, added, (Results.slots_store before _).length_eq]
      rfl
  | raises missed _ failed same =>
      rw [missed, failed, same]
      rfl

end Acts

end Query

/-- The queries act on the results one after another. -/
inductive Follows : Results → List Query → Results → Prop where
  | done (results : Results) : Follows results [] results
  | step {before after : Results} {query : Query} {queries : List Query}
      (acts : query.Acts before) (later : Follows query.after.results queries after) :
      Follows before (query :: queries) after

namespace Follows

variable {before middle after : Results} {queries more : List Query} {slot : Slot} {entry : Entry}

theorem append (first : Follows before queries middle) (second : Follows middle more after) :
    Follows before (queries ++ more) after := by
  induction first with
  | done results => exact second
  | step acts _ inductionHypothesis => exact .step acts (inductionHypothesis second)

/-- Any query stands between the results before and after it. -/
theorem split {front back : List Query} {query : Query}
    (follows : Follows before (front ++ query :: back) after) :
    ∃ middle, query.Acts middle ∧ Follows query.after.results back after := by
  induction front generalizing before with
  | nil =>
      cases follows with
      | step acts later => exact ⟨before, acts, later⟩
  | cons first rest inductionHypothesis =>
      cases follows with
      | step _ later => exact inductionHypothesis later

/-- A stored result stays, and all later queries of its slot find it. -/
theorem keeps (follows : Follows before queries after)
    (stored : before.find? slot = some entry) :
    after.find? slot = some entry ∧ ∀ query ∈ queries,
      query.after.results.find? slot = some entry ∧
        (query.slot = slot → query.found? = some entry ∧ query.outcome = .ok entry) := by
  induction follows with
  | done results => exact ⟨stored, nofun⟩
  | step acts _ inductionHypothesis =>
      have kept := acts.keeps stored
      obtain ⟨last, each⟩ := inductionHypothesis kept
      refine ⟨last, List.forall_mem_cons.mpr ⟨⟨kept, ?_⟩, each⟩⟩
      rintro rfl
      exact acts.finds_stored stored

theorem distinct (follows : Follows before queries after) (distinct : before.slots.Nodup) :
    after.slots.Nodup := by
  induction follows with
  | done results => exact distinct
  | step acts _ inductionHypothesis => exact inductionHypothesis (acts.distinct distinct)

/-- Every query that finds no result adds one or is raised. -/
theorem balance (follows : Follows before queries after) :
    after.slots.length + queries.countP Query.isRaised =
      before.slots.length + queries.countP (!·.isHit) := by
  induction follows with
  | done results => rfl
  | step acts _ inductionHypothesis =>
      have one := acts.balance
      simp only [List.countP_cons]
      omega

end Follows

/-- What a query leaves lasts while later ones act: its result is stored, a failure stores nothing
in its slot, and all that is stored when it ends stays and is found. -/
structure Query.Lasts (query : Query) (later : List Query) (last : Results) : Prop where
  stored : ∀ entry, query.outcome = .ok entry →
    query.after.results.find? query.slot = some entry
  raised : query.isRaised = true → query.after.results.find? query.slot = none
  kept : ∀ slot entry, query.after.results.find? slot = some entry →
    last.find? slot = some entry ∧ ∀ other ∈ later,
      other.after.results.find? slot = some entry ∧
        (other.slot = slot → other.found? = some entry ∧ other.outcome = .ok entry)

theorem Follows.lasts {before after : Results} {front back : List Query} {query : Query}
    (follows : Follows before (front ++ query :: back) after) : query.Lasts back after := by
  obtain ⟨middle, acts, later⟩ := follows.split
  exact ⟨fun _ done => acts.stored_own done, acts.missing_own, fun _ _ stored => later.keeps stored⟩

end Descriptor

end Narrowing
