import Narrowing.Proofs.LookupQueries

/-
This file lists all look-ups that calls make, nested ones included, and settles their accounts.
-/

namespace Narrowing

namespace Descriptor

/-- The queries of a look-up that starts with some tables, in the order in which they end. -/
abbrev Ledger := Tables → List Query

namespace Ledger

variable {Result : Type}

def nothing : Ledger := fun _ => []

/-- The queries of a look-up, and then those that its result leads to. -/
def andThen (first : Lookup Result) (own : Ledger) (next : Result → Ledger) : Ledger :=
  fun tables => own tables ++
    match first.outcome tables with
    | .ok result => next result (first.after tables)
    | .error _ => []

theorem andThen_nothing (first : Lookup Result) (own : Ledger) :
    andThen first own (fun _ => nothing) = own := by
  funext tables
  unfold andThen nothing
  cases first.outcome tables <;> exact List.append_nil _

/-- The query of a call, which comes after those of its computation if no result is stored. -/
def ofCall (call : Call) (inner : Ledger) : Ledger := fun tables =>
  match keyed : call.source.descriptorKey with
  | .error _ => []
  | .ok key =>
      let query : Query := ⟨call, key, keyed, tables⟩
      if query.isHit then [query] else inner query.missed ++ [query]

/-- The queries for the descriptor of a class, which has one part at most. -/
def ofClass : Descriptor → Ledger
  | .lookup source part => ofCall (.ntype source) (ofClass part)
  | .complexOf part => ofClass part
  | _ => nothing

/-- The queries that find the storage class of a type. -/
def ofStorages (element : Ntype) : List Storage → Ledger
  | [] => nothing
  | storage :: rest =>
      andThen (lookupPrimitive storage.element) (ofClass (ofPrimitive storage.element))
        fun candidate =>
          if element.proves candidate.ntype then nothing else ofStorages element rest

mutual

/-- The queries for the type of a description. -/
def ofDescriptor : Descriptor → Ledger
  | .lookup source part => ofCall (.ntype source) (ofDescriptor part)
  | .complexOf part | .complement part => ofDescriptor part
  | .arrayOf element _ =>
      andThen (resolve element) (ofDescriptor element) fun found =>
        ofStorages found.ntype storageOrder
  | .cons parts | .function parts _ | .both parts | .either parts => ofParts parts
  | .functionTo parameters result =>
      andThen (resolveAll parameters) (ofParts parameters) fun _ => ofValues result
  | .sections source items => ofCall (.values source) (ofSections items .start)
  | .known _ | .unknown | .malformed _ _ | .eql _ _ | .member _ _ | .integers _
  | .realRange _ _ | .arrays _ => nothing

def ofParts : List Descriptor → Ledger
  | [] => nothing
  | part :: rest => andThen (resolve part) (ofDescriptor part) fun _ => ofParts rest

/-- The queries for the values of a description. -/
def ofValues : Descriptor → Ledger
  | .lookup source (.sections _ items) => ofCall (.values source) (ofSections items .start)
  | .lookup source part => ofCall (.values source) (ofCall (.ntype source) (ofDescriptor part))
  | part => ofDescriptor part

/-- The queries for the items of a list of values, up to a keyword that is misplaced. -/
def ofSections : List Descriptor → Sections → Ledger
  | [], _ => nothing
  | item :: rest, state =>
      match item.source? with
      | some (.text name) =>
          if name.startsWith "&" then
            match state.enter? name with
            | some entered => ofSections rest entered
            | none => nothing
          else andThen (resolve item) (ofDescriptor item) fun estimate =>
            ofSections rest (state.add estimate)
      | _ => andThen (resolve item) (ofDescriptor item) fun estimate =>
          ofSections rest (state.add estimate)

end

end Ledger

/-- The queries of a call. -/
def Call.queries : Call → Ledger
  | .ntype source => Ledger.ofDescriptor (ofValue source)
  | .values source =>
      if source.isStar then .ofCall (.values source) .nothing else .ofValues (ofValue source)

/-- The queries of some calls, one call after another. -/
def allQueries (tables : Tables) : List Call → List Query
  | [] => []
  | call :: rest => call.queries tables ++ allQueries (call.after tables) rest

/-- Some queries account for all that happens to the results and to the counters. -/
structure Accounts (before : Tables) (queries : List Query) (after : Tables) : Prop where
  follows : Follows before.results queries after.results
  hits : after.hits = before.hits + queries.countP (·.isHit)
  misses : after.misses = before.misses + queries.countP (!·.isHit)

namespace Accounts

variable {before middle after : Tables} {queries more : List Query}

theorem quiet (results : after.results = before.results) (hits : after.hits = before.hits)
    (misses : after.misses = before.misses) : Accounts before [] after :=
  ⟨results ▸ .done _, hits, misses⟩

theorem append (first : Accounts before queries middle) (second : Accounts middle more after) :
    Accounts before (queries ++ more) after := by
  refine ⟨first.follows.append second.follows, ?_, ?_⟩
  · rw [second.hits, first.hits, List.countP_append, Nat.add_assoc]
  · rw [second.misses, first.misses, List.countP_append, Nat.add_assoc]

end Accounts

/-- A call that computes a result under a ledger is recorded behind it. -/
theorem accounts_ofCall (call : Call) {inner : Ledger}
    (computed : ∀ tables, Accounts tables (inner tables) (call.computed tables))
    (tables : Tables) : Accounts tables (Ledger.ofCall call inner tables) (call.after tables) := by
  unfold Ledger.ofCall
  split
  · rename_i part keyless
    rw [Call.after_keyless keyless]
    exact .quiet rfl rfl rfl
  · rename_i key hasKey
    let query : Query := ⟨call, key, hasKey, tables⟩
    change Accounts tables (if query.isHit then [query] else inner query.missed ++ [query])
      query.after
    cases found : query.found? with
    | some entry =>
        have isHit : query.isHit = true := congrArg Option.isSome found
        obtain ⟨hits, misses, _⟩ := Call.hit hasKey found
        rw [if_pos isHit]
        refine ⟨.step (.of_found found) (.done _), ?_, ?_⟩ <;>
          simpa [List.countP_singleton, isHit]
    | none =>
        have isMiss : query.isHit = false := congrArg Option.isSome found
        obtain ⟨hits, misses, _⟩ := Call.miss hasKey found
        have inside := computed query.missed
        rw [if_neg (Bool.eq_false_iff.mp isMiss)]
        refine ⟨inside.follows.append (.step (.of_missed found) (.done _)), ?_, ?_⟩
        · refine hits.trans (inside.hits.trans ?_)
          rw [List.countP_append, List.countP_singleton, isMiss]
          rfl
        · refine misses.trans (inside.misses.trans ?_)
          rw [List.countP_append, List.countP_singleton, isMiss]
          exact Nat.add_right_comm tables.misses 1 _

/-- A ledger accounts for all that a look-up does, whatever the tables are. -/
def Records {Result : Type} (lookup : Lookup Result) (ledger : Ledger) : Prop :=
  ∀ tables, Accounts tables (ledger tables) (lookup.after tables)

section Steps

variable {First Second : Type} {source : Value} {ledger : Ledger}

theorem records_pure (result : First) : Records (pure result) .nothing :=
  fun _ => .quiet rfl rfl rfl

theorem records_malformed (cause : Cause) (source : Value) :
    Records (Lookup.malformed cause source : Lookup First) .nothing :=
  fun _ => .quiet rfl rfl rfl

theorem records_singleton? (value : Value) : Records (Lookup.singleton? value) .nothing := by
  intro tables
  obtain ⟨singletons, left⟩ := singleton?_after value tables
  rw [left]
  exact .quiet rfl rfl rfl

theorem Records.bind {first : Lookup First} {next : First → Lookup Second}
    {more : First → Ledger} (starts : Records first ledger)
    (continues : ∀ result, Records (next result) (more result)) :
    Records (first >>= next) (.andThen first ledger more) := by
  intro tables
  rw [Lookup.after_bind, Ledger.andThen]
  cases first.outcome tables with
  | ok result => exact (starts tables).append (continues result _)
  | error fault =>
      rw [List.append_nil]
      exact starts tables

/-- What makes no queries leaves the ledger as it is. -/
theorem Records.before {first : Lookup First} {next : First → Lookup Second}
    (starts : Records first ledger) (continues : ∀ result, Records (next result) .nothing) :
    Records (first >>= next) ledger := by
  rw [← Ledger.andThen_nothing first ledger]
  exact starts.bind continues

theorem Records.map {first : Lookup First} (starts : Records first ledger)
    (change : First → Second) : Records (first >>= fun result => pure (change result)) ledger :=
  starts.before fun result => records_pure (change result)

/-- The look-up of a type is recorded behind its computation. -/
theorem records_ntype (computed : Records (resolve (body source)) ledger) :
    Records (resolve (ofValue source)) (.ofCall (.ntype source) ledger) :=
  accounts_ofCall (.ntype source) computed

theorem records_values (computed : Records (computedValues source) ledger) :
    Records (valuesOf source) (.ofCall (.values source) ledger) :=
  accounts_ofCall (.values source) computed

theorem records_memberUnion (source : Value) (values : List Value) (united : Estimate) :
    Records (memberUnion source values united) .nothing := by
  induction values generalizing united with
  | nil => exact records_pure united
  | cons value rest inductionHypothesis =>
      refine (records_singleton? value).before fun single => ?_
      cases single with
      | none => exact records_malformed _ source
      | some ntype => exact inductionHypothesis _

theorem records_finish (source : Value) (state : Sections) :
    Records (state.finish source) .nothing := by
  rw [Sections.finish]
  split
  · exact records_malformed _ source
  · simp only
    split
    · exact records_pure _
    · exact Records.map (fun _ => .quiet rfl rfl rfl) _

end Steps

section Parts

theorem records_known {source : Value} {ntype : Ntype} (analysed : body source = .known ntype) :
    Records (resolve (ofValue source)) (.ofCall (.ntype source) .nothing) := by
  refine records_ntype ?_
  rw [analysed, resolve]
  exact records_pure _

/-- The queries for the elements of a storage class. -/
theorem records_element {storage : Storage} (member : storage ∈ storageOrder) :
    Records (lookupPrimitive storage.element) (.ofClass (ofPrimitive storage.element)) := by
  have complexOf (part : Primitive) {primitive : Primitive}
      (analysed : body primitive.descriptor = .complexOf (ofValue part.descriptor))
      (inner : body part.descriptor = .known (.primitive part)) :
      Records (resolve (ofValue primitive.descriptor))
        (.ofCall (.ntype primitive.descriptor) (.ofCall (.ntype part.descriptor) .nothing)) := by
    refine records_ntype ?_
    rw [analysed, resolve]
    exact (records_known inner).map _
  rw [lookupPrimitive_element member]
  cases storage with
  | object => exact absurd member (by decide)
  | complexSingle => exact complexOf .singleFloat rfl rfl
  | complexDouble => exact complexOf .doubleFloat rfl rfl
  | word kind =>
      cases kind <;>
      · refine records_ntype ?_
        change Records (resolve (.integers _)) .nothing
        rw [resolve]
        exact records_pure _
  | _ => exact records_known rfl

theorem records_storageFor (element : Ntype) {order : List Storage}
    (known : ∀ storage ∈ order, storage ∈ storageOrder) :
    Records (storageFor element order) (.ofStorages element order) := by
  induction order with
  | nil => exact records_pure _
  | cons storage rest inductionHypothesis =>
      obtain ⟨member, later⟩ := List.forall_mem_cons.mp known
      refine (records_element member).bind fun candidate => ?_
      split
      · exact records_pure _
      · exact inductionHypothesis later

theorem records_resolveAll {parts : List Descriptor}
    (each : ∀ part ∈ parts, Records (resolve part) (.ofDescriptor part)) :
    Records (resolveAll parts) (.ofParts parts) := by
  induction parts with
  | nil =>
      rw [resolveAll, Ledger.ofParts]
      exact records_pure _
  | cons part rest inductionHypothesis =>
      obtain ⟨own, later⟩ := List.forall_mem_cons.mp each
      rw [resolveAll, Ledger.ofParts]
      exact own.bind fun _ => (inductionHypothesis later).map _

theorem records_resolveSections (source : Value) {items : List Descriptor}
    (each : ∀ item ∈ items, Records (resolve item) (.ofDescriptor item)) (state : Sections) :
    Records (resolveSections source items state) (.ofSections items state) := by
  induction items generalizing state with
  | nil =>
      rw [resolveSections, Ledger.ofSections]
      exact records_finish source state
  | cons item rest inductionHypothesis =>
      obtain ⟨own, later⟩ := List.forall_mem_cons.mp each
      have plain : Records
          (resolve item >>= fun estimate => resolveSections source rest (state.add estimate))
          (.andThen (resolve item) (.ofDescriptor item) fun estimate =>
            .ofSections rest (state.add estimate)) :=
        own.bind fun _ => inductionHypothesis later _
      unfold resolveSections Ledger.ofSections
      cases item.source? with
      | none => exact plain
      | some value =>
          cases value with
          | text name =>
              by_cases keyword : name.startsWith "&" = true
              · simp only [if_pos keyword]
                cases state.enter? name with
                | none => exact records_malformed _ source
                | some entered => exact inductionHypothesis later entered
              · simp only [if_neg keyword]
                exact plain
          | _ => exact plain

/-- What is recorded for a part: the look-ups of its type, those of the items of a list of values,
and those of its values. -/
structure Recorded (part : Descriptor) : Prop where
  types : Records (resolve part) (.ofDescriptor part)
  items : ∀ origin items, part = .sections origin items →
    ∀ item ∈ items, Records (resolve item) (.ofDescriptor item)
  values : ∀ source, part = ofValue source → source.isStar = false →
    Records (valuesOf source) (.ofValues part)

namespace Recorded

/-- A part that is neither looked up nor a list of values. -/
theorem ofTypes {part : Descriptor} (types : Records (resolve part) (.ofDescriptor part))
    (plain : ∀ origin items, part ≠ .sections origin items)
    (owned : ∀ source inner, part ≠ .lookup source inner) : Recorded part :=
  ⟨types, fun origin items same => absurd same (plain origin items),
    fun source same => absurd same (owned source (body source))⟩

theorem lookup {source : Value} (inner : Recorded (body source)) : Recorded (ofValue source) := by
  have types : Records (resolve (ofValue source))
      (.ofCall (.ntype source) (.ofDescriptor (body source))) :=
    records_ntype inner.types
  refine ⟨?_, nofun, ?_⟩
  · rw [ofValue, Ledger.ofDescriptor]
    exact types
  rintro other same named
  cases same
  by_cases listed : ∃ origin items, body source = .sections origin items
  · obtain ⟨origin, items, analysed⟩ := listed
    rw [ofValue, analysed, Ledger.ofValues]
    refine records_values ?_
    rw [computedValues_sections named analysed]
    exact records_resolveSections source (inner.items origin items analysed) .start
  · have plain : ∀ origin items, body source ≠ .sections origin items :=
      fun origin items analysed => listed ⟨origin, items, analysed⟩
    rw [ofValue, Ledger.ofValues]
    · refine records_values ?_
      unfold computedValues
      rw [if_neg (Bool.eq_false_iff.mp named)]
      split
      · exact absurd ‹_› (plain _ _)
      · rw [← resolve_ofValue]
        exact types.map _
    · exact plain

end Recorded

mutual

/-- Everything that the look-ups of a part do is recorded. -/
theorem recorded {set : Set Value} : ∀ part : Descriptor, part.Within set → Recorded part
  | .lookup source part, within => by
      have inner := recorded part within.2.2
      obtain ⟨_, rfl, _⟩ := within
      exact .lookup inner
  | .known _, _ | .unknown, _ | .integers _, _ | .realRange _ _, _ | .arrays _, _ => by
      refine .ofTypes ?_ nofun nofun
      rw [resolve, Ledger.ofDescriptor]
      exact records_pure _
  | .malformed cause source, _ => by
      refine .ofTypes ?_ nofun nofun
      rw [resolve, Ledger.ofDescriptor]
      exact records_malformed cause source
  | .eql source value, _ => by
      refine .ofTypes ?_ nofun nofun
      rw [resolve, Ledger.ofDescriptor]
      refine (records_singleton? value).before fun single => ?_
      cases single with
      | none => exact records_malformed _ source
      | some ntype => exact records_pure _
  | .member source values, _ => by
      refine .ofTypes ?_ nofun nofun
      rw [resolve, Ledger.ofDescriptor]
      exact records_memberUnion source values _
  | .complexOf part, within | .complement part, within => by
      refine .ofTypes ?_ nofun nofun
      rw [resolve, Ledger.ofDescriptor]
      exact (recorded part within).types.map _
  | .arrayOf element sized, within => by
      refine .ofTypes ?_ nofun nofun
      rw [resolve, Ledger.ofDescriptor]
      refine (recorded element within.2).types.bind fun found => ?_
      exact (records_storageFor found.ntype fun _ own => own).map _
  | .cons parts, within | .function parts _, within | .both parts, within
  | .either parts, within => by
      refine .ofTypes ?_ nofun nofun
      rw [resolve, Ledger.ofDescriptor]
      exact (records_resolveAll (recordedAll parts within)).map _
  | .functionTo parameters result, within => by
      obtain ⟨parametersWithin, ⟨source, rfl, named⟩, resultWithin⟩ := within
      have values := (recorded _ resultWithin).values source rfl named
      rw [valuesOf, if_neg (Bool.eq_false_iff.mp named)] at values
      refine .ofTypes ?_ nofun nofun
      rw [resolve, Ledger.ofDescriptor]
      exact (records_resolveAll (recordedAll parameters parametersWithin)).bind
        fun _ => values.map _
  | .sections source items, within => by
      obtain ⟨_, named, analysed, itemsWithin⟩ := within
      have each := recordedAll items itemsWithin
      -- the sections are computed as they are for a call on the values of their source
      have computed := computedValues_sections named analysed
      refine ⟨?_, fun _ _ same => ?_, nofun⟩
      · rw [resolve, Ledger.ofDescriptor, ← computed, ← valuesOf_eq]
        refine Records.map (records_values ?_) _
        rw [computed]
        exact records_resolveSections source each .start
      · cases same
        exact each

theorem recordedAll {set : Set Value} : ∀ parts : List Descriptor, AllWithin set parts →
    ∀ part ∈ parts, Records (resolve part) (.ofDescriptor part)
  | [], _ => nofun
  | part :: rest, within =>
      List.forall_mem_cons.mpr
        ⟨(recorded part within.1).types, recordedAll rest within.2⟩

end

end Parts

/-- The queries of a call account for all that it does. -/
theorem accounts_call (call : Call) (tables : Tables) :
    Accounts tables (call.queries tables) (call.after tables) := by
  have recorded (source : Value) : Recorded (ofValue source) :=
    recorded _ (traced_ofValue source Set.univ fun _ _ => Set.mem_univ _)
  cases call with
  | ntype source => exact (recorded source).types tables
  | values source =>
      rw [Call.queries]
      split
      · rename_i starred
        refine records_values ?_ tables
        rw [computedValues, if_pos starred]
        exact records_pure _
      · rename_i named
        exact (recorded source).values source rfl (Bool.eq_false_iff.mpr named) tables

/-- So do the queries of many calls. -/
theorem accounts_calls (tables : Tables) (calls : List Call) :
    Accounts tables (allQueries tables calls) (calls.foldl Call.after tables) := by
  induction calls generalizing tables with
  | nil => exact .quiet rfl rfl rfl
  | cons call rest inductionHypothesis =>
      exact (accounts_call call tables).append (inductionHypothesis (call.after tables))

/-- After any calls since a reset the counters balance over all look-ups, nested ones included: every
miss stored one more result or was raised. The look-ups act on the results one after another, no
slot holds two results, and what a look-up leaves lasts. -/
theorem lookups_accounted (tables : Tables) (calls : List Call) :
    let left := calls.foldl Call.after tables.reset
    let queries := allQueries tables.reset calls
    left.misses = left.size + queries.countP (·.isRaised) ∧
      left.misses = queries.countP (!·.isHit) ∧ left.hits = queries.countP (·.isHit) ∧
      Follows tables.reset.results queries left.results ∧ left.results.slots.Nodup ∧
      ∀ front query back, queries = front ++ query :: back → query.Lasts back left.results := by
  intro left queries
  have accounts : Accounts tables.reset queries left := accounts_calls tables.reset calls
  obtain ⟨follows, hits, misses⟩ := accounts
  have missed : left.misses = queries.countP (!·.isHit) := misses.trans (Nat.zero_add _)
  have balance := follows.balance
  rw [Tables.length_slots, Tables.length_slots] at balance
  refine ⟨?_, missed, hits.trans (Nat.zero_add _), follows, follows.distinct List.nodup_nil, ?_⟩
  · rw [missed]
    exact (balance.trans (Nat.zero_add _)).symm
  · intro front query back split
    exact Follows.lasts (split ▸ follows)

-- a class with its part, the part again, and a singleton without a value
example :
    (allQueries .empty
      [.ntype (.tuple [.text "complex", .text "single-float"]), .ntype (.text "single-float"),
        .ntype (.tuple [.text "eql"])]).map (fun query => (query.isHit, query.isRaised)) =
      [(false, false), (false, false), (true, false), (false, true)] := by
  cbv

end Descriptor

end Narrowing
