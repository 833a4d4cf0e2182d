import Narrowing.Proofs.RegistryHistories

/-
This file says what any number of requests do to several registries: which entry a write changes,
what a frozen registry refuses, and what a copy starts with.
-/

namespace Narrowing

/-- A later step that goes through under one condition adds this condition. -/
theorem isOk_bind_iff {First Result : Type} {outcome : Except Fault First}
    {next : First → Except Fault Result} {Valid : Prop}
    (later : ∀ first, (next first).isOk ↔ Valid) :
    (outcome >>= next).isOk ↔ outcome.isOk ∧ Valid := by
  cases outcome with
  | error fault =>
      refine iff_of_false ?_ ?_ <;> simp [Except.isOk, Except.toBool, bind, Except.bind]
  | ok first => exact (later first).trans (and_iff_right rfl).symm

/-- A request changes a registry or asks about an operation. -/
inductive Request where
  | command (command : Command)
  | lookup (name : String)
  | ensure (name : String)
  | check (name : String) (count : Int)

namespace Command

/-- An operation gets its specializer by an update of this part alone. -/
def decorate (name : String) (rule : Option SpecializationRule) : Command :=
  .update name { Changes.nothing with specializer := some rule }

/-- An operation gets its differentiator by an update of this part alone. -/
def decorateSlope (name : String) (rule : Option DerivativeRule) : Command :=
  .update name { Changes.nothing with differentiator := some rule }

/-- The name whose record a command writes. -/
def name? : Command → Option String
  | register name _ => some name
  | update name _ => some name
  | freeze => none
  | copy _ => none

/-- The parts of a registration are known properties, bounds in order and a description of values;
an update looks at the values only. -/
def IsValid : Command → Prop
  | register _ changes =>
      (∀ property ∈ changes.properties.getD [], property ∈ Record.knownProperties) ∧
        (0 ≤ changes.least.getD 0 ∧
          ∀ bound ∈ changes.most.getD none, changes.least.getD 0 ≤ bound) ∧
        (changes.values.getD (.given .any)).resolve.isOk
  | update _ changes => ∀ source ∈ changes.values, source.resolve.isOk
  | freeze => True
  | copy _ => True

theorem isValid_decorate (name : String) (rule : Option SpecializationRule) :
    (decorate name rule).IsValid := by
  simp [decorate, IsValid, Changes.nothing]

theorem isValid_decorateSlope (name : String) (rule : Option DerivativeRule) :
    (decorateSlope name rule).IsValid := by
  simp [decorateSlope, IsValid, Changes.nothing]

end Command

namespace Registry

variable {registry : Registry} {record : Record}

/-- The registry of some records; of two records with one name, the later one takes the place of
the earlier one. -/
def ofRecords (records : List Record) : Registry :=
  ⟨records.foldl (fun kept record => insert record kept) [], false⟩

/-- The registry before and after one record is written: the record is the one entry that differs,
and its name keeps its position or comes last. -/
structure Writes (before : Registry) (record : Record) (after : Registry) : Prop where
  unfrozen : after.frozen = false
  names : after.names =
    if record.name ∈ before.names then before.names else before.names ++ [record.name]
  entries : ∀ name,
    after.lookup? name = if name = record.name then some record else before.lookup? name

theorem nodup_ofRecords (records : List Record) : (ofRecords records).names.Nodup := by
  have kept : ∀ earlier : List Record, (earlier.map (·.name)).Nodup →
      ((records.foldl (fun kept record => insert record kept) earlier).map (·.name)).Nodup := by
    induction records with
    | nil => exact fun _ nodup => nodup
    | cons record rest inductionHypothesis =>
        exact fun earlier nodup => inductionHypothesis _ (nodup_insert nodup record)
  exact kept [] List.nodup_nil

/-- Records with distinct names all stay, in their order. -/
theorem ofRecords_of_nodup {records : List Record} (nodup : (records.map (·.name)).Nodup) :
    ofRecords records = ⟨records, false⟩ := by
  have appended : ∀ earlier later : List Record, ((earlier ++ later).map (·.name)).Nodup →
      later.foldl (fun kept record => insert record kept) earlier = earlier ++ later := by
    intro earlier later
    induction later generalizing earlier with
    | nil => simp
    | cons record rest inductionHypothesis =>
        intro nodup
        have absent : record.name ∉ earlier.map (·.name) := by
          rw [List.map_append, List.nodup_append] at nodup
          intro present
          exact nodup.2.2 _ present _ List.mem_cons_self rfl
        rw [List.foldl_cons, insert_of_not_mem absent, inductionHypothesis]
        · simp
        · simpa using nodup
  simp only [ofRecords, appended [] records nodup, List.nil_append]

theorem lookup_insert (name : String) (records : List Record) :
    (insert record records).find? (·.name == name) =
      if name = record.name then some record else records.find? (·.name == name) := by
  induction records with
  | nil =>
      by_cases own : name = record.name
      · simp [insert, own]
      · simp [insert, own, Ne.symm own]
  | cons first rest inductionHypothesis =>
      by_cases own : name = record.name
      · subst own
        simp only [insert]
        split
        · simp
        · rename_i different
          simpa [List.find?_cons, beq_false_of_ne different] using inductionHypothesis
      · simp only [insert, if_neg own] at inductionHypothesis ⊢
        split
        · rename_i same
          simp [same, Ne.symm own]
        · rw [List.find?_cons, List.find?_cons, inductionHypothesis]

theorem writes_store {next : Registry} (stored : registry.store record = .ok next) :
    registry.Writes record next := by
  obtain ⟨-, rfl⟩ := store_eq_ok_iff.mp stored
  refine ⟨rfl, ?_, fun name => lookup_insert name registry.records⟩
  split
  · rename_i present
    exact insert_names_of_mem present
  · rename_i absent
    simp [names, insert_of_not_mem absent]

theorem store_of_frozen (frozen : registry.frozen = true) :
    registry.store record = .error (.frozen record.name) := by
  simp [store, frozen]

theorem checkProperties_isOk_iff (name : String) {properties : List String} :
    (checkProperties name properties).isOk ↔
      ∀ property ∈ properties, property ∈ Record.knownProperties := by
  unfold checkProperties
  dsimp only
  split
  · rename_i noneUnknown
    simpa [Except.isOk, Except.toBool, List.filter_eq_nil_iff] using noneUnknown
  · rename_i someUnknown
    simpa [Except.isOk, Except.toBool, List.filter_eq_nil_iff] using someUnknown

theorem checkBounds_isOk_iff (name : String) {least : Int} {most : Option Int} :
    (checkBounds name least most).isOk ↔ 0 ≤ least ∧ ∀ bound ∈ most, least ≤ bound := by
  unfold checkBounds
  split
  · rename_i disordered
    refine iff_of_false (by simp [Except.isOk, Except.toBool]) ?_
    rintro ⟨positive, ordered⟩
    rcases disordered with negative | ⟨bound, member, less⟩
    · omega
    · have := ordered bound member
      omega
  · rename_i ordered
    exact iff_of_true rfl (by simpa using ordered)

theorem recordOf_isOk_iff (serial : Nat) {name : String} {changes : Changes} :
    (recordOf serial name changes).isOk ↔ (Command.register name changes).IsValid := by
  unfold recordOf
  rw [Command.IsValid, ← checkProperties_isOk_iff name]
  refine isOk_bind_iff fun properties => ?_
  rw [← checkBounds_isOk_iff name]
  refine isOk_bind_iff fun _ => ?_
  exact (isOk_bind_iff fun _ => iff_true_intro rfl).trans (and_iff_left trivial)

theorem store_isOk_iff (record : Record) :
    (registry.store record).isOk ↔ registry.frozen = false := by
  cases frozen : registry.frozen with
  | true => simp [store_of_frozen frozen, Except.isOk, Except.toBool]
  | false => simp [store, frozen, Except.isOk, Except.toBool]

/-- A registration goes through just when its parts are valid and the registry is not frozen. -/
theorem register_isOk_iff (serial : Nat) {name : String} {changes : Changes} :
    (registry.register serial name changes).isOk ↔
      (Command.register name changes).IsValid ∧ registry.frozen = false := by
  rw [← recordOf_isOk_iff serial]
  refine isOk_bind_iff fun record => ?_
  rw [← store_isOk_iff record]
  exact (isOk_bind_iff fun _ => iff_true_intro rfl).trans (and_iff_left trivial)

theorem resolved_isOk_iff {name : String} {changes : Changes} :
    (changes.values.mapM ValuesSource.resolve).isOk ↔ (Command.update name changes).IsValid := by
  cases given : changes.values with
  | none => exact iff_of_true rfl fun source member => by simp [given] at member
  | some source =>
      have resolved : ((some source).mapM ValuesSource.resolve).isOk ↔ source.resolve.isOk :=
        (isOk_bind_iff fun _ => iff_true_intro rfl).trans (and_iff_left trivial)
      simpa [Command.IsValid, given] using resolved

theorem update_isOk_iff (serial : Nat) {name : String} {changes : Changes} :
    (registry.update serial name changes).isOk ↔
      (Command.update name changes).IsValid ∧ registry.frozen = false := by
  rw [← resolved_isOk_iff]
  refine isOk_bind_iff fun values => ?_
  refine (isOk_bind_iff fun _ => iff_true_intro rfl).trans ((and_iff_left trivial).trans ?_)
  exact store_isOk_iff _

theorem recordOf_name {serial : Nat} {name : String} {changes : Changes}
    (made : recordOf serial name changes = .ok record) : record.name = name := by
  obtain ⟨properties, -, made⟩ := exists_of_bind made
  obtain ⟨_, -, made⟩ := exists_of_bind made
  obtain ⟨values, -, made⟩ := exists_of_bind made
  cases made
  rfl

/-- A registration that goes through writes one record, under the name that it gives. -/
theorem writes_register {serial : Nat} {name : String} {changes : Changes} {next : Registry}
    (registered : registry.register serial name changes = .ok (next, record)) :
    record.name = name ∧ registry.Writes record next := by
  obtain ⟨made, valid, registered⟩ := exists_of_bind registered
  obtain ⟨stored, kept, registered⟩ := exists_of_bind registered
  cases registered
  exact ⟨recordOf_name valid, writes_store kept⟩

theorem writes_update {serial : Nat} {name : String} {changes : Changes} {next : Registry}
    (updated : registry.update serial name changes = .ok (next, record)) :
    record.name = name ∧ registry.Writes record next := by
  obtain ⟨values, -, updated⟩ := exists_of_bind updated
  obtain ⟨stored, kept, updated⟩ := exists_of_bind updated
  cases updated
  exact ⟨rfl, writes_store kept⟩

/-- A frozen registry refuses a registration whose parts are all valid. -/
theorem register_of_frozen (frozen : registry.frozen = true) {serial : Nat} {name : String}
    {changes : Changes} (valid : (Command.register name changes).IsValid) :
    registry.register serial name changes = .error (.frozen name) := by
  obtain ⟨record, made⟩ := exists_of_isOk ((recordOf_isOk_iff serial).mpr valid)
  unfold register
  rw [made]
  change (registry.store record >>= fun next => .ok (next, record)) = .error (.frozen name)
  rw [store_of_frozen frozen, recordOf_name made]
  rfl

theorem update_of_frozen (frozen : registry.frozen = true) {serial : Nat} {name : String}
    {changes : Changes} (valid : (Command.update name changes).IsValid) :
    registry.update serial name changes = .error (.frozen name) := by
  obtain ⟨values, resolved⟩ := exists_of_isOk (resolved_isOk_iff.mpr valid)
  unfold update
  rw [resolved]
  change (registry.store _ >>= fun _ => .ok _) = .error (.frozen name)
  rw [store_of_frozen frozen]
  rfl

end Registry

namespace Shelf

variable {shelf : Shelf} {label : String}

/-- The shelf with a registry for each list of records. -/
def holding (tables : List (String × List Record)) : Shelf :=
  ⟨tables.map fun entry => (entry.1, .ofRecords entry.2), 0⟩

/-- The answer to a request, and the shelf after it. -/
def serve (shelf : Shelf) (label : String) :
    Request → Except Fault (Option Record) × Shelf
  | .command command => shelf.run label command
  | .lookup name => (.ok ((shelf.registry label).lookup? name), shelf)
  | .ensure name => (.ok (some ((shelf.registry label).ensure name)), shelf)
  | .check name count => (((shelf.registry label).check name count).map some, shelf)

/-- The shelf after some requests, each with the label of its registry; some may fail. -/
def serving (shelf : Shelf) (history : List (String × Request)) : Shelf :=
  history.foldl (fun shelf entry => (shelf.serve entry.1 entry.2).2) shelf

theorem holding_hasDistinctNames (tables : List (String × List Record)) :
    (holding tables).HasDistinctNames := by
  intro label
  induction tables with
  | nil => exact List.nodup_nil
  | cons entry rest inductionHypothesis =>
      by_cases own : label = entry.1
      · subst own
        simpa [registry, holding] using Registry.nodup_ofRecords entry.2
      · have different : (label == entry.1) = false := by simpa using own
        simpa [registry, holding, List.lookup_cons, different] using inductionHypothesis

theorem HasDistinctNames.serve (distinct : shelf.HasDistinctNames) (label : String)
    (request : Request) : (shelf.serve label request).2.HasDistinctNames := by
  cases request with
  | command command => exact distinct.run label command
  | lookup name => exact distinct
  | ensure name => exact distinct
  | check name count => exact distinct

theorem HasDistinctNames.serving (distinct : shelf.HasDistinctNames)
    (history : List (String × Request)) : (shelf.serving history).HasDistinctNames := by
  induction history generalizing shelf with
  | nil => exact distinct
  | cons entry rest inductionHypothesis =>
      exact inductionHypothesis (distinct.serve entry.1 entry.2)

/-- A request that fails changes no registry. -/
theorem serve_error {request : Request} {fault : Fault}
    (failed : (shelf.serve label request).1 = .error fault) :
    (shelf.serve label request).2 = shelf := by
  cases request with
  | command command => exact run_error failed
  | lookup name => rfl
  | ensure name => rfl
  | check name count => rfl

theorem run_isOk (command : Command) :
    (shelf.run label command).1.isOk = (shelf.changed label command).isOk := by
  unfold run
  cases shelf.changed label command <;> rfl

/-- A write goes through just when its parts are valid and its registry is not frozen. -/
theorem write_isOk_iff {command : Command} {name : String} (writes : command.name? = some name) :
    (shelf.run label command).1.isOk ↔
      command.IsValid ∧ (shelf.registry label).frozen = false := by
  rw [run_isOk]
  cases command with
  | register name changes =>
      rw [← Registry.register_isOk_iff shelf.serial]
      exact (isOk_bind_iff fun _ => iff_true_intro rfl).trans (and_iff_left trivial)
  | update name changes =>
      rw [← Registry.update_isOk_iff shelf.serial]
      exact (isOk_bind_iff fun _ => iff_true_intro rfl).trans (and_iff_left trivial)
  | freeze => cases writes
  | copy other => cases writes

/-- A frozen registry refuses a write with valid parts because it is frozen. -/
theorem write_of_frozen {command : Command} {name : String} (writes : command.name? = some name)
    (frozen : (shelf.registry label).frozen = true) (valid : command.IsValid) :
    (shelf.run label command).1 = .error (.frozen name) := by
  cases command with
  | register own changes =>
      cases writes
      simp [run, changed, Registry.register_of_frozen frozen valid, bind, Except.bind]
  | update own changes =>
      cases writes
      simp [run, changed, Registry.update_of_frozen frozen valid, bind, Except.bind]
  | freeze => cases writes
  | copy other => cases writes

theorem run_of_changed {command : Command} {next : Registry} {answer : Option Record}
    (changed : shelf.changed label command = .ok (next, answer)) :
    shelf.run label command = (.ok answer, shelf.put (target label command) next) := by
  simp [run, changed]

/-- A command changes the registry of its target only. -/
theorem registry_run_of_ne {command : Command} {other : String}
    (different : other ≠ target label command) :
    (shelf.run label command).2.registry other = shelf.registry other := by
  cases outcome : shelf.changed label command with
  | error fault => simp [run, outcome]
  | ok result =>
      rw [run_of_changed outcome]
      exact registry_put_of_ne shelf different result.1

theorem target_of_writes {command : Command} {name : String} (writes : command.name? = some name) :
    target label command = label := by
  cases command with
  | copy other => cases writes
  | _ => rfl

/-- A write that goes through changes one entry of its registry. -/
theorem writes_of_run {command : Command} {name : String} {answer : Option Record}
    (writes : command.name? = some name) (done : (shelf.run label command).1 = .ok answer) :
    ∃ record, answer = some record ∧ record.name = name ∧
      (shelf.registry label).Writes record ((shelf.run label command).2.registry label) := by
  cases outcome : shelf.changed label command with
  | error fault => simp [run, outcome] at done
  | ok result =>
      obtain ⟨next, made⟩ := result
      rw [run_of_changed outcome, target_of_writes writes] at done ⊢
      cases done
      rw [registry_put_self]
      cases command with
      | register own changes =>
          cases writes
          obtain ⟨⟨stored, record⟩, registered, outcome⟩ := exists_of_bind outcome
          cases outcome
          exact ⟨record, rfl, Registry.writes_register registered⟩
      | update own changes =>
          cases writes
          obtain ⟨⟨stored, record⟩, updated, outcome⟩ := exists_of_bind outcome
          cases outcome
          exact ⟨record, rfl, Registry.writes_update updated⟩
      | freeze => cases writes
      | copy other => cases writes

theorem run_write_of_frozen {command : Command} (name : String)
    (writes : command.name? = some name) (frozen : (shelf.registry label).frozen = true) :
    (shelf.run label command).2 = shelf := by
  have refused : ¬ (shelf.run label command).1.isOk := by
    rw [write_isOk_iff writes, frozen]
    simp
  cases outcome : (shelf.run label command).1 with
  | ok answer => exact absurd (by rw [outcome]; rfl) refused
  | error fault => exact run_error outcome

/-- One command leaves a frozen registry as it is, unless a copy takes its label. -/
theorem registry_run_of_frozen (frozen : (shelf.registry label).frozen = true) {source : String}
    {command : Command} (keeps : command ≠ .copy label) :
    (shelf.run source command).2.registry label = shelf.registry label := by
  by_cases own : label = target source command
  · cases command with
    | register name changes =>
        obtain rfl : label = source := own
        rw [run_write_of_frozen name rfl frozen]
    | update name changes =>
        obtain rfl : label = source := own
        rw [run_write_of_frozen name rfl frozen]
    | freeze =>
        obtain rfl : label = source := own
        rw [run_of_changed (by rfl)]
        refine (registry_put_self shelf label _).trans ?_
        rw [Registry.freeze, ← frozen]
    | copy other => exact absurd (congrArg Command.copy own.symm) keeps
  · exact registry_run_of_ne own

theorem registry_serve_of_frozen (frozen : (shelf.registry label).frozen = true) (source : String)
    {request : Request} (keeps : request ≠ .command (.copy label)) :
    (shelf.serve source request).2.registry label = shelf.registry label := by
  cases request with
  | command command =>
      exact registry_run_of_frozen frozen fun same => keeps (congrArg Request.command same)
  | lookup name => rfl
  | ensure name => rfl
  | check name count => rfl

theorem registry_serving_of_frozen (frozen : (shelf.registry label).frozen = true)
    {later : List (String × Request)} (keeps : ∀ entry ∈ later, entry.2 ≠ .command (.copy label)) :
    (shelf.serving later).registry label = shelf.registry label := by
  induction later generalizing shelf with
  | nil => rfl
  | cons entry rest inductionHypothesis =>
      have same := registry_serve_of_frozen frozen entry.1
        (keeps entry List.mem_cons_self)
      rw [← same]
      exact inductionHypothesis (by rw [same, frozen])
        fun later member => keeps later (List.mem_cons_of_mem entry member)

/-- A copy holds the records of its original. -/
theorem run_copy (other : String) : shelf.run label (.copy other) =
    (.ok none, shelf.put other ⟨(shelf.registry label).records, false⟩) := rfl

/-- What a request to one registry of a shelf does to all of them. -/
structure Lifecycle (shelf : Shelf) (label : String) : Prop where
  /-- A request that fails changes no registry. -/
  failure : ∀ request fault, (shelf.serve label request).1 = .error fault →
    (shelf.serve label request).2 = shelf
  /-- A question changes no registry. -/
  question : ∀ request, (∀ command, request ≠ .command command) →
    (shelf.serve label request).2 = shelf
  /-- A registration or an update goes through just when its parts are valid and the registry is
  not frozen. -/
  accepted : ∀ command name, command.name? = some name →
    ((shelf.run label command).1.isOk ↔
      command.IsValid ∧ (shelf.registry label).frozen = false)
  /-- Then it writes one record, and all other registries stay as they are. -/
  written : ∀ command name answer, command.name? = some name →
    (shelf.run label command).1 = .ok answer →
      (∃ record, answer = some record ∧ record.name = name ∧
        (shelf.registry label).Writes record ((shelf.run label command).2.registry label)) ∧
      ∀ other, other ≠ label → (shelf.run label command).2.registry other = shelf.registry other
  /-- A freeze keeps the records, and all other registries stay as they are. -/
  freezes : (shelf.run label .freeze).2.registry label = ⟨(shelf.registry label).records, true⟩ ∧
    ∀ other, other ≠ label → (shelf.run label .freeze).2.registry other = shelf.registry other
  /-- A frozen registry stays as it is, as long as no copy takes its label, and it refuses every
  valid write and every rule. -/
  frozen : (shelf.registry label).frozen = true →
    ∀ later : List (String × Request), (∀ entry ∈ later, entry.2 ≠ .command (.copy label)) →
      (shelf.serving later).registry label = shelf.registry label ∧
      (∀ command name, command.name? = some name → command.IsValid →
        ((shelf.serving later).run label command).1 = .error (.frozen name)) ∧
      (∀ name rule, ((shelf.serving later).run label (.decorate name rule)).1 =
        .error (.frozen name)) ∧
      ∀ name rule, ((shelf.serving later).run label (.decorateSlope name rule)).1 =
        .error (.frozen name)
  /-- A copy is made anew from the records of its original: it has the same ones in the same order,
  it is not frozen, and all other registries stay as they are. -/
  copied : ∀ other, (shelf.run label (.copy other)).2.registry other =
      .ofRecords (shelf.registry label).records ∧
    (shelf.run label (.copy other)).2.registry other = ⟨(shelf.registry label).records, false⟩ ∧
    ∀ third, third ≠ other →
      (shelf.run label (.copy other)).2.registry third = shelf.registry third

/-- Whatever was asked of some registries before, each further request fails without a trace or
changes just what it names; only a copy starts a registry that is not frozen. -/
theorem lifecycle_serving (tables : List (String × List Record))
    (history : List (String × Request)) (label : String) :
    ((holding tables).serving history).Lifecycle label where
  failure request fault failed := serve_error failed
  question request asks := by
    cases request with
    | command command => exact absurd rfl (asks command)
    | lookup name => rfl
    | ensure name => rfl
    | check name count => rfl
  accepted command name writes := write_isOk_iff writes
  written command name answer writes done :=
    ⟨writes_of_run writes done, fun other different =>
      registry_run_of_ne (by rwa [target_of_writes writes])⟩
  freezes :=
    ⟨registry_put_self _ label _, fun other different => registry_run_of_ne different⟩
  frozen frozen later keeps := by
    have same := registry_serving_of_frozen frozen keeps
    have still : ((((holding tables).serving history).serving later).registry label).frozen =
        true := by rw [same, frozen]
    exact ⟨same, fun command name writes valid => write_of_frozen writes still valid,
      fun name rule => write_of_frozen rfl still (Command.isValid_decorate name rule),
      fun name rule => write_of_frozen rfl still (Command.isValid_decorateSlope name rule)⟩
  copied other := by
    have distinct := (holding_hasDistinctNames tables).serving history label
    rw [run_copy, registry_put_self, Registry.ofRecords_of_nodup distinct]
    exact ⟨rfl, rfl, fun third different => registry_put_of_ne _ different _⟩

end Shelf

end Narrowing
