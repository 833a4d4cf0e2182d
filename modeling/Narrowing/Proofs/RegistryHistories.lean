import Mathlib.Data.List.Induction
import Mathlib.Data.List.Nodup
import Narrowing.Proofs.LibraryCalls
import Narrowing.Registry.Shelf

/-
This file says which records a registry holds after any number of registrations, updates, freezes
and copies, and when all of them are well formed.
-/

namespace Narrowing

/-- The bounds of a record are in order and its properties are known ones. -/
structure Record.IsWellFormed (record : Record) : Prop where
  least : 0 ≤ record.least
  most : ∀ bound ∈ record.most, record.least ≤ bound
  properties : ∀ property ∈ record.properties, property ∈ Record.knownProperties

theorem Record.isWellFormed_unknown (name : String) : (Record.unknown name).IsWellFormed :=
  ⟨Int.le_refl 0, by simp [Record.unknown], by simp [Record.unknown]⟩

/-- The parts that an update names are in order beside the parts that it keeps. -/
structure Changes.Fits (changes : Changes) (record : Record) : Prop where
  least : 0 ≤ changes.least.getD record.least
  most : ∀ bound ∈ changes.most.getD record.most, changes.least.getD record.least ≤ bound
  properties : ∀ properties ∈ changes.properties, ∀ property ∈ properties,
    property ∈ Record.knownProperties

/-- A change of neither bounds nor properties fits every well-formed record. -/
theorem Changes.fits_of_none {changes : Changes} {record : Record}
    (wellFormed : record.IsWellFormed) (least : changes.least = none) (most : changes.most = none)
    (properties : changes.properties = none) : changes.Fits record := by
  refine ⟨?_, ?_, ?_⟩
  · simpa [least] using wellFormed.least
  · simpa [least, most] using wellFormed.most
  · simp [properties]

@[simp]
theorem mem_insertProperty {property other : String} {properties : List String} :
    other ∈ insertProperty property properties ↔ other = property ∨ other ∈ properties := by
  induction properties with
  | nil => simp [insertProperty]
  | cons first rest inductionHypothesis =>
      simp only [insertProperty]
      split
      · simp
      · split
        · rename_i same
          simp [same]
        · simp only [List.mem_cons, inductionHypothesis]
          tauto

@[simp]
theorem mem_orderedProperties {property : String} {properties : List String} :
    property ∈ orderedProperties properties ↔ property ∈ properties := by
  induction properties with
  | nil => simp [orderedProperties]
  | cons first rest inductionHypothesis =>
      have step : orderedProperties (first :: rest) =
          insertProperty first (orderedProperties rest) := rfl
      rw [step, mem_insertProperty, inductionHypothesis, List.mem_cons]

namespace Registry

variable {registry : Registry} {record other : Record}

/-- A name finds the records with that name and no others. -/
def IsIndexed (registry : Registry) : Prop :=
  ∀ name record, registry.lookup? name = some record ↔
    record ∈ registry.records ∧ record.name = name

def IsWellFormed (registry : Registry) : Prop :=
  ∀ record ∈ registry.records, record.IsWellFormed

theorem isIndexed_of_nodup (nodup : registry.names.Nodup) : registry.IsIndexed := by
  intro name record
  unfold lookup?
  constructor
  · intro found
    exact ⟨List.mem_of_find?_eq_some found, by simpa using List.find?_some found⟩
  · rintro ⟨member, rfl⟩
    obtain ⟨first, found⟩ : ∃ first, registry.records.find? (·.name == record.name) = some first :=
      Option.isSome_iff_exists.mp (List.find?_isSome.mpr ⟨record, member, by simp⟩)
    have same : first.name = record.name := by simpa using List.find?_some found
    rw [found, List.inj_on_of_nodup_map nodup (List.mem_of_find?_eq_some found) member same]

theorem mem_insert {records : List Record} (member : other ∈ insert record records) :
    other = record ∨ other ∈ records := by
  induction records with
  | nil => simpa [insert] using member
  | cons first rest inductionHypothesis =>
      simp only [insert] at member
      split at member
      · rcases List.mem_cons.mp member with same | later
        · exact .inl same
        · exact .inr (List.mem_cons_of_mem _ later)
      · rcases List.mem_cons.mp member with same | later
        · exact .inr (same ▸ List.mem_cons_self)
        · exact (inductionHypothesis later).imp_right (List.mem_cons_of_mem _)

theorem mem_insert_self (record : Record) (records : List Record) :
    record ∈ insert record records := by
  induction records with
  | nil => simp [insert]
  | cons first rest inductionHypothesis =>
      simp only [insert]
      split
      · exact List.mem_cons_self
      · exact List.mem_cons_of_mem _ inductionHypothesis

/-- A record replaces the one with its name, so no name comes twice. -/
theorem nodup_insert {records : List Record} (nodup : (records.map (·.name)).Nodup)
    (record : Record) : ((insert record records).map (·.name)).Nodup := by
  by_cases present : record.name ∈ records.map (·.name)
  · rwa [insert_names_of_mem present]
  · rw [insert_of_not_mem present, List.map_append, List.nodup_append]
    refine ⟨nodup, by simp, ?_⟩
    rintro name member _ last rfl
    exact present (by simpa [List.mem_singleton.mp last] using member)

theorem ensure_isWellFormed (wellFormed : registry.IsWellFormed) (name : String) :
    (registry.ensure name).IsWellFormed := by
  unfold ensure
  cases found : registry.lookup? name with
  | none => exact Record.isWellFormed_unknown name
  | some record => exact wellFormed record (List.mem_of_find?_eq_some found)

/-- Only a registry that is not frozen stores a record. -/
theorem store_eq_ok_iff {next : Registry} :
    registry.store record = .ok next ↔
      registry.frozen = false ∧ next = ⟨insert record registry.records, false⟩ := by
  obtain ⟨records, frozen⟩ := registry
  cases frozen <;> simp [store, eq_comm]

theorem checkProperties_known {name : String} {properties ordered : List String}
    (checked : checkProperties name properties = .ok ordered) :
    ∀ property ∈ ordered, property ∈ Record.knownProperties := by
  unfold checkProperties at checked
  dsimp only at checked
  split at checked
  · rename_i noneUnknown
    cases checked
    simpa [List.filter_eq_nil_iff] using noneUnknown
  · cases checked

theorem checkBounds_ordered {name : String} {least : Int} {most : Option Int}
    (checked : checkBounds name least most = .ok ()) :
    0 ≤ least ∧ ∀ bound ∈ most, least ≤ bound := by
  unfold checkBounds at checked
  split at checked
  · cases checked
  · rename_i ordered
    simpa using ordered

/-- A registration makes a well-formed record only. -/
theorem recordOf_isWellFormed {serial : Nat} {name : String} {changes : Changes}
    (made : recordOf serial name changes = .ok record) : record.IsWellFormed := by
  unfold recordOf at made
  obtain ⟨properties, known, made⟩ := exists_of_bind made
  obtain ⟨_, ordered, made⟩ := exists_of_bind made
  obtain ⟨values, -, made⟩ := exists_of_bind made
  cases made
  have bounds := checkBounds_ordered ordered
  exact ⟨bounds.1, bounds.2, checkProperties_known known⟩

/-- The parts of a record after an update: the named ones are new, the others are kept. -/
theorem update_record {serial : Nat} {name : String} {changes : Changes} {next : Registry}
    (changed : registry.update serial name changes = .ok (next, record)) :
    registry.store record = .ok next ∧
      record.least = changes.least.getD (registry.ensure name).least ∧
      record.most = changes.most.getD (registry.ensure name).most ∧
      record.properties =
        (changes.properties.map orderedProperties).getD (registry.ensure name).properties := by
  unfold update at changed
  obtain ⟨values, -, changed⟩ := exists_of_bind changed
  obtain ⟨stored, kept, changed⟩ := exists_of_bind changed
  cases changed
  exact ⟨kept, rfl, rfl, rfl⟩

/-- An update of a well-formed registry makes a well-formed record if its changes fit. -/
theorem update_isWellFormed_iff (wellFormed : registry.IsWellFormed) {serial : Nat}
    {name : String} {changes : Changes} {next : Registry}
    (changed : registry.update serial name changes = .ok (next, record)) :
    record.IsWellFormed ↔ changes.Fits (registry.ensure name) := by
  obtain ⟨-, least, most, properties⟩ := update_record changed
  have before := ensure_isWellFormed wellFormed name
  constructor
  · intro after
    refine ⟨least ▸ after.least, least ▸ most ▸ after.most, ?_⟩
    intro named given property member
    refine after.properties property ?_
    rw [properties, given]
    simpa using member
  · intro fits
    refine ⟨least ▸ fits.least, ?_, ?_⟩
    · rw [least, most]
      exact fits.most
    · intro property member
      rw [properties] at member
      cases given : changes.properties with
      | none => exact before.properties property (by simpa [given] using member)
      | some named => exact fits.properties named given property (by simpa [given] using member)

theorem standard_isWellFormed : standard.IsWellFormed := by
  have checked : ∀ record ∈ standard.records, 0 ≤ record.least ∧
      (∀ bound ∈ record.most, record.least ≤ bound) ∧
      ∀ property ∈ record.properties, property ∈ Record.knownProperties := by
    decide +kernel
  intro record member
  obtain ⟨least, most, properties⟩ := checked record member
  exact ⟨least, most, properties⟩

theorem standard_names_nodup : standard.names.Nodup := by decide +kernel

end Registry

namespace Shelf

variable {shelf : Shelf} {label : String} {command : Command}

/-- No registry on the shelf holds two records with one name. -/
def HasDistinctNames (shelf : Shelf) : Prop := ∀ label, (shelf.registry label).names.Nodup

def IsWellFormed (shelf : Shelf) : Prop := ∀ label, (shelf.registry label).IsWellFormed

/-- A command fits unless it is an update that goes through with changes that do not fit. -/
def Fits (shelf : Shelf) (label : String) : Command → Prop
  | .update name changes => (shelf.run label (.update name changes)).1.isOk →
      changes.Fits ((shelf.registry label).ensure name)
  | _ => True

/-- The records of a changed registry: the old ones, with the new record among them. -/
theorem changed_records {next : Registry} {answer : Option Record}
    (changed : shelf.changed label command = .ok (next, answer)) :
    next.records = answer.elim (shelf.registry label).records
      fun record => Registry.insert record (shelf.registry label).records := by
  cases command with
  | register name changes =>
      obtain ⟨⟨registry, record⟩, registered, changed⟩ := exists_of_bind changed
      cases changed
      obtain ⟨made, -, registered⟩ := exists_of_bind registered
      obtain ⟨stored, kept, registered⟩ := exists_of_bind registered
      cases registered
      rw [(Registry.store_eq_ok_iff.mp kept).2]
      rfl
  | update name changes =>
      obtain ⟨⟨registry, record⟩, updated, changed⟩ := exists_of_bind changed
      cases changed
      rw [(Registry.store_eq_ok_iff.mp (Registry.update_record updated).1).2]
      rfl
  | freeze =>
      cases changed
      rfl
  | copy other =>
      cases changed
      rfl

/-- A command makes a well-formed record just when it fits. -/
theorem answer_isWellFormed_iff (wellFormed : shelf.IsWellFormed) {next : Registry}
    {record : Record} (changed : shelf.changed label command = .ok (next, some record)) :
    record.IsWellFormed ↔ shelf.Fits label command := by
  cases command with
  | register name changes =>
      obtain ⟨⟨registry, made⟩, registered, changed⟩ := exists_of_bind changed
      cases changed
      obtain ⟨made, valid, registered⟩ := exists_of_bind registered
      obtain ⟨stored, -, registered⟩ := exists_of_bind registered
      cases registered
      exact iff_of_true (Registry.recordOf_isWellFormed valid) trivial
  | update name changes =>
      have finished : (shelf.run label (.update name changes)).1.isOk := by
        simp [run, changed, Except.isOk, Except.toBool]
      obtain ⟨⟨registry, made⟩, updated, changed⟩ := exists_of_bind changed
      cases changed
      rw [Registry.update_isWellFormed_iff (wellFormed label) updated]
      exact ⟨fun fits _ => fits, fun fits => fits finished⟩
  | freeze => cases changed
  | copy other => cases changed

/-- One command keeps the names of every registry distinct. -/
theorem HasDistinctNames.run (distinct : shelf.HasDistinctNames) (label : String) (command : Command) :
    (shelf.run label command).2.HasDistinctNames := by
  unfold Shelf.run
  split
  · exact distinct
  · rename_i next answer changed
    intro other
    by_cases own : other = target label command
    · subst own
      rw [registry_put_self, Registry.names, changed_records changed]
      cases answer with
      | none => exact distinct label
      | some record => exact Registry.nodup_insert (distinct label) record
    · rw [registry_put_of_ne shelf own]
      exact distinct other

/-- One command keeps all records well formed just when it fits. -/
theorem isWellFormed_run_iff (wellFormed : shelf.IsWellFormed) :
    (shelf.run label command).2.IsWellFormed ↔ shelf.Fits label command := by
  cases changed : shelf.changed label command with
  | error fault =>
      have failed : shelf.run label command = (.error fault, shelf) := by simp [run, changed]
      refine iff_of_true (failed ▸ wellFormed) ?_
      cases command with
      | update name changes => simp [Fits, failed, Except.isOk, Except.toBool]
      | _ => trivial
  | ok result =>
      obtain ⟨next, answer⟩ := result
      have finished : shelf.run label command =
          (.ok answer, shelf.put (target label command) next) := by simp [run, changed]
      have records := changed_records changed
      rw [finished]
      cases answer with
      | none =>
          refine iff_of_true (fun other => ?_) ?_
          · by_cases own : other = target label command
            · subst own
              rw [registry_put_self, Registry.IsWellFormed, records]
              exact wellFormed label
            · rw [registry_put_of_ne shelf own]
              exact wellFormed other
          · cases command with
            | update name changes =>
                obtain ⟨_, _, impossible⟩ := exists_of_bind changed
                cases impossible
            | _ => trivial
      | some record =>
          rw [← answer_isWellFormed_iff wellFormed changed]
          constructor
          · intro after
            refine after (target label command) record ?_
            rw [registry_put_self, records]
            exact Registry.mem_insert_self record _
          · intro valid other
            by_cases own : other = target label command
            · subst own
              rw [registry_put_self, Registry.IsWellFormed, records]
              intro kept member
              rcases Registry.mem_insert member with rfl | earlier
              · exact valid
              · exact wellFormed label kept earlier
            · rw [registry_put_of_ne shelf own]
              exact wellFormed other

/-- The shelf after some commands, each with the label of its registry; some may fail. -/
def after (shelf : Shelf) (history : List (String × Command)) : Shelf :=
  history.foldl (fun shelf request => (shelf.run request.1 request.2).2) shelf

theorem HasDistinctNames.after (distinct : shelf.HasDistinctNames)
    (history : List (String × Command)) : (shelf.after history).HasDistinctNames := by
  induction history generalizing shelf with
  | nil => exact distinct
  | cons request rest inductionHypothesis =>
      exact inductionHypothesis (distinct.run request.1 request.2)

/-- All records stay well formed along a history just when each of its commands fits. -/
theorem isWellFormed_after_iff (wellFormed : shelf.IsWellFormed)
    (history : List (String × Command)) :
    (∀ earlier, earlier <+: history → (shelf.after earlier).IsWellFormed) ↔
      ∀ earlier label command, earlier ++ [(label, command)] <+: history →
        (shelf.after earlier).Fits label command := by
  have last (earlier : List (String × Command)) (label : String) (command : Command) :
      shelf.after (earlier ++ [(label, command)]) = ((shelf.after earlier).run label command).2 :=
    List.foldl_append
  constructor
  · intro always earlier label command started
    rw [← isWellFormed_run_iff (always earlier ((List.prefix_append _ _).trans started)), ← last]
    exact always _ started
  · intro fits earlier started
    induction earlier using List.reverseRecOn with
    | nil => exact wellFormed
    | append_singleton earlier request inductionHypothesis =>
        rw [last, isWellFormed_run_iff
          (inductionHypothesis ((List.prefix_append _ _).trans started))]
        exact fits earlier request.1 request.2 started

/-- Updates that name neither bounds nor properties keep all records well formed. -/
theorem IsWellFormed.after (wellFormed : shelf.IsWellFormed) {history : List (String × Command)}
    (decorations : ∀ label name changes, (label, .update name changes) ∈ history →
      changes.least = none ∧ changes.most = none ∧ changes.properties = none) :
    (shelf.after history).IsWellFormed := by
  induction history generalizing shelf with
  | nil => exact wellFormed
  | cons request rest inductionHypothesis =>
      obtain ⟨label, command⟩ := request
      refine inductionHypothesis ((isWellFormed_run_iff wellFormed).mpr ?_) fun label name changes
        member => decorations label name changes (List.mem_cons_of_mem _ member)
      cases command with
      | update name changes =>
          obtain ⟨least, most, properties⟩ := decorations label name changes List.mem_cons_self
          exact fun _ => Changes.fits_of_none
            (Registry.ensure_isWellFormed (wellFormed label) name) least most properties
      | _ => trivial

/-- A registry of the initial shelf is empty or the standard one. -/
theorem initial_registry (label : String) :
    initial.registry label = .empty ∨ initial.registry label = .standard := by
  by_cases main : label = "main"
  · left
    subst main
    rfl
  · by_cases default : label = "default"
    · right
      subst default
      rfl
    · left
      have otherMain : (label == "main") = false := by simpa using main
      have otherDefault : (label == "default") = false := by simpa using default
      simp [registry, initial, List.lookup_cons, otherMain, otherDefault]

theorem initial_hasDistinctNames : initial.HasDistinctNames := by
  intro label
  rcases initial_registry label with empty | standard
  · rw [empty]
    exact List.nodup_nil
  · rw [standard]
    exact Registry.standard_names_nodup

theorem initial_isWellFormed : initial.IsWellFormed := by
  intro label
  rcases initial_registry label with empty | standard
  · rw [empty]
    intro record member
    cases member
  · rw [standard]
    exact Registry.standard_isWellFormed

/-- Every record is found under its own name. All records of all registries are well formed at
every point of a history just when no update that goes through changes the bounds or the properties
of a record so that they no longer fit. -/
theorem registries_wellFormed_iff (history : List (String × Command)) :
    (∀ label, ((initial.after history).registry label).IsIndexed) ∧
      ((∀ earlier, earlier <+: history → (initial.after earlier).IsWellFormed) ↔
        ∀ earlier label name changes, earlier ++ [(label, .update name changes)] <+: history →
          ((initial.after earlier).run label (.update name changes)).1.isOk →
            changes.Fits (((initial.after earlier).registry label).ensure name)) := by
  constructor
  · intro label
    exact Registry.isIndexed_of_nodup (initial_hasDistinctNames.after history label)
  · rw [isWellFormed_after_iff initial_isWellFormed]
    constructor
    · intro fits earlier label name changes started
      exact fits earlier label (.update name changes) started
    · intro fits earlier label command started
      cases command with
      | update name changes => exact fits earlier label name changes started
      | _ => trivial

/-- An update stores bounds in the wrong order, which a registration refuses. -/
example : ((initial.after [("main", .update "f"
    { Changes.nothing with least := some 3, most := some (some 1) })]).registry "main").records.map
      (fun record => (record.least, record.most)) = [(3, some 1)] := by
  decide

end Shelf

end Narrowing
