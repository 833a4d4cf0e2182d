import Narrowing.Proofs.DescriptorResults
import Narrowing.Proofs.StoredLookups
import Narrowing.Proofs.ValuesLayouts

/-
This file follows the look-ups for the items of a list of values, and shows that they meet the
descriptions that a scan of the items meets.
-/

namespace Narrowing

namespace Descriptor

/-- The types that were found for a section so far, in reverse. -/
def Sections.get (state : Sections) : Section → List Ntype
  | .required => state.required
  | .optional => state.optional
  | .rest => state.rest

/-- The descriptions that a scan meets in a section. -/
def Scanned.get (scanned : Scanned) : Section → List Value
  | .required => scanned.required
  | .optional => scanned.optional
  | .rest => scanned.rest

/-- The look-ups for some items lead from one state of the sections and the tables to another. -/
inductive Runs : List Value → Sections → Tables → Sections → Tables → Prop where
  | done (state : Sections) (tables : Tables) : Runs [] state tables state tables
  | keyword {name : String} {items : List Value} {state entered final : Sections}
      {tables ending : Tables} (keyword : name.startsWith "&" = true)
      (opens : state.enter? name = some entered) (later : Runs items entered tables final ending) :
      Runs (.text name :: items) state tables final ending
  | description {item : Value} {items : List Value} {state final : Sections}
      {tables ending : Tables} {estimate : Estimate} (plain : isKeyword item = false)
      (found : (ntypeOf item).outcome tables = .ok estimate)
      (later : Runs items (state.add estimate) ((ntypeOf item).after tables) final ending) :
      Runs (item :: items) state tables final ending

/-- How the sections of some items come out: all items are met, or a keyword is misplaced, or a
description has no type. -/
inductive ComesOut (source : Value) (items : List Value) (state : Sections) (tables : Tables) :
    Except Fault ValuesEstimate → Tables → Prop where
  | finished {final : Sections} {ending : Tables} (runs : Runs items state tables final ending) :
      ComesOut source items state tables ((final.finish source).outcome ending)
        ((final.finish source).after ending)
  | misplaced {front back : List Value} {name : String} {final : Sections} {ending : Tables}
      (split : items = front ++ .text name :: back) (keyword : name.startsWith "&" = true)
      (runs : Runs front state tables final ending) (closed : final.enter? name = none) :
      ComesOut source items state tables (.error (.malformed (.misplacedKeyword name) source))
        ending
  | failed {front back : List Value} {item : Value} {final : Sections} {ending : Tables}
      {fault : Fault} (split : items = front ++ item :: back) (plain : isKeyword item = false)
      (runs : Runs front state tables final ending)
      (fails : (ntypeOf item).outcome ending = .error fault) :
      ComesOut source items state tables (.error fault) ((ntypeOf item).after ending)

variable {source item : Value} {items more : List Value} {state final : Sections}
  {tables ending : Tables}

theorem ComesOut.keyword {name : String} {entered : Sections}
    {outcome : Except Fault ValuesEstimate}
    (keyword : name.startsWith "&" = true) (opens : state.enter? name = some entered)
    (later : ComesOut source items entered tables outcome ending) :
    ComesOut source (.text name :: items) state tables outcome ending := by
  cases later with
  | finished runs => exact .finished (.keyword keyword opens runs)
  | misplaced split marks runs closed =>
      exact .misplaced (congrArg _ split) marks (.keyword keyword opens runs) closed
  | failed split plain runs fails =>
      exact .failed (congrArg _ split) plain (.keyword keyword opens runs) fails

theorem ComesOut.description {estimate : Estimate} {outcome : Except Fault ValuesEstimate}
    (plain : isKeyword item = false) (found : (ntypeOf item).outcome tables = .ok estimate)
    (later : ComesOut source items (state.add estimate) ((ntypeOf item).after tables) outcome
      ending) : ComesOut source (item :: items) state tables outcome ending := by
  cases later with
  | finished runs => exact .finished (.description plain found runs)
  | misplaced split marks runs closed =>
      exact .misplaced (congrArg _ split) marks (.description plain found runs) closed
  | failed split others runs fails =>
      exact .failed (congrArg _ split) others (.description plain found runs) fails

/-- Every look-up of sections comes out in one of these ways. -/
theorem comesOut (source : Value) (items : List Value) (state : Sections) (tables : Tables) :
    ComesOut source items state tables
      ((resolveSections source (parts items) state).outcome tables)
      ((resolveSections source (parts items) state).after tables) := by
  induction items generalizing state tables with
  | nil =>
      rw [parts, resolveSections]
      exact .finished (.done state tables)
  | cons item rest inductionHypothesis =>
      change ComesOut source (item :: rest) state tables
        ((resolveSections source (ofValue item :: parts rest) state).outcome tables)
        ((resolveSections source (ofValue item :: parts rest) state).after tables)
      cases word : isKeyword item with
      | true =>
          cases item with
          | text name =>
              cases opens : state.enter? name with
              | none =>
                  rw [resolveSections_misplaced word opens]
                  exact .misplaced rfl word (.done state tables) opens
              | some entered =>
                  rw [resolveSections_keyword word opens]
                  exact (inductionHypothesis entered tables).keyword word opens
          | _ => cases word
      | false =>
          rw [resolveSections_item word, Lookup.outcome_bind, Lookup.after_bind]
          cases found : (resolve (ofValue item)).outcome tables with
          | error fault => exact .failed rfl word (.done state tables) found
          | ok estimate => exact (inductionHypothesis _ _).description word found

/-- Tables keep the types of other ones. -/
def Tables.KeepsTypes (before after : Tables) : Prop :=
  ∀ key estimate, find? key before.ntypes = some estimate → find? key after.ntypes = some estimate

theorem keeps_ntypeOf (value : Value) (tables : Tables) :
    tables.KeepsTypes ((ntypeOf value).after tables) :=
  fun _ _ found => (adds_ntypeOf value tables).find? found

/-- The type of a description is stored. -/
def Stored (tables : Tables) (value : Value) (ntype : Ntype) : Prop :=
  ∃ key estimate, value.descriptorKey = .ok key ∧
    Tables.find? key tables.ntypes = some estimate ∧ estimate.ntype = ntype

theorem Stored.keep {value : Value} {ntype : Ntype} (stored : Stored tables value ntype)
    (keeps : tables.KeepsTypes ending) : Stored ending value ntype := by
  obtain ⟨key, estimate, hasKey, found, same⟩ := stored
  exact ⟨key, estimate, hasKey, keeps key estimate found, same⟩

section Running

/-- What every look-up of a type keeps holds behind all of them. -/
theorem Runs.invariant {holds : Tables → Prop}
    (keeps : ∀ value tables, holds tables → holds ((ntypeOf value).after tables))
    (runs : Runs items state tables final ending) (start : holds tables) : holds ending := by
  induction runs with
  | done => exact start
  | keyword _ _ _ inductionHypothesis => exact inductionHypothesis start
  | description _ _ _ inductionHypothesis => exact inductionHypothesis (keeps _ _ start)

theorem Runs.keeps (runs : Runs items state tables final ending) : tables.KeepsTypes ending :=
  runs.invariant
    (fun value _ kept key estimate found =>
      keeps_ntypeOf value _ key estimate (kept key estimate found))
    fun _ _ found => found

theorem enter?_eq (state : Sections) (name : String) :
    state.enter? name =
      (state.current.after? name).map fun target => { state with current := target } := by
  unfold Sections.enter? Section.after?
  cases Section.ofKeyword? name with
  | none => rfl
  | some target =>
      by_cases later : state.current.rank < target.rank <;> simp [later, Option.filter]

theorem current_add (state : Sections) (estimate : Estimate) :
    (state.add estimate).current = state.current := by
  obtain ⟨current, _⟩ := state
  cases current <;> rfl

theorem get_add (state : Sections) (estimate : Estimate) (place : Section) :
    (state.add estimate).get place =
      if place = state.current then estimate.ntype :: state.get place else state.get place := by
  obtain ⟨current, _⟩ := state
  cases current <;> cases place <;> rfl

theorem Scanned.get_add (scanned : Scanned) (current place : Section) (items : List Value) :
    (scanned.add current items).get place =
      if place = current then items ++ scanned.get place else scanned.get place := by
  cases current <;> cases place <;> rfl

/-- A scan meets the descriptions that are looked up, and it goes on where the look-ups do. -/
theorem Runs.scan_append (runs : Runs items state tables final ending) :
    ∃ change : Scanned → Scanned, ∀ more,
      scan state.current (items ++ more) = (scan final.current more).map change := by
  induction runs with
  | done state tables => exact ⟨id, fun more => (congrFun Option.map_id _).symm⟩
  | @keyword name items state entered final tables ending keyword opens later inductionHypothesis =>
      obtain ⟨change, continues⟩ := inductionHypothesis
      refine ⟨change, fun more => ?_⟩
      rw [enter?_eq] at opens
      obtain ⟨target, moves, rfl⟩ := Option.map_eq_some_iff.mp opens
      rw [List.cons_append, scan_keyword keyword, moves, Option.bind_some]
      exact continues more
  | @description item items state final tables ending estimate plain found later
      inductionHypothesis =>
      obtain ⟨change, continues⟩ := inductionHypothesis
      refine ⟨Scanned.add state.current [item] ∘ change, fun more => ?_⟩
      rw [current_add] at continues
      rw [List.cons_append, scan_item plain, continues more, Option.map_map]

/-- A misplaced keyword ends a scan, too. -/
theorem Runs.scan_misplaced {name : String} (runs : Runs items state tables final ending)
    (keyword : name.startsWith "&" = true) (closed : final.enter? name = none) :
    scan state.current (items ++ .text name :: more) = none := by
  obtain ⟨change, continues⟩ := runs.scan_append
  rw [enter?_eq] at closed
  rw [continues, scan_keyword keyword, Option.map_eq_none_iff.mp closed]
  rfl

/-- The types that were found are those of the descriptions that a scan meets. -/
theorem Runs.scan (runs : Runs items state tables final ending) :
    ∃ scanned, Descriptor.scan state.current items = some scanned ∧
      scanned.last = final.current ∧
      ∀ place, ∃ types, final.get place = types.reverse ++ state.get place ∧
        List.Forall₂ (Stored ending) (scanned.get place) types := by
  induction runs with
  | done state tables =>
      refine ⟨.nothing state.current, rfl, rfl, fun place => ⟨[], rfl, ?_⟩⟩
      cases place <;> exact .nil
  | @keyword name items state entered final tables ending keyword opens later inductionHypothesis =>
      obtain ⟨scanned, found, last, types⟩ := inductionHypothesis
      rw [enter?_eq] at opens
      obtain ⟨target, moves, rfl⟩ := Option.map_eq_some_iff.mp opens
      refine ⟨scanned, ?_, last, fun place => ?_⟩
      · rw [scan_keyword keyword, moves, Option.bind_some]
        exact found
      · obtain ⟨types, same, stored⟩ := types place
        refine ⟨types, same.trans ?_, stored⟩
        cases place <;> rfl
  | @description item items state final tables ending estimate plain found later
      inductionHypothesis =>
      obtain ⟨scanned, scans, last, types⟩ := inductionHypothesis
      rw [current_add] at scans
      refine ⟨scanned.add state.current [item], ?_, ?_, fun place => ?_⟩
      · rw [scan_item plain, scans, Option.map_some]
      · rw [Scanned.last_add, last]
      · obtain ⟨types, same, stored⟩ := types place
        rw [get_add] at same
        rw [Scanned.get_add]
        split
        · rename_i own
          rw [if_pos own] at same
          obtain ⟨key, hasKey, present⟩ := stored_ntypeOf found
          have first : Stored ending item estimate.ntype :=
            ⟨key, estimate, hasKey, later.keeps key estimate present, rfl⟩
          exact ⟨estimate.ntype :: types, by rw [same]; simp, .cons first stored⟩
        · rename_i other
          rw [if_neg other] at same
          exact ⟨types, same, stored⟩

/-- Sections are finished just if the last one has one type. -/
theorem finish_cases (source : Value) (state : Sections) (tables : Tables) :
    ((state.current = .rest → state.rest.length = 1) ∧
      ∃ result, (state.finish source).outcome tables = .ok result ∧ result.values =
        ⟨state.required.reverse, state.optional.reverse, state.rest.head?⟩) ∨
    (state.current = .rest ∧ state.rest.length ≠ 1) ∧
      (state.finish source).outcome tables = .error (.malformed .restCount source) := by
  unfold Sections.finish
  split
  · rename_i several
    exact .inr ⟨several, rfl⟩
  · rename_i single
    refine .inl ⟨by simpa using single, ?_⟩
    simp only
    split <;> exact ⟨_, rfl, rfl⟩

theorem after_finish (source : Value) (state : Sections) (tables : Tables) :
    ((state.finish source).after tables).ntypes = tables.ntypes := by
  unfold Sections.finish
  split
  · rfl
  · simp only
    split <;> rfl

/-- Sections that come out well have met a complete list, and their types are stored. -/
theorem Runs.finished {result : ValuesEstimate} (runs : Runs items .start tables final ending)
    (found : (final.finish source).outcome ending = .ok result) :
    ∃ scanned, Descriptor.scan .required items = some scanned ∧ scanned.IsComplete ∧
      scanned.layout.Gives (Stored ((final.finish source).after ending)) result.values := by
  obtain ⟨scanned, scans, last, types⟩ := runs.scan
  rcases finish_cases source final ending with ⟨single, other, same, fields⟩ | ⟨-, failed⟩
  · cases same.symm.trans found
    have keeps : ending.KeepsTypes ((final.finish source).after ending) := by
      intro key estimate stored
      rwa [after_finish]
    obtain ⟨required, requiredSame, requiredStored⟩ := types .required
    obtain ⟨optional, optionalSame, optionalStored⟩ := types .optional
    obtain ⟨rest, restSame, restStored⟩ := types .rest
    change final.required = required.reverse ++ [] at requiredSame
    change final.optional = optional.reverse ++ [] at optionalSame
    change final.rest = rest.reverse ++ [] at restSame
    rw [List.append_nil] at requiredSame optionalSame restSame
    have complete : scanned.IsComplete := by
      intro opens
      have one := single (last.symm.trans opens)
      rw [restSame, List.length_reverse] at one
      exact restStored.length_eq.trans one
    refine ⟨scanned, scans, complete, ?_, ?_, ?_⟩
    · rw [fields, requiredSame, List.reverse_reverse]
      exact requiredStored.imp fun _ _ stored => stored.keep keeps
    · rw [fields, optionalSame, List.reverse_reverse]
      exact optionalStored.imp fun _ _ stored => stored.keep keeps
    · change List.Forall₂ _ scanned.rest rest at restStored
      change List.Forall₂ _ scanned.rest.head?.toList _
      rw [fields, restSame]
      by_cases opens : scanned.last = .rest
      · obtain ⟨description, only⟩ := List.length_eq_one_iff.mp (complete opens)
        rw [only] at restStored ⊢
        obtain ⟨type, _, stored, none, rfl⟩ := List.forall₂_cons_left_iff.mp restStored
        obtain rfl := List.forall₂_nil_left_iff.mp none
        exact .cons (stored.keep keeps) .nil
      · rw [rest_of_scan scans opens] at restStored ⊢
        obtain rfl := List.forall₂_nil_left_iff.mp restStored
        exact .nil
  · cases failed.symm.trans found

/-- How the values of a list come out: its items have a layout whose types are found, or they have
none and the list is malformed. -/
def Decided (source : Value) (items : List Value) (lookup : Lookup ValuesEstimate)
    (tables : Tables) : Prop :=
  (∃ scanned result, scan .required items = some scanned ∧ scanned.IsComplete ∧
      lookup.outcome tables = .ok result ∧
      scanned.layout.Gives (Stored (lookup.after tables)) result.values) ∨
    (∀ scanned, scan .required items = some scanned → ¬scanned.IsComplete) ∧
      ∃ cause, lookup.outcome tables = .error (.malformed cause source)

/-- The sections of some items are decided by a scan if all descriptions among them are found while
some invariant of the tables holds. -/
theorem decided_sections {holds : Tables → Prop}
    (keeps : ∀ value tables, holds tables → holds ((ntypeOf value).after tables))
    (each : ∀ item ∈ items, isKeyword item = true ∨
      ∀ tables, holds tables → ∃ estimate, (ntypeOf item).outcome tables = .ok estimate)
    (start : holds tables) :
    Decided source items (resolveSections source (parts items) .start) tables := by
  have ways := comesOut source items .start tables
  unfold Decided
  generalize (resolveSections source (parts items) .start).outcome tables = outcome at ways ⊢
  generalize (resolveSections source (parts items) .start).after tables = left at ways ⊢
  cases ways with
  | @finished final ending runs =>
      rcases finish_cases source final ending with ⟨-, result, found, -⟩ | ⟨⟨last, several⟩, failed⟩
      · obtain ⟨scanned, scans, complete, gives⟩ := runs.finished found
        exact .inl ⟨scanned, result, scans, complete, found, gives⟩
      · refine .inr ⟨fun scanned scans complete => several ?_, _, failed⟩
        obtain ⟨own, again, lastOwn, types⟩ := runs.scan
        cases scans.symm.trans again
        obtain ⟨rest, same, stored⟩ := types .rest
        change final.rest = rest.reverse ++ [] at same
        rw [same, List.append_nil, List.length_reverse, ← stored.length_eq]
        exact complete (lastOwn.trans last)
  | misplaced split keyword runs closed =>
      refine .inr ⟨fun scanned scans => ?_, _, rfl⟩
      rw [split] at scans
      cases (runs.scan_misplaced keyword closed).symm.trans scans
  | failed split plain runs fails =>
      rcases each _ (by rw [split]; exact List.mem_append_right _ (.head _)) with word | described
      · cases plain.symm.trans word
      · obtain ⟨estimate, found⟩ := described _ (runs.invariant keeps start)
        cases fails.symm.trans found

end Running

end Descriptor

end Narrowing
