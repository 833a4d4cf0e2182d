import Narrowing.Proofs.AcceptedDescriptions

/-
This file shows that a list of values is accepted just if its items have a layout, whatever was
looked up before, and that its types are those of the descriptions in the layout.
-/

namespace Narrowing

namespace Descriptor

variable {source : Value} {items : List Value} {state : Sections} {tables ending : Tables}

section Keys

/-- Two descriptions have one key. -/
def SameKey (first second : Value) : Prop :=
  ∃ key, first.descriptorKey = .ok key ∧ second.descriptorKey = .ok key

theorem sameKey_of_keys {first second : List Value} {key : Key}
    (one : Value.descriptorKeys first = .ok key) (two : Value.descriptorKeys second = .ok key) :
    List.Forall₂ SameKey first second := by
  induction first generalizing second key with
  | nil =>
      cases one
      cases second with
      | nil => exact .nil
      | cons other others =>
          obtain ⟨_, _, _, _, same⟩ := Value.keys_of_cons two
          cases same
  | cons item rest inductionHypothesis =>
      obtain ⟨head, tail, own, later, rfl⟩ := Value.keys_of_cons one
      cases second with
      | nil => cases two
      | cons other others =>
          obtain ⟨_, _, otherOwn, otherLater, same⟩ := Value.keys_of_cons two
          cases same
          exact .cons ⟨head, own, otherOwn⟩ (inductionHypothesis later otherLater)

theorem Stored.of_sameKey {first second : Value} {ntype : Ntype}
    (stored : Stored tables first ntype) (same : SameKey first second) :
    Stored tables second ntype := by
  obtain ⟨key, estimate, hasKey, found, typed⟩ := stored
  obtain ⟨own, one, two⟩ := same
  cases hasKey.symm.trans one
  exact ⟨key, estimate, two, found, typed⟩

/-- A keyword shares its key with no other description. -/
theorem SameKey.eq_of_text {name : String} {other : Value} (same : SameKey (.text name) other) :
    other = .text name := by
  obtain ⟨key, one, two⟩ := same
  cases one
  exact eq_of_text_key two

theorem SameKey.symm {first second : Value} (same : SameKey first second) :
    SameKey second first := by
  obtain ⟨key, one, two⟩ := same
  exact ⟨key, two, one⟩

theorem SameKey.isKeyword_eq {first second : Value} (same : SameKey first second) :
    isKeyword second = isKeyword first := by
  cases first with
  | text name => rw [same.eq_of_text]
  | _ =>
      cases second with
      | text name => cases same.symm.eq_of_text
      | _ => rfl

/-- Items with the same keys are scanned in the same way. -/
theorem scan_of_sameKeys {first second : List Value} (same : List.Forall₂ SameKey first second)
    {current : Section} {scanned : Scanned} (found : scan current first = some scanned) :
    ∃ other, scan current second = some other ∧ other.last = scanned.last ∧
      ∀ place, List.Forall₂ SameKey (scanned.get place) (other.get place) := by
  induction same generalizing current scanned with
  | nil =>
      cases found
      exact ⟨_, rfl, rfl, fun place => by cases place <;> exact .nil⟩
  | @cons one two first second alike others inductionHypothesis =>
      cases keyword : isKeyword one with
      | true =>
          cases one with
          | text name =>
              obtain rfl := alike.eq_of_text
              rw [scan_keyword keyword] at found
              obtain ⟨target, moves, scans⟩ := Option.bind_eq_some_iff.mp found
              rw [scan_keyword keyword, moves]
              exact inductionHypothesis scans
          | _ => cases keyword
      | false =>
          rw [scan_item keyword] at found
          obtain ⟨later, scans, rfl⟩ := Option.map_eq_some_iff.mp found
          obtain ⟨other, again, last, places⟩ := inductionHypothesis scans
          refine ⟨other.add current [two], ?_, ?_, fun place => ?_⟩
          · rw [scan_item (alike.isKeyword_eq.trans keyword), again, Option.map_some]
          · rw [Scanned.last_add, Scanned.last_add, last]
          · rw [Scanned.get_add, Scanned.get_add]
            split
            · exact .cons alike (places place)
            · exact places place

end Keys

section Lists

theorem Layout.Gives.imp {layout : Layout} {values : ValuesNtype}
    {first second : Value → Ntype → Prop} (gives : layout.Gives first values)
    (implies : ∀ value ntype, first value ntype → second value ntype) :
    layout.Gives second values :=
  ⟨gives.required.imp implies, gives.optional.imp implies, gives.rest.imp implies⟩

/-- Descriptions with the same keys have the same types. -/
theorem stored_of_sameKeys {first second : List Value} {types : List Ntype}
    (same : List.Forall₂ SameKey first second) (stored : List.Forall₂ (Stored tables) first types) :
    List.Forall₂ (Stored tables) second types := by
  induction same generalizing types with
  | nil => exact stored
  | cons alike _ inductionHypothesis =>
      obtain ⟨type, rest, own, later, rfl⟩ := List.forall₂_cons_left_iff.mp stored
      exact .cons (own.of_sameKey alike) (inductionHypothesis later)

theorem gives_of_sameKeys {scanned other : Scanned} {values : ValuesNtype}
    (places : ∀ place, List.Forall₂ SameKey (scanned.get place) (other.get place))
    (gives : scanned.layout.Gives (Stored tables) values) :
    other.layout.Gives (Stored tables) values := by
  have firsts {one two : List Value} (same : List.Forall₂ SameKey one two) :
      List.Forall₂ SameKey one.head?.toList two.head?.toList := by
    cases same with
    | nil => exact .nil
    | cons alike _ => exact .cons alike .nil
  exact ⟨stored_of_sameKeys (places .required) gives.required,
    stored_of_sameKeys (places .optional) gives.optional,
    stored_of_sameKeys (firsts (places .rest)) gives.rest⟩

/-- What is stored for a list of values comes from a complete list, and its types are stored. -/
def Tables.Listed (tables : Tables) : Prop :=
  ∀ tail result, find? (.tuple (.text "values") tail) tables.values = some result →
    ∃ items scanned, Value.descriptorKeys items = .ok tail ∧ scan .required items = some scanned ∧
      scanned.IsComplete ∧ scanned.layout.Gives (Stored tables) result.values

theorem Tables.Listed.keep {before after : Tables} (listed : before.Listed)
    (keeps : before.KeepsTypes after) (same : after.values = before.values) : after.Listed := by
  intro tail result found
  rw [same] at found
  obtain ⟨items, scanned, keys, scans, complete, gives⟩ := listed tail result found
  exact ⟨items, scanned, keys, scans, complete, gives.imp fun _ _ stored => stored.keep keeps⟩

/-- A look-up keeps the stored types and lists. -/
def KeepsLists {Result : Type} (lookup : Lookup Result) : Prop :=
  ∀ tables : Tables, tables.KeepsTypes (lookup.after tables) ∧
    (tables.Listed → (lookup.after tables).Listed)

variable {First Second : Type}

theorem keepsLists_of_same {lookup : Lookup First}
    (same : ∀ tables, (lookup.after tables).ntypes = tables.ntypes ∧
      (lookup.after tables).values = tables.values) : KeepsLists lookup := by
  intro tables
  obtain ⟨ntypes, values⟩ := same tables
  have keeps : tables.KeepsTypes (lookup.after tables) := by
    intro key estimate found
    rwa [ntypes]
  exact ⟨keeps, fun listed => listed.keep keeps values⟩

theorem KeepsLists.bind {first : Lookup First} {next : First → Lookup Second}
    (starts : KeepsLists first) (continues : ∀ result, KeepsLists (next result)) :
    KeepsLists (first >>= next) := by
  intro tables
  rw [Lookup.after_bind]
  obtain ⟨keeps, lists⟩ := starts tables
  cases first.outcome tables with
  | error fault => exact ⟨keeps, lists⟩
  | ok result =>
      obtain ⟨later, others⟩ := continues result (first.after tables)
      exact ⟨fun key estimate found => later key estimate (keeps key estimate found),
        fun listed => others (lists listed)⟩

theorem keepsLists_ntype (source : Value) (computed : KeepsLists (resolve (body source))) :
    KeepsLists (resolve (ofValue source)) := by
  intro tables
  refine ⟨keeps_ntypeOf source tables, fun listed => ?_⟩
  have after := (computed { tables with misses := tables.misses + 1 }).2 listed
  rw [resolve_ofValue]
  refine Lookup.after_ntype Tables.Listed (fun _ => listed) after fun _ _ _ _ => ?_
  exact after.keep (fun _ _ => Tables.find?_append_left) rfl

/-- Only a list of values has the key of one, and its sections are looked up. -/
theorem computedValues_of_key {source : Value} {tail : Key}
    (hasKey : source.descriptorKey = .ok (.tuple (.text "values") tail)) :
    ∃ items, Value.descriptorKeys items = .ok tail ∧
      computedValues source = resolveSections source (parts items) .start := by
  have compound {values : List Value}
      (keys : Value.descriptorKeys values = .ok (.tuple (.text "values") tail)) :
      ∃ items, values = .text "values" :: items ∧ Value.descriptorKeys items = .ok tail := by
    cases values with
    | nil => cases keys
    | cons head items =>
        obtain ⟨_, _, own, later, same⟩ := Value.keys_of_cons keys
        cases same
        exact ⟨items, by rw [eq_of_text_key own], later⟩
  cases source with
  | tuple values | list values =>
      obtain ⟨items, rfl, keys⟩ := compound hasKey
      exact ⟨items, keys, rfl⟩
  | scalar value => cases value <;> cases hasKey
  | singleton value =>
      simp only [Value.descriptorKey] at hasKey
      split at hasKey <;> cases hasKey
  | _ => cases hasKey

/-- A list that comes out well has met all its items. -/
theorem ComesOut.finished_of_ok {outcome : Except Fault ValuesEstimate} {result : ValuesEstimate}
    (comesOut : ComesOut source items state tables outcome ending) (ok : outcome = .ok result) :
    ∃ final middle, Runs items state tables final middle ∧
      (final.finish source).outcome middle = .ok result ∧
      ending = (final.finish source).after middle := by
  cases comesOut with
  | finished runs => exact ⟨_, _, runs, ok, rfl⟩
  | misplaced _ _ _ _ => cases ok
  | failed _ _ _ _ => cases ok

theorem keepsLists_values (source : Value) (computed : KeepsLists (computedValues source)) :
    KeepsLists (Lookup.values source (computedValues source)) := by
  intro tables
  obtain ⟨keeps, lists⟩ := computed { tables with misses := tables.misses + 1 }
  refine Lookup.after_values (fun left => tables.KeepsTypes left ∧ (tables.Listed → left.Listed))
    (fun _ => ⟨fun _ _ found => found, id⟩) ⟨keeps, lists⟩ ?_
  intro key result keyed outcome
  refine ⟨keeps, fun listed tail stored held => ?_⟩
  rcases Tables.find?_append held with earlier | ⟨rfl, rfl⟩
  · exact lists listed tail stored earlier
  · obtain ⟨items, keys, sections⟩ := computedValues_of_key keyed
    rw [sections] at outcome ⊢
    obtain ⟨final, middle, runs, finished, after⟩ :=
      (comesOut _ items .start _).finished_of_ok outcome
    obtain ⟨scanned, scans, complete, gives⟩ := runs.finished finished
    rw [← after] at gives
    exact ⟨items, scanned, keys, scans, complete, gives⟩

theorem closed_keepsLists : Closed Set.univ @KeepsLists where
  pure _ := keepsLists_of_same fun _ => ⟨rfl, rfl⟩
  malformed _ _ := keepsLists_of_same fun _ => ⟨rfl, rfl⟩
  bind := KeepsLists.bind
  singleton? value := keepsLists_of_same fun tables => by
    obtain ⟨singletons, left⟩ := singleton?_after value tables
    rw [left]
    exact ⟨rfl, rfl⟩
  fresh := keepsLists_of_same fun _ => ⟨rfl, rfl⟩
  ntype source _ computed := keepsLists_ntype source computed
  values source _ computed := keepsLists_values source computed

/-- All lists that are stored after some calls are complete. -/
theorem listed_tablesAfter (calls : List Call) : (tablesAfter calls).Listed := by
  have grown : ∀ tables : Tables, tables.Listed → (calls.foldl Call.after tables).Listed := by
    induction calls with
    | nil => exact fun _ listed => listed
    | cons call rest inductionHypothesis =>
        refine fun tables listed => inductionHypothesis _ ?_
        have own := closed_keepsLists.ofValue
          (traced_ofValue call.source _ fun _ _ => Set.mem_univ _)
        cases call with
        | ntype source => exact (own.1 tables).2 listed
        | values source => exact (own.2 tables).2 listed
  exact grown .empty nofun

end Lists

/-- The type of a description in some tables. -/
def HasType (tables : Tables) (value : Value) (ntype : Ntype) : Prop :=
  ∃ precise, (ntypeOf value).outcome tables = .ok ⟨ntype, precise⟩

theorem Stored.hasType {value : Value} {ntype : Ntype} (stored : Stored tables value ntype) :
    HasType tables value ntype := by
  obtain ⟨key, estimate, hasKey, found, rfl⟩ := stored
  refine ⟨estimate.precise, ?_⟩
  rw [ntypeOf, resolve_ofValue]
  exact (Lookup.ntype_hit hasKey found _).1

section Values

/-- Keywords and descriptions can be looked up. -/
theorem keyed_of_each (each : ∀ item ∈ items, isKeyword item = true ∨ IsDescription item) :
    ∀ item ∈ items, Keyed item := by
  intro item member
  rcases each item member with keyword | described
  · cases item with
    | text name => exact ⟨_, rfl⟩
    | _ => cases keyword
  · obtain ⟨estimate, found⟩ := described []
    obtain ⟨key, hasKey, _⟩ := stored_ntypeOf found
    exact ⟨key, hasKey⟩

/-- A list of keywords and descriptions is decided by a scan, whether it is stored or not. -/
theorem decided_values (calls : List Call)
    (each : ∀ item ∈ items, isKeyword item = true ∨ IsDescription item) :
    let source := Value.tuple (.text "values" :: items)
    Decided source items (valuesOf source) (tablesAfter calls) := by
  intro source
  obtain ⟨tail, keys⟩ := keys_of_keyed (keyed_of_each each)
  have hasKey : source.descriptorKey = .ok (.tuple (.text "values") tail) := by
    simp only [source, Value.descriptorKey, Value.descriptorKeys, keys]
  have sections : computedValues source = resolveSections source (parts items) .start := rfl
  rw [valuesOf_eq, sections]
  cases found : Tables.find? (.tuple (.text "values") tail) (tablesAfter calls).values with
  | some result =>
      -- the items that the result was computed from may be others, but they have the same keys
      obtain ⟨outcome, left⟩ := Lookup.values_hit hasKey found
        (resolveSections source (parts items) .start)
      obtain ⟨others, first, otherKeys, scans, complete, gives⟩ :=
        listed_tablesAfter calls tail result found
      obtain ⟨scanned, again, last, places⟩ :=
        scan_of_sameKeys (sameKey_of_keys otherKeys keys) scans
      refine .inl ⟨scanned, result, again, fun opens => ?_, outcome, ?_⟩
      · exact (places .rest).length_eq.symm.trans (complete (last.symm.trans opens))
      · rw [left]
        exact gives_of_sameKeys places gives
  | none =>
      obtain ⟨outcome, left⟩ := Lookup.values_miss hasKey found
        (resolveSections source (parts items) .start)
      have follows : Tables.Follows
          { tablesAfter calls with misses := (tablesAfter calls).misses + 1 } :=
        ⟨calls, _, _, rfl⟩
      unfold Decided
      rw [outcome, left]
      have descriptions (item : Value) (member : item ∈ items) : isKeyword item = true ∨
          ∀ tables : Tables, tables.Follows →
            ∃ estimate, (ntypeOf item).outcome tables = .ok estimate :=
        (each item member).imp_right fun described _ => described.found
      have keeps (value : Value) (tables : Tables) (before : tables.Follows) :=
        before.ntypeOf value
      rcases decided_sections keeps descriptions follows with
        ⟨scanned, result, scans, complete, computed, gives⟩ | ⟨incomplete, cause, failed⟩
      · refine .inl ⟨scanned, result, scans, complete, computed, ?_⟩
        rw [computed]
        exact gives
      · exact .inr ⟨incomplete, cause, failed⟩

/-- A list of keywords and descriptions is accepted just if it has a layout, and then it gives the
types of the descriptions in the layout; it is malformed otherwise. -/
theorem valuesOf_accepts_layouts (calls : List Call) {items : List Value}
    (each : ∀ item ∈ items, isKeyword item = true ∨ IsDescription item) :
    let source := Value.tuple (.text "values" :: items)
    let tables := tablesAfter calls
    ((∃ result, (valuesOf source).outcome tables = .ok result) ↔
        ∃ layout : Layout, layout.Lists items) ∧
      (∀ result (layout : Layout), (valuesOf source).outcome tables = .ok result →
        layout.Lists items →
          layout.Gives (HasType ((valuesOf source).after tables)) result.values) ∧
      ((¬∃ layout : Layout, layout.Lists items) →
        ∃ cause, (valuesOf source).outcome tables = .error (.malformed cause source)) := by
  intro source tables
  rcases decided_values calls each with
    ⟨scanned, result, scans, complete, found, gives⟩ | ⟨incomplete, cause, failed⟩
  · have lists := exists_layout_iff.mpr ⟨scanned, scans, complete⟩
    refine ⟨⟨fun _ => lists, fun _ => ⟨result, found⟩⟩, ?_, fun missing => absurd lists missing⟩
    intro other layout accepted listed
    cases found.symm.trans accepted
    obtain ⟨own, again, -, rfl⟩ := scan_of_lists listed
    cases scans.symm.trans again
    exact gives.imp fun _ _ stored => stored.hasType
  · have missing : ¬∃ layout : Layout, layout.Lists items := fun lists => by
      obtain ⟨scanned, scans, complete⟩ := exists_layout_iff.mp lists
      exact incomplete scanned scans complete
    refine ⟨⟨?_, fun lists => absurd lists missing⟩, ?_, fun _ => ⟨cause, failed⟩⟩
    · rintro ⟨result, accepted⟩
      cases failed.symm.trans accepted
    · exact fun _ layout _ lists => absurd ⟨layout, lists⟩ missing

/-- All sections may be given. -/
theorem valuesOf_accepts_layouts_sections :
    let items := [.text "integer", .text "&optional", .text "string", .text "&rest",
      .tuple [.text "or", .text "null", .text "integer"]]
    (∀ item ∈ items, isKeyword item = true ∨ IsDescription item) ∧
      ∃ result, (valuesOf (.tuple (.text "values" :: items))).outcome
        (tablesAfter [.ntype (.text "integer")]) = .ok result := by
  intro items
  have each : ∀ item ∈ items, isKeyword item = true ∨ IsDescription item := by
    have sound : ∀ item ∈ items, isKeyword item = true ∨ (ofValue item).isSound = true := by
      decide +kernel
    exact fun item member => (sound item member).imp_right isDescription_of_isSound
  refine ⟨each, (valuesOf_accepts_layouts _ each).1.mpr ?_⟩
  exact hasLayout_iff.mp (by decide +kernel)

end Values

end Descriptor

end Narrowing
