import Mathlib.Data.List.Basic
import Narrowing.Descriptor.Resolve

/-
This file says how descriptions are listed for the values of an operation, and shows that a scan of
the items finds just the lists of this form.
-/

namespace Narrowing

namespace Descriptor

/-- The descriptions in the sections of a list of values. -/
structure Layout where
  required : List Value
  optional : List Value
  rest : Option Value

/-- Nothing, or a keyword with the optional descriptions. -/
inductive WritesOptional : List Value → List Value → Prop where
  | absent : WritesOptional [] []
  | present (descriptions : List Value) :
      WritesOptional descriptions (.text "&optional" :: descriptions)

/-- Nothing, or a keyword with the description of all further values. -/
inductive WritesRest : Option Value → List Value → Prop where
  | absent : WritesRest none []
  | present (description : Value) : WritesRest (some description) [.text "&rest", description]

namespace Layout

/-- A layout lists its required descriptions, then the optional ones and the repeated one. -/
structure Lists (layout : Layout) (items : List Value) : Prop where
  plain : ∀ item ∈ layout.required ++ layout.optional ++ layout.rest.toList, isKeyword item = false
  written : ∃ optionals rests, WritesOptional layout.optional optionals ∧
    WritesRest layout.rest rests ∧ items = layout.required ++ (optionals ++ rests)

/-- Each description of a layout is in relation with the type at its place. -/
structure Gives (related : Value → Ntype → Prop) (layout : Layout) (values : ValuesNtype) :
    Prop where
  required : List.Forall₂ related layout.required values.required
  optional : List.Forall₂ related layout.optional values.optional
  rest : List.Forall₂ related layout.rest.toList values.rest.toList

end Layout

/-- The descriptions that a scan meets in each section, and the section that is open behind them. -/
structure Scanned where
  required : List Value
  optional : List Value
  rest : List Value
  last : Section

namespace Scanned

/-- Nothing is met. -/
def nothing (current : Section) : Scanned := ⟨[], [], [], current⟩

/-- Descriptions at the front of a section. -/
def add (current : Section) (items : List Value) (scanned : Scanned) : Scanned :=
  match current with
  | .required => { scanned with required := items ++ scanned.required }
  | .optional => { scanned with optional := items ++ scanned.optional }
  | .rest => { scanned with rest := items ++ scanned.rest }

theorem add_nil (current : Section) (scanned : Scanned) : scanned.add current [] = scanned := by
  cases current <;> rfl

theorem add_append (current : Section) (first second : List Value) (scanned : Scanned) :
    add current first (add current second scanned) = add current (first ++ second) scanned := by
  cases current <;> simp [add]

/-- The last section takes one description. -/
def IsComplete (scanned : Scanned) : Prop := scanned.last = .rest → scanned.rest.length = 1

end Scanned

/-- The later section that a keyword opens. -/
def Section.after? (current : Section) (name : String) : Option Section :=
  (Section.ofKeyword? name).filter fun target => current.rank < target.rank

/-- The descriptions among some items by their sections, before any of them is looked up. -/
def scan (current : Section) : List Value → Option Scanned
  | [] => some (.nothing current)
  | item :: rest =>
      match item with
      | .text name =>
          if name.startsWith "&" then (current.after? name).bind fun target => scan target rest
          else (scan current rest).map (Scanned.add current [item])
      | _ => (scan current rest).map (Scanned.add current [item])

section Scans

variable {current : Section} {items more : List Value} {item : Value} {scanned : Scanned}

theorem scan_item (plain : isKeyword item = false) :
    scan current (item :: items) = (scan current items).map (Scanned.add current [item]) := by
  cases item with
  | text name =>
      have word : name.startsWith "&" = false := plain
      simp only [scan, word, Bool.false_eq_true, if_false]
  | _ => rfl

theorem scan_keyword {name : String} (keyword : name.startsWith "&" = true) :
    scan current (.text name :: items) =
      (current.after? name).bind fun target => scan target items := by
  simp only [scan, keyword, if_true]

/-- Descriptions join the section that is open. -/
theorem scan_append (plain : ∀ item ∈ items, isKeyword item = false) :
    scan current (items ++ more) = (scan current more).map (Scanned.add current items) := by
  induction items with
  | nil =>
      have nothing : Scanned.add current [] = id := funext (Scanned.add_nil current)
      rw [nothing, Option.map_id]
      rfl
  | cons item rest inductionHypothesis =>
      obtain ⟨own, later⟩ := List.forall_mem_cons.mp plain
      rw [List.cons_append, scan_item own, inductionHypothesis later, Option.map_map]
      exact congrArg (Option.map · (scan current more))
        (funext (Scanned.add_append current [item] rest))

theorem scan_plain (plain : ∀ item ∈ items, isKeyword item = false) :
    scan current items = some (Scanned.add current items (.nothing current)) := by
  have alone : scan current (items ++ []) = _ := scan_append plain
  rwa [List.append_nil] at alone

/-- Items start with descriptions up to the first keyword. -/
theorem exists_split (items : List Value) : ∃ front back, items = front ++ back ∧
    (∀ item ∈ front, isKeyword item = false) ∧
    (back = [] ∨ ∃ name rest, back = .text name :: rest ∧ name.startsWith "&" = true) := by
  induction items with
  | nil => exact ⟨[], [], rfl, nofun, .inl rfl⟩
  | cons item rest inductionHypothesis =>
      cases keyword : isKeyword item with
      | false =>
          obtain ⟨front, back, rfl, plain, ends⟩ := inductionHypothesis
          exact ⟨item :: front, back, rfl, List.forall_mem_cons.mpr ⟨keyword, plain⟩, ends⟩
      | true =>
          cases item with
          | text name => exact ⟨[], _, rfl, nofun, .inr ⟨name, rest, rfl, keyword⟩⟩
          | _ => cases keyword

theorem after?_cases {name : String} {target : Section}
    (opens : current.after? name = some target) :
    (name = "&optional" ∧ current = .required ∧ target = .optional) ∨
      (name = "&rest" ∧ current ≠ .rest ∧ target = .rest) := by
  obtain ⟨named, later⟩ := Option.filter_eq_some_iff.mp opens
  unfold Section.ofKeyword? at named
  split at named <;> cases named <;> cases current <;> simp_all [Section.rank]

/-- Only descriptions stand in the last section. -/
theorem plain_of_scan_rest (found : scan .rest items = some scanned) :
    (∀ item ∈ items, isKeyword item = false) ∧ scanned = ⟨[], [], items, .rest⟩ := by
  obtain ⟨front, back, rfl, plain, rfl | ⟨name, rest, rfl, keyword⟩⟩ := exists_split items
  · rw [List.append_nil] at found ⊢
    rw [scan_plain plain] at found
    cases found
    refine ⟨plain, ?_⟩
    simp [Scanned.add, Scanned.nothing]
  · rw [scan_append plain, scan_keyword keyword] at found
    obtain ⟨later, opens, rfl⟩ := Option.map_eq_some_iff.mp found
    obtain ⟨target, entered, -⟩ := Option.bind_eq_some_iff.mp opens
    rcases after?_cases entered with ⟨_, absurd, _⟩ | ⟨_, absurd, _⟩
    · cases absurd
    · exact (absurd rfl).elim

/-- The optional section may be followed by the last one. -/
theorem written_of_scan_optional (found : scan .optional items = some scanned) :
    scanned.required = [] ∧ (∀ item ∈ scanned.optional ++ scanned.rest, isKeyword item = false) ∧
      ((scanned.last = .optional ∧ scanned.rest = [] ∧ items = scanned.optional) ∨
        (scanned.last = .rest ∧ items = scanned.optional ++ .text "&rest" :: scanned.rest)) := by
  obtain ⟨front, back, rfl, plain, rfl | ⟨name, rest, rfl, keyword⟩⟩ := exists_split items
  · rw [List.append_nil] at found ⊢
    rw [scan_plain plain] at found
    cases found
    simpa [Scanned.add, Scanned.nothing] using plain
  · rw [scan_append plain, scan_keyword keyword] at found
    obtain ⟨later, opens, rfl⟩ := Option.map_eq_some_iff.mp found
    obtain ⟨target, entered, scans⟩ := Option.bind_eq_some_iff.mp opens
    rcases after?_cases entered with ⟨_, absurd, _⟩ | ⟨rfl, _, rfl⟩
    · cases absurd
    · obtain ⟨last, rfl⟩ := plain_of_scan_rest scans
      simpa [Scanned.add, or_imp, forall_and] using ⟨plain, last⟩

theorem Scanned.last_add (scanned : Scanned) (current : Section) (items : List Value) :
    (scanned.add current items).last = scanned.last := by
  cases current <;> rfl

/-- A scan meets no description of the last section unless that section is open. -/
theorem rest_of_scan (found : scan current items = some scanned) (opens : scanned.last ≠ .rest) :
    scanned.rest = [] := by
  induction items generalizing current scanned with
  | nil =>
      cases found
      rfl
  | cons item rest inductionHypothesis =>
      cases keyword : isKeyword item with
      | true =>
          cases item with
          | text name =>
              rw [scan_keyword keyword] at found
              obtain ⟨target, -, scans⟩ := Option.bind_eq_some_iff.mp found
              exact inductionHypothesis scans opens
          | _ => cases keyword
      | false =>
          cases current with
          | rest => exact absurd (congrArg Scanned.last (plain_of_scan_rest found).2) opens
          | _ =>
              rw [scan_item keyword] at found
              obtain ⟨later, scans, rfl⟩ := Option.map_eq_some_iff.mp found
              rw [Scanned.last_add] at opens
              change later.rest = []
              exact inductionHypothesis scans opens

/-- The layout of the descriptions that a scan meets. -/
def Scanned.layout (scanned : Scanned) : Layout :=
  ⟨scanned.required, scanned.optional, scanned.rest.head?⟩

/-- What a complete scan meets is the layout of the items. -/
theorem lists_of_scan (found : scan .required items = some scanned)
    (complete : scanned.IsComplete) : scanned.layout.Lists items := by
  obtain ⟨front, back, rfl, plain, rfl | ⟨name, rest, rfl, keyword⟩⟩ := exists_split items
  · rw [List.append_nil] at found
    rw [scan_plain plain] at found
    cases found
    refine ⟨?_, [], [], .absent, .absent, ?_⟩
    · simpa [Scanned.layout, Scanned.add, Scanned.nothing] using plain
    · simp [Scanned.layout, Scanned.add, Scanned.nothing]
  · rw [scan_append plain, scan_keyword keyword] at found
    obtain ⟨later, opens, rfl⟩ := Option.map_eq_some_iff.mp found
    obtain ⟨target, entered, scans⟩ := Option.bind_eq_some_iff.mp opens
    rcases after?_cases entered with ⟨rfl, _, rfl⟩ | ⟨rfl, _, rfl⟩
    · obtain ⟨none, others, written⟩ := written_of_scan_optional scans
      obtain ⟨required, optional, rest, last⟩ := later
      subst none
      have descriptions := List.forall_mem_append.mpr ⟨plain, others⟩
      rcases written with ⟨rfl, rfl, rfl⟩ | ⟨rfl, rfl⟩
      · refine ⟨?_, _, [], .present _, .absent, ?_⟩
        · simpa [Scanned.layout, Scanned.add] using descriptions
        · simp [Scanned.layout, Scanned.add]
      · obtain ⟨description, rfl⟩ := List.length_eq_one_iff.mp (complete rfl)
        refine ⟨?_, _, _, .present _, .present description, ?_⟩
        · simpa [Scanned.layout, Scanned.add] using descriptions
        · simp [Scanned.layout, Scanned.add]
    · obtain ⟨last, rfl⟩ := plain_of_scan_rest scans
      obtain ⟨description, rfl⟩ := List.length_eq_one_iff.mp (complete rfl)
      refine ⟨?_, [], _, .absent, .present description, ?_⟩
      · simpa [Scanned.layout, Scanned.add] using List.forall_mem_append.mpr ⟨plain, last⟩
      · simp [Scanned.layout, Scanned.add]

/-- A layout of some items is what a scan of them meets, and the scan is complete. -/
theorem scan_of_lists {layout : Layout} (lists : layout.Lists items) :
    ∃ scanned, scan .required items = some scanned ∧ scanned.IsComplete ∧
      scanned.layout = layout := by
  obtain ⟨plain, optionals, rests, optional, rest, rfl⟩ := lists
  obtain ⟨required, optionalItems, restItem⟩ := layout
  obtain ⟨front, last⟩ := List.forall_mem_append.mp plain
  obtain ⟨first, second⟩ := List.forall_mem_append.mp front
  have repeated (current : Section) (earlier : current ≠ .rest) :
      ∃ last, scan current rests = some ⟨[], [], restItem.toList, last⟩ ∧
        (last = .rest → restItem.toList.length = 1) := by
    cases rest with
    | absent => exact ⟨current, rfl, fun same => absurd same earlier⟩
    | present description =>
        have keyword : "&rest".startsWith "&" = true := by decide +kernel
        have opens : current.after? "&rest" = some .rest := by
          cases current with
          | rest => exact absurd rfl earlier
          | _ => rfl
        refine ⟨.rest, ?_, fun _ => rfl⟩
        rw [scan_keyword keyword, opens, Option.bind_some]
        exact scan_plain last
  rw [scan_append first]
  cases optional with
  | absent =>
      obtain ⟨last, found, complete⟩ := repeated .required nofun
      rw [List.nil_append, found]
      exact ⟨_, rfl, complete, by cases restItem <;> simp [Scanned.layout, Scanned.add]⟩
  | present =>
      have keyword : "&optional".startsWith "&" = true := by decide +kernel
      obtain ⟨last, found, complete⟩ := repeated .optional nofun
      rw [List.cons_append, scan_keyword keyword,
        show Section.after? .required "&optional" = some .optional from rfl, Option.bind_some,
        scan_append second, found]
      exact ⟨_, rfl, complete, by cases restItem <;> simp [Scanned.layout, Scanned.add]⟩

/-- Some items have a layout just if a scan of them is complete. -/
theorem exists_layout_iff :
    (∃ layout : Layout, layout.Lists items) ↔
      ∃ scanned, scan .required items = some scanned ∧ scanned.IsComplete := by
  constructor
  · rintro ⟨layout, lists⟩
    obtain ⟨scanned, found, complete, -⟩ := scan_of_lists lists
    exact ⟨scanned, found, complete⟩
  · rintro ⟨scanned, found, complete⟩
    exact ⟨scanned.layout, lists_of_scan found complete⟩

end Scans

end Descriptor

end Narrowing
