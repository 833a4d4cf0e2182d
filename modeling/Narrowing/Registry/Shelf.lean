import Narrowing.Library.Standard

/-
This file keeps several registries by label, and changes one of them at a time.
-/

namespace Narrowing

/-- The ways to change the registries on a shelf. -/
inductive Command where
  | register (name : String) (changes : Changes)
  | update (name : String) (changes : Changes)
  | freeze
  | copy (label : String)

/-- A shelf gives every registration on it a serial number of its own. -/
structure Shelf where
  registries : List (String × Registry)
  serial : Nat

namespace Shelf

/-- An empty registry beside the standard one. -/
def initial : Shelf :=
  ⟨[("main", .empty), ("default", .standard)], Registry.standard.size⟩

/-- The registry with a label; an unused label names an empty registry. -/
def registry (shelf : Shelf) (label : String) : Registry :=
  (shelf.registries.lookup label).getD .empty

/-- A registry takes the place of the one with its label, or comes last. -/
def place (label : String) (registry : Registry) :
    List (String × Registry) → List (String × Registry)
  | [] => [(label, registry)]
  | entry :: rest =>
      if entry.1 = label then (label, registry) :: rest else entry :: place label registry rest

/-- The shelf with one registry changed. -/
def put (shelf : Shelf) (label : String) (registry : Registry) : Shelf :=
  ⟨place label registry shelf.registries, shelf.serial + 1⟩

/-- The registry of a label after a change, and the record that the change made. -/
def changed (shelf : Shelf) (label : String) : Command → Except Fault (Registry × Option Record)
  | .register name changes => do
      let (registry, record) ← (shelf.registry label).register shelf.serial name changes
      .ok (registry, some record)
  | .update name changes => do
      let (registry, record) ← (shelf.registry label).update shelf.serial name changes
      .ok (registry, some record)
  | .freeze => .ok ((shelf.registry label).freeze, none)
  | .copy _ => .ok ((shelf.registry label).copy, none)

/-- The label whose registry a change replaces. -/
def target (label : String) : Command → String
  | .copy other => other
  | _ => label

/-- A command that fails leaves the shelf as it is. -/
def run (shelf : Shelf) (label : String) (command : Command) :
    Except Fault (Option Record) × Shelf :=
  match shelf.changed label command with
  | .error fault => (.error fault, shelf)
  | .ok (registry, record) => (.ok record, shelf.put (target label command) registry)

theorem lookup_place_self (label : String) (registry : Registry)
    (entries : List (String × Registry)) :
    (place label registry entries).lookup label = some registry := by
  induction entries with
  | nil => simp [place]
  | cons entry rest inductionHypothesis =>
      simp only [place]
      split
      · simp
      · rename_i different
        have unequal : (label == entry.1) = false := by simpa using fun same => different same.symm
        rw [List.lookup_cons, unequal]
        exact inductionHypothesis

theorem lookup_place_of_ne {label other : String} (different : other ≠ label)
    (registry : Registry) (entries : List (String × Registry)) :
    (place label registry entries).lookup other = entries.lookup other := by
  have unequal : (other == label) = false := by simpa using different
  induction entries with
  | nil => simp [place, List.lookup_cons, unequal]
  | cons entry rest inductionHypothesis =>
      obtain ⟨name, value⟩ := entry
      simp only [place]
      split
      · rename_i same
        subst same
        simp only [List.lookup_cons, unequal]
      · simp only [List.lookup_cons, inductionHypothesis]

theorem registry_put_self (shelf : Shelf) (label : String) (registry : Registry) :
    (shelf.put label registry).registry label = registry := by
  simp [put, Shelf.registry, lookup_place_self]

theorem registry_put_of_ne (shelf : Shelf) {label other : String} (different : other ≠ label)
    (registry : Registry) : (shelf.put label registry).registry other = shelf.registry other := by
  simp [put, Shelf.registry, lookup_place_of_ne different]

/-- A failure changes no registry. -/
theorem run_error {shelf : Shelf} {label : String} {command : Command} {fault : Fault}
    (failure : (shelf.run label command).1 = .error fault) :
    (shelf.run label command).2 = shelf := by
  unfold run at failure ⊢
  split at failure <;> simp_all

end Shelf

end Narrowing
