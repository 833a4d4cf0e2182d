import Mathlib.Data.List.Basic
import Narrowing.Proofs.AtomSets

/-
This file shows that the class around a set of atoms is the least class that holds the set.
-/

namespace Narrowing

namespace AtomSet

theorem within_antisymm {first second : AtomSet} (left : first.within second = true)
    (right : second.within first = true) : first = second :=
  ext fun atom => ⟨within_iff.mp left atom, within_iff.mp right atom⟩

/-- A set of no fewer atoms that lies inside another set is that set. -/
theorem eq_of_size_le {first second : AtomSet} (included : first.within second = true)
    (large : second.size ≤ first.size) : first = second := by
  have kept : ∀ bit ∈ List.range 43, first.getLsbD bit = true → second.getLsbD bit = true := by
    intro bit inRange present
    obtain ⟨atom, rfl⟩ := exists_atom (List.mem_range.mp inRange)
    exact within_iff.mp included atom present
  have sameBits : (List.range 43).filter first.getLsbD = (List.range 43).filter second.getLsbD := by
    have pruned : (List.range 43).filter first.getLsbD =
        ((List.range 43).filter second.getLsbD).filter first.getLsbD := by
      rw [List.filter_filter]
      refine List.filter_congr fun bit inRange => ?_
      cases present : first.getLsbD bit with
      | false => simp
      | true => simp [kept bit inRange present]
    have counted : ((List.range 43).filter second.getLsbD).length ≤
        ((List.range 43).filter first.getLsbD).length := by
      simpa only [size, List.countP_eq_length_filter] using large
    rw [pruned] at counted ⊢
    exact List.filter_sublist.eq_of_length_le counted
  refine BitVec.eq_of_getLsbD_eq fun bit inRange => Bool.eq_iff_iff.mpr ?_
  have member := congrArg (bit ∈ ·) sameBits
  simpa [inRange] using member

end AtomSet

namespace Primitive

/-- Two classes with the same atoms are one class. -/
theorem eq_of_atoms {first second : Primitive} (same : first.atoms = second.atoms) :
    first = second := by
  have every : ∀ first ∈ all, ∀ second ∈ all, first.atoms = second.atoms → first = second := by
    decide +kernel
  exact every first first.mem_all second second.mem_all same

/-- The atoms that two classes share are again the atoms of a class. -/
theorem exists_meet (first second : Primitive) :
    ∃ met : Primitive, met.atoms = first.atoms &&& second.atoms := by
  -- Natural numbers stand for the sets here, which the kernel intersects at once.
  let numbers : List Nat := all.map fun primitive => primitive.atoms.toNat
  have every : ∀ first ∈ numbers, ∀ second ∈ numbers, first &&& second ∈ numbers := by
    decide +kernel
  obtain ⟨met, _, same⟩ := List.mem_map.mp (every _ (List.mem_map_of_mem first.mem_all) _
    (List.mem_map_of_mem second.mem_all))
  refine ⟨met, BitVec.eq_of_toNat_eq ?_⟩
  rw [BitVec.toNat_and]
  exact same

theorem mem_table_atoms (primitive : Primitive) :
    (primitive, primitive.atoms, primitive.atoms.size) ∈ table :=
  List.mem_map.mpr ⟨primitive, primitive.mem_all, rfl⟩

theorem table_size {entry : Primitive × AtomSet × Nat} (member : entry ∈ table) :
    entry.2.2 = entry.1.atoms.size := by
  obtain ⟨primitive, _, rfl⟩ := List.mem_map.mp member
  rfl

/-- A class found by its atoms is exact. -/
theorem enclosing_exact {set : AtomSet} (exact : (enclosing set).exact = true) :
    (enclosing set).primitive.atoms = set := by
  unfold enclosing at exact ⊢
  split at exact
  · rename_i entry found
    have same := List.find?_some found
    rw [beq_iff_eq, mem_table (List.mem_of_find?_eq_some found)] at same
    simpa only [found] using same
  · cases exact

/-- A class whose atoms are a set is the class around this set, and an exact one. -/
theorem enclosing_atoms (primitive : Primitive) : enclosing primitive.atoms = ⟨primitive, true⟩ := by
  unfold enclosing
  split
  · rename_i entry found
    have same := List.find?_some found
    rw [beq_iff_eq, mem_table (List.mem_of_find?_eq_some found)] at same
    rw [eq_of_atoms same]
  · rename_i missing
    have impossible := List.find?_eq_none.mp missing _ (mem_table_atoms primitive)
    simp at impossible

/-- The search for a least class ends with one that no class around the set undercuts. -/
theorem search_least (set : AtomSet) (entries : List (Primitive × AtomSet × Nat))
    (best : Primitive × Nat) (belongs : ∀ entry ∈ entries, entry ∈ table)
    (counted : best.2 = best.1.atoms.size) :
    let least := entries.foldl
      (fun best entry =>
        if set.within entry.2.1 && entry.2.2 < best.2 then (entry.1, entry.2.2) else best) best
    least.2 = least.1.atoms.size ∧ least.2 ≤ best.2 ∧
      ∀ entry ∈ entries, set.within entry.2.1 = true → least.2 ≤ entry.2.2 := by
  induction entries generalizing best with
  | nil => simp [counted]
  | cons first rest inductionHypothesis =>
      have later : ∀ entry ∈ rest, entry ∈ table :=
        fun entry member => belongs entry (List.mem_cons_of_mem first member)
      simp only [List.foldl_cons]
      split
      · rename_i better
        simp only [Bool.and_eq_true, decide_eq_true_eq] at better
        obtain ⟨size, below, others⟩ := inductionHypothesis (first.1, first.2.2) later
          (table_size (belongs first List.mem_cons_self))
        refine ⟨size, by simp only at below; omega, fun entry member encloses => ?_⟩
        rcases List.mem_cons.mp member with rfl | member
        · exact below
        · exact others entry member encloses
      · rename_i worse
        obtain ⟨size, below, others⟩ := inductionHypothesis best later counted
        refine ⟨size, below, fun entry member encloses => ?_⟩
        rcases List.mem_cons.mp member with rfl | member
        · have notSmaller : ¬entry.2.2 < best.2 := by simpa [encloses] using worse
          omega
        · exact others entry member encloses

/-- No class around a set has fewer atoms than the class that is found for it. -/
theorem enclosing_size_le {set : AtomSet} {primitive : Primitive}
    (encloses : set.within primitive.atoms = true) :
    (enclosing set).primitive.atoms.size ≤ primitive.atoms.size := by
  cases exact : (enclosing set).exact with
  | true =>
      rw [enclosing_exact exact]
      refine List.countP_mono_left fun bit inRange present => ?_
      obtain ⟨atom, rfl⟩ := AtomSet.exists_atom (List.mem_range.mp inRange)
      exact AtomSet.within_iff.mp encloses atom present
  | false =>
      unfold enclosing at exact ⊢
      split at exact
      · cases exact
      · rename_i missing
        obtain ⟨size, _, least⟩ := search_least set table (universal, 43)
          (fun _ member => member) (by decide)
        have smallest := least _ (mem_table_atoms primitive) encloses
        rw [size] at smallest
        simpa only [missing] using smallest

/-- The class around a set lies in every other class around it. -/
theorem enclosing_least {set : AtomSet} {primitive : Primitive} :
    (enclosing set).primitive.atoms.within primitive.atoms = true ↔
      set.within primitive.atoms = true := by
  constructor
  · intro included
    refine AtomSet.within_iff.mpr fun atom present => ?_
    exact AtomSet.within_iff.mp included atom (contains_enclosing present)
  · intro encloses
    -- The two classes meet in a class around the set, which cannot be smaller than the found one.
    obtain ⟨met, sameAtoms⟩ := exists_meet (enclosing set).primitive primitive
    have metAtom : ∀ atom, met.atoms.contains atom = true ↔
        (enclosing set).primitive.atoms.contains atom = true ∧
          primitive.atoms.contains atom = true := by
      intro atom
      rw [sameAtoms, AtomSet.contains_and, Bool.and_eq_true]
    have metEncloses : set.within met.atoms = true :=
      AtomSet.within_iff.mpr fun atom present => (metAtom atom).mpr
        ⟨contains_enclosing present, AtomSet.within_iff.mp encloses atom present⟩
    have whole : met.atoms = (enclosing set).primitive.atoms :=
      AtomSet.eq_of_size_le (AtomSet.within_iff.mpr fun atom present => ((metAtom atom).mp present).1)
        (enclosing_size_le metEncloses)
    refine AtomSet.within_iff.mpr fun atom present => ?_
    rw [← whole] at present
    exact ((metAtom atom).mp present).2

/-- The class of an atom lies in every class that holds the atom. -/
theorem ofAtom_within_iff {atom : Atom} {primitive : Primitive} :
    (ofAtom atom).atoms.within primitive.atoms = true ↔ primitive.atoms.contains atom = true := by
  rw [ofAtom, enclosing_least, AtomSet.within_iff]
  constructor
  · intro included
    exact included atom ((AtomSet.contains_singleton atom atom).mpr rfl)
  · intro present held same
    rwa [← (AtomSet.contains_singleton atom held).mp same]

/-- The union of two classes lies in the classes that hold both. -/
theorem union_within_iff {first second third : Primitive} :
    (first.union second).primitive.atoms.within third.atoms = true ↔
      first.atoms.within third.atoms = true ∧ second.atoms.within third.atoms = true := by
  rw [union, enclosing_least]
  simp only [AtomSet.within_iff, AtomSet.contains_or, Bool.or_eq_true]
  constructor
  · intro both
    exact ⟨fun atom present => both atom (.inl present), fun atom present => both atom (.inr present)⟩
  · rintro ⟨left, right⟩ atom (present | present)
    · exact left atom present
    · exact right atom present

/-- Classes intersect exactly. -/
theorem intersection_exact (first second : Primitive) :
    (first.intersection second).exact = true ∧
      (first.intersection second).primitive.atoms = first.atoms &&& second.atoms := by
  obtain ⟨met, sameAtoms⟩ := exists_meet first second
  rw [intersection, ← sameAtoms, enclosing_atoms]
  exact ⟨rfl, rfl⟩

/-- A class other than the empty one has an atom. -/
theorem exists_contains {primitive : Primitive} (inhabited : primitive ≠ empty) :
    ∃ atom, primitive.atoms.contains atom = true := by
  by_contra hollow
  refine inhabited (eq_of_atoms (AtomSet.ext fun atom => ?_))
  constructor
  · intro present
    exact absurd ⟨atom, present⟩ hollow
  · intro impossible
    simp [atoms] at impossible

end Primitive

end Narrowing
