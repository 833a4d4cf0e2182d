import Narrowing.Proofs.DescriptionWeights
import Narrowing.Proofs.LookupClosure

/-
This file shows that look-ups only add results to the tables, that the type which a look-up finds is
the stored one, and that the counters of the tables do not matter for it.
-/

namespace Narrowing

namespace Descriptor

variable {types values bound : Nat} {tables before middle last : Tables} {First Second : Type}

namespace Tables

variable {Result : Type} {key : Key} {result : Result} {entries more : List (Key × Result)}

/-- Results that are found are found again when others were added. -/
theorem find?_append_left (found : find? key entries = some result) :
    find? key (entries ++ more) = some result := by
  unfold find? at found ⊢
  obtain ⟨entry, present, rfl⟩ := Option.map_eq_some_iff.mp found
  rw [List.find?_append, present]
  rfl

/-- A result is found where it was added, unless one of its key was there. -/
theorem find?_append_own (missing : find? key entries = none)
    (others : ∀ entry ∈ more, entry.1 ≠ key) :
    find? key (entries ++ more ++ [(key, result)]) = some result := by
  have none : entries.find? (fun entry => entry.1 == key) = none := by
    unfold find? at missing
    exact Option.map_eq_none_iff.mp missing
  have added : more.find? (fun entry => entry.1 == key) = Option.none :=
    List.find?_eq_none.mpr fun entry member => by simpa using others entry member
  unfold find?
  rw [List.find?_append, List.find?_append, none, added]
  simp

/-- Tables grow by types and values whose keys are lighter than some bounds. -/
structure Grown (types values : Nat) (before after : Tables) : Prop where
  ntypes : ∃ more, after.ntypes = before.ntypes ++ more ∧ ∀ entry ∈ more, keyWeight entry.1 < types
  values : ∃ more, after.values = before.values ++ more ∧ ∀ entry ∈ more, keyWeight entry.1 < values

theorem Grown.same (ntypes : last.ntypes = before.ntypes) (results : last.values = before.values) :
    Grown types values before last :=
  ⟨⟨[], ntypes.trans (List.append_nil _).symm, nofun⟩,
    [], results.trans (List.append_nil _).symm, nofun⟩

theorem Grown.trans (first : Grown types values before middle)
    (second : Grown types values middle last) : Grown types values before last := by
  obtain ⟨⟨one, oneAdded, oneLight⟩, two, twoAdded, twoLight⟩ := first
  obtain ⟨⟨three, threeAdded, threeLight⟩, four, fourAdded, fourLight⟩ := second
  refine ⟨⟨one ++ three, ?_, List.forall_mem_append.mpr ⟨oneLight, threeLight⟩⟩,
    two ++ four, ?_, List.forall_mem_append.mpr ⟨twoLight, fourLight⟩⟩
  · rw [threeAdded, oneAdded, List.append_assoc]
  · rw [fourAdded, twoAdded, List.append_assoc]

theorem Grown.mono {moreTypes moreValues : Nat} (grown : Grown types values before last)
    (typesLe : types ≤ moreTypes) (valuesLe : values ≤ moreValues) :
    Grown moreTypes moreValues before last := by
  obtain ⟨⟨one, oneAdded, oneLight⟩, two, twoAdded, twoLight⟩ := grown
  exact ⟨⟨one, oneAdded, fun entry member => Nat.lt_of_lt_of_le (oneLight entry member) typesLe⟩,
    two, twoAdded, fun entry member => Nat.lt_of_lt_of_le (twoLight entry member) valuesLe⟩

/-- What was stored stays stored. -/
theorem Grown.find? {estimate : Estimate} (grown : Grown types values before last)
    (found : Tables.find? key before.ntypes = some estimate) :
    Tables.find? key last.ntypes = some estimate := by
  obtain ⟨⟨more, added, _⟩, _⟩ := grown
  rw [added]
  exact find?_append_left found

end Tables

/-- A look-up adds nothing but light keys. -/
def Adds (types values : Nat) {Result : Type} (lookup : Lookup Result) : Prop :=
  ∀ tables : Tables, tables.Grown types values (lookup.after tables)

section Growth

variable {source : Value} {key : Key}

theorem adds_pure (result : First) : Adds types values (pure result) :=
  fun _ => .same rfl rfl

theorem adds_malformed (cause : Cause) (source : Value) :
    Adds types values (Lookup.malformed cause source : Lookup First) :=
  fun _ => .same rfl rfl

theorem Adds.bind {first : Lookup First} {next : First → Lookup Second}
    (starts : Adds types values first) (continues : ∀ result, Adds types values (next result)) :
    Adds types values (first >>= next) := by
  intro tables
  rw [Lookup.after_bind]
  cases first.outcome tables with
  | ok result => exact (starts tables).trans (continues result _)
  | error fault => exact starts tables

theorem Adds.mono {moreTypes moreValues : Nat} {lookup : Lookup First}
    (adds : Adds types values lookup) (typesLe : types ≤ moreTypes)
    (valuesLe : values ≤ moreValues) : Adds moreTypes moreValues lookup :=
  fun tables => (adds tables).mono typesLe valuesLe

theorem adds_singleton? (value : Value) : Adds types values (Lookup.singleton? value) := by
  intro tables
  obtain ⟨singletons, left⟩ := singleton?_after value tables
  rw [left]
  exact .same rfl rfl

/-- A look-up of a type adds its key to those that the computation adds. -/
theorem adds_ntype {compute : Lookup Estimate} (light : weight source < types)
    (computed : Adds types values compute) : Adds types values (Lookup.ntype source compute) := by
  intro tables
  have missed := computed { tables with misses := tables.misses + 1 }
  refine Lookup.after_ntype (tables.Grown types values) (fun _ => .same rfl rfl)
    ⟨missed.ntypes, missed.values⟩ ?_
  intro key result keyed _
  obtain ⟨⟨more, added, lighter⟩, others⟩ := missed
  rw [weight_of_key keyed] at light
  refine ⟨⟨more ++ [(key, result)], ?_, ?_⟩, others⟩
  · exact (congrArg (· ++ [(key, result)]) added).trans (List.append_assoc _ _ _)
  · exact List.forall_mem_append.mpr ⟨lighter, List.forall_mem_singleton.mpr light⟩

theorem adds_values {compute : Lookup ValuesEstimate} (light : weight source < values)
    (computed : Adds types values compute) : Adds types values (Lookup.values source compute) := by
  intro tables
  have missed := computed { tables with misses := tables.misses + 1 }
  refine Lookup.after_values (tables.Grown types values) (fun _ => .same rfl rfl)
    ⟨missed.ntypes, missed.values⟩ ?_
  intro key result keyed _
  obtain ⟨others, more, added, lighter⟩ := missed
  rw [weight_of_key keyed] at light
  refine ⟨others, more ++ [(key, result)], ?_, ?_⟩
  · exact (congrArg (· ++ [(key, result)]) added).trans (List.append_assoc _ _ _)
  · exact List.forall_mem_append.mpr ⟨lighter, List.forall_mem_singleton.mpr light⟩

/-- Look-ups of light descriptions add light keys. -/
theorem closed_adds (bound : Nat) :
    Closed {source | weight source < bound} (@Adds bound bound) where
  pure := adds_pure
  malformed := adds_malformed
  bind := Adds.bind
  singleton? := adds_singleton?
  fresh _ := .same rfl rfl
  ntype source light computed := by
    rw [resolve_ofValue]
    exact adds_ntype light computed
  values _ light computed := adds_values light computed

/-- The items of a list of values are lighter than the list. -/
theorem adds_sections {origin : Value} {items : List Descriptor}
    (hasKey : source.descriptorKey = .ok key) (analysed : body source = .sections origin items)
    (owner : Value) : Adds (weight source) (weight source) (resolveSections owner items .start) := by
  have lighter := descends source key hasKey
  rw [analysed] at lighter
  obtain ⟨arguments, -, rfl, rfl⟩ := sections_of_body analysed
  have within : AllWithin {other | weight other < weight source} (parts arguments) :=
    Traced.all (traced_parts fun argument _ => traced_ofValue argument) lighter
  exact (closed_adds _).resolveSections ((closed_adds _).inheritsAll _ within) .start

/-- While a description other than a list of values is computed, only lighter ones are looked up. -/
theorem adds_plainBody (hasKey : source.descriptorKey = .ok key)
    (plain : ∀ origin items, body source ≠ .sections origin items) :
    Adds (weight source) (weight source) (resolve (body source)) := by
  have lighter := descends source key hasKey
  have within : (body source).Within {other | weight other < weight source} :=
    traced_body source _ (inner_eq plain ▸ lighter)
  exact ((closed_adds _).inherits _ within).types

/-- While a type is computed, only lighter types are looked up. -/
theorem adds_body (hasKey : source.descriptorKey = .ok key) :
    Adds (weight source) (weight source + 1) (resolve (body source)) := by
  by_cases listed : ∃ origin items, body source = .sections origin items
  · obtain ⟨origin, items, analysed⟩ := listed
    have same : weight origin = weight source := by
      rw [weight, weight, sections_key analysed]
    rw [analysed, resolve]
    refine (adds_values ?_ ?_).bind fun _ => adds_pure _
    · omega
    · exact (adds_sections hasKey analysed origin).mono (Nat.le_refl _) (Nat.le_succ _)
  · have plain := adds_plainBody hasKey fun origin items analysed => listed ⟨origin, items, analysed⟩
    exact plain.mono (Nat.le_refl _) (Nat.le_succ _)

/-- While the values of a description are computed, only those of lighter ones are looked up. -/
theorem adds_computedValues (hasKey : source.descriptorKey = .ok key) :
    Adds (weight source + 1) (weight source) (computedValues source) := by
  unfold computedValues
  split
  · exact adds_pure _
  · split
    · rename_i origin items analysed
      exact (adds_sections hasKey analysed source).mono (Nat.le_succ _) (Nat.le_refl _)
    · rename_i listed
      have plain := adds_plainBody hasKey listed
      refine (adds_ntype (Nat.lt_succ_self _) ?_).bind fun _ => adds_pure _
      exact plain.mono (Nat.le_succ _) (Nat.le_refl _)

theorem adds_ntypeOf (source : Value) :
    Adds (weight source + 1) (weight source + 1) (ntypeOf source) := by
  intro tables
  rw [ntypeOf, resolve_ofValue]
  cases keyed : source.descriptorKey with
  | error part =>
      rw [(Lookup.keyless_fails keyed tables _ (pure ⟨.none, true, none⟩)).1.2]
      exact .same rfl rfl
  | ok key =>
      have computed := (adds_body keyed).mono (Nat.le_succ (weight source)) (Nat.le_refl _)
      exact adds_ntype (Nat.lt_succ_self _) computed tables

/-- The type that a look-up finds is the one that it leaves stored. -/
theorem stored_ntypeOf {estimate : Estimate}
    (found : (ntypeOf source).outcome tables = .ok estimate) :
    ∃ key, source.descriptorKey = .ok key ∧
      Tables.find? key ((ntypeOf source).after tables).ntypes = some estimate := by
  rw [ntypeOf, resolve_ofValue] at found ⊢
  cases keyed : source.descriptorKey with
  | error part =>
      rw [(Lookup.keyless_fails keyed tables _ (pure ⟨.none, true, none⟩)).1.1] at found
      cases found
  | ok key =>
      refine ⟨key, rfl, ?_⟩
      cases present : Tables.find? key tables.ntypes with
      | some result =>
          obtain ⟨hit, left⟩ := Lookup.ntype_hit keyed present (resolve (body source))
          rw [left, present, Except.ok.inj (hit.symm.trans found)]
      | none =>
          obtain ⟨missed, left⟩ := Lookup.ntype_miss keyed present (resolve (body source))
          have computed := missed.symm.trans found
          obtain ⟨⟨more, added, lighter⟩, _⟩ :=
            adds_body keyed { tables with misses := tables.misses + 1 }
          rw [left, computed]
          dsimp only
          rw [added]
          -- the computation looks up lighter descriptions only, not this one
          refine Tables.find?_append_own present fun entry member same => ?_
          have light := lighter entry member
          rw [same, weight_of_key keyed] at light
          exact absurd light (Nat.lt_irrefl _)

end Growth

/-- The counters do not change what a look-up finds and what else it leaves behind. -/
def Uncounted {Result : Type} (lookup : Lookup Result) : Prop :=
  ∀ (tables : Tables) (hits misses : Nat),
    let counted := { tables with hits := hits, misses := misses }
    lookup.outcome counted = lookup.outcome tables ∧
      ∃ hits misses, lookup.after counted =
        { lookup.after tables with hits := hits, misses := misses }

section Counters

theorem uncounted_pure (result : First) : Uncounted (pure result) :=
  fun _ hits misses => ⟨rfl, hits, misses, rfl⟩

theorem uncounted_malformed (cause : Cause) (source : Value) :
    Uncounted (Lookup.malformed cause source : Lookup First) :=
  fun _ hits misses => ⟨rfl, hits, misses, rfl⟩

theorem Uncounted.bind {first : Lookup First} {next : First → Lookup Second}
    (starts : Uncounted first) (continues : ∀ result, Uncounted (next result)) :
    Uncounted (first >>= next) := by
  intro tables hits misses counted
  obtain ⟨same, hits, misses, left⟩ := starts tables hits misses
  simp only [Lookup.outcome_bind, Lookup.after_bind]
  rw [same, left]
  cases first.outcome tables with
  | error fault => exact ⟨rfl, hits, misses, rfl⟩
  | ok result => exact continues result _ hits misses

theorem uncounted_singleton? (value : Value) : Uncounted (Lookup.singleton? value) := by
  intro tables hits misses counted
  by_cases absent : value = .missing
  · subst absent
    exact ⟨rfl, hits, misses, rfl⟩
  · cases hasKey : value.key? with
    | none =>
        rw [singleton?_keyless hasKey]
        exact ⟨rfl, hits, misses, rfl⟩
    | some key =>
        obtain ⟨one, left⟩ := singleton?_keyed absent hasKey tables
        obtain ⟨two, right⟩ := singleton?_keyed absent hasKey counted
        rw [one, two, left, right]
        refine ⟨rfl, hits, misses, ?_⟩
        dsimp only [counted]
        cases Tables.find? key tables.singletons <;> rfl

theorem uncounted_ntype (source : Value) {compute : Lookup Estimate}
    (computed : Uncounted compute) : Uncounted (Lookup.ntype source compute) := by
  intro tables hits misses counted
  cases keyed : source.descriptorKey with
  | error part =>
      have fails (tables : Tables) :=
        (Lookup.keyless_fails keyed tables compute (pure ⟨.none, true, none⟩)).1
      rw [(fails tables).1, (fails counted).1, (fails tables).2, (fails counted).2]
      exact ⟨rfl, hits, misses, rfl⟩
  | ok key =>
      cases found : Tables.find? key tables.ntypes with
      | some result =>
          obtain ⟨one, left⟩ := Lookup.ntype_hit keyed found compute
          obtain ⟨two, right⟩ := @Lookup.ntype_hit source key counted result keyed found compute
          rw [one, two, left, right]
          exact ⟨rfl, hits + 1, misses, rfl⟩
      | none =>
          obtain ⟨one, left⟩ := Lookup.ntype_miss keyed found compute
          obtain ⟨two, right⟩ := @Lookup.ntype_miss source key counted keyed found compute
          obtain ⟨same, hits, misses, after⟩ :=
            computed { tables with misses := tables.misses + 1 } hits (misses + 1)
          rw [one, two, left, right]
          refine ⟨same, hits, misses, ?_⟩
          dsimp only [counted] at same after ⊢
          rw [same, after]
          cases compute.outcome { tables with misses := tables.misses + 1 } <;> rfl

theorem uncounted_values (source : Value) {compute : Lookup ValuesEstimate}
    (computed : Uncounted compute) : Uncounted (Lookup.values source compute) := by
  intro tables hits misses counted
  cases keyed : source.descriptorKey with
  | error part =>
      have fails (tables : Tables) :=
        (Lookup.keyless_fails keyed tables (pure ⟨.empty, true⟩) compute).2
      rw [(fails tables).1, (fails counted).1, (fails tables).2, (fails counted).2]
      exact ⟨rfl, hits, misses, rfl⟩
  | ok key =>
      cases found : Tables.find? key tables.values with
      | some result =>
          obtain ⟨one, left⟩ := Lookup.values_hit keyed found compute
          obtain ⟨two, right⟩ := @Lookup.values_hit source key counted result keyed found compute
          rw [one, two, left, right]
          exact ⟨rfl, hits + 1, misses, rfl⟩
      | none =>
          obtain ⟨one, left⟩ := Lookup.values_miss keyed found compute
          obtain ⟨two, right⟩ := @Lookup.values_miss source key counted keyed found compute
          obtain ⟨same, hits, misses, after⟩ :=
            computed { tables with misses := tables.misses + 1 } hits (misses + 1)
          rw [one, two, left, right]
          refine ⟨same, hits, misses, ?_⟩
          dsimp only [counted] at same after ⊢
          rw [same, after]
          cases compute.outcome { tables with misses := tables.misses + 1 } <;> rfl

theorem closed_uncounted : Closed Set.univ @Uncounted where
  pure := uncounted_pure
  malformed := uncounted_malformed
  bind := Uncounted.bind
  singleton? := uncounted_singleton?
  fresh _ hits misses := ⟨rfl, hits, misses, rfl⟩
  ntype source _ computed := by
    rw [resolve_ofValue]
    exact uncounted_ntype source computed
  values source _ computed := uncounted_values source computed

theorem uncounted_ntypeOf (source : Value) : Uncounted (ntypeOf source) :=
  (closed_uncounted.ofValue (traced_ofValue source _ fun _ _ => Set.mem_univ _)).1

end Counters

end Descriptor

end Narrowing
