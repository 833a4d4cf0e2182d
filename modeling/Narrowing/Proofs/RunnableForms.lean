import Narrowing.Graph
import Narrowing.Proofs.LoweredCalls
import Narrowing.Proofs.TypeInclusion
import Narrowing.Proofs.TypedOperands
import Narrowing.Specialization

/-
This file says which forms run: their calls name known operations and give them operands that fit.
-/

namespace Narrowing

namespace Form

/-- The type of the first value of a form, as far as its outermost node tells. -/
def ntype (registry : Registry) (declarations : Declarations) : Form → Ntype
  | .constant value => .ofConstant value
  | .parameter name => (declarations.lookup name).getD .universal
  | .call operation _ => (registry.ensure operation).values.primary

/-- A call names an operation that a registry implements for this many operands and that the device
computes too. The operands of an operation of some tier have types within this tier. -/
structure CallRuns (registry : Registry) (declarations : Declarations) (operation : String)
    (operands : List Form) : Prop where
  registered : ∃ record, registry.lookup? operation = some record ∧
    record.accepts operands.length = true ∧ record.implementation.isSome = true
  lowers : ∀ values, Lowers (Lowering.call operation values)
  within : ∀ (tier : Tier) (part : String), operation = tier.name ++ "." ++ part →
    ∀ operand ∈ operands, (operand.ntype registry declarations).proves tier.ntype = true

/-- All calls in the form run. -/
inductive Runs (registry : Registry) (declarations : Declarations) : Form → Prop where
  | constant (value : Value) : Runs registry declarations (.constant value)
  | parameter (name : String) : Runs registry declarations (.parameter name)
  | call {operation : String} {operands : List Form}
      (runs : CallRuns registry declarations operation operands)
      (each : ∀ operand ∈ operands, Runs registry declarations operand) :
      Runs registry declarations (.call operation operands)

end Form

/-- All declared types have values. -/
def Declarations.AreInhabited (declarations : Declarations) : Prop :=
  ∀ name ntype, declarations.lookup name = some ntype → ntype.isEmpty = false

namespace Ntype

variable {ntype : Ntype} {tier : Tier}

theorem isEmpty_of_contains {value : Value} (inside : ntype.contains value = true) :
    ntype.isEmpty = false := by
  cases ntype with
  | singleton member => rfl
  | primitive primitive =>
      rw [isEmpty, beq_eq_false_iff_ne]
      rintro rfl
      simp [contains, Primitive.atoms] at inside

/-- A type of numbers has some number if it is not empty. -/
theorem exists_number (inhabited : ntype.isEmpty = false) (isNumber : ntype.proves number = true) :
    ∃ (atom : Atom) (tier : Tier), ntype.cover.atoms.contains atom = true ∧
      atom.tier? = some tier := by
  have exists_atom : ∃ atom, ntype.cover.atoms.contains atom = true ∧
      Primitive.number.atoms.contains atom = true := by
    cases ntype with
    | singleton member => exact ⟨member.atom, Primitive.contains_ofAtom member.atom, isNumber⟩
    | primitive primitive =>
        rw [isEmpty, beq_eq_false_iff_ne] at inhabited
        obtain ⟨atom, present⟩ := Primitive.exists_contains inhabited
        exact ⟨atom, present, AtomSet.within_iff.mp (proves_primitive_iff.mp isNumber) atom present⟩
  obtain ⟨atom, present, numeric⟩ := exists_atom
  obtain ⟨tier, own⟩ := Option.isSome_iff_exists.mp ((AtomSet.contains_number atom).mp numeric)
  exact ⟨atom, tier, present, own⟩

theorem proves_tier_self (tier : Tier) : tier.ntype.proves tier.ntype = true :=
  proves_primitive_iff.mpr (AtomSet.within_iff.mpr fun _ present => present)

/-- Types within one tier lie within each tier that covers it. -/
theorem proves_of_covers {own : Tier} (proven : ntype.proves own.ntype = true)
    (covers : tier.covers own = true) : ntype.proves tier.ntype = true := by
  rcases Tier.covers_iff.mp covers with rfl | ⟨rfl, rfl⟩
  · exact proven
  · exact proves_rational_of_exact rfl proven

end Ntype

namespace Tier

/-- A name has at most one tier before its first point. -/
theorem eq_of_qualified {tier other : Tier} {part rest : String}
    (same : tier.name ++ "." ++ part = other.name ++ "." ++ rest) : tier = other := by
  have names : tier.name.toList = other.name.toList := by
    rw [← tier.takeWhile_name part, same, takeWhile_name]
  have found := tier.ofName?_name
  rw [String.toList_inj.mp names, ofName?_name] at found
  exact (Option.some.inj found).symm

end Tier

namespace Library

variable {record : Record}

theorem values_inhabited : ∀ record ∈ records, record.values.primary.isEmpty = false := by
  decide +kernel

/-- The generic operations belong to no tier. -/
theorem plain_unqualified (member : record ∈ plainRecords) (tier : Tier) (part : String) :
    record.name ≠ tier.name ++ "." ++ part := by
  intro same
  have resolved := resolves_plain record member
  simp only [Lowering.resolves, Bool.and_eq_true, Bool.not_eq_true'] at resolved
  have unqualified := Lowering.tierPart?_eq_none resolved.1
  rw [same, Lowering.tierPart?_name] at unqualified
  cases unqualified

end Library

/-- An operand whose form runs, with the type that the form tells and that has values. -/
structure Operand.Runs (declarations : Declarations) (operand : Operand) : Prop where
  form : operand.form.Runs .standard declarations
  type : operand.form.ntype .standard declarations = operand.ntype
  inhabited : operand.ntype.isEmpty = false

/-- A call of the library on operands that run, within the tier of the operation if it has one. -/
structure Record.Takes (declarations : Declarations) (record : Record) (operands : List Operand) :
    Prop where
  member : record ∈ Library.records
  accepts : record.accepts operands.length = true
  each : ∀ operand ∈ operands, operand.Runs declarations
  within : ∀ (tier : Tier) (part : String), record.name = tier.name ++ "." ++ part →
    ∀ operand ∈ operands, operand.ntype.proves tier.ntype = true

variable {declarations : Declarations} {record : Record} {operands : List Operand}

theorem Operand.Runs.ofConstant (value : Value) : (Operand.ofConstant value).Runs declarations where
  form := .constant value
  type := rfl
  inhabited := Ntype.isEmpty_of_contains (Ntype.contains_ofConstant value)

theorem Operand.Runs.ofParameter (inhabited : declarations.AreInhabited) (name : String) :
    (Graph.parameterOperand declarations name).Runs declarations where
  form := .parameter name
  type := rfl
  inhabited := by
    change ((declarations.lookup name).getD .universal).isEmpty = false
    cases declared : declarations.lookup name with
    | none => rfl
    | some ntype => exact inhabited name ntype declared

theorem Record.Takes.plain (member : record ∈ Library.plainRecords)
    (accepts : record.accepts operands.length = true)
    (each : ∀ operand ∈ operands, operand.Runs declarations) :
    record.Takes declarations operands where
  member := Library.plain_mem member
  accepts := accepts
  each := each
  within tier part named := absurd named (Library.plain_unqualified member tier part)

theorem Record.Takes.ofTier {tier : Tier} {operation : Operation}
    (offered : tier.offers operation = true)
    (accepts : (Library.tierRecord tier operation).accepts operands.length = true)
    (each : ∀ operand ∈ operands, operand.Runs declarations ∧
      operand.ntype.proves tier.ntype = true) :
    (Library.tierRecord tier operation).Takes declarations operands where
  member := Library.tier_mem offered
  accepts := accepts
  each operand among := (each operand among).1
  within other part named operand among := by
    have same : tier.name ++ "." ++ operation.name = other.name ++ "." ++ part := named
    rw [← Tier.eq_of_qualified same]
    exact (each operand among).2

/-- A call that stays as it is runs. -/
theorem Record.Takes.runs_plainCall (takes : record.Takes declarations operands) :
    (Engine.plainCall record operands).Runs declarations := by
  obtain ⟨serial, found⟩ := Registry.standard_lookup? takes.member
  refine ⟨.call ⟨⟨_, found, ?_, Library.implemented record takes.member⟩,
    Library.lowers_call takes.member, ?_⟩ ?_, ?_, Library.values_inhabited record takes.member⟩
  · rw [List.length_map]
    exact takes.accepts
  · intro tier part named
    refine List.forall_mem_map.mpr fun operand among => ?_
    rw [(takes.each operand among).type]
    exact takes.within tier part named operand among
  · exact List.forall_mem_map.mpr fun operand among => (takes.each operand among).form
  · change (Registry.standard.ensure record.name).values.primary = record.values.primary
    rw [Registry.ensure, found]
    rfl

end Narrowing
