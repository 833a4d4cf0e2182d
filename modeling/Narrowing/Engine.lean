import Narrowing.Form
import Narrowing.Registry

/-
This file specializes and differentiates single calls on operands of known types.
-/

namespace Narrowing

/-- An operand is a form and the types of its values. -/
structure Operand where
  form : Form
  values : ValuesNtype

namespace Operand

/-- A literal has the type that holds it alone. -/
def ofConstant (value : Value) : Operand := ⟨.constant value, .single (.ofConstant value)⟩

/-- The type of the first value. -/
def ntype (operand : Operand) : Ntype := operand.values.primary

def written (operand : Operand) : String :=
  "Wrapper(form=" ++ operand.form.written ++ ", values=" ++ operand.values.written ++ ")"

end Operand

/-- The making of a literal or of a call. -/
inductive Event where
  | constant (value : Value)
  | call (operation : String) (count : Nat)

/-- A traced run keeps its events, the last one first, even when it fails. -/
abbrev Traced := ExceptT Fault (StateM (List Event))

namespace Traced

variable {Result : Type}

def record (event : Event) : Traced Unit := modify (event :: ·)

def ofExcept (result : Except Fault Result) : Traced Result := MonadExcept.ofExcept result

/-- The events in order, and the outcome. -/
def run (traced : Traced Result) : List Event × Except Fault Result :=
  let final := (ExceptT.run traced).run []
  (final.2.reverse, final.1)

/-- A new literal. -/
def constant (value : Value) : Traced Operand := do
  record (.constant value)
  pure (.ofConstant value)

/-- A new call. -/
def call (operation : String) (operands : List Operand) (values : ValuesNtype) :
    Traced Operand := do
  record (.call operation operands.length)
  pure ⟨.call operation (operands.map (·.form)), values⟩

end Traced

/-- The engine works with a registry, a ceiling on nested calls, and perhaps folds constants. -/
structure Engine where
  registry : Registry
  ceiling : Int
  folds : Bool

namespace Engine

/-- What one level of nesting offers to the plans of the level above it. -/
structure Level where
  specialize : String → List Operand → Traced Operand
  differentiate : String → List Operand → Int → Traced (Option Operand)

/-- The operands that some handles name. -/
def operandsOf (known : List Operand) (handles : List Handle) : Except Fault (List Operand) :=
  handles.mapM fun handle => orFault known[handle]? .missingPart

/-- A plan runs at one depth, with the level below it, on the operands known so far. -/
def runPlan {Result : Type} (engine : Engine) (depth : Nat) (below : Level) :
    Plan Result → List Operand → Traced (Result × List Operand)
  | .done result, known => pure (result, known)
  | .fail fault, _ => throw fault
  | .constant value next, known => do
      let made ← Traced.constant value
      runPlan engine depth below (next known.length) (known ++ [made])
  | .call operation handles next, known => do
      let operands ← Traced.ofExcept (operandsOf known handles)
      let made ← below.specialize operation operands
      runPlan engine depth below (next known.length) (known ++ [made])
  | .emit operation handles values next, known => do
      let operands ← Traced.ofExcept (operandsOf known handles)
      let record ← Traced.ofExcept (engine.registry.check operation operands.length)
      let made ← Traced.call operation operands (values.getD record.values)
      runPlan engine depth below (next known.length) (known ++ [made])
  | .differentiate operation handles index next, known => do
      let operands ← Traced.ofExcept (operandsOf known handles)
      match ← below.differentiate operation operands index with
      | none => runPlan engine depth below (next none) known
      | some made =>
          runPlan engine depth below (next (some known.length)) (known ++ [made])
  | .ntype handle next, known => do
      let operand ← Traced.ofExcept (orFault known[handle]? .missingPart)
      runPlan engine depth below (next operand.ntype) known
  | .literal handle next, known => do
      let operand ← Traced.ofExcept (orFault known[handle]? .missingPart)
      match operand.ntype.constant? with
      | some value => runPlan engine depth below (next value) known
      | none => throw (.notConstant operand.written)
  | .depth next, known => runPlan engine depth below (next depth) known
  | .registered operation next, known =>
      runPlan engine depth below (next (engine.registry.contains operation)) known

/-- A plan for some operands; nothing comes of a plan that gives up. -/
def follow (engine : Engine) (depth : Nat) (below : Level)
    (plan : List Handle → Plan (Option Handle)) (operands : List Operand) :
    Traced (Option Operand) := do
  let (result, known) ← runPlan engine depth below (plan (List.range operands.length)) operands
  match result with
  | none => pure none
  | some handle => do
      return some (← Traced.ofExcept (orFault known[handle]? .missingPart))

/-- The values of operands that are all constants. -/
def literals? (operands : List Operand) : Option (List Value) :=
  operands.mapM fun operand => operand.ntype.constant?

/-- The constant that a foldable call stands for; a failure of arithmetic leaves the call. -/
def fold? (engine : Engine) (record : Record) (operands : List Operand) :
    Except Fault (Option Value) :=
  match engine.folds && record.isFoldable && record.values.isSingle, record.implementation,
      literals? operands with
  | true, some implementation, some values =>
      match implementation values with
      | .ok value => .ok (some value)
      | .error fault => if fault.isFoldable then .ok none else .error fault
  | _, _, _ => .ok none

/-- A call is folded, or rewritten by its rule, or stays as it is. -/
def specializeCall (engine : Engine) (depth : Nat) (below : Level) (operation : String)
    (operands : List Operand) : Traced Operand :=
  match engine.registry.check operation operands.length with
  | .error fault => throw fault
  | .ok record => do
      match ← Traced.ofExcept (engine.fold? record operands) with
      | some value => Traced.constant value
      | none =>
          let rewritten ←
            match record.specializer with
            | none => pure none
            | some rule => engine.follow depth below rule operands
          match rewritten with
          | some operand => pure operand
          | none => Traced.call operation operands record.values

/-- The derivative of a call in one operand, by the rule of its operation. -/
def differentiateCall (engine : Engine) (depth : Nat) (below : Level) (operation : String)
    (operands : List Operand) (index : Int) : Traced (Option Operand) :=
  match engine.registry.check operation operands.length with
  | .error fault => throw fault
  | .ok record =>
      if index < 0 ∨ operands.length ≤ index then
        throw (.argumentIndex operation index operands.length)
      else
        match record.differentiator with
        | none => throw (.notDifferentiable operation)
        | some rule => engine.follow depth below (rule index.toNat) operands

/-- The levels that remain below the ceiling; with none left every call fails. -/
def level (engine : Engine) : Nat → Nat → Level
  | 0, _ =>
      { specialize operation _ := throw (.depth operation engine.ceiling)
        differentiate operation _ _ := throw (.depth operation engine.ceiling) }
  | remaining + 1, depth =>
      let below : Level :=
        { specialize operation operands :=
            (engine.level remaining (depth + 1)).specialize operation operands
          differentiate operation operands index :=
            (engine.level remaining (depth + 1)).differentiate operation operands index }
      { specialize := engine.specializeCall depth below
        differentiate := engine.differentiateCall depth below }

/-- The level at a depth; depths beyond the ceiling have nothing left. -/
def levelAt (engine : Engine) (depth : Nat) : Level :=
  engine.level (engine.ceiling + 1 - depth).toNat depth

/-- The narrowest call for operands of these types. -/
def specialize (engine : Engine) (depth : Nat) (operation : String) (operands : List Operand) :
    Traced Operand :=
  (engine.levelAt depth).specialize operation operands

/-- The derivative of a call in one operand; a rule that gives up is a failure. -/
def differentiate (engine : Engine) (depth : Nat) (operation : String) (operands : List Operand)
    (index : Int) : Traced Operand := do
  match ← (engine.levelAt depth).differentiate operation operands index with
  | some operand => pure operand
  | none => throw .missingPart

theorem level_zero_specialize (engine : Engine) (depth : Nat) (operation : String)
    (operands : List Operand) :
    (engine.level 0 depth).specialize operation operands =
      throw (.depth operation engine.ceiling) := rfl

theorem level_succ_specialize (engine : Engine) (remaining depth : Nat) :
    (engine.level (remaining + 1) depth).specialize =
      engine.specializeCall depth (engine.level remaining (depth + 1)) := rfl

theorem level_succ_differentiate (engine : Engine) (remaining depth : Nat) :
    (engine.level (remaining + 1) depth).differentiate =
      engine.differentiateCall depth (engine.level remaining (depth + 1)) := rfl

end Engine

end Narrowing
