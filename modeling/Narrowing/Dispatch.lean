import Narrowing.Descriptor.Resolve

/-
This file chooses among branches by the proven type of an operand.
-/

namespace Narrowing

/-- A branch fires when its guard is proven, and a negated branch when it is not. -/
structure Branch (Body : Type) where
  guard : Ntype
  negated : Bool
  body : Body

namespace Branch

variable {Body : Type}

def fires (branch : Branch Body) (ntype : Ntype) : Bool :=
  if branch.negated then !ntype.proves branch.guard else ntype.proves branch.guard

/-- The body of the first branch that fires. -/
def select? (branches : List (Branch Body)) (ntype : Ntype) : Option Body :=
  (branches.find? (·.fires ntype)).map (·.body)

/-- The guarded part of a description, and whether the description negates it. -/
def guardOf : Value → Value × Bool
  | .tuple [.text "not", inner] => (inner, true)
  | value => (value, false)

/-- A branch guarded by a description. -/
def ofDescriptor (value : Value) (body : Body) : Descriptor.Lookup (Branch Body) := do
  let guarded := guardOf value
  let estimate ← Descriptor.ntypeOf guarded.1
  pure ⟨estimate.ntype, guarded.2, body⟩

theorem select?_nil (ntype : Ntype) : select? ([] : List (Branch Body)) ntype = none := rfl

end Branch

end Narrowing
