import Narrowing.Engine
import Narrowing.Graph

/-
This file specializes and differentiates whole graphs, call by call, with operands before callers.
-/

namespace Narrowing

/-- The types that some variables are declared to have. -/
abbrev Declarations := List (String × Ntype)

namespace Graph

/-- The results of earlier calls by position. -/
abbrev Memo (Result : Type) := List (Nat × Result)

/-- The operand that a variable is; a variable without a declaration may be anything. -/
def parameterOperand (declarations : Declarations) (name : String) : Operand :=
  ⟨.parameter name, .single ((declarations.lookup name).getD .universal)⟩

/-- The operand at a position; a constant is made anew each time. -/
def operandAt (graph : Graph) (declarations : Declarations) (memo : Memo Operand)
    (position : Nat) : Traced Operand :=
  match graph.node position with
  | .constant value => Traced.constant value
  | .parameter name => pure (parameterOperand declarations name)
  | .call _ _ => Traced.ofExcept (orFault (memo.lookup position) .missingPart)

/-- The visited calls, unless one of them lies too deep. -/
def checkedVisits (graph : Graph) (engine : Engine) : Except Fault (List Visit) := do
  for visit in graph.postorder do
    if engine.ceiling < visit.depth then
      if let some call := graph.call? visit.position then
        throw (.depth call.operation engine.ceiling)
  return graph.postorder

/-- The specialized call at a visit joins the results. -/
def specializeVisit (graph : Graph) (engine : Engine) (declarations : Declarations)
    (memo : Memo Operand) (visit : Visit) : Traced (Memo Operand) :=
  match graph.call? visit.position with
  | none => pure memo
  | some call => do
      let operands ← call.operands.mapM (graph.operandAt declarations memo)
      let result ← engine.specialize visit.depth call.operation operands
      pure ((visit.position, result) :: memo)

/-- All specialized calls. -/
def specializeAll (graph : Graph) (engine : Engine) (declarations : Declarations) :
    Traced (Memo Operand) := do
  let visits ← Traced.ofExcept (graph.checkedVisits engine)
  visits.foldlM (graph.specializeVisit engine declarations) []

/-- The graph with every call specialized to the narrowest one. -/
def specialize (graph : Graph) (engine : Engine) (declarations : Declarations) :
    Traced Operand := do
  let memo ← graph.specializeAll engine declarations
  graph.operandAt declarations memo graph.root

/-- The node is the variable or depends on it by an earlier result. -/
def mentions (graph : Graph) (name : String) (derivatives : Memo Operand) (position : Nat) : Bool :=
  match graph.node position with
  | .constant _ => false
  | .parameter other => other == name
  | .call _ _ => (derivatives.lookup position).isSome

/-- The derivative of a node: of the variable one, of all that does not depend on it zero. -/
def derivativeAt (graph : Graph) (name : String) (derivatives : Memo Operand) (position : Nat) :
    Traced Operand :=
  match graph.node position with
  | .constant _ => Traced.constant (.integer 0)
  | .parameter other => Traced.constant (.integer (if other = name then 1 else 0))
  | .call _ _ =>
      match derivatives.lookup position with
      | some derivative => pure derivative
      | none => Traced.constant (.integer 0)

/-- The part of a derivative that comes through one operand. -/
def derivativeTerm (graph : Graph) (engine : Engine) (name : String) (derivatives : Memo Operand)
    (depth : Nat) (call : Call) (operands : List Operand) (index : Nat) : Traced Operand := do
  let partialDerivative ← engine.differentiate (depth + 1) call.operation operands index
  let inner ← graph.derivativeAt name derivatives (call.operands.getD index graph.root)
  engine.specialize (depth + 1) "*" [partialDerivative, inner]

/-- The operands of a call that depend on the variable. -/
def dependents (graph : Graph) (name : String) (derivatives : Memo Operand) (call : Call) :
    List Nat :=
  (List.range call.operands.length).filter fun index =>
    graph.mentions name derivatives (call.operands.getD index graph.root)

/-- The derivative of the call at a visit joins the results if the call depends on the variable. -/
def differentiateVisit (graph : Graph) (engine : Engine) (declarations : Declarations)
    (memo : Memo Operand) (name : String) (derivatives : Memo Operand) (visit : Visit) :
    Traced (Memo Operand) :=
  match graph.call? visit.position with
  | none => pure derivatives
  | some call =>
      let indices := graph.dependents name derivatives call
      if indices.isEmpty then pure derivatives
      else do
        let operands ← call.operands.mapM (graph.operandAt declarations memo)
        let terms ← indices.mapM
          (graph.derivativeTerm engine name derivatives visit.depth call operands)
        let sum ←
          match terms with
          | [term] => pure term
          | terms => engine.specialize (visit.depth + 1) "+" terms
        pure ((visit.position, sum) :: derivatives)

/-- The derivative of the graph in a variable, by the chain rule. -/
def differentiate (graph : Graph) (engine : Engine) (declarations : Declarations)
    (name : String) : Traced Operand := do
  let memo ← graph.specializeAll engine declarations
  let _ ← graph.operandAt declarations memo graph.root
  let visits ← Traced.ofExcept (graph.checkedVisits engine)
  let derivatives ← visits.foldlM
    (graph.differentiateVisit engine declarations memo name) []
  graph.derivativeAt name derivatives graph.root

end Graph

end Narrowing
