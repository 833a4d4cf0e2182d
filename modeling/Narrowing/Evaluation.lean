import Narrowing.Graph
import Narrowing.Registry
import Narrowing.Specialization

/-
This file evaluates graphs with the implementations of their operations.
-/

namespace Narrowing

/-- The values of some variables. -/
abbrev Environment := List (String × Value)

namespace Environment

/-- The value of a variable. -/
def bound (environment : Environment) (name : String) : Except Fault Value :=
  orFault (environment.lookup name) (.unbound name)

end Environment

namespace Graph

/-- The value of a node: constants and variables have theirs, calls have earlier results. -/
def valueAt (graph : Graph) (leaf : Node → Except Fault Value) (memo : Memo Value)
    (position : Nat) : Except Fault Value :=
  match graph.node position with
  | .call _ _ => orFault (memo.lookup position) .missingPart
  | node => leaf node

/-- The result of the call at a visit joins the results. -/
def foldVisit (graph : Graph) (leaf : Node → Except Fault Value)
    (combine : String → List Value → Except Fault Value) (memo : Memo Value) (visit : Visit) :
    Except Fault (Memo Value) :=
  match graph.call? visit.position with
  | none => .ok memo
  | some call => do
      let values ← call.operands.mapM (graph.valueAt leaf memo)
      .ok ((visit.position, ← combine call.operation values) :: memo)

/-- A value for every call, from the values of its operands. -/
def fold (graph : Graph) (leaf : Node → Except Fault Value)
    (combine : String → List Value → Except Fault Value) : Except Fault Value := do
  let memo ← graph.postorder.foldlM (graph.foldVisit leaf combine) []
  graph.valueAt leaf memo graph.root

end Graph

namespace Registry

/-- Of several values the first one counts. -/
def firstValue (record : Record) (value : Value) : Value :=
  if record.values.isSingle then value
  else
    match value with
    | .tuple (first :: _) => first
    | value => value

/-- The empty tuple has no first value. -/
def primaryValue (record : Record) (value : Value) : Except Fault Value :=
  match record.values.isSingle, value with
  | false, .tuple [] => .error .position
  | _, _ => .ok (firstValue record value)

/-- The value of a call by the implementation of its operation. -/
def applyOperation (registry : Registry) (operation : String) (values : List Value) :
    Except Fault Value := do
  let record ← registry.check operation values.length
  let implementation ← orFault record.implementation (.noImplementation operation)
  primaryValue record (← implementation values)

end Registry

namespace Graph

/-- The value of a leaf. -/
def leafValue (environment : Environment) : Node → Except Fault Value
  | .constant value => .ok value
  | .parameter name => environment.bound name
  | .call operation _ => .error (.noImplementation operation)

/-- The value of the graph with given values of its variables. -/
def evaluate (graph : Graph) (registry : Registry) (environment : Environment) :
    Except Fault Value :=
  graph.fold (leafValue environment) registry.applyOperation

end Graph

end Narrowing
