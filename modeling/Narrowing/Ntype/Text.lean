import Narrowing.Ntype
import Narrowing.Value.Text

/-
This file names types by descriptors and by texts.
-/

namespace Narrowing.Ntype

/-- A descriptor that describes the type. -/
def descriptor : Ntype → Value
  | .primitive value => value.descriptor
  | .singleton value => .tuple [.text "eql", value]

/-- A type as a value, which may stand for itself in a descriptor. -/
def toValue : Ntype → Value
  | .primitive value => .primitive value
  | .singleton value => .singleton value

def written (ntype : Ntype) : String := ntype.toValue.written

end Narrowing.Ntype
