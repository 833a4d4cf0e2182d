import Narrowing.Descriptor.Resolve

/-
This file finds the elements of arrays and the parts of complex numbers.
-/

namespace Narrowing

namespace Ntype

/-- The type of the elements of an array class. -/
def arrayElement (ntype : Ntype) : Estimate :=
  match ntype.cover with
  | .arrayOf storage => ⟨.primitive storage.element, true⟩
  | _ => ⟨.universal, false⟩

/-- The type of the parts of a complex class. -/
def complexPart (ntype : Ntype) : Estimate :=
  match ntype.cover with
  | .complexSingle => ⟨.primitive .singleFloat, true⟩
  | .complexDouble => ⟨.primitive .doubleFloat, true⟩
  | cover =>
      if cover.subtype .complex then ⟨.primitive .float, false⟩ else ⟨.universal, false⟩

end Ntype

namespace Descriptor

/-- The type of the elements that a device array keeps for described elements. -/
def upgradedElement (value : Value) : Lookup Estimate := do
  let element ← ntypeOf value
  let storage ← storageFor element.ntype storageOrder
  pure ⟨.primitive storage.onDevice.element, element.precise⟩

/-- The type of the parts that a device array keeps for complex numbers of described parts. -/
def upgradedPart (value : Value) : Lookup Estimate := do
  let part ← ntypeOf value
  let stored (storage : Storage) : Estimate :=
    ⟨(Ntype.complexPart (.primitive storage.onDevice.element)).ntype, part.precise⟩
  match part.ntype.complexOfPart with
  | .complexSingle => pure (stored .complexSingle)
  | .complexDouble => pure (stored .complexDouble)
  | _ => pure ⟨.primitive .real, part.precise⟩

end Descriptor

end Narrowing
