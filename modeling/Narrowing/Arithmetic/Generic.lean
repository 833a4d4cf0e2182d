import Narrowing.Arithmetic.Operation

/-
This file computes the generic operations, which find the tier of their operands themselves.
-/

namespace Narrowing

namespace Generic

/-- The tier of a number. -/
def tier (value : Value) : Except Fault Tier := orFault value.tier? (.notNumber value)

/-- An operation on two numbers in the tier where they meet; integers divide as fractions. -/
def binary (operation : Operation) (first second : Value) : Except Fault Value := do
  let met := (← tier first).combine (← tier second)
  let chosen := if operation = .div ∧ met = .integer then .rational else met
  if !chosen.offers operation then .error (.undefinedOn operation.name chosen)
  else chosen.binary operation (← first.toTier chosen) (← second.toTier chosen)

/-- Negations and sizes keep their tier; irrational functions of exact numbers do not. -/
def keepsTier : Operation → Bool
  | .neg | .abs => true
  | _ => false

/-- An operation on one number. -/
def unary (operation : Operation) (value : Value) : Except Fault Value := do
  let own ← tier value
  let chosen := if keepsTier operation then own else own.floatFor
  chosen.unary operation (← value.toTier chosen)

/-- The operands combine from the left. -/
def fold (operation : Operation) (first : Value) (rest : List Value) : Except Fault Value :=
  rest.foldlM (binary operation) first

theorem fold_nil (operation : Operation) (first : Value) : fold operation first [] = .ok first :=
  rfl

theorem fold_cons (operation : Operation) (first second : Value) (rest : List Value) :
    fold operation first (second :: rest) =
      (binary operation first second >>= fun result => fold operation result rest) := rfl

def add (operands : List Value) : Except Fault Value := fold .add (.integer 0) operands

def mul (operands : List Value) : Except Fault Value := fold .mul (.integer 1) operands

/-- One operand is negated. -/
def sub : List Value → Except Fault Value
  | [] => .error .operand
  | [value] => unary .neg value
  | first :: rest => fold .sub first rest

/-- One operand is inverted. -/
def div : List Value → Except Fault Value
  | [] => .error .operand
  | [value] => binary .div (.integer 1) value
  | first :: rest => fold .div first rest

/-- Exact bases with integral exponents have exact powers. -/
def power (base exponent : Value) : Except Fault Value := do
  let baseTier ← tier base
  let exponentTier ← tier exponent
  if baseTier.isExact && exponentTier = .integer then
    let count ← exponent.toInteger
    if baseTier = .integer ∧ 0 ≤ count then
      Tier.Exact.integerPower (.integer (← base.toInteger)) (.integer count)
    else Tier.Rational.power base (.integer count)
  else
    let met := baseTier.combine exponentTier
    let chosen := if met.isExact then .float64 else met
    chosen.binary .expt (← base.toTier chosen) (← exponent.toTier chosen)

def expt : List Value → Except Fault Value
  | [base, exponent] => power base exponent
  | _ => .error .operand

/-- A quotient with a word among its operands is a word. -/
def wordQuotient (first second : Value) (quotient : Int) : Except Fault Value :=
  let word (kind : WordKind) : Value := .scalar (.word (Word.wrap kind quotient))
  let fitting (kind : WordKind) (other : Value) : Except Fault Value :=
    match other with
    | .integer value => do
        let _ ← orFault (Word.ofInt? kind value) .overflow
        .ok (word kind)
    | _ => .ok (word kind)
  match first.scalar?, second.scalar? with
  | some (.word left), some (.word right) =>
      .ok (word ((left.kind.join? right.kind).getD .int64))
  | some (.word left), _ => fitting left.kind second
  | _, some (.word right) => fitting right.kind first
  | _, _ => .ok (.integer quotient)

/-- The floor of an exact quotient, and the rest that is left. -/
def exactFloor (first second : Value) : Except Fault Value := do
  let top ← first.toRat
  let bottom ← second.toRat
  if bottom = 0 then .error .zeroDivision
  else
    let quotient := (top / bottom).floor
    .ok (.tuple [← wordQuotient first second quotient, .ofRat (top - quotient * bottom)])

/-- The floor of a quotient of doubles, and the rest in the tier of the operands. -/
def doubleFloor (tier : Tier) (first second : Value) : Except Fault Value := do
  let top ← first.toDouble
  let bottom ← second.toDouble
  if bottom == 0.0 then .error .zeroDivision
  else
    let ratio := top / bottom
    if ratio.isNaN then .error .domain
    else
      let quotient ← orFault (Double.floor? ratio) .overflow
      let whole ← orFault (Double.ofInt? quotient) .overflow
      .ok (.tuple [.integer quotient, ← (Value.double (top - whole * bottom)).toTier tier])

/-- The floor of a quotient of real numbers. -/
def floorQuotient (first second : Value) : Except Fault Value := do
  let met := (← tier first).combine (← tier second)
  if met.isComplex then .error .complexFloor
  else if met.isExact then exactFloor first second
  else doubleFloor met first second

def floor : List Value → Except Fault Value
  | [value] => floorQuotient value (.integer 1)
  | [first, second] => floorQuotient first second
  | _ => .error .operand

/-- A function of one number. -/
def ofUnary (operation : Operation) : List Value → Except Fault Value
  | [value] => unary operation value
  | _ => .error .operand

/-- A test of two numbers. -/
def ofBinary (operation : Operation) : List Value → Except Fault Value
  | [first, second] => binary operation first second
  | _ => .error .operand

/-- A number in the representation of a tier; complex numbers keep both parts. -/
def coerce (target : Tier) : List Value → Except Fault Value
  | [value] => do
      let source ← tier value
      if source.isComplex && !target.isComplex then .error (.complexCoercion value target)
      else value.toTier target
  | _ => .error .operand

end Generic

end Narrowing
