import Narrowing.Fault
import Narrowing.ValuesNtype

/-
This file holds plans, the finite programs by which a rule rewrites one call.
-/

namespace Narrowing

/-- A handle names an operand; a plan sees the type of an operand and nothing else of it. -/
abbrev Handle := Nat

/-- A plan asks for operands and calls, and continues with each answer. -/
inductive Plan (Result : Type) where
  | done (result : Result)
  | fail (fault : Fault)
  | constant (value : Value) (next : Handle → Plan Result)
  | call (operation : String) (operands : List Handle) (next : Handle → Plan Result)
  | emit (operation : String) (operands : List Handle) (values : Option ValuesNtype)
      (next : Handle → Plan Result)
  | differentiate (operation : String) (operands : List Handle) (index : Int)
      (next : Option Handle → Plan Result)
  | ntype (operand : Handle) (next : Ntype → Plan Result)
  | literal (operand : Handle) (next : Value → Plan Result)
  | depth (next : Nat → Plan Result)
  | registered (operation : String) (next : Bool → Plan Result)

namespace Plan

variable {First Second : Type}

/-- The second plan continues with the result of the first. -/
def bind (plan : Plan First) (next : First → Plan Second) : Plan Second :=
  match plan with
  | done result => next result
  | fail fault => fail fault
  | constant value rest => constant value fun handle => (rest handle).bind next
  | call operation operands rest => call operation operands fun handle => (rest handle).bind next
  | emit operation operands values rest =>
      emit operation operands values fun handle => (rest handle).bind next
  | differentiate operation operands index rest =>
      differentiate operation operands index fun handle => (rest handle).bind next
  | ntype operand rest => ntype operand fun type => (rest type).bind next
  | literal operand rest => literal operand fun value => (rest value).bind next
  | depth rest => depth fun count => (rest count).bind next
  | registered operation rest => registered operation fun present => (rest present).bind next

instance : Monad Plan where
  pure := done
  bind := bind

theorem pure_bind (result : First) (next : First → Plan Second) :
    (done result).bind next = next result := rfl

theorem bind_done (plan : Plan First) : plan.bind done = plan := by
  induction plan with
  | done result => rfl
  | fail fault => rfl
  | constant value rest inductionHypothesis =>
      simp only [bind]
      exact congrArg _ (funext inductionHypothesis)
  | call operation operands rest inductionHypothesis =>
      simp only [bind]
      exact congrArg _ (funext inductionHypothesis)
  | emit operation operands values rest inductionHypothesis =>
      simp only [bind]
      exact congrArg _ (funext inductionHypothesis)
  | differentiate operation operands index rest inductionHypothesis =>
      simp only [bind]
      exact congrArg _ (funext inductionHypothesis)
  | ntype operand rest inductionHypothesis =>
      simp only [bind]
      exact congrArg _ (funext inductionHypothesis)
  | literal operand rest inductionHypothesis =>
      simp only [bind]
      exact congrArg _ (funext inductionHypothesis)
  | depth rest inductionHypothesis =>
      simp only [bind]
      exact congrArg _ (funext inductionHypothesis)
  | registered operation rest inductionHypothesis =>
      simp only [bind]
      exact congrArg _ (funext inductionHypothesis)

/-- A literal as an operand. -/
def ofConstant (value : Value) : Plan Handle := constant value done

/-- The operand that a call specializes to. -/
def ofCall (operation : String) (operands : List Handle) : Plan Handle :=
  call operation operands done

/-- The type of the first value of an operand. -/
def typeOf (operand : Handle) : Plan Ntype := ntype operand done

/-- The operand is one known value. -/
def isConstant (operand : Handle) : Plan Bool := ntype operand fun type => done type.isConstant

/-- A type holds one exact number, and the test accepts it. -/
def holdsExact (test : Value → Bool) (type : Ntype) : Bool :=
  match type.constant? with
  | some (.integer value) => test (.integer value)
  | some (.ratio value) => test (.ratio value)
  | _ => false

/-- The operand is one exact number that equals a given value. -/
def isExactly (test : Value → Bool) (operand : Handle) : Plan Bool :=
  ntype operand fun type => done (holdsExact test type)

/-- An exact number of either form equals an integer. -/
def equalsInteger (number : Int) : Value → Bool
  | .integer value => value == number
  | .ratio value => value == (number : Rat)
  | _ => false

/-- The operand is the exact literal of an integer. -/
def isInteger (number : Int) (operand : Handle) : Plan Bool :=
  isExactly (equalsInteger number) operand

/-- The type of the operand is proven to lie in another type. -/
def proves (operand : Handle) (type : Ntype) : Plan Bool :=
  ntype operand fun own => done (own.proves type)

/-- An operand outside a type is converted by an operation. -/
def coerce (operand : Handle) (target : Ntype) (operation : String) : Plan Handle :=
  ntype operand fun own =>
    if own.proves target then done operand else ofCall operation [operand]

end Plan

/-- A rule for a call gives an operand, or nothing when it gives up. -/
abbrev SpecializationRule := List Handle → Plan (Option Handle)

/-- A rule for the derivative in one operand. -/
abbrev DerivativeRule := Nat → List Handle → Plan (Option Handle)

end Narrowing
