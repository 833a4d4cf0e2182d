import Narrowing.Datum
import Narrowing.Value.Text

/-
This file holds forms, which call operations on constants and named variables.
-/

namespace Narrowing

/-- A form is a constant, a variable or a call of an operation on operands. -/
inductive Form where
  | constant (value : Value)
  | parameter (name : String)
  | call (operation : String) (operands : List Form)

namespace Form

instance : Inhabited Form := ⟨.constant .missing⟩

/-- What waits in a conversion: a datum that has no form yet, or a call of an operation on as many
operands as were counted. -/
inductive Pending where
  | datum (value : Value)
  | call (operation : String) (count : Nat)

namespace Pending

/-- All items of a list wait, the first one in front. -/
def ofItems (items : List Value) : List Pending := items.map .datum

/-- A bound on the steps of a conversion for one thing that waits in it. -/
noncomputable def steps : Pending → Nat
  | .datum value => 2 * sizeOf value + 1
  | .call _ _ => 1

noncomputable def allSteps : List Pending → Nat
  | [] => 0
  | item :: rest => item.steps + allSteps rest

theorem allSteps_append (pending more : List Pending) :
    allSteps (pending ++ more) = allSteps pending + allSteps more := by
  induction pending with
  | nil => exact (Nat.zero_add _).symm
  | cons item rest inductionHypothesis =>
      rw [List.cons_append, allSteps, allSteps, inductionHypothesis, Nat.add_assoc]

/-- A list takes more steps than its items. -/
theorem allSteps_ofItems (items : List Value) : allSteps (ofItems items) ≤ 2 * sizeOf items := by
  unfold ofItems
  induction items with
  | nil => exact Nat.zero_le _
  | cons item rest inductionHypothesis =>
      simp only [List.map_cons, allSteps, steps, List.cons.sizeOf_spec]
      omega

end Pending

/-- The forms that are built from what waits, the last one first, or the first list that names no
operation. A list waits again behind its items, as a call, and then takes their forms. -/
def build (built : List Form) : List Pending → Except Value (List Form)
  | [] => .ok built
  | .call operation count :: rest =>
      build (.call operation (built.take count).reverse :: built.drop count) rest
  | .datum (.tuple (.text operation :: items)) :: rest =>
      build built (Pending.ofItems items ++ .call operation items.length :: rest)
  | .datum (.tuple items) :: _ => .error (.tuple items)
  | .datum (.text name) :: rest => build (.parameter name :: built) rest
  | .datum value :: rest => build (.constant value :: built) rest
termination_by pending => Pending.allSteps pending
decreasing_by
  all_goals simp only [Pending.allSteps_append, Pending.allSteps, Pending.steps,
    Value.tuple.sizeOf_spec, List.cons.sizeOf_spec]
  · omega
  · have := Pending.allSteps_ofItems items
    omega
  · omega
  · omega

/-- The form of a datum, or the first list that names no operation. -/
def ofDatum (datum : Value) : Except Value Form :=
  (build [] [.datum datum]).map fun built => built.getLast?.getD default

/-- The rejection of a source whose datum is no form covers the whole source. -/
def rejection (source : String) (offender : Value) : Datum.Fault :=
  .rejected ⟨.headlessCall, 0, source.length, [], some offender.written⟩

/-- The form that a source writes. -/
def read (source : String) : Except Datum.Fault Form := do
  (ofDatum (← Datum.read source)).mapError (rejection source)

mutual

/-- The form mentions a variable. -/
def dependsOn (name : String) : Form → Bool
  | .constant _ => false
  | .parameter other => other == name
  | .call _ operands => anyDependsOn name operands

def anyDependsOn (name : String) : List Form → Bool
  | [] => false
  | form :: rest => form.dependsOn name || anyDependsOn name rest

end

theorem anyDependsOn_eq_any (name : String) (forms : List Form) :
    anyDependsOn name forms = forms.any (·.dependsOn name) := by
  induction forms with
  | nil => rfl
  | cons form rest inductionHypothesis => simp [anyDependsOn, inductionHypothesis]

mutual

/-- The text of a form in a message. -/
def written : Form → String
  | .constant value => "Const(value=" ++ value.written ++ ")"
  | .parameter name => "Var(name=" ++ Text.quoted name ++ ")"
  | .call operation operands =>
      "Call(fn=" ++ Text.quoted operation ++ ", args=" ++ tupleText (writtenAll operands) ++ ")"

def writtenAll : List Form → List String
  | [] => []
  | form :: rest => form.written :: writtenAll rest

end

end Form

end Narrowing
