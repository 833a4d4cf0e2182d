import Narrowing.Proofs.Outcomes

/-
This file gives the answer of a plan, request by request, in terms of the operands behind handles.
-/

namespace Narrowing

namespace Engine

/-- The operand that a plan answers with, when some operands are known. -/
def answer (engine : Engine) (depth : Nat) (below : Level) (plan : Plan (Option Handle))
    (known : List Operand) : Traced (Option Operand) := do
  let (result, known) ← engine.runPlan depth below plan known
  match result with
  | none => pure none
  | some handle => do
      return some (← Traced.ofExcept (orFault known[handle]? .missingPart))

variable {engine : Engine} {depth : Nat} {below : Level} {known : List Operand}

theorem follow_eq_answer (plan : List Handle → Plan (Option Handle)) (operands : List Operand) :
    engine.follow depth below plan operands =
      engine.answer depth below (plan (List.range operands.length)) operands := rfl

theorem answer_none : engine.answer depth below (.done none) known = pure none := rfl

theorem answer_some {handle : Handle} {operand : Operand}
    (present : known[handle]? = some operand) :
    engine.answer depth below (.done (some handle)) known = pure (some operand) := by
  simp only [answer, runPlan, pure_bind, present, orFault]
  rfl

theorem answer_fail (fault : Fault) :
    engine.answer depth below (.fail fault) known = throw fault := rfl

theorem answer_constant (value : Value) (next : Handle → Plan (Option Handle)) :
    engine.answer depth below (.constant value next) known =
      Traced.constant value >>= fun made =>
        engine.answer depth below (next known.length) (known ++ [made]) := by
  simp only [answer, runPlan, bind_assoc]

theorem answer_call {operation : String} {handles : List Handle} {operands : List Operand}
    (present : operandsOf known handles = .ok operands) (next : Handle → Plan (Option Handle)) :
    engine.answer depth below (.call operation handles next) known =
      below.specialize operation operands >>= fun made =>
        engine.answer depth below (next known.length) (known ++ [made]) := by
  simp only [answer, runPlan, bind_assoc, present]
  rfl

theorem answer_ntype {handle : Handle} {operand : Operand}
    (present : known[handle]? = some operand) (next : Ntype → Plan (Option Handle)) :
    engine.answer depth below (.ntype handle next) known =
      engine.answer depth below (next operand.ntype) known := by
  simp only [answer, runPlan, bind_assoc, present]
  rfl

theorem answer_registered (operation : String) (next : Bool → Plan (Option Handle)) :
    engine.answer depth below (.registered operation next) known =
      engine.answer depth below (next (engine.registry.contains operation)) known := rfl

/-- Handles that name operands one by one name them together. -/
theorem operandsOf_cons {handle : Handle} {handles : List Handle} {operand : Operand}
    {operands : List Operand} (first : known[handle]? = some operand)
    (rest : operandsOf known handles = .ok operands) :
    operandsOf known (handle :: handles) = .ok (operand :: operands) := by
  simp only [operandsOf, List.mapM_cons, first, orFault] at rest ⊢
  rw [rest]
  rfl

theorem operandsOf_pair {first second : Handle} {left right : Operand}
    (firstPresent : known[first]? = some left) (secondPresent : known[second]? = some right) :
    operandsOf known [first, second] = .ok [left, right] :=
  operandsOf_cons firstPresent (operandsOf_cons secondPresent rfl)

theorem operandsOf_cons_inv {handle : Handle} {handles : List Handle} {operands : List Operand}
    (present : operandsOf known (handle :: handles) = .ok operands) :
    ∃ operand others, operands = operand :: others ∧ known[handle]? = some operand ∧
      operandsOf known handles = .ok others := by
  simp only [operandsOf, List.mapM_cons] at present ⊢
  cases first : known[handle]? with
  | none =>
      rw [first] at present
      cases present
  | some operand =>
      cases rest : handles.mapM fun handle => orFault known[handle]? .missingPart with
      | error fault =>
          rw [first, rest] at present
          cases present
      | ok others =>
          rw [first, rest] at present
          exact ⟨operand, others, (Except.ok.inj present).symm, rfl, rfl⟩

/-- A new operand does not disturb the known ones. -/
theorem operandsOf_append {handles : List Handle} {operands : List Operand}
    (present : operandsOf known handles = .ok operands) (later : List Operand) :
    operandsOf (known ++ later) handles = .ok operands := by
  induction handles generalizing operands with
  | nil => exact present
  | cons handle handles inductionHypothesis =>
      obtain ⟨operand, others, rfl, first, rest⟩ := operandsOf_cons_inv present
      refine operandsOf_cons ?_ (inductionHypothesis rest)
      rw [List.getElem?_append_left (List.getElem?_eq_some_iff.mp first).1, first]

/-- The handles of all operands in order. -/
theorem operandsOf_range (operands : List Operand) :
    operandsOf operands (List.range operands.length) = .ok operands := by
  suffices shifted : ∀ (later before : List Operand),
      operandsOf (before ++ later) (List.range' before.length later.length) = .ok later by
    have whole := shifted operands []
    rwa [List.nil_append, List.length_nil, ← List.range_eq_range'] at whole
  intro later
  induction later with
  | nil => intro before; rfl
  | cons operand later inductionHypothesis =>
      intro before
      rw [List.length_cons, List.range'_succ]
      refine operandsOf_cons (by simp) ?_
      have rest := inductionHypothesis (before ++ [operand])
      rwa [List.append_assoc, List.length_append, List.singleton_append] at rest

theorem answer_proves {handle : Handle} {operand : Operand} {type : Ntype}
    (present : known[handle]? = some operand) (next : Bool → Plan (Option Handle)) :
    engine.answer depth below (Plan.proves handle type >>= next) known =
      engine.answer depth below (next (operand.ntype.proves type)) known :=
  answer_ntype present fun own => next (own.proves type)

theorem answer_typeOf {handle : Handle} {operand : Operand}
    (present : known[handle]? = some operand) (next : Ntype → Plan (Option Handle)) :
    engine.answer depth below (Plan.typeOf handle >>= next) known =
      engine.answer depth below (next operand.ntype) known := answer_ntype present next

theorem answer_isInteger {handle : Handle} {operand : Operand} {number : Int}
    (present : known[handle]? = some operand) (next : Bool → Plan (Option Handle)) :
    engine.answer depth below (Plan.isInteger number handle >>= next) known =
      engine.answer depth below
        (next (Plan.holdsExact (Plan.equalsInteger number) operand.ntype)) known :=
  answer_ntype present fun type => next (Plan.holdsExact (Plan.equalsInteger number) type)

theorem answer_ofConstant (value : Value) (next : Handle → Plan (Option Handle)) :
    engine.answer depth below (Plan.ofConstant value >>= next) known =
      Traced.constant value >>= fun made =>
        engine.answer depth below (next known.length) (known ++ [made]) :=
  answer_constant value next

theorem answer_ofCall {operation : String} {handles : List Handle} {operands : List Operand}
    (present : operandsOf known handles = .ok operands) (next : Handle → Plan (Option Handle)) :
    engine.answer depth below (Plan.ofCall operation handles >>= next) known =
      below.specialize operation operands >>= fun made =>
        engine.answer depth below (next known.length) (known ++ [made]) :=
  answer_call present next

/-- A plan that ends with a literal. -/
theorem answer_some_ofConstant (value : Value) :
    engine.answer depth below (some <$> Plan.ofConstant value) known =
      some <$> Traced.constant value := by
  refine (answer_constant value fun handle => .done (some handle)).trans ?_
  rw [map_eq_pure_bind]
  refine bind_congr fun made => answer_some ?_
  simp

/-- A plan that ends with a call. -/
theorem answer_some_ofCall {operation : String} {handles : List Handle} {operands : List Operand}
    (present : operandsOf known handles = .ok operands) :
    engine.answer depth below (some <$> Plan.ofCall operation handles) known =
      some <$> below.specialize operation operands := by
  refine (answer_call present fun handle => .done (some handle)).trans ?_
  rw [map_eq_pure_bind]
  refine bind_congr fun made => answer_some ?_
  simp

end Engine

end Narrowing
