import Narrowing.Proofs.Visits

/-
This file shows that the depth of a visit is the length of the first path to the call, and that
every path through a form without shared parts is a first path.
-/

namespace Narrowing

namespace Graph

/-- A path to a call says which operand to follow in each call around it. -/
inductive Path (nodes : Array Node) : Nat → List Nat → Nat → Prop where
  | here {position : Nat} {operation : String} {operands : List Nat}
      (calls : CallsAt nodes position operation operands) : Path nodes position [] position
  | through {position operand target index : Nat} {operation : String} {operands path : List Nat}
      (calls : CallsAt nodes position operation operands)
      (found : operands[index]? = some operand) (rest : Path nodes operand path target) :
      Path nodes position (index :: path) target

/-- The call at the target is part of the form at a position. -/
def Holds (nodes : Array Node) (position target : Nat) : Prop :=
  ∃ path, Path nodes position path target

/-- The first path to a call follows the first operand, in each call around it, that holds it. -/
inductive FirstPath (nodes : Array Node) : Nat → List Nat → Nat → Prop where
  | here {position : Nat} {operation : String} {operands : List Nat}
      (calls : CallsAt nodes position operation operands) : FirstPath nodes position [] position
  | through {position operand target index : Nat} {operation : String} {operands path : List Nat}
      (calls : CallsAt nodes position operation operands)
      (found : operands[index]? = some operand)
      (first : ∀ other ∈ operands.take index, ¬Holds nodes other target)
      (rest : FirstPath nodes operand path target) :
      FirstPath nodes position (index :: path) target

variable {nodes : Array Node} {position target : Nat} {path : List Nat}

theorem FirstPath.isPath (first : FirstPath nodes position path target) :
    Path nodes position path target := by
  induction first with
  | here calls => exact .here calls
  | through calls found _ _ inductionHypothesis => exact .through calls found inductionHypothesis

theorem Path.exists_callsAt (path : Path nodes position path target) :
    ∃ operation operands, CallsAt nodes position operation operands := by
  cases path with
  | here calls => exact ⟨_, _, calls⟩
  | through calls => exact ⟨_, _, calls⟩

/-- Paths lead to earlier nodes. -/
theorem Path.le (ordered : Ordered nodes) (path : Path nodes position path target) :
    target ≤ position := by
  induction path with
  | here => exact Nat.le_refl _
  | through calls found _ inductionHypothesis =>
      have earlier := calls.operand_lt ordered (List.mem_of_getElem? found)
      omega

/-- A call is part of no operand of its own. -/
theorem not_holds_operand (ordered : Ordered nodes) {operation : String} {operands : List Nat}
    (calls : CallsAt nodes position operation operands) {operand : Nat}
    (member : operand ∈ operands) : ¬Holds nodes operand position := by
  rintro ⟨path, leads⟩
  have := leads.le ordered
  have := calls.operand_lt ordered member
  omega

/-- An operand before the one that a first path follows does not hold the target. -/
theorem not_holds_of_lt {operands : List Nat} {index earlier operand : Nat}
    (first : ∀ other ∈ operands.take index, ¬Holds nodes other target)
    (before : earlier < index) (found : operands[earlier]? = some operand) :
    ¬Holds nodes operand target := by
  refine first operand (List.mem_of_getElem? (i := earlier) ?_)
  rw [List.getElem?_take_of_lt before, found]

/-- There is only one first path to a call. -/
theorem FirstPath.unique (ordered : Ordered nodes) {other : List Nat}
    (first : FirstPath nodes position path target)
    (second : FirstPath nodes position other target) : path = other := by
  induction first generalizing other with
  | here calls =>
      cases second with
      | here => rfl
      | through otherCalls found _ rest =>
          exact absurd ⟨_, rest.isPath⟩
            (not_holds_operand ordered otherCalls (List.mem_of_getElem? found))
  | @through position operand target index operation operands path calls found first rest
      inductionHypothesis =>
      cases second with
      | here =>
          exact absurd ⟨_, rest.isPath⟩
            (not_holds_operand ordered calls (List.mem_of_getElem? found))
      | @through _ follower _ place _ _ _ otherCalls otherFound otherFirst otherRest =>
          have same := Option.some.inj (calls.symm.trans otherCalls)
          cases same
          rcases Nat.lt_trichotomy index place with before | rfl | after
          · exact absurd ⟨_, rest.isPath⟩ (not_holds_of_lt otherFirst before found)
          · cases Option.some.inj (found.symm.trans otherFound)
            rw [inductionHypothesis otherRest]
          · exact absurd ⟨_, otherRest.isPath⟩ (not_holds_of_lt first after otherFound)

/-- All operands of a visited call were visited, wherever the call stands in the list. -/
theorem Closed.operandsVisited {visits : List Visit} (closed : Closed nodes visits)
    (visited : Visited visits position) : OperandsVisited nodes visits position := by
  induction closed with
  | nil =>
      obtain ⟨visit, member, _⟩ := visited
      cases member
  | @cons visit visits _ operandsVisited inductionHypothesis =>
      have earlier : OperandsVisited nodes visits position := by
        obtain ⟨other, member, rfl⟩ := visited
        rcases List.mem_cons.mp member with rfl | before
        · exact operandsVisited
        · exact inductionHypothesis ⟨other, before, rfl⟩
      intro operation operands calls operand among inner further innerCalls
      exact (earlier operation operands calls operand among inner further innerCalls).mono
        (List.subset_cons_self visit visits)

/-- The calls that a visited call holds were visited, too. -/
theorem Path.visited {visits : List Visit} (closed : Closed nodes visits)
    (leads : Path nodes position path target)
    (start : ∀ operation operands, CallsAt nodes position operation operands →
      Visited visits position) : Visited visits target := by
  induction leads with
  | here calls => exact start _ _ calls
  | through calls found _ inductionHypothesis =>
      have operandsVisited := closed.operandsVisited (start _ _ calls)
      exact inductionHypothesis fun operation operands operandCalls =>
        operandsVisited _ _ calls _ (List.mem_of_getElem? found) operation operands operandCalls

/-- What a search from a position adds to closed visits are calls at the ends of first paths. -/
theorem visitFrom_firstPath (ordered : Ordered nodes) (position depth : Nat) (visits : List Visit)
    (closed : Closed nodes visits) : ∀ visit ∈ visitFrom nodes position depth visits,
      visit ∈ visits ∨ ¬Visited visits visit.position ∧
        ∃ path, FirstPath nodes position path visit.position ∧
          visit.depth = depth + path.length := by
  revert closed
  refine search_induction ordered
    (fun position depth visits result => Closed nodes visits → ∀ visit ∈ result,
      visit ∈ visits ∨ ¬Visited visits visit.position ∧
        ∃ path, FirstPath nodes position path visit.position ∧ visit.depth = depth + path.length)
    (fun operands depth visits result => Closed nodes visits → ∀ visit ∈ result,
      visit ∈ visits ∨ ¬Visited visits visit.position ∧ ∃ index operand path,
        operands[index]? = some operand ∧
        (∀ other ∈ operands.take index, ¬Holds nodes other visit.position) ∧
        FirstPath nodes operand path visit.position ∧ visit.depth = depth + path.length)
    ?_ ?_ ?_ ?_ ?_ position depth visits
  · intro position depth visits _ _ visit member
    exact .inl member
  · intro position depth visits result operation operands calls fresh operandsKept closed visit
      member
    rcases List.mem_cons.mp member with rfl | later
    · exact .inr ⟨fresh, [], .here calls, rfl⟩
    · rcases operandsKept closed visit later with old | ⟨unseen, index, operand, path, found,
        first, rest, deep⟩
      · exact .inl old
      · refine .inr ⟨unseen, index :: path, .through calls found first rest, ?_⟩
        rw [deep, List.length_cons]
        omega
  · intro position depth visits _ _ visit member
    exact .inl member
  · intro depth visits _ visit member
    exact .inl member
  · intro operand rest depth visits result operandKept restKept closed visit member
    obtain ⟨middleClosed, subset, reached⟩ := visitFrom_closed ordered operand depth visits closed
    rcases restKept middleClosed visit member with middle | ⟨unseen, index, other, path, found,
      first, leads, deep⟩
    · rcases operandKept closed visit middle with old | ⟨unseen, path, leads, deep⟩
      · exact .inl old
      · exact .inr ⟨unseen, 0, operand, path, rfl, nofun, leads, deep⟩
    · refine .inr ⟨fun seen => unseen (seen.mono subset), index + 1, other, path, found, ?_, leads,
        deep⟩
      rw [List.take_succ_cons, List.forall_mem_cons]
      -- A call that the first operand holds would have been visited before the rest.
      exact ⟨fun ⟨_, within⟩ => unseen (within.visited middleClosed reached), first⟩

variable {graph : Graph}

/-- A call is visited at the depth that is the length of the first path from the root. -/
theorem mem_postorder_iff {visit : Visit} : visit ∈ graph.postorder ↔
    ∃ path, FirstPath graph.nodes graph.root path visit.position ∧ path.length = visit.depth := by
  have found : ∀ visit ∈ graph.postorder, ∃ path,
      FirstPath graph.nodes graph.root path visit.position ∧ path.length = visit.depth := by
    intro visit member
    rcases visitFrom_firstPath graph.ordered graph.root 0 [] .nil visit (mem_postorder.mp member)
      with none | ⟨_, path, first, deep⟩
    · cases none
    · exact ⟨path, first, by rw [deep, Nat.zero_add]⟩
  refine ⟨found visit, ?_⟩
  rintro ⟨path, first, deep⟩
  obtain ⟨other, member, same⟩ : Visited graph.postorder visit.position :=
    (first.isPath.visited (visitFrom_closed graph.ordered graph.root 0 [] .nil).1
      (visitFrom_closed graph.ordered graph.root 0 [] .nil).2.2).mono
        fun _ member => mem_postorder.mpr member
  obtain ⟨otherPath, otherFirst, otherDeep⟩ := found other member
  rw [same] at otherFirst
  have depths : other.depth = visit.depth := by
    rw [← otherDeep, ← deep, otherFirst.unique graph.ordered first]
  obtain ⟨otherPosition, otherDepth⟩ := other
  obtain ⟨position, depth⟩ := visit
  cases same
  cases depths
  exact member

/-- The second nodes start with the first ones. -/
def Extends (first second : Array Node) : Prop :=
  ∀ position, position < first.size → second[position]? = first[position]?

theorem Extends.refl (nodes : Array Node) : Extends nodes nodes := fun _ _ => rfl

theorem Extends.trans {first second third : Array Node} (before : Extends first second)
    (grown : first.size ≤ second.size) (after : Extends second third) : Extends first third := by
  intro position within
  rw [after position (by omega), before position within]

theorem Extends.push (nodes : Array Node) (node : Node) : Extends nodes (nodes.push node) := by
  intro position within
  rw [Array.getElem?_push_lt within, ← Array.getElem?_eq_getElem]

section Extension

variable {first second : Array Node} (ordered : Ordered first) (extended : Extends first second)

include extended in
theorem Extends.callsAt_iff {operation : String} {operands : List Nat}
    (within : position < first.size) :
    CallsAt second position operation operands ↔ CallsAt first position operation operands := by
  unfold CallsAt
  rw [extended position within]

include ordered extended

/-- Later nodes make no new paths from the first ones. -/
theorem Extends.path_iff (within : position < first.size) :
    Path second position path target ↔ Path first position path target := by
  constructor
  · intro leads
    induction leads with
    | here calls => exact .here ((extended.callsAt_iff within).mp calls)
    | through calls found _ inductionHypothesis =>
        have earlier := (extended.callsAt_iff within).mp calls
        have below := earlier.operand_lt ordered (List.mem_of_getElem? found)
        exact .through earlier found (inductionHypothesis (by omega))
  · intro leads
    induction leads with
    | here calls => exact .here ((extended.callsAt_iff within).mpr calls)
    | through calls found _ inductionHypothesis =>
        have below := calls.operand_lt ordered (List.mem_of_getElem? found)
        exact .through ((extended.callsAt_iff within).mpr calls) found
          (inductionHypothesis (by omega))

theorem Extends.holds_iff (within : position < first.size) :
    Holds second position target ↔ Holds first position target :=
  exists_congr fun _ => extended.path_iff ordered within

theorem Extends.firstPath (within : position < first.size)
    (leads : FirstPath first position path target) : FirstPath second position path target := by
  induction leads with
  | here calls => exact .here ((extended.callsAt_iff within).mpr calls)
  | @through position _ _ index _ operands _ calls found before _ inductionHypothesis =>
      have below : ∀ operand ∈ operands, operand < first.size := fun operand member => by
        have := calls.operand_lt ordered member
        omega
      refine .through ((extended.callsAt_iff within).mpr calls) found (fun other member => ?_)
        (inductionHypothesis (below _ (List.mem_of_getElem? found)))
      rw [extended.holds_iff ordered (below other (List.mem_of_mem_take member))]
      exact before other member

end Extension

mutual

theorem place_extends (nodes : Array Node) (ordered : Ordered nodes) : (form : Form) →
    Extends nodes (place nodes ordered form).nodes
  | .constant _ => .push nodes _
  | .parameter _ => .push nodes _
  | .call _ operands =>
      (placeAll_extends nodes ordered operands).trans (placeAll nodes ordered operands).grown
        (.push _ _)

theorem placeAll_extends (nodes : Array Node) (ordered : Ordered nodes) : (forms : List Form) →
    Extends nodes (placeAll nodes ordered forms).nodes
  | [] => .refl nodes
  | form :: rest =>
      (place_extends nodes ordered form).trans (place nodes ordered form).grown
        (placeAll_extends _ _ rest)

end

/-- The last of some nodes is the only one at its position. -/
theorem callsAt_push_iff {nodes : Array Node} {node : Node} {operation : String}
    {operands : List Nat} : CallsAt (nodes.push node) nodes.size operation operands ↔
      node = .call operation operands := by
  unfold CallsAt
  rw [Array.getElem?_push_size, Option.some_inj]

mutual

/-- The calls of a form stand in nodes of its own, and every path to one of them is the first. -/
theorem place_firstPath (nodes : Array Node) (ordered : Ordered nodes) : (form : Form) →
    ∀ path target, Path (place nodes ordered form).nodes (place nodes ordered form).position
        path target → nodes.size ≤ target ∧
      FirstPath (place nodes ordered form).nodes (place nodes ordered form).position path target
  | .constant _ => by
      intro path target leads
      obtain ⟨_, _, calls⟩ := leads.exists_callsAt
      cases callsAt_push_iff.mp calls
  | .parameter _ => by
      intro path target leads
      obtain ⟨_, _, calls⟩ := leads.exists_callsAt
      cases callsAt_push_iff.mp calls
  | .call operation operands => by
      let placed := placeAll nodes ordered operands
      have extended := Extends.push placed.nodes (.call operation placed.positions)
      intro path target leads
      cases leads with
      | here calls => exact ⟨placed.grown, .here calls⟩
      | through calls found rest =>
          cases callsAt_push_iff.mp calls
          have within := placed.within _ (List.mem_of_getElem? found)
          obtain ⟨own, first, others⟩ := placeAll_firstPath nodes ordered operands _ _ _ _ found
            ((extended.path_iff placed.ordered within).mp rest)
          refine ⟨own, .through calls found (fun other member inside => ?_)
            (extended.firstPath placed.ordered within first)⟩
          have earlier := placed.within other (List.mem_of_mem_take member)
          exact others other member ((extended.holds_iff placed.ordered earlier).mp inside)

theorem placeAll_firstPath (nodes : Array Node) (ordered : Ordered nodes) : (forms : List Form) →
    ∀ index operand path target, (placeAll nodes ordered forms).positions[index]? = some operand →
      Path (placeAll nodes ordered forms).nodes operand path target → nodes.size ≤ target ∧
      FirstPath (placeAll nodes ordered forms).nodes operand path target ∧
      ∀ other ∈ (placeAll nodes ordered forms).positions.take index,
        ¬Holds (placeAll nodes ordered forms).nodes other target
  | [] => nofun
  | form :: rest => by
      let first := place nodes ordered form
      let others := placeAll first.nodes first.ordered rest
      have extended : Extends first.nodes others.nodes := placeAll_extends _ _ rest
      intro index operand path target found leads
      cases index with
      | zero =>
          cases found
          obtain ⟨own, isFirst⟩ := place_firstPath nodes ordered form path target
            ((extended.path_iff first.ordered first.within).mp leads)
          exact ⟨own, extended.firstPath first.ordered first.within isFirst, nofun⟩
      | succ index =>
          obtain ⟨own, isFirst, apart⟩ :=
            placeAll_firstPath first.nodes first.ordered rest index operand path target found leads
          refine ⟨Nat.le_trans first.grown own, isFirst, ?_⟩
          refine List.forall_mem_cons.mpr ⟨?_, apart⟩
          -- The nodes of the other forms come after those of the first form.
          rintro ⟨other, within⟩
          have below : target ≤ first.position := within.le others.ordered
          have := first.within
          omega

end

/-- Every path through a form without shared parts is a first path. -/
theorem firstPath_ofForm_iff {form : Form} : FirstPath (ofForm form).nodes (ofForm form).root path
    target ↔ Path (ofForm form).nodes (ofForm form).root path target :=
  ⟨FirstPath.isPath, fun leads => (place_firstPath #[] Ordered.empty form path target leads).2⟩

end Graph

end Narrowing
