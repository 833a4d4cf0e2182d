import Narrowing.Specialization

/-
This file shows that the walk of a graph with a stack visits what a search by recursion visits, in
the same order.
-/

namespace Narrowing

namespace Graph

mutual

/-- The calls at and below a node that were not visited before, the last one first. -/
def visitFrom (nodes : Array Node) (position depth : Nat) (visits : List Visit) : List Visit :=
  match nodes[position]? with
  | some (.call _ operands) =>
      if visits.any (·.position == position) then visits
      else ⟨position, depth⟩ :: visitAll nodes position operands (depth + 1) visits
  | _ => visits
termination_by (2 * position + 1, 0)

/-- The calls below some operands of the node at the bound. -/
def visitAll (nodes : Array Node) (bound : Nat) (operands : List Nat) (depth : Nat)
    (visits : List Visit) : List Visit :=
  match operands with
  | [] => visits
  | operand :: rest =>
      if operand < bound then
        visitAll nodes bound rest depth (visitFrom nodes operand depth visits)
      else visitAll nodes bound rest depth visits
termination_by (2 * bound, operands.length)

end

/-- The node at a position is a call of an operation on operands. -/
def CallsAt (nodes : Array Node) (position : Nat) (operation : String) (operands : List Nat) :
    Prop := nodes[position]? = some (.call operation operands)

/-- Some visit is at the position. -/
def Visited (visits : List Visit) (position : Nat) : Prop :=
  ∃ visit ∈ visits, visit.position = position

theorem Visited.mono {first second : List Visit} {position : Nat}
    (visited : Visited first position) (subset : first ⊆ second) : Visited second position := by
  obtain ⟨visit, member, same⟩ := visited
  exact ⟨visit, subset member, same⟩

theorem visited_cons_iff {visit : Visit} {visits : List Visit} {position : Nat} :
    Visited (visit :: visits) position ↔ visit.position = position ∨ Visited visits position := by
  simp [Visited]

theorem any_position_iff {visits : List Visit} {position : Nat} :
    visits.any (·.position == position) = true ↔ Visited visits position := by
  simp [Visited]

variable {nodes : Array Node}

theorem CallsAt.operand_lt {position operand : Nat} {operation : String} {operands : List Nat}
    (calls : CallsAt nodes position operation operands) (ordered : Ordered nodes)
    (member : operand ∈ operands) : operand < position := by
  obtain ⟨within, same⟩ := Array.getElem?_eq_some_iff.mp calls
  exact ordered position within operand (by rwa [same])

theorem visitFrom_seen {position depth : Nat} {visits : List Visit}
    (seen : Visited visits position) : visitFrom nodes position depth visits = visits := by
  rw [visitFrom]
  split
  · rw [if_pos (any_position_iff.mpr seen)]
  · rfl

theorem visitFrom_fresh {position depth : Nat} {visits : List Visit} {operation : String}
    {operands : List Nat} (calls : CallsAt nodes position operation operands)
    (fresh : ¬Visited visits position) :
    visitFrom nodes position depth visits =
      ⟨position, depth⟩ :: visitAll nodes position operands (depth + 1) visits := by
  rw [visitFrom, show nodes[position]? = some (.call operation operands) from calls]
  exact if_neg fun seen => fresh (any_position_iff.mp seen)

theorem visitFrom_leaf {position depth : Nat} {visits : List Visit}
    (leaf : ∀ operation operands, ¬CallsAt nodes position operation operands) :
    visitFrom nodes position depth visits = visits := by
  rw [visitFrom]
  split
  · rename_i operation operands found
    exact absurd found (leaf operation operands)
  · rfl

theorem visitAll_nil {bound depth : Nat} {visits : List Visit} :
    visitAll nodes bound [] depth visits = visits := by rw [visitAll]

theorem visitAll_cons {bound operand depth : Nat} {rest : List Nat} {visits : List Visit}
    (earlier : operand < bound) :
    visitAll nodes bound (operand :: rest) depth visits =
      visitAll nodes bound rest depth (visitFrom nodes operand depth visits) := by
  rw [visitAll, if_pos earlier]

/-- What a search from a call adds comes from searches from its operands, one after another. -/
theorem search_induction (ordered : Ordered nodes)
    (kept : Nat → Nat → List Visit → List Visit → Prop)
    (keptAll : List Nat → Nat → List Visit → List Visit → Prop)
    (seen : ∀ position depth visits, Visited visits position → kept position depth visits visits)
    (fresh : ∀ position depth visits result operation operands,
      CallsAt nodes position operation operands → ¬Visited visits position →
      keptAll operands (depth + 1) visits result →
      kept position depth visits (⟨position, depth⟩ :: result))
    (leaf : ∀ position depth visits,
      (∀ operation operands, ¬CallsAt nodes position operation operands) →
      kept position depth visits visits)
    (nil : ∀ depth visits, keptAll [] depth visits visits)
    (cons : ∀ operand rest depth visits result,
      kept operand depth visits (visitFrom nodes operand depth visits) →
      keptAll rest depth (visitFrom nodes operand depth visits) result →
      keptAll (operand :: rest) depth visits result)
    (position depth : Nat) (visits : List Visit) :
    kept position depth visits (visitFrom nodes position depth visits) := by
  refine visitFrom.induct nodes
    (fun position depth visits =>
      kept position depth visits (visitFrom nodes position depth visits))
    (fun bound operands depth visits => (∀ operand ∈ operands, operand < bound) →
      keptAll operands depth visits (visitAll nodes bound operands depth visits))
    ?_ ?_ ?_ ?_ ?_ ?_ position depth visits
  · intro position depth visits operation operands calls present
    rw [visitFrom_seen (any_position_iff.mp present)]
    exact seen position depth visits (any_position_iff.mp present)
  · intro position depth visits operation operands calls absent inductionHypothesis
    have unseen : ¬Visited visits position := fun seen => absent (any_position_iff.mpr seen)
    rw [visitFrom_fresh calls unseen]
    exact fresh position depth visits _ operation operands calls unseen
      (inductionHypothesis fun _ => CallsAt.operand_lt calls ordered)
  · intro position depth visits noCall
    rw [visitFrom_leaf noCall]
    exact leaf position depth visits noCall
  · intro bound depth visits bounded
    rw [visitAll_nil]
    exact nil depth visits
  · intro bound depth visits operand rest earlier first others bounded
    rw [visitAll_cons earlier]
    exact cons operand rest depth visits _ first
      (others fun later member => bounded later (List.mem_cons_of_mem operand member))
  · intro bound depth visits operand rest later others bounded
    exact absurd (bounded operand List.mem_cons_self) later

/-- A search keeps earlier visits. -/
theorem visitFrom_subset (ordered : Ordered nodes) (position depth : Nat) (visits : List Visit) :
    visits ⊆ visitFrom nodes position depth visits := by
  refine search_induction ordered (fun _ _ visits result => visits ⊆ result)
    (fun _ _ visits result => visits ⊆ result) ?_ ?_ ?_ ?_ ?_ position depth visits
  · exact fun _ _ visits _ => List.Subset.refl visits
  · exact fun _ _ _ _ _ _ _ _ subset => List.Subset.trans subset (List.subset_cons_self _ _)
  · exact fun _ _ visits _ => List.Subset.refl visits
  · exact fun _ visits => List.Subset.refl visits
  · exact fun _ _ _ _ _ first others => List.Subset.trans first others

section Walk

variable {seen : List Nat} {visits : List Visit} {pending : List Pending} {position depth : Nat}
  {operation : String} {operands : List Nat}

theorem walk_leaf {isReady : Bool}
    (leaf : ∀ operation operands, ¬CallsAt nodes position operation operands) :
    walk nodes seen visits (⟨position, depth, isReady⟩ :: pending) =
      walk nodes seen visits pending := by
  rw [walk]
  split
  · rename_i operation operands found
    exact absurd found (leaf operation operands)
  · rfl

theorem walk_ready (calls : CallsAt nodes position operation operands) :
    walk nodes seen visits (⟨position, depth, true⟩ :: pending) =
      walk nodes seen (⟨position, depth⟩ :: visits) pending := by
  rw [walk]
  split
  · rw [if_pos rfl]
  · rename_i noCall
    exact absurd calls (noCall operation operands)

theorem walk_seen (member : position ∈ seen) :
    walk nodes seen visits (⟨position, depth, false⟩ :: pending) =
      walk nodes seen visits pending := by
  rw [walk]
  split
  · rw [if_neg Bool.false_ne_true, dif_pos (List.contains_iff_mem.mpr member)]
  · rfl

theorem walk_fresh (calls : CallsAt nodes position operation operands)
    (fresh : position ∉ seen) :
    walk nodes seen visits (⟨position, depth, false⟩ :: pending) =
      walk nodes (position :: seen) visits
        (operands.map (⟨·, depth + 1, false⟩) ++ ⟨position, depth, true⟩ :: pending) := by
  rw [walk]
  split
  · rename_i found
    cases Option.some.inj (calls.symm.trans found)
    rw [if_neg Bool.false_ne_true, dif_neg (fun member => fresh (List.contains_iff_mem.mp member))]
  · rename_i noCall
    exact absurd calls (noCall operation operands)

/-- A walk has seen the visited positions and, below a bound, no other ones; a call that waits for
its operands is seen and not visited, and lies above them. -/
structure Sees (bound : Nat) (visits : List Visit) (seen : List Nat) : Prop where
  visited : ∀ position, Visited visits position → position ∈ seen
  below : ∀ position < bound, position ∈ seen → Visited visits position

/-- A walk through some waiting nodes turns the visits into a result, whatever waits behind them. -/
def Leads (nodes : Array Node) (bound : Nat) (visits : List Visit) (waiting : List Pending)
    (result : List Visit) : Prop :=
  ∀ seen, Sees bound visits seen → ∀ pending, ∃ further,
    (∀ position, position ∈ further ↔ position ∈ seen ∨ Visited result position) ∧
      walk nodes seen visits (waiting ++ pending) = walk nodes further result pending

/-- A walk that has nothing to visit has seen no more than before. -/
theorem leads_unchanged {bound : Nat} {waiting : List Pending}
    (walked : ∀ seen, Sees bound visits seen → ∀ pending,
      walk nodes seen visits (waiting ++ pending) = walk nodes seen visits pending) :
    Leads nodes bound visits waiting visits :=
  fun seen sees pending => ⟨seen, fun position =>
    (or_iff_left_of_imp (sees.visited position)).symm, walked seen sees pending⟩

/-- A walk from a position finds what a search from it finds. -/
theorem leads_visitFrom (ordered : Ordered nodes) (position depth : Nat) (visits : List Visit) :
    Leads nodes (position + 1) visits [⟨position, depth, false⟩]
      (visitFrom nodes position depth visits) := by
  refine search_induction ordered
    (fun position depth visits result =>
      Leads nodes (position + 1) visits [⟨position, depth, false⟩] result)
    (fun operands depth visits result => visits ⊆ result ∧ ∀ bound,
      (∀ operand ∈ operands, operand < bound) →
        Leads nodes bound visits (operands.map (⟨·, depth, false⟩)) result)
    ?_ ?_ ?_ ?_ ?_ position depth visits
  · intro position depth visits visited
    exact leads_unchanged fun seen sees pending => walk_seen (sees.visited position visited)
  · rintro position depth visits result operation operands calls fresh ⟨_, operandsKept⟩ seen sees
      pending
    have unseen : position ∉ seen := fun member =>
      fresh (sees.below position (Nat.lt_succ_self position) member)
    have inner : Sees position visits (position :: seen) := by
      refine ⟨fun other visited => List.mem_cons_of_mem _ (sees.visited other visited), ?_⟩
      intro other earlier member
      exact sees.below other (by omega) ((List.mem_cons.mp member).resolve_left (by omega))
    obtain ⟨further, members, walked⟩ := operandsKept position
      (fun _ => calls.operand_lt ordered) _ inner (⟨position, depth, true⟩ :: pending)
    refine ⟨further, fun other => ?_, ?_⟩
    · rw [members, List.mem_cons, visited_cons_iff, or_assoc, or_left_comm, eq_comm]
    · rw [List.singleton_append, walk_fresh calls unseen, walked, walk_ready calls]
  · intro position depth visits leaf
    exact leads_unchanged fun seen sees pending => walk_leaf leaf
  · intro depth visits
    exact ⟨List.Subset.refl visits, fun bound _ => leads_unchanged fun _ _ _ => rfl⟩
  · rintro operand rest depth visits result first ⟨subset, others⟩
    have grown : visits ⊆ visitFrom nodes operand depth visits :=
      visitFrom_subset ordered operand depth visits
    refine ⟨List.Subset.trans grown subset, fun bound bounded seen sees pending => ?_⟩
    obtain ⟨operandBelow, restBelow⟩ := List.forall_mem_cons.mp bounded
    obtain ⟨middle, middleMembers, middleWalked⟩ := first seen
      ⟨sees.visited, fun other earlier => sees.below other (by omega)⟩
      (rest.map (⟨·, depth, false⟩) ++ pending)
    have middleSees : Sees bound (visitFrom nodes operand depth visits) middle := by
      refine ⟨fun other visited => (middleMembers other).mpr (.inr visited), ?_⟩
      intro other earlier member
      rcases (middleMembers other).mp member with old | visited
      · exact (sees.below other earlier old).mono grown
      · exact visited
    obtain ⟨further, members, walked⟩ := others bound restBelow middle middleSees pending
    refine ⟨further, fun other => ?_, middleWalked.trans walked⟩
    have still : Visited (visitFrom nodes operand depth visits) other → Visited result other :=
      fun visited => visited.mono subset
    rw [members, middleMembers, or_assoc, or_iff_right_of_imp still]

end Walk

/-- The calls of a graph in the order of a search by recursion from its root. -/
theorem postorder_eq_reverse_visitFrom (graph : Graph) :
    graph.postorder = (visitFrom graph.nodes graph.root 0 []).reverse := by
  have sees : Sees (graph.root + 1) [] [] := by
    refine ⟨?_, nofun⟩
    rintro position ⟨visit, member, _⟩
    cases member
  obtain ⟨further, _, walked⟩ := leads_visitFrom graph.ordered graph.root 0 [] [] sees []
  rw [List.append_nil, walk] at walked
  rw [postorder, walked]

theorem mem_postorder {graph : Graph} {visit : Visit} :
    visit ∈ graph.postorder ↔ visit ∈ visitFrom graph.nodes graph.root 0 [] := by
  rw [postorder_eq_reverse_visitFrom, List.mem_reverse]

end Graph

end Narrowing
