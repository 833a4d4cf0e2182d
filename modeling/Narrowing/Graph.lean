import Narrowing.Form

/-
This file holds forms with shared parts, and visits their calls with operands before callers.
-/

namespace Narrowing

/-- A node of a graph refers to its operands by their positions. -/
inductive Node where
  | constant (value : Value)
  | parameter (name : String)
  | call (operation : String) (operands : List Nat)

namespace Node

def operands : Node → List Nat
  | .call _ operands => operands
  | _ => []

def isCall : Node → Bool
  | .call _ _ => true
  | _ => false

end Node

/-- Every node refers to earlier nodes only. -/
def Ordered (nodes : Array Node) : Prop :=
  ∀ (position : Nat) (within : position < nodes.size),
    ∀ operand ∈ nodes[position].operands, operand < position

theorem Ordered.empty : Ordered #[] := fun _ within => absurd within (Nat.not_lt_zero _)

theorem Ordered.push {nodes : Array Node} (ordered : Ordered nodes) {node : Node}
    (earlier : ∀ operand ∈ node.operands, operand < nodes.size) : Ordered (nodes.push node) := by
  intro position within operand member
  rw [Array.getElem_push] at member
  split at member
  · rename_i old
    exact ordered position old operand member
  · rename_i last
    have := earlier operand member
    simp only [Array.size_push] at within
    omega

/-- The node at a position, when it is a call. -/
structure Call where
  operation : String
  operands : List Nat

/-- A graph has a root, and each node refers to earlier nodes. -/
structure Graph where
  nodes : Array Node
  ordered : Ordered nodes
  root : Nat
  rooted : root < nodes.size

namespace Graph

def node (graph : Graph) (position : Nat) : Node :=
  (graph.nodes[position]?).getD (.constant .missing)

/-- The nodes after all that a form needs, and the position of the form among them. -/
structure Numbered (size : Nat) where
  nodes : Array Node
  ordered : Ordered nodes
  grown : size ≤ nodes.size

/-- One form among its nodes. -/
structure Placed (size : Nat) extends Numbered size where
  position : Nat
  within : position < nodes.size

/-- Several forms among their nodes. -/
structure PlacedAll (size : Nat) extends Numbered size where
  positions : List Nat
  within : ∀ position ∈ positions, position < nodes.size

def placeLast {size : Nat} (numbered : Numbered size) (node : Node)
    (earlier : ∀ operand ∈ node.operands, operand < numbered.nodes.size) : Placed size where
  nodes := numbered.nodes.push node
  ordered := numbered.ordered.push earlier
  grown := by
    have := numbered.grown
    simp only [Array.size_push]
    omega
  position := numbered.nodes.size
  within := by simp only [Array.size_push]; omega

mutual

/-- The nodes of a form follow those that are there already. -/
def place (nodes : Array Node) (ordered : Ordered nodes) : Form → Placed nodes.size
  | .constant value =>
      placeLast ⟨nodes, ordered, Nat.le_refl _⟩ (.constant value) (by simp [Node.operands])
  | .parameter name =>
      placeLast ⟨nodes, ordered, Nat.le_refl _⟩ (.parameter name) (by simp [Node.operands])
  | .call operation operands =>
      let placed := placeAll nodes ordered operands
      placeLast placed.toNumbered (.call operation placed.positions) placed.within

def placeAll (nodes : Array Node) (ordered : Ordered nodes) : List Form → PlacedAll nodes.size
  | [] => ⟨⟨nodes, ordered, Nat.le_refl _⟩, [], by simp⟩
  | form :: rest =>
      let first := place nodes ordered form
      let others := placeAll first.nodes first.ordered rest
      ⟨⟨others.nodes, others.ordered, Nat.le_trans first.grown others.grown⟩,
        first.position :: others.positions, by
          intro position member
          rcases List.mem_cons.mp member with same | later
          · subst same
            exact Nat.lt_of_lt_of_le first.within others.grown
          · exact others.within position later⟩

end

/-- A form without shared parts as a graph. -/
def ofForm (form : Form) : Graph :=
  let placed := place #[] Ordered.empty form
  ⟨placed.nodes, placed.ordered, placed.position, placed.within⟩

/-- The nodes so far, with one more; a reference to a later node is refused. -/
def extend? (table : { nodes : Array Node // Ordered nodes }) (node : Node) :
    Option { nodes : Array Node // Ordered nodes } :=
  if earlier : ∀ operand ∈ node.operands, operand < table.val.size then
    some ⟨table.val.push node, table.property.push earlier⟩
  else none

/-- The last of some nodes is the root of the graph. -/
def ofNodes? (nodes : List Node) : Option Graph := do
  let table ← nodes.foldlM extend? ⟨#[], Ordered.empty⟩
  if filled : 0 < table.val.size then
    some ⟨table.val, table.property, table.val.size - 1, by omega⟩
  else none

/-- The form of a node, over the forms of all earlier nodes. -/
def unfoldNode (earlier : Array Form) : Node → Form
  | .constant value => .constant value
  | .parameter name => .parameter name
  | .call operation operands =>
      .call operation (operands.map fun operand => (earlier[operand]?).getD default)

/-- The forms of all nodes, with shared parts written out. -/
def unfoldAll (nodes : Array Node) : Array Form :=
  nodes.foldl (fun earlier node => earlier.push (unfoldNode earlier node)) #[]

/-- The form of the root. -/
def toForm (graph : Graph) : Form := ((unfoldAll graph.nodes)[graph.root]?).getD default

/-- A visit of a call keeps the number of calls around it on the way to it. -/
structure Visit where
  position : Nat
  depth : Nat
deriving DecidableEq, Repr

/-- A node that waits in a walk, with the number of calls around it; a call that is ready waits for
its operands no more. -/
structure Pending where
  position : Nat
  depth : Nat
  isReady : Bool

/-- The positions that a walk has not seen. -/
def unseen (nodes : Array Node) (seen : List Nat) : List Nat :=
  (List.range nodes.size).filter (!seen.contains ·)

theorem length_unseen_cons_lt {nodes : Array Node} {seen : List Nat} {position : Nat}
    (within : position < nodes.size) (fresh : seen.contains position = false) :
    (unseen nodes (position :: seen)).length < (unseen nodes seen).length := by
  have shrunk : unseen nodes (position :: seen) = (unseen nodes seen).filter (· != position) := by
    unfold unseen
    rw [List.filter_filter]
    refine List.filter_congr fun other _ => ?_
    rw [List.contains_cons, Bool.not_or]
    rfl
  rw [shrunk]
  refine List.length_filter_lt_length_iff_exists.mpr ⟨position, ?_, by simp⟩
  simp only [unseen, List.mem_filter, List.mem_range, fresh]
  exact ⟨within, rfl⟩

/-- The visits of a walk through the waiting nodes, the last one first: a call that is seen for the
first time waits again behind its operands. -/
def walk (nodes : Array Node) (seen : List Nat) (visits : List Visit) :
    List Pending → List Visit
  | [] => visits
  | ⟨position, depth, isReady⟩ :: rest =>
      match found : nodes[position]? with
      | some (.call _ operands) =>
          if isReady then walk nodes seen (⟨position, depth⟩ :: visits) rest
          else if fresh : seen.contains position then walk nodes seen visits rest
          else walk nodes (position :: seen) visits
            (operands.map (⟨·, depth + 1, false⟩) ++ ⟨position, depth, true⟩ :: rest)
      | _ => walk nodes seen visits rest
termination_by pending => ((unseen nodes seen).length, pending.length)
decreasing_by
  · exact .right _ (Nat.lt_succ_self _)
  · exact .right _ (Nat.lt_succ_self _)
  · exact .left _ _ (length_unseen_cons_lt (Array.getElem?_eq_some_iff.mp found).1
      (Bool.eq_false_iff.mpr fresh))
  · exact .right _ (Nat.lt_succ_self _)

/-- Every call once, with operands before callers. -/
def postorder (graph : Graph) : List Visit :=
  (walk graph.nodes [] [] [⟨graph.root, 0, false⟩]).reverse

/-- The parts of the call at a position. -/
def call? (graph : Graph) (position : Nat) : Option Call :=
  match graph.nodes[position]? with
  | some (.call operation operands) => some ⟨operation, operands⟩
  | _ => none

end Graph

end Narrowing
