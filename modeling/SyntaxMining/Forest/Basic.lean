import SyntaxMining.Query.Basic

/-!
# Forests of linked nodes

A forest holds nodes that refer to each other: each has a list of children and, independently of
it, a link to its parent.  Replacing the children of a node points the new children back at it;
children that are dropped keep their old link.  The links of a node can be read as a tree
downwards (`unfold`) and as a list of ancestors upwards (`ancestors`).
-/

namespace SyntaxMining

abbrev NodeId := Nat

/-- A node with its links. -/
structure LinkedNode where
  entry : Entry
  children : List NodeId
  parent : Option NodeId
deriving DecidableEq, Inhabited, Repr

structure Forest where
  nodes : Array LinkedNode
deriving Inhabited

namespace Forest

def empty : Forest :=
  ⟨#[]⟩

def size (forest : Forest) : Nat :=
  forest.nodes.size

/-- Node at an id; a blank node for an id that is not in use. -/
def node (forest : Forest) (id : NodeId) : LinkedNode :=
  forest.nodes.getD id default

def update (forest : Forest) (id : NodeId) (change : LinkedNode → LinkedNode) : Forest :=
  ⟨forest.nodes.modify id change⟩

/-- Adds a node without children; the children of its parent stay as they are. -/
def add (forest : Forest) (entry : Entry) (parent : Option NodeId) : Forest × NodeId :=
  (⟨forest.nodes.push ⟨entry, [], parent⟩⟩, forest.size)

def setParent (forest : Forest) (id : NodeId) (parent : Option NodeId) : Forest :=
  forest.update id fun node ↦ { node with parent := parent }

def setToken (forest : Forest) (id : NodeId) (token : Option String) : Forest :=
  forest.update id fun node ↦ { node with entry := { node.entry with token := token } }

/-- Replaces the children of a node and points each of them back at it. -/
def setChildren (forest : Forest) (id : NodeId) (children : List NodeId) : Forest :=
  children.foldl (fun forest child ↦ forest.setParent child (some id))
    (forest.update id fun node ↦ { node with children := children })

/-! ## Trees as forests -/

mutual

/-- Adds the nodes of a tree in pre-order, with links both ways. -/
def plant (forest : Forest) (parent : Option NodeId) : SyntaxTree → Forest × NodeId
  | .node entry children =>
    let added := forest.add entry parent
    let grown := plantAll added.1 added.2 children
    (grown.1.setChildren added.2 grown.2, added.2)

def plantAll (forest : Forest) (parent : NodeId) : List SyntaxTree → Forest × List NodeId
  | [] => (forest, [])
  | child :: rest =>
    let first := plant forest (some parent) child
    let others := plantAll first.1 parent rest
    (others.1, first.2 :: others.2)

end

/-- Tree of ids below a node, followed down at most `depth` levels. -/
def unfoldTo (forest : Forest) : (depth : Nat) → NodeId → Tree NodeId
  | 0, id => .node id []
  | depth + 1, id => .node id ((forest.node id).children.map (forest.unfoldTo depth))

/-- Tree of ids below a node.  Without cycles no path is longer than the forest is large. -/
def unfold (forest : Forest) (id : NodeId) : Tree NodeId :=
  forest.unfoldTo forest.size id

/-- Ids of a node and its descendants in pre-order. -/
def preorder (forest : Forest) (id : NodeId) : List NodeId :=
  (forest.unfold id).preorder.map Tree.value

/-- Ids met by following at most `steps` parent links. -/
def ancestorsTo (forest : Forest) : (steps : Nat) → NodeId → List NodeId
  | 0, _ => []
  | steps + 1, id =>
    match (forest.node id).parent with
    | none => []
    | some parent => parent :: forest.ancestorsTo steps parent

/-! ## Nodes of a forest -/

/-- A node together with the forest it stands in. -/
structure Member where
  forest : Forest
  id : NodeId

instance : Navigable Member where
  entry member := (member.forest.node member.id).entry
  children member := (member.forest.node member.id).children.map fun id ↦ ⟨member.forest, id⟩
  ancestors member :=
    (member.forest.ancestorsTo member.forest.size member.id).map fun id ↦ ⟨member.forest, id⟩
  subtree member :=
    (member.forest.unfold member.id).map fun id ↦ (member.forest.node id).entry

end Forest

end SyntaxMining
