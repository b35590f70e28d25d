import SyntaxMining.Forest.Basic
import SyntaxMining.Tree.Normalize

/-!
# Removing chains in place

Chains of linked nodes are removed from the inside outwards without recursion.  A stack of jobs
says what remains to be done: visiting a node schedules its children before the node is finished,
and finishing it takes what its children have become from a table.  A node with one child is folded
into a new node (`compress`) or gives way to the child (`simplify`); every other node is kept and
gets its new children.
-/

namespace SyntaxMining.Forest

inductive Job where
  | visit (id : NodeId)
  | finish (id : NodeId)
deriving DecidableEq, Repr

/-- What rebuilt nodes have become. -/
abbrev Rebuilt := Array (Option NodeId)

/-- Why a rebuild stops short. -/
inductive RebuildError where
  /-- A child is not in the table. -/
  | unknownChild (id : NodeId)
  /-- Jobs are left over: the links form a cycle. -/
  | endless
deriving DecidableEq, Repr

/-- Takes one entry out of the table. -/
def take (rebuilt : Rebuilt) (id : NodeId) : Except RebuildError (NodeId × Rebuilt) :=
  match rebuilt.getD id none with
  | none => .error (.unknownChild id)
  | some result => .ok (result, rebuilt.setIfInBounds id none)

/-- Takes the entries of several nodes, in order. -/
def takeAll (rebuilt : Rebuilt) : List NodeId → Except RebuildError (List NodeId × Rebuilt)
  | [] => .ok ([], rebuilt)
  | id :: rest =>
    match take rebuilt id with
    | .error e => .error e
    | .ok (result, rebuilt) =>
      match takeAll rebuilt rest with
      | .error e => .error e
      | .ok (results, rebuilt) => .ok (result :: results, rebuilt)

/-- Folds a node with its only child into a new node. -/
def foldOnto (forest : Forest) (outer inner : NodeId) : Forest × NodeId :=
  let outerNode := forest.node outer
  let innerNode := forest.node inner
  let entry : Entry :=
    ⟨outerNode.entry.label.fold innerNode.entry.label, innerNode.entry.token, outerNode.entry.span⟩
  let added := forest.add entry outerNode.parent
  (added.1.setChildren added.2 innerNode.children, added.2)

/-- Puts a node's only child in its place. -/
def replaceBy (forest : Forest) (outer inner : NodeId) : Forest × NodeId :=
  (forest.setParent inner (forest.node outer).parent, inner)

/-- What a node becomes over its rebuilt children. -/
def rebuildNode (mode : Mode) (forest : Forest) (id : NodeId) : List NodeId → Forest × NodeId
  | [child] =>
    match mode with
    | .compress => forest.foldOnto id child
    | .simplify => forest.replaceBy id child
  | children => (forest.setChildren id children, id)

/-- Works through a stack of jobs, at most `steps` of them. -/
def work (mode : Mode) :
    (steps : Nat) → List Job → Forest → Rebuilt → Except RebuildError (Forest × Rebuilt)
  | _, [], forest, rebuilt => .ok (forest, rebuilt)
  | 0, _ :: _, _, _ => .error .endless
  | steps + 1, .visit id :: jobs, forest, rebuilt =>
    let children := (forest.node id).children
    work mode steps (children.reverse.map Job.visit ++ Job.finish id :: jobs) forest rebuilt
  | steps + 1, .finish id :: jobs, forest, rebuilt =>
    match takeAll rebuilt (forest.node id).children with
    | .error e => .error e
    | .ok (children, rebuilt) =>
      let result := rebuildNode mode forest id children
      work mode steps jobs result.1 (rebuilt.setIfInBounds id (some result.2))

/-- Removes the chains below a node; gives the forest and the node's successor. -/
def rebuild (mode : Mode) (forest : Forest) (root : NodeId) :
    Except RebuildError (Forest × NodeId) :=
  let steps := 2 * (forest.unfold root).size
  let rebuilt : Rebuilt := Array.replicate forest.size none
  match work mode steps [.visit root] forest rebuilt with
  | .error e => .error e
  | .ok (forest, rebuilt) =>
    match take rebuilt root with
    | .error e => .error e
    | .ok (result, _) => .ok (forest, result)

/-- Applies several modes, the first one first. -/
def rebuildAll (forest : Forest) (root : NodeId) :
    List Mode → Except RebuildError (Forest × NodeId)
  | [] => .ok (forest, root)
  | mode :: modes =>
    match rebuild mode forest root with
    | .error e => .error e
    | .ok (forest, root) => rebuildAll forest root modes

end SyntaxMining.Forest
