import SyntaxMining.Forest.Rebuild
import SyntaxMining.Tree.Flatten

/-!
# Rows of a linked tree

The nodes below a root in pre-order, each with the rows of its children and the row its parent link
leads to.
-/

namespace SyntaxMining.Forest

/-- Where a parent link leads, seen from a root. -/
inductive ParentPlace where
  | none
  | row (index : Nat)
  /-- A node that is not below the root. -/
  | outside
deriving DecidableEq, Repr

structure Row where
  entry : Entry
  children : List Nat
  parent : ParentPlace

/-- Row of each id among the given ones, the first when it occurs twice. -/
def placesOf (size : Nat) (ids : List NodeId) : Array (Option Nat) :=
  ids.zipIdx.foldr (fun item places ↦ places.setIfInBounds item.1 (some item.2))
    (Array.replicate size none)

def parentPlace (places : Array (Option Nat)) : Option NodeId → ParentPlace
  | none => .none
  | some parent =>
    match places.getD parent none with
    | none => .outside
    | some index => .row index

def rows (forest : Forest) (root : NodeId) : List Row :=
  let records := (forest.unfold root).flatten
  let places := placesOf forest.size (records.map Record.value)
  records.map fun record ↦
    let node := forest.node record.value
    ⟨node.entry, record.children, parentPlace places node.parent⟩

/-- Rows of a linked tree after removing chains. -/
def rowsAfter (modes : List Mode) (linked : Forest × NodeId) : Except RebuildError (List Row) :=
  match rebuildAll linked.1 linked.2 modes with
  | .error e => .error e
  | .ok (forest, root) => .ok (forest.rows root)

/-- Rows of a tree after removing chains in its linked form. -/
def normalizedRows (modes : List Mode) (tree : SyntaxTree) : Except RebuildError (List Row) :=
  rowsAfter modes (empty.plant none tree)

end SyntaxMining.Forest
