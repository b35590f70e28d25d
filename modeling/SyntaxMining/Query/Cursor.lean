import SyntaxMining.Query.Basic

/-!
# Cursors

A cursor is a place in a tree: the subtree there, and the subtrees of all its ancestors, nearest
first.  Since the path upwards is part of the cursor, walking it needs no links between nodes.
-/

namespace SyntaxMining

structure Cursor (α : Type) where
  focus : Tree α
  above : List (Tree α)

namespace Cursor

variable {α : Type}

/-- Place of the root. -/
def top (tree : Tree α) : Cursor α :=
  ⟨tree, []⟩

def children (cursor : Cursor α) : List (Cursor α) :=
  cursor.focus.children.map fun child ↦ ⟨child, cursor.focus :: cursor.above⟩

/-- Places along a list of ancestors. -/
def ancestorsFrom : List (Tree α) → List (Cursor α)
  | [] => []
  | tree :: above => ⟨tree, above⟩ :: ancestorsFrom above

def ancestors (cursor : Cursor α) : List (Cursor α) :=
  ancestorsFrom cursor.above

mutual

/-- Places of a tree below some ancestors, in pre-order. -/
def placesBelow (above : List (Tree α)) : Tree α → List (Cursor α)
  | .node value children =>
    ⟨.node value children, above⟩ :: placesBelowAll (.node value children :: above) children

def placesBelowAll (above : List (Tree α)) : List (Tree α) → List (Cursor α)
  | [] => []
  | child :: rest => placesBelow above child ++ placesBelowAll above rest

end

/-- All places of a tree in pre-order. -/
def places (tree : Tree α) : List (Cursor α) :=
  placesBelow [] tree

instance [Described α] : Navigable (Cursor α) where
  entry cursor := Described.entry cursor.focus.value
  children := children
  ancestors := ancestors
  subtree cursor := cursor.focus.map Described.entry

end Cursor

end SyntaxMining
