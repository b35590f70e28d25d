import SyntaxMining.Forest.Basic

/-!
# Growing linked nodes

A foreign tree becomes linked nodes without recursion.  Each of its nodes is converted on its own,
which may fail, and is expanded or not.  A stack holds the nodes whose children are still to be
converted: the children of the uppermost one are converted from left to right and linked to it, and
those that are to be expanded are put on the stack themselves, so that the last of them comes next.
The first failure ends the growth.
-/

namespace SyntaxMining

/-- How the nodes of foreign trees are converted. -/
structure Conversion (ε α : Type) where
  /-- Converts a node without its children. -/
  entry : Tree α → Except ε Entry
  /-- Whether the children of a node are converted too. -/
  expands : Tree α → Bool

namespace Forest

variable {ε α : Type}

/-- Adds nodes below a parent, from left to right; its children stay as they are. -/
def addAll (forest : Forest) (parent : NodeId) :
    List (Except ε Entry) → Except ε (Forest × List NodeId)
  | [] => .ok (forest, [])
  | .error fault :: _ => .error fault
  | .ok entry :: rest =>
    let added := forest.add entry (some parent)
    match addAll added.1 parent rest with
    | .error fault => .error fault
    | .ok (forest, ids) => .ok (forest, added.2 :: ids)

/-- Siblings that are expanded, with their linked nodes and the last one first. -/
def waiting (conversion : Conversion ε α) (siblings : List (Tree α)) (ids : List NodeId) :
    List (Tree α × NodeId) :=
  ((siblings.zip ids).filter fun item ↦ conversion.expands item.1).reverse

theorem sizeAll_waiting_le (conversion : Conversion ε α) (siblings : List (Tree α))
    (ids : List NodeId) :
    Tree.sizeAll ((waiting conversion siblings ids).map Prod.fst) ≤ Tree.sizeAll siblings := by
  rw [waiting, List.map_reverse, Tree.sizeAll_reverse]
  induction siblings generalizing ids with
  | nil => exact Nat.le_refl _
  | cons tree rest ih =>
    cases ids with
    | nil => exact Nat.zero_le _
    | cons id ids =>
      have hrest := ih ids
      rw [List.zip_cons_cons, List.filter_cons]
      split
      · exact Nat.add_le_add_left hrest tree.size
      · exact Nat.le_trans hrest (Nat.le_add_left _ _)

/-- A node on the stack is larger than its children. -/
theorem sizeAll_expanded_lt (conversion : Conversion ε α) (value : α) (children : List (Tree α))
    (id : NodeId) (ids : List NodeId) (rest : List (Tree α × NodeId)) :
    Tree.sizeAll ((waiting conversion children ids ++ rest).map Prod.fst) <
      Tree.sizeAll (((Tree.node value children, id) :: rest).map Prod.fst) := by
  have hwaiting := sizeAll_waiting_le conversion children ids
  rw [List.map_append, Tree.sizeAll_append, List.map_cons, Tree.sizeAll, Tree.size]
  omega

/-- Converts the children of all nodes on the stack. -/
def grow (conversion : Conversion ε α) (pending : List (Tree α × NodeId)) (forest : Forest) :
    Except ε Forest :=
  match pending with
  | [] => .ok forest
  | (.node _ children, id) :: rest =>
    match forest.addAll id (children.map conversion.entry) with
    | .error fault => .error fault
    | .ok (forest, ids) =>
      grow conversion (waiting conversion children ids ++ rest) (forest.setChildren id ids)
termination_by Tree.sizeAll (pending.map Prod.fst)
decreasing_by
  exact sizeAll_expanded_lt _ _ _ _ _ _

/-- Linked nodes of a foreign tree, in a forest of their own. -/
def ofTree (conversion : Conversion ε α) (tree : Tree α) : Except ε (Forest × NodeId) :=
  match conversion.entry tree with
  | .error fault => .error fault
  | .ok entry =>
    let added := empty.add entry none
    match grow conversion (waiting conversion [tree] [added.2]) added.1 with
    | .error fault => .error fault
    | .ok forest => .ok (forest, added.2)

end Forest

end SyntaxMining
