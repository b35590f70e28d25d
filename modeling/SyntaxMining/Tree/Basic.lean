/-!
# Ordered trees

Trees with a value at every node and any number of ordered children.  The pre-order of a tree lists
all its subtrees, each node before its descendants and siblings from left to right.
-/

namespace SyntaxMining

inductive Tree (α : Type) where
  | node (value : α) (children : List (Tree α))

namespace Tree

variable {α β : Type}

instance [Inhabited α] : Inhabited (Tree α) :=
  ⟨node default []⟩

def value : Tree α → α
  | node value _ => value

def children : Tree α → List (Tree α)
  | node _ children => children

@[simp]
theorem value_node (value : α) (children : List (Tree α)) : (node value children).value = value :=
  rfl

@[simp]
theorem children_node (value : α) (children : List (Tree α)) :
    (node value children).children = children :=
  rfl

def isLeaf (tree : Tree α) : Bool :=
  tree.children.isEmpty

mutual

/-- Number of nodes. -/
def size : Tree α → Nat
  | node _ children => sizeAll children + 1

/-- Number of nodes of a list of trees. -/
def sizeAll : List (Tree α) → Nat
  | [] => 0
  | child :: rest => child.size + sizeAll rest

end

theorem sizeAll_append (left right : List (Tree α)) :
    sizeAll (left ++ right) = sizeAll left + sizeAll right := by
  induction left with
  | nil => simp [sizeAll]
  | cons child rest ih => rw [List.cons_append, sizeAll, sizeAll, ih, Nat.add_assoc]

theorem sizeAll_reverse (trees : List (Tree α)) : sizeAll trees.reverse = sizeAll trees := by
  induction trees with
  | nil => rfl
  | cons tree rest ih =>
    rw [List.reverse_cons, sizeAll_append, ih]
    simp only [sizeAll]
    omega

mutual

/-- All subtrees, a node before its descendants. -/
def preorder : Tree α → List (Tree α)
  | node value children => node value children :: preorderAll children

def preorderAll : List (Tree α) → List (Tree α)
  | [] => []
  | child :: rest => child.preorder ++ preorderAll rest

end

mutual

/-- Tree of the same shape with `f` applied to every value. -/
def map (f : α → β) : Tree α → Tree β
  | node value children => node (f value) (mapAll f children)

def mapAll (f : α → β) : List (Tree α) → List (Tree β)
  | [] => []
  | child :: rest => child.map f :: mapAll f rest

end

mutual

/-- Pairs every value with its place in the pre-order, counted from `next`. -/
def number (next : Nat) : Tree α → Tree (Nat × α)
  | node value children => node (next, value) (numberAll (next + 1) children)

def numberAll (next : Nat) : List (Tree α) → List (Tree (Nat × α))
  | [] => []
  | child :: rest => child.number next :: numberAll (next + child.size) rest

end

end Tree

end SyntaxMining
