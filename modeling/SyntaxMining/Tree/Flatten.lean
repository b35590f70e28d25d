import SyntaxMining.Tree.Syntax

/-!
# Flat form of a tree

`flatten` lists the nodes of a tree in pre-order and gives each the ids of its children, an id
being the place in the list.  Trees that still wait are kept on a stack together with the id of
their parent, so the depth of a tree costs no recursion.
-/

namespace SyntaxMining

/-- A node with its id and the ids of its children. -/
structure Record (α : Type) where
  id : Nat
  value : α
  children : List Nat
deriving DecidableEq, Repr

namespace Tree

variable {α : Type}

/-- Nodes of the trees on a stack. -/
def pendingSize (pending : List (Option Nat × Tree α)) : Nat :=
  sizeAll (pending.map Prod.snd)

/-- Adds an id to the children of the record at `parent`. -/
def attach (parent : Option Nat) (id : Nat) (records : Array (Record α)) : Array (Record α) :=
  match parent with
  | none => records
  | some parent =>
      records.modify parent fun record ↦ { record with children := record.children ++ [id] }

/-- Stack entries of the children of the record at `id`. -/
def waiting (id : Nat) (children : List (Tree α)) : List (Option Nat × Tree α) :=
  children.map fun child ↦ (some id, child)

/-- A tree on the stack is larger than its children. -/
theorem pendingSize_waiting_append_lt (id : Nat) (parent : Option Nat) (value : α)
    (children : List (Tree α)) (rest : List (Option Nat × Tree α)) :
    pendingSize (waiting id children ++ rest) <
      pendingSize ((parent, node value children) :: rest) := by
  have h : (waiting id children).map Prod.snd = children := by
    simp [waiting, Function.comp_def]
  rw [pendingSize, pendingSize, List.map_append, h, sizeAll_append, List.map_cons, sizeAll, size]
  omega

/-- Records of the trees on a stack, after those already made. -/
def enumerate (pending : List (Option Nat × Tree α)) (records : Array (Record α)) :
    Array (Record α) :=
  match pending with
  | [] => records
  | (parent, node value children) :: rest =>
    let id := records.size
    enumerate (waiting id children ++ rest) (attach parent id (records.push ⟨id, value, []⟩))
termination_by pendingSize pending
decreasing_by
  exact pendingSize_waiting_append_lt _ _ _ _ _

/-- Nodes in pre-order with the ids of their children. -/
def flatten (tree : Tree α) : List (Record α) :=
  (enumerate [(none, tree)] #[]).toList

end Tree

end SyntaxMining
