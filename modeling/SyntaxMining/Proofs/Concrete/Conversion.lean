import SyntaxMining.Concrete.Tree
import SyntaxMining.Proofs.Forest.Growth

/-!
# Converted concrete trees

The loop that links the nodes of a concrete tree converts each node on its own and expands those
that keep their children. What it grows is said here by recursion on the tree: errors and nodes
without children become leaves with the source text they cover, and whatever stands below an error
is dropped.
-/

namespace SyntaxMining.ConcreteTree

mutual

/-- Syntax tree of a concrete tree over its source. -/
def toSyntax (source : List UInt8) : ConcreteTree → SyntaxTree
  | .node segment children =>
    .node (entry source (.node segment children))
      (if segment.isError then [] else toSyntaxAll source children)

def toSyntaxAll (source : List UInt8) : List ConcreteTree → List SyntaxTree
  | [] => []
  | child :: rest => toSyntax source child :: toSyntaxAll source rest

end

theorem toSyntaxAll_eq_map (source : List UInt8) (trees : List ConcreteTree) :
    toSyntaxAll source trees = trees.map (toSyntax source) := by
  induction trees with
  | nil => rfl
  | cons tree rest ih => rw [toSyntaxAll, ih, List.map_cons]

/-- Expanding a node or not makes no difference where there is nothing to convert. -/
theorem sketch_conversion (source : List UInt8) (tree : ConcreteTree) :
    (conversion source).sketch tree = (toSyntax source tree).map .ok := by
  induction tree using Tree.inductionOnChildren with
  | node segment children ih =>
    have hbelow : children.map (conversion source).sketch =
        (children.map (toSyntax source)).map (Tree.map .ok) := by
      rw [List.map_map]
      exact List.map_congr_left ih
    rw [toSyntax, Tree.map_node]
    by_cases hexpands : expands (.node segment children)
    · have herror : ¬segment.isError := by
        rw [expands, Bool.and_eq_true] at hexpands
        simpa using hexpands.1
      rw [Conversion.sketch_of_expands hexpands, if_neg herror, toSyntaxAll_eq_map, hbelow]
      rfl
    · rw [Conversion.sketch_of_not_expands hexpands]
      by_cases herror : segment.isError
      · rw [if_pos herror]
        rfl
      · obtain rfl : children = [] := by simpa [expands, herror] using hexpands
        rw [if_neg herror]
        rfl

/-- No node of a concrete tree fails, so its linked nodes always come about and read as its
conversion. -/
theorem exists_link_eq (source : List UInt8) (tree : ConcreteTree) :
    ∃ forest root, link source tree = .ok (forest, root) ∧ forest.IsRooted root ∧
      Query.subtree (⟨forest, root⟩ : Forest.Member) = toSyntax source tree := by
  have hsettles := Forest.ofTree_settles (conversion source) tree
  cases hlink : Forest.ofTree (conversion source) tree with
  | error fault => exact fault.elim
  | ok linked =>
    rw [hlink] at hsettles
    obtain ⟨-, hrooted, hsubtree⟩ := hsettles.of_ok
    rw [sketch_conversion] at hsubtree
    exact ⟨linked.1, linked.2, hlink, hrooted,
      Tree.map_injective (fun _ _ heq ↦ Except.ok.inj heq) hsubtree⟩

end SyntaxMining.ConcreteTree
