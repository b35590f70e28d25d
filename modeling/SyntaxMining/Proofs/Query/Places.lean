import SyntaxMining.Proofs.Tree.Basic
import SyntaxMining.Query.Cursor

/-!
# Places of a tree

The places of a tree are the root and, with each place, the places of its children. A property of
the root that passes from every place to the places of its children therefore holds everywhere.
The ancestors of a place are places of the tree, and there are fewer of them than nodes. A tree
that is mapped value by value has the mapped places.
-/

namespace SyntaxMining.Cursor

variable {α β : Type}

theorem placesBelowAll_eq_flatMap (above trees : List (Tree α)) :
    placesBelowAll above trees = trees.flatMap (placesBelow above) := by
  induction trees with
  | nil => rfl
  | cons tree rest ih => rw [placesBelowAll, ih, List.flatMap_cons]

theorem placesBelow_node (above : List (Tree α)) (value : α) (children : List (Tree α)) :
    placesBelow above (.node value children) =
      ⟨.node value children, above⟩ ::
        children.flatMap (placesBelow (.node value children :: above)) := by
  rw [placesBelow, placesBelowAll_eq_flatMap]

theorem self_mem_placesBelow (above : List (Tree α)) (tree : Tree α) :
    (⟨tree, above⟩ : Cursor α) ∈ placesBelow above tree := by
  cases tree with
  | node value children => simp [placesBelow_node]

theorem mem_placesBelow_of_mem_children {above : List (Tree α)} {tree child : Tree α}
    {place : Cursor α} (hchild : child ∈ tree.children)
    (hplace : place ∈ placesBelow (tree :: above) child) : place ∈ placesBelow above tree := by
  cases tree with
  | node value children =>
    rw [placesBelow_node]
    exact List.mem_cons_of_mem _ (List.mem_flatMap.mpr ⟨child, hchild, hplace⟩)

/-- Places below a place of a tree are places of the tree. -/
theorem mem_placesBelow_trans {above : List (Tree α)} {tree : Tree α} {middle place : Cursor α}
    (hmiddle : middle ∈ placesBelow above tree)
    (hplace : place ∈ placesBelow middle.above middle.focus) : place ∈ placesBelow above tree := by
  induction tree generalizing above with
  | node value children ih =>
    rw [placesBelow_node] at hmiddle
    rcases List.mem_cons.mp hmiddle with rfl | hbelow
    · exact hplace
    · obtain ⟨child, hchild, hin⟩ := List.mem_flatMap.mp hbelow
      exact mem_placesBelow_of_mem_children hchild (ih child hchild hin)

theorem child_mem_places {tree child : Tree α} {place : Cursor α} (hplace : place ∈ places tree)
    (hchild : child ∈ place.focus.children) :
    (⟨child, place.focus :: place.above⟩ : Cursor α) ∈ places tree :=
  mem_placesBelow_trans hplace
    (mem_placesBelow_of_mem_children hchild (self_mem_placesBelow _ child))

/-- Induction from the root of a tree to all its places. -/
theorem inductionOnPlaces {tree : Tree α} {motive : Cursor α → Prop} (top : motive (top tree))
    (child : ∀ place ∈ places tree, motive place → ∀ child ∈ place.focus.children,
      motive ⟨child, place.focus :: place.above⟩) :
    ∀ place ∈ places tree, motive place := by
  have hbelow : ∀ (part : Tree α) (above : List (Tree α)),
      (⟨part, above⟩ : Cursor α) ∈ places tree →
      motive ⟨part, above⟩ → ∀ place ∈ placesBelow above part, motive place := by
    intro part
    induction part with
    | node value children ih =>
      intro above hmem hmotive place hplace
      rw [placesBelow_node] at hplace
      rcases List.mem_cons.mp hplace with rfl | hin
      · exact hmotive
      · obtain ⟨next, hnext, hplace⟩ := List.mem_flatMap.mp hin
        exact ih next hnext _ (child_mem_places hmem hnext) (child _ hmem hmotive next hnext) place
          hplace
  exact hbelow tree [] (self_mem_placesBelow [] tree) top

theorem map_focus_placesBelow (above : List (Tree α)) (tree : Tree α) :
    (placesBelow above tree).map focus = tree.preorder := by
  induction tree generalizing above with
  | node value children ih =>
    rw [placesBelow_node, Tree.preorder_node, List.map_cons, List.map_flatMap]
    congr 1
    exact List.flatMap_congr fun child hchild ↦ ih child hchild _

theorem map_focus_places (tree : Tree α) : (places tree).map focus = tree.preorder :=
  map_focus_placesBelow [] tree

theorem focus_mem_preorder {tree : Tree α} {place : Cursor α} (h : place ∈ places tree) :
    place.focus ∈ tree.preorder := by
  rw [← map_focus_places]
  exact List.mem_map_of_mem h

/-! ## Ancestors -/

theorem ancestors_child (child : Tree α) (place : Cursor α) :
    ancestors ⟨child, place.focus :: place.above⟩ = place :: place.ancestors :=
  rfl

theorem mem_places_of_mem_ancestors {tree : Tree α} :
    ∀ place ∈ places tree, ∀ ancestor ∈ place.ancestors, ancestor ∈ places tree := by
  refine inductionOnPlaces ?_ ?_
  · intro ancestor hancestor
    simp [ancestors, top, ancestorsFrom] at hancestor
  · intro place hplace ih child _ ancestor hancestor
    rw [ancestors_child] at hancestor
    rcases List.mem_cons.mp hancestor with rfl | habove
    · exact hplace
    · exact ih ancestor habove

/-- A place lies in each of the subtrees above it. -/
theorem focus_mem_preorder_of_mem_above {tree : Tree α} : ∀ place ∈ places tree,
    ∀ outer ∈ place.above, outer ∈ tree.preorder ∧ place.focus ∈ outer.preorder := by
  refine inductionOnPlaces ?_ ?_
  · intro outer houter
    simp [top] at houter
  · intro place hplace ih child hchild outer houter
    have hbelow : child ∈ place.focus.preorder :=
      Tree.mem_preorder_of_mem_children hchild child.self_mem_preorder
    rcases List.mem_cons.mp houter with rfl | habove
    · exact ⟨focus_mem_preorder hplace, hbelow⟩
    · exact ⟨(ih outer habove).1, Tree.mem_preorder_trans (ih outer habove).2 hbelow⟩

/-- Every ancestor of a place takes one node away from what can stand below. -/
theorem length_above_add_size_le {tree : Tree α} :
    ∀ place ∈ places tree, place.above.length + place.focus.size ≤ tree.size := by
  refine inductionOnPlaces ?_ ?_
  · simp [top]
  · intro place _ ih child hchild
    have hsize : child.size < place.focus.size := by
      rw [← Tree.node_value_children place.focus, Tree.size_node]
      exact Nat.lt_succ_of_le (Tree.size_le_sizeAll hchild)
    change place.above.length + 1 + child.size ≤ tree.size
    omega

/-! ## Mapped places -/

def map (f : α → β) (place : Cursor α) : Cursor β :=
  ⟨place.focus.map f, place.above.map (Tree.map f)⟩

@[simp]
theorem focus_map (f : α → β) (place : Cursor α) : (place.map f).focus = place.focus.map f :=
  rfl

theorem placesBelow_map (f : α → β) (above : List (Tree α)) (tree : Tree α) :
    placesBelow (above.map (Tree.map f)) (tree.map f) = (placesBelow above tree).map (map f) := by
  induction tree generalizing above with
  | node value children ih =>
    rw [Tree.map_node, placesBelow_node, placesBelow_node, List.map_cons, List.flatMap_map,
      List.map_flatMap, ← Tree.map_node]
    congr 1
    exact List.flatMap_congr fun child hchild ↦ ih child hchild (.node value children :: above)

theorem places_map (f : α → β) (tree : Tree α) : places (tree.map f) = (places tree).map (map f) :=
  placesBelow_map f [] tree

theorem ancestorsFrom_map (f : α → β) (above : List (Tree α)) :
    ancestorsFrom (above.map (Tree.map f)) = (ancestorsFrom above).map (map f) := by
  induction above with
  | nil => rfl
  | cons parent rest ih =>
    rw [List.map_cons, ancestorsFrom, ancestorsFrom, ih, List.map_cons]
    rfl

theorem ancestors_map (f : α → β) (place : Cursor α) :
    (place.map f).ancestors = place.ancestors.map (map f) :=
  ancestorsFrom_map f place.above

end SyntaxMining.Cursor
