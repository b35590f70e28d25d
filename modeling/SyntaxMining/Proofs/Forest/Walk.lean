import SyntaxMining.Proofs.Forest.Plant
import SyntaxMining.Proofs.Forest.Rebuild
import SyntaxMining.Proofs.Query.Places

/-!
# Walking the links

In a tree of linked nodes whose root has no parent, following the parent links from a node meets
exactly the nodes above it: the walk ends at the root, within as many steps as there are nodes, and
agrees with the path that leads down to the node. Downwards, the trees below
the children of a node are the children of the tree below it.
-/

namespace SyntaxMining.Forest

/-- A finite tree of linked nodes: no node is met twice, the root has no parent, and every other
node leads back to the node it is a child of. -/
def IsRooted (forest : Forest) (root : NodeId) : Prop :=
  ∃ ids : Tree NodeId, ids.value = root ∧ forest.Hangs none ids ∧ ids.values.Nodup

theorem isRooted_plant (forest : Forest) (tree : SyntaxTree) :
    (forest.plant none tree).1.IsRooted (forest.plant none tree).2 := by
  obtain ⟨result, hvalue, hplants⟩ := plant_eq tree forest none
  exact ⟨result, hvalue.symm, hplants.hangs result (by simp), by simpa using hplants.nodup⟩

variable {forest : Forest} {ids : Tree NodeId}

/-- The node at a place of a tree of ids. -/
def memberAt (forest : Forest) (place : Cursor NodeId) : Member :=
  ⟨forest, place.focus.value⟩

/-- At every place the parent links lead back along the path from the root. -/
theorem Hangs.at_places (h : forest.Hangs none ids) : ∀ place ∈ Cursor.places ids,
    forest.Hangs (place.above.head?.map Tree.value) place.focus ∧
      ∀ steps, place.above.length ≤ steps →
        forest.ancestorsTo steps place.focus.value = place.above.map Tree.value := by
  refine Cursor.inductionOnPlaces ?_ ?_
  · refine ⟨h, ?_⟩
    intro steps _
    cases steps with
    | zero => rfl
    | succ steps =>
      rw [ancestorsTo, Cursor.top, h.back_value]
      rfl
  · rintro place - ⟨hhangs, hwalk⟩ child hchild
    have hback := hhangs.below_value child hchild
    refine ⟨hback, ?_⟩
    intro steps hsteps
    cases steps with
    | zero => simp at hsteps
    | succ steps =>
      rw [ancestorsTo, hback.back_value, List.map_cons]
      simp only [hwalk steps (by simpa using hsteps)]

/-- There is room in the forest for the whole way up. -/
theorem Hangs.length_above_le (h : forest.Hangs none ids) (hnodup : ids.values.Nodup)
    {place : Cursor NodeId} (hplace : place ∈ Cursor.places ids) :
    place.above.length ≤ forest.size := by
  have hdepth := Cursor.length_above_add_size_le place hplace
  have hsize := h.spans.size_le hnodup
  omega

/-- The upward walk from a node meets the nodes above its place, nearest first. -/
theorem Hangs.ancestors_memberAt (h : forest.Hangs none ids) (hnodup : ids.values.Nodup) :
    ∀ place ∈ Cursor.places ids,
      Query.ancestors (forest.memberAt place) = place.ancestors.map forest.memberAt := by
  intro place hplace
  have hlength := h.length_above_le hnodup hplace
  have hpath (above : List (Tree NodeId)) :
      (Cursor.ancestorsFrom above).map forest.memberAt =
        above.map fun tree ↦ (⟨forest, tree.value⟩ : Member) := by
    induction above with
    | nil => rfl
    | cons parent rest ih =>
      rw [Cursor.ancestorsFrom, List.map_cons, ih]
      rfl
  change (forest.ancestorsTo forest.size place.focus.value).map _ = _
  rw [(h.at_places place hplace).2 forest.size hlength, Cursor.ancestors, hpath, List.map_map]
  rfl

/-- The nodes below the root, in pre-order, are those at the places of the tree. -/
theorem Spans.preorder_eq_map_places (h : forest.Spans ids) (hnodup : ids.values.Nodup) :
    forest.preorder ids.value = (Cursor.places ids).map fun place ↦ place.focus.value := by
  rw [h.preorder_eq hnodup, Tree.values, ← Cursor.map_focus_places, List.map_map]
  rfl

theorem Spans.mem_preorder_iff (h : forest.Spans ids) (hnodup : ids.values.Nodup) {id : NodeId} :
    id ∈ forest.preorder ids.value ↔ ∃ place ∈ Cursor.places ids, place.focus.value = id := by
  rw [h.preorder_eq_map_places hnodup, List.mem_map]

variable {root id : NodeId}

/-- Above a node of a tree the walk goes on as it does from the parent. -/
theorem IsRooted.ancestors_of_parent? (h : forest.IsRooted root)
    (hid : id ∈ forest.preorder root) {above : Member}
    (habove : Query.parent? (⟨forest, id⟩ : Member) = some above) :
    (∃ outer ∈ forest.preorder root, above = ⟨forest, outer⟩) ∧
      Query.ancestors (⟨forest, id⟩ : Member) = above :: Query.ancestors above := by
  obtain ⟨ids, rfl, hhangs, hnodup⟩ := h
  obtain ⟨place, hplace, rfl⟩ := (hhangs.spans.mem_preorder_iff hnodup).mp hid
  have hwalk := hhangs.ancestors_memberAt hnodup place hplace
  obtain ⟨focus, path⟩ := place
  cases path with
  | nil =>
    rw [Query.parent?] at habove
    have hnone : Query.ancestors (⟨forest, focus.value⟩ : Member) = [] := hwalk
    simp [hnone] at habove
  | cons outer rest =>
    have houter : (⟨outer, rest⟩ : Cursor NodeId) ∈ Cursor.places ids :=
      Cursor.mem_places_of_mem_ancestors _ hplace _
        (by simp [Cursor.ancestors, Cursor.ancestorsFrom])
    have hcons : Query.ancestors (⟨forest, focus.value⟩ : Member) =
        ⟨forest, outer.value⟩ :: Query.ancestors (⟨forest, outer.value⟩ : Member) := by
      have hrest := hhangs.ancestors_memberAt hnodup _ houter
      rw [memberAt] at hwalk hrest
      rw [hwalk, hrest]
      rfl
    rw [Query.parent?, hcons, List.head?_cons, Option.some.injEq] at habove
    subst habove
    exact ⟨⟨outer.value, (hhangs.spans.mem_preorder_iff hnodup).mpr ⟨_, houter, rfl⟩, rfl⟩, hcons⟩

theorem IsRooted.ancestors_root (h : forest.IsRooted root) :
    Query.ancestors (⟨forest, root⟩ : Member) = [] := by
  obtain ⟨ids, rfl, hhangs, hnodup⟩ := h
  exact hhangs.ancestors_memberAt hnodup (Cursor.top ids) (Cursor.self_mem_placesBelow [] ids)

/-- From a child the walk goes on as it does from the node itself. -/
theorem IsRooted.ancestors_child (h : forest.IsRooted root) {outer inner : NodeId}
    (houter : outer ∈ forest.preorder root) (hinner : inner ∈ (forest.node outer).children) :
    Query.ancestors (⟨forest, inner⟩ : Member) =
      ⟨forest, outer⟩ :: Query.ancestors (⟨forest, outer⟩ : Member) := by
  obtain ⟨ids, rfl, hhangs, hnodup⟩ := h
  obtain ⟨place, hplace, rfl⟩ := (hhangs.spans.mem_preorder_iff hnodup).mp houter
  rw [(hhangs.at_places place hplace).1.spans.links_value] at hinner
  obtain ⟨child, hchild, rfl⟩ := List.mem_map.mp hinner
  have hbelow := hhangs.ancestors_memberAt hnodup _ (Cursor.child_mem_places hplace hchild)
  rw [Cursor.ancestors_child, List.map_cons, ← hhangs.ancestors_memberAt hnodup place hplace]
    at hbelow
  exact hbelow

/-! ## Nodes and the trees below them -/

theorem value_subtree (member : Member) :
    (Query.subtree member).value = Query.entry member := by
  change ((member.forest.unfold member.id).map _).value = _
  rw [Tree.value_map, unfold]
  cases member.forest.size with
  | zero => rfl
  | succ depth => rfl

theorem self_mem_preorder (forest : Forest) (id : NodeId) : id ∈ forest.preorder id := by
  have hvalue : (forest.unfold id).value = id := by
    rw [unfold]
    cases forest.size with
    | zero => rfl
    | succ depth => rfl
  have hmem := (forest.unfold id).value_mem_values
  rwa [hvalue] at hmem

theorem IsTree.of_mem_preorder (h : forest.IsTree root) (hid : id ∈ forest.preorder root) :
    forest.IsTree id := by
  obtain ⟨ids, rfl, hspans, hnodup⟩ := h
  rw [hspans.preorder_eq hnodup] at hid
  obtain ⟨part, hpart, rfl⟩ := List.mem_map.mp hid
  exact ⟨part, rfl, hspans.of_mem_preorder hpart,
    hnodup.sublist (Tree.values_sublist_of_mem_preorder hpart)⟩

theorem IsRooted.isTree (h : forest.IsRooted root) : forest.IsTree root := by
  obtain ⟨ids, hvalue, hhangs, hnodup⟩ := h
  exact ⟨ids, hvalue, hhangs.spans, hnodup⟩

/-- The trees below the children of a node are the children of the tree below the node. -/
theorem IsTree.map_subtree_children (h : forest.IsTree id) :
    (Query.children (⟨forest, id⟩ : Member)).map Query.subtree =
      (Query.subtree (⟨forest, id⟩ : Member)).children := by
  obtain ⟨ids, rfl, hspans, hnodup⟩ := h
  have hchild : ∀ child ∈ ids.children,
      Query.subtree (⟨forest, child.value⟩ : Member) = forest.entries child := by
    intro child hchild
    have hpart := Tree.mem_preorder_of_mem_children hchild child.self_mem_preorder
    exact (hspans.of_mem_preorder hpart).subtree_eq
      (hnodup.sublist (Tree.values_sublist_of_mem_preorder hpart))
  calc
    (Query.children (⟨forest, ids.value⟩ : Member)).map Query.subtree =
        (forest.node ids.value).children.map fun id ↦ Query.subtree (⟨forest, id⟩ : Member) :=
      List.map_map
    _ = ids.children.map fun child ↦ Query.subtree (⟨forest, child.value⟩ : Member) := by
      rw [hspans.links_value, List.map_map]
      rfl
    _ = ids.children.map forest.entries := List.map_congr_left hchild
    _ = (Query.subtree (⟨forest, ids.value⟩ : Member)).children := by
      rw [hspans.subtree_eq hnodup, entries, Tree.children_map]
      rfl

/-- A child of the tree below a node is the tree below a child of the node. -/
theorem IsTree.exists_child (h : forest.IsTree id) {index : Nat} {tree : SyntaxTree}
    (htree : (Query.subtree (⟨forest, id⟩ : Member)).children[index]? = some tree) :
    ∃ child ∈ (forest.node id).children,
      (Query.children (⟨forest, id⟩ : Member))[index]? = some ⟨forest, child⟩ ∧
      Query.subtree (⟨forest, child⟩ : Member) = tree := by
  rw [← h.map_subtree_children, List.getElem?_map, Option.map_eq_some_iff] at htree
  obtain ⟨member, hmember, hsubtree⟩ := htree
  obtain ⟨child, hchild, rfl⟩ := List.mem_map.mp (List.mem_of_getElem? hmember)
  exact ⟨child, hchild, hmember, hsubtree⟩

end SyntaxMining.Forest
