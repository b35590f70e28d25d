import Mathlib.Data.List.Nodup
import SyntaxMining.Forest.Basic
import SyntaxMining.Proofs.Tree.Basic

/-!
# Links of a forest

Each operation on a forest is described by what its nodes read afterwards. The nodes below a root
are given by a tree of ids: a forest spans it when the child links agree with it, and it hangs from
a parent when the parent links agree as well. Both survive any change to other nodes, and a spanned
tree that meets no node twice is what following the child links gives.
-/

namespace SyntaxMining.Forest

/-! ## Reading after writing -/

@[simp]
theorem size_update (forest : Forest) (id : NodeId) (change : LinkedNode → LinkedNode) :
    (forest.update id change).size = forest.size := by
  simp [update, size]

theorem node_update_self {forest : Forest} {id : NodeId} (change : LinkedNode → LinkedNode)
    (h : id < forest.size) : (forest.update id change).node id = change (forest.node id) := by
  unfold size at h
  simp [node, update, Array.getD_eq_getD_getElem?, Array.getElem_modify, h]

theorem node_update_of_ne (forest : Forest) {id other : NodeId} (change : LinkedNode → LinkedNode)
    (h : other ≠ id) : (forest.update id change).node other = forest.node other := by
  simp [node, update, Array.getD_eq_getD_getElem?, Array.getElem?_modify, h.symm]

theorem entry_update (forest : Forest) (id other : NodeId) {change : LinkedNode → LinkedNode}
    (h : ∀ node, (change node).entry = node.entry) :
    ((forest.update id change).node other).entry = (forest.node other).entry := by
  by_cases hid : other = id
  · subst hid
    by_cases hlt : other < forest.size
    · rw [node_update_self change hlt, h]
    · unfold size at hlt
      simp [node, update, Array.getD_eq_getD_getElem?, Nat.not_lt.mp hlt]
  · rw [node_update_of_ne forest change hid]

@[simp]
theorem size_add (forest : Forest) (entry : Entry) (parent : Option NodeId) :
    (forest.add entry parent).1.size = forest.size + 1 := by
  simp [add, size]

theorem node_add_self (forest : Forest) (entry : Entry) (parent : Option NodeId) :
    (forest.add entry parent).1.node forest.size = ⟨entry, [], parent⟩ := by
  simp [add, node, size, Array.getD_eq_getD_getElem?]

theorem node_add_of_ne (forest : Forest) (entry : Entry) (parent : Option NodeId) {id : NodeId}
    (h : id ≠ forest.size) : (forest.add entry parent).1.node id = forest.node id := by
  unfold size at h
  simp [add, node, Array.getD_eq_getD_getElem?, Array.getElem?_push, h]

@[simp]
theorem size_setParent (forest : Forest) (id : NodeId) (parent : Option NodeId) :
    (forest.setParent id parent).size = forest.size :=
  size_update forest id _

theorem node_setParent_self {forest : Forest} {id : NodeId} (parent : Option NodeId)
    (h : id < forest.size) :
    (forest.setParent id parent).node id = { forest.node id with parent := parent } :=
  node_update_self _ h

theorem node_setParent_of_ne (forest : Forest) {id other : NodeId} (parent : Option NodeId)
    (h : other ≠ id) : (forest.setParent id parent).node other = forest.node other :=
  node_update_of_ne forest _ h

/-- Points several nodes at one parent. -/
def adopt (forest : Forest) (children : List NodeId) (parent : NodeId) : Forest :=
  children.foldl (fun forest child ↦ forest.setParent child (some parent)) forest

theorem adopt_cons (forest : Forest) (child : NodeId) (rest : List NodeId) (parent : NodeId) :
    forest.adopt (child :: rest) parent =
      (forest.setParent child (some parent)).adopt rest parent :=
  rfl

@[simp]
theorem size_adopt (forest : Forest) (children : List NodeId) (parent : NodeId) :
    (forest.adopt children parent).size = forest.size := by
  induction children generalizing forest with
  | nil => rfl
  | cons child rest ih => rw [adopt_cons, ih, size_setParent]

theorem node_adopt_of_notMem (forest : Forest) {children : List NodeId} (parent : NodeId)
    {other : NodeId} (h : other ∉ children) :
    (forest.adopt children parent).node other = forest.node other := by
  induction children generalizing forest with
  | nil => rfl
  | cons child rest ih =>
    rw [List.mem_cons, not_or] at h
    rw [adopt_cons, ih _ h.2, node_setParent_of_ne _ _ h.1]

theorem node_adopt_of_mem {forest : Forest} {children : List NodeId} (parent : NodeId)
    {child : NodeId} (hmem : child ∈ children) (hlt : child < forest.size) :
    (forest.adopt children parent).node child =
      { forest.node child with parent := some parent } := by
  induction children generalizing forest with
  | nil => simp at hmem
  | cons first rest ih =>
    rw [adopt_cons]
    by_cases hrest : child ∈ rest
    · rw [ih hrest (by simpa using hlt)]
      by_cases hfirst : child = first
      · subst hfirst
        rw [node_setParent_self _ hlt]
      · rw [node_setParent_of_ne _ _ hfirst]
    · obtain rfl : child = first := (List.mem_cons.mp hmem).resolve_right hrest
      rw [node_adopt_of_notMem _ _ hrest, node_setParent_self _ hlt]

theorem setChildren_eq_adopt (forest : Forest) (id : NodeId) (children : List NodeId) :
    forest.setChildren id children =
      (forest.update id fun node ↦ { node with children := children }).adopt children id :=
  rfl

@[simp]
theorem size_setChildren (forest : Forest) (id : NodeId) (children : List NodeId) :
    (forest.setChildren id children).size = forest.size := by
  rw [setChildren_eq_adopt, size_adopt, size_update]

theorem node_setChildren_self {forest : Forest} {id : NodeId} {children : List NodeId}
    (hlt : id < forest.size) (hmem : id ∉ children) :
    (forest.setChildren id children).node id =
      { forest.node id with children := children } := by
  rw [setChildren_eq_adopt, node_adopt_of_notMem _ _ hmem, node_update_self _ hlt]

theorem node_setChildren_of_mem {forest : Forest} {id child : NodeId} {children : List NodeId}
    (hmem : child ∈ children) (hlt : child < forest.size) (hne : child ≠ id) :
    (forest.setChildren id children).node child =
      { forest.node child with parent := some id } := by
  rw [setChildren_eq_adopt, node_adopt_of_mem _ hmem (by simpa using hlt),
    node_update_of_ne _ _ hne]

theorem node_setChildren_of_notMem (forest : Forest) {id other : NodeId} {children : List NodeId}
    (hmem : other ∉ children) (hne : other ≠ id) :
    (forest.setChildren id children).node other = forest.node other := by
  rw [setChildren_eq_adopt, node_adopt_of_notMem _ _ hmem, node_update_of_ne _ _ hne]

theorem setChildren_nil {forest : Forest} {id : NodeId} (h : (forest.node id).children = []) :
    forest.setChildren id [] = forest := by
  have hsame (node : LinkedNode) (hnode : forest.nodes[id]? = some node) :
      { node with children := [] } = node := by
    rw [Forest.node, Array.getD_eq_getD_getElem?, hnode, Option.getD_some] at h
    rw [← h]
  have hnodes :
      forest.nodes.modify id (fun node ↦ { node with children := [] }) = forest.nodes := by
    apply Array.ext_getElem?
    intro other
    rw [Array.getElem?_modify]
    split
    · next heq =>
      subst heq
      cases hnode : forest.nodes[id]? with
      | none => rfl
      | some node => rw [Option.map_some, hsame node hnode]
    · rfl
  exact congrArg Forest.mk hnodes

theorem entry_setParent (forest : Forest) (id : NodeId) (parent : Option NodeId) (other : NodeId) :
    ((forest.setParent id parent).node other).entry = (forest.node other).entry :=
  entry_update forest id other fun _ ↦ rfl

theorem entry_setChildren (forest : Forest) (id : NodeId) (children : List NodeId)
    (other : NodeId) :
    ((forest.setChildren id children).node other).entry = (forest.node other).entry := by
  have hadopt (forest : Forest) (adopted : List NodeId) :
      ((forest.adopt adopted id).node other).entry = (forest.node other).entry := by
    induction adopted generalizing forest with
    | nil => rfl
    | cons child rest ih => rw [adopt_cons, ih, entry_setParent]
  rw [setChildren_eq_adopt, hadopt]
  exact entry_update forest id other fun _ ↦ rfl

/-! ## Trees of ids -/

/-- The child links below a node form the given tree. -/
inductive Spans (forest : Forest) : Tree NodeId → Prop where
  | node {id : NodeId} {children : List (Tree NodeId)} (lt_size : id < forest.size)
      (links : (forest.node id).children = children.map Tree.value)
      (below : ∀ child ∈ children, forest.Spans child) : forest.Spans (.node id children)

/-- The child links below a node form the given tree, and the parent links lead back. -/
inductive Hangs (forest : Forest) : Option NodeId → Tree NodeId → Prop where
  | node {parent : Option NodeId} {id : NodeId} {children : List (Tree NodeId)}
      (lt_size : id < forest.size)
      (links : (forest.node id).children = children.map Tree.value)
      (back : (forest.node id).parent = parent)
      (below : ∀ child ∈ children, forest.Hangs (some id) child) :
      forest.Hangs parent (.node id children)

/-- A finite tree of linked nodes: following child links from the root meets no node twice. -/
def IsTree (forest : Forest) (root : NodeId) : Prop :=
  ∃ ids : Tree NodeId, ids.value = root ∧ forest.Spans ids ∧ ids.values.Nodup

/-- Entries of the nodes of a tree of ids. -/
def entries (forest : Forest) (ids : Tree NodeId) : SyntaxTree :=
  ids.map fun id ↦ (forest.node id).entry

theorem entries_node (forest : Forest) (id : NodeId) (children : List (Tree NodeId)) :
    forest.entries (.node id children) =
      .node (forest.node id).entry (children.map forest.entries) := by
  rw [entries, Tree.map_node]
  rfl

variable {forest before after : Forest} {parent : Option NodeId} {ids : Tree NodeId}

theorem Hangs.spans (h : forest.Hangs parent ids) : forest.Spans ids := by
  induction h with
  | node lt_size links back below ih => exact .node lt_size links ih

theorem Spans.lt_size (h : forest.Spans ids) : ∀ id ∈ ids.values, id < forest.size := by
  induction h with
  | node lt_size links below ih =>
    intro other hother
    rw [Tree.values_node] at hother
    rcases List.mem_cons.mp hother with rfl | hbelow
    · exact lt_size
    · obtain ⟨child, hchild, hin⟩ := List.mem_flatMap.mp hbelow
      exact ih child hchild other hin

theorem Spans.links_value (h : forest.Spans ids) :
    (forest.node ids.value).children = ids.children.map Tree.value := by
  cases h with
  | node lt_size links below => exact links

theorem Spans.of_mem_preorder (h : forest.Spans ids) {part : Tree NodeId}
    (hpart : part ∈ ids.preorder) : forest.Spans part := by
  induction h with
  | @node id children lt_size links below ih =>
    rw [Tree.preorder_node] at hpart
    rcases List.mem_cons.mp hpart with rfl | hbelow
    · exact .node lt_size links below
    · obtain ⟨child, hchild, hin⟩ := List.mem_flatMap.mp hbelow
      exact ih child hchild hin

theorem Hangs.back_value (h : forest.Hangs parent ids) :
    (forest.node ids.value).parent = parent := by
  cases h with
  | node lt_size links back below => exact back

theorem Hangs.below_value (h : forest.Hangs parent ids) :
    ∀ child ∈ ids.children, forest.Hangs (some ids.value) child := by
  cases h with
  | node lt_size links back below => exact below

/-- Nodes outside a tree may change freely. -/
theorem Spans.congr (h : before.Spans ids) (hsize : before.size ≤ after.size)
    (hagree : ∀ id ∈ ids.values, after.node id = before.node id) : after.Spans ids := by
  induction h with
  | @node id children lt_size links below ih =>
    simp only [Tree.values_node, List.mem_cons, List.mem_flatMap] at hagree
    refine .node (Nat.lt_of_lt_of_le lt_size hsize) ?_ ?_
    · rw [hagree id (Or.inl rfl), links]
    · intro child hchild
      exact ih child hchild fun other hother ↦ hagree other (Or.inr ⟨child, hchild, hother⟩)

theorem Hangs.congr (h : before.Hangs parent ids) (hsize : before.size ≤ after.size)
    (hagree : ∀ id ∈ ids.values, after.node id = before.node id) : after.Hangs parent ids := by
  induction h with
  | @node parent id children lt_size links back below ih =>
    simp only [Tree.values_node, List.mem_cons, List.mem_flatMap] at hagree
    refine .node (Nat.lt_of_lt_of_le lt_size hsize) ?_ ?_ ?_
    · rw [hagree id (Or.inl rfl), links]
    · rw [hagree id (Or.inl rfl), back]
    · intro child hchild
      exact ih child hchild fun other hother ↦ hagree other (Or.inr ⟨child, hchild, hother⟩)

/-- A tree hangs from a new parent once the link of its root is changed. -/
theorem Hangs.reparent {new : Option NodeId} (h : before.Hangs parent ids)
    (hsize : before.size ≤ after.size)
    (hroot : after.node ids.value = { before.node ids.value with parent := new })
    (hbelow : ∀ id ∈ ids.children.flatMap Tree.values, after.node id = before.node id) :
    after.Hangs new ids := by
  cases h with
  | @node _ id children lt_size links back below =>
    simp only [Tree.value_node, Tree.children_node, List.mem_flatMap] at hroot hbelow
    refine .node (Nat.lt_of_lt_of_le lt_size hsize) ?_ ?_ ?_
    · rw [hroot, links]
    · rw [hroot]
    · intro child hchild
      exact (below child hchild).congr hsize fun other hother ↦ hbelow other ⟨child, hchild, hother⟩

theorem entries_congr (hagree : ∀ id ∈ ids.values, (after.node id).entry = (before.node id).entry) :
    after.entries ids = before.entries ids :=
  Tree.map_congr_left hagree

/-! ## Several trees of ids -/

/-- Ids of the nodes of several trees. -/
def idsOf (trees : List (Tree NodeId)) : List NodeId :=
  trees.flatMap Tree.values

@[simp]
theorem idsOf_nil : idsOf [] = [] :=
  rfl

@[simp]
theorem idsOf_cons (tree : Tree NodeId) (rest : List (Tree NodeId)) :
    idsOf (tree :: rest) = tree.values ++ idsOf rest :=
  rfl

theorem mem_idsOf {trees : List (Tree NodeId)} {id : NodeId} :
    id ∈ idsOf trees ↔ ∃ tree ∈ trees, id ∈ tree.values :=
  List.mem_flatMap

theorem value_mem_idsOf {trees : List (Tree NodeId)} {tree : Tree NodeId} (h : tree ∈ trees) :
    tree.value ∈ idsOf trees :=
  mem_idsOf.mpr ⟨tree, h, tree.value_mem_values⟩

theorem idsOf_reverse_perm (trees : List (Tree NodeId)) :
    (idsOf trees.reverse).Perm (idsOf trees) :=
  (List.reverse_perm trees).flatMap_right Tree.values

theorem values_eq_cons_idsOf (tree : Tree NodeId) :
    tree.values = tree.value :: idsOf tree.children := by
  cases tree with
  | node id children => exact Tree.values_node id children

/-- A node below one of several disjoint trees is the root of none. -/
theorem notMem_roots {trees : List (Tree NodeId)} (hnodup : (idsOf trees).Nodup)
    {tree : Tree NodeId} (htree : tree ∈ trees) {id : NodeId} (hid : id ∈ idsOf tree.children) :
    id ∉ trees.map Tree.value := by
  induction trees with
  | nil => simp at htree
  | cons first rest ih =>
    rw [idsOf_cons] at hnodup
    have hdisjoint := List.disjoint_of_nodup_append hnodup
    have hin : id ∈ tree.values := by
      rw [values_eq_cons_idsOf]
      exact List.mem_cons_of_mem _ hid
    rw [List.map_cons, List.mem_cons, not_or]
    rcases List.mem_cons.mp htree with rfl | hrest
    · refine ⟨?_, ?_⟩
      · rintro rfl
        have hself := hnodup.of_append_left
        rw [values_eq_cons_idsOf] at hself
        exact (List.nodup_cons.mp hself).1 hid
      · intro hroot
        obtain ⟨other, hother, rfl⟩ := List.mem_map.mp hroot
        exact hdisjoint hin (value_mem_idsOf hother)
    · refine ⟨?_, ih hnodup.of_append_right hrest⟩
      rintro rfl
      exact hdisjoint first.value_mem_values (mem_idsOf.mpr ⟨tree, hrest, hin⟩)

theorem roots_sublist (trees : List (Tree NodeId)) :
    (trees.map Tree.value).Sublist (idsOf trees) := by
  induction trees with
  | nil => exact List.Sublist.slnil
  | cons tree rest ih =>
    rw [idsOf_cons, values_eq_cons_idsOf, List.map_cons, List.cons_append]
    exact (List.sublist_append_of_sublist_right ih).cons_cons _

theorem root_mem_idsOf {trees : List (Tree NodeId)} {id : NodeId}
    (h : id ∈ trees.map Tree.value) : id ∈ idsOf trees :=
  (roots_sublist trees).subset h

/-- A node that takes over disjoint trees becomes their common parent. -/
theorem hangs_setChildren {id : NodeId} {trees : List (Tree NodeId)} (hlt : id < forest.size)
    (hhangs : ∀ tree ∈ trees, ∃ parent, forest.Hangs parent tree)
    (hnodup : (id :: idsOf trees).Nodup) :
    (forest.setChildren id (trees.map Tree.value)).Hangs (forest.node id).parent
      (.node id trees) := by
  obtain ⟨hid, htrees⟩ := List.nodup_cons.mp hnodup
  have hnode := node_setChildren_self hlt fun hroot ↦ hid (root_mem_idsOf hroot)
  refine .node (by simpa using hlt) (by rw [hnode]) (by rw [hnode]) ?_
  intro tree htree
  obtain ⟨parent, htreeHangs⟩ := hhangs tree htree
  have hne : ∀ other ∈ tree.values, other ≠ id := by
    rintro other hother rfl
    exact hid (mem_idsOf.mpr ⟨tree, htree, hother⟩)
  refine htreeHangs.reparent (by simp) ?_ ?_
  · exact node_setChildren_of_mem (List.mem_map_of_mem htree)
      (htreeHangs.spans.lt_size _ tree.value_mem_values) (hne _ tree.value_mem_values)
  · intro other hother
    refine node_setChildren_of_notMem _ (notMem_roots htrees htree hother) (hne other ?_)
    rw [values_eq_cons_idsOf]
    exact List.mem_cons_of_mem _ hother

theorem entries_setChildren {id : NodeId} {trees : List (Tree NodeId)} :
    (forest.setChildren id (trees.map Tree.value)).entries (.node id trees) =
      .node (forest.node id).entry (trees.map forest.entries) := by
  rw [entries_node, entry_setChildren]
  congr 1
  apply List.map_congr_left
  intro tree _
  exact entries_congr fun other _ ↦ entry_setChildren _ _ _ _

theorem node_setChildren_of_notMem_idsOf {id other : NodeId} {trees : List (Tree NodeId)}
    (hne : other ≠ id) (hout : other ∉ idsOf trees) :
    (forest.setChildren id (trees.map Tree.value)).node other = forest.node other :=
  node_setChildren_of_notMem forest (fun hroot ↦ hout (root_mem_idsOf hroot)) hne

/-! ## Following the links -/

/-- As many levels as there are nodes reach every node. -/
theorem Spans.unfoldTo_eq (h : forest.Spans ids) {depth : Nat} (hdepth : ids.size ≤ depth + 1) :
    forest.unfoldTo depth ids.value = ids := by
  induction h generalizing depth with
  | @node id children lt_size links below ih =>
    rw [Tree.size_node] at hdepth
    cases depth with
    | zero =>
      cases children with
      | nil => rfl
      | cons child rest =>
        have hchild := child.size_pos
        rw [Tree.sizeAll] at hdepth
        omega
    | succ depth =>
      rw [Tree.value_node, unfoldTo, links, List.map_map]
      congr 1
      conv_rhs => rw [← List.map_id children]
      apply List.map_congr_left
      intro child hchild
      have hsize := Tree.size_le_sizeAll hchild
      exact ih child hchild (by omega)

theorem Spans.size_le (h : forest.Spans ids) (hnodup : ids.values.Nodup) :
    ids.size ≤ forest.size := by
  have hrange : ids.values ⊆ List.range forest.size := by
    intro id hid
    exact List.mem_range.mpr (h.lt_size id hid)
  have hlength := List.Nodup.length_le_of_subset hnodup hrange
  rwa [Tree.length_values, List.length_range] at hlength

theorem Spans.unfold_eq (h : forest.Spans ids) (hnodup : ids.values.Nodup) :
    forest.unfold ids.value = ids := by
  have hsize := h.size_le hnodup
  exact h.unfoldTo_eq (by omega)

theorem Spans.preorder_eq (h : forest.Spans ids) (hnodup : ids.values.Nodup) :
    forest.preorder ids.value = ids.values := by
  rw [preorder, h.unfold_eq hnodup]
  rfl

theorem Spans.subtree_eq (h : forest.Spans ids) (hnodup : ids.values.Nodup) :
    Query.subtree (⟨forest, ids.value⟩ : Member) = forest.entries ids := by
  change (forest.unfold ids.value).map _ = _
  rw [h.unfold_eq hnodup]
  rfl

end SyntaxMining.Forest
