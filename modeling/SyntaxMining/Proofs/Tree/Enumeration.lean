import SyntaxMining.Proofs.Tree.Flatten

/-!
# Ids as places in the pre-order

The flat form numbers the nodes of a tree by their places in the pre-order. A subtree takes up one
block of ids, which starts at the id of its root. Behind the root the blocks of the children follow
each other, so the id of a child is known from the sizes of the children before it. All lists of
children together hold every id but that of the root, each of them once.
-/

namespace SyntaxMining.Tree

variable {α : Type}

/-! ## Walking with a stack -/

/-- Subtrees met by a walk that keeps the trees still to be visited on a stack. -/
def visited (pending : List (Tree α)) : List (Tree α) :=
  match pending with
  | [] => []
  | node value children :: rest => node value children :: visited (children ++ rest)
termination_by sizeAll pending
decreasing_by
  rw [sizeAll_append, sizeAll, size]
  omega

/-- The walk finishes the uppermost tree of its stack before it goes on to the next. -/
theorem visited_eq_flatMap (pending : List (Tree α)) :
    visited pending = pending.flatMap preorder := by
  fun_induction visited pending with
  | case1 => rfl
  | case2 value children rest ih =>
    rw [ih, List.flatMap_append, List.flatMap_cons, preorder_node, List.cons_append]

theorem visited_singleton (tree : Tree α) : visited [tree] = tree.preorder := by
  rw [visited_eq_flatMap, List.flatMap_singleton]

/-! ## Blocks of the pre-order -/

theorem length_preorder (tree : Tree α) : tree.preorder.length = tree.size := by
  rw [← length_values, values, List.length_map]

theorem preorder_isPrefix_drop_flatMap {trees : List (Tree α)}
    (h : ∀ tree ∈ trees, ∀ {place : Nat} {part : Tree α},
      tree.preorder[place]? = some part → part.preorder <+: tree.preorder.drop place)
    {place : Nat} {part : Tree α} (hpart : (trees.flatMap preorder)[place]? = some part) :
    part.preorder <+: (trees.flatMap preorder).drop place := by
  induction trees generalizing place with
  | nil => simp at hpart
  | cons tree rest ih =>
    rw [List.flatMap_cons] at hpart ⊢
    by_cases hplace : place < tree.preorder.length
    · rw [List.getElem?_append_left hplace] at hpart
      rw [List.drop_append_of_le_length (Nat.le_of_lt hplace)]
      exact (h tree (by simp) hpart).trans (List.prefix_append _ _)
    · rw [List.getElem?_append_right (Nat.not_lt.mp hplace)] at hpart
      rw [List.drop_append, List.drop_eq_nil_of_le (Nat.not_lt.mp hplace), List.nil_append]
      exact ih (fun other hother ↦ h other (List.mem_cons_of_mem tree hother)) hpart

/-- From the place of a node on, the pre-order lists the nodes of its subtree. -/
theorem preorder_isPrefix_drop {tree part : Tree α} {place : Nat}
    (h : tree.preorder[place]? = some part) : part.preorder <+: tree.preorder.drop place := by
  induction tree generalizing place part with
  | node value children ih =>
    rw [preorder_node] at h ⊢
    cases place with
    | zero =>
      obtain rfl : node value children = part := by simpa using h
      simp [preorder_node]
    | succ place =>
      rw [List.getElem?_cons_succ] at h
      rw [List.drop_succ_cons]
      exact preorder_isPrefix_drop_flatMap (fun child hchild _ _ ↦ ih child hchild) h

/-- A tree stands behind the nodes of the trees before it. -/
theorem getElem?_flatMap_preorder (trees : List (Tree α)) (place : Nat) :
    (trees.flatMap preorder)[sizeAll (trees.take place)]? = trees[place]? := by
  induction trees generalizing place with
  | nil => rfl
  | cons tree rest ih =>
    cases place with
    | zero =>
      cases tree with
      | node value children => simp [sizeAll, preorder_node]
    | succ place =>
      have hsize : tree.preorder.length ≤ tree.size + sizeAll (rest.take place) := by
        rw [length_preorder]
        exact Nat.le_add_right _ _
      rw [List.flatMap_cons, List.take_succ_cons, sizeAll, List.getElem?_append_right hsize,
        length_preorder, Nat.add_sub_cancel_left, ih, List.getElem?_cons_succ]

/-! ## Ids of children -/

/-- The ids of consecutive trees, the first of which starts at `next`. -/
theorem idsFrom_eq_map_range (next : Nat) (trees : List (Tree α)) :
    idsFrom next trees =
      (List.range trees.length).map fun place ↦ next + sizeAll (trees.take place) := by
  induction trees generalizing next with
  | nil => rfl
  | cons tree rest ih =>
    rw [idsFrom_cons, ih, List.length_cons, List.range_succ_eq_map, List.map_cons, List.map_map]
    congr 1
    apply List.map_congr_left
    intro place _
    rw [Function.comp_apply, List.take_succ_cons, sizeAll, Nat.add_assoc]

theorem le_of_mem_idsFrom {next : Nat} {trees : List (Tree α)} :
    ∀ id ∈ idsFrom next trees, next ≤ id := by
  rw [idsFrom_eq_map_range]
  intro id hid
  obtain ⟨place, -, rfl⟩ := List.mem_map.mp hid
  exact Nat.le_add_right _ _

theorem idsFrom_increasing (next : Nat) (trees : List (Tree α)) :
    (idsFrom next trees).Pairwise (· < ·) := by
  induction trees generalizing next with
  | nil => exact List.Pairwise.nil
  | cons tree rest ih =>
    rw [idsFrom_cons]
    refine List.Pairwise.cons ?_ (ih _)
    intro id hid
    have hle := le_of_mem_idsFrom id hid
    have hpos := tree.size_pos
    omega

/-- The children of a node are found at their ids. -/
theorem map_getElem?_idsFrom {tree part : Tree α} {id : Nat}
    (h : tree.preorder[id]? = some part) :
    (idsFrom (id + 1) part.children).map (fun child ↦ tree.preorder[child]?) =
      part.children.map some := by
  obtain ⟨value, children⟩ := part
  obtain ⟨rest, hrest⟩ := preorder_isPrefix_drop h
  have hchild (place : Nat) (hplace : place < children.length) :
      tree.preorder[id + 1 + sizeAll (children.take place)]? = children[place]? := by
    have hin : sizeAll (children.take place) < (children.flatMap preorder).length := by
      have hsome := getElem?_flatMap_preorder children place
      rw [List.getElem?_eq_getElem hplace] at hsome
      exact (List.getElem?_eq_some_iff.mp hsome).1
    calc
      tree.preorder[id + 1 + sizeAll (children.take place)]? =
          (tree.preorder.drop id)[sizeAll (children.take place) + 1]? := by
        rw [List.getElem?_drop]
        congr 1
        omega
      _ = (children.flatMap preorder)[sizeAll (children.take place)]? := by
        rw [← hrest, preorder_node, List.cons_append, List.getElem?_cons_succ,
          List.getElem?_append_left hin]
      _ = children[place]? := getElem?_flatMap_preorder children place
  rw [idsFrom_eq_map_range, List.map_map]
  apply List.ext_getElem
  · simp
  · intro place hleft _
    have hplace : place < children.length := by simpa using hleft
    simp [hchild place hplace, hplace]

/-! ## The records -/

/-- The record of a subtree whose root has a given id. -/
def recordAt (id : Nat) (part : Tree α) : Record α :=
  ⟨id, part.value, idsFrom (id + 1) part.children⟩

theorem recordsOfAll_eq_mapIdx {trees : List (Tree α)}
    (h : ∀ tree ∈ trees, ∀ next,
      tree.recordsFrom next = tree.preorder.mapIdx fun place ↦ recordAt (next + place))
    (next : Nat) :
    recordsOfAll next trees =
      (trees.flatMap preorder).mapIdx fun place ↦ recordAt (next + place) := by
  induction trees generalizing next with
  | nil => rfl
  | cons tree rest ih =>
    have hrest := ih (fun other hother ↦ h other (List.mem_cons_of_mem tree hother))
      (next + tree.size)
    rw [recordsOfAll_cons, List.flatMap_cons, List.mapIdx_append, h tree (by simp), hrest,
      length_preorder]
    congr 2
    funext place
    rw [Nat.add_assoc, Nat.add_comm tree.size]

theorem recordsFrom_eq_mapIdx (tree : Tree α) (next : Nat) :
    tree.recordsFrom next = tree.preorder.mapIdx fun place ↦ recordAt (next + place) := by
  induction tree generalizing next with
  | node value children ih =>
    rw [recordsFrom_node, preorder_node, List.mapIdx_cons, recordsOfAll_eq_mapIdx ih]
    congr 2
    funext place
    rw [Nat.add_assoc, Nat.add_comm 1]

/-- The record at an id is that of the node at this place of the pre-order. -/
theorem getElem?_flatten (tree : Tree α) (id : Nat) :
    tree.flatten[id]? = tree.preorder[id]?.map (recordAt id) := by
  rw [flatten_eq, recordsFrom_eq_mapIdx, List.getElem?_mapIdx, Nat.zero_add]

/-- The ids of some trees are their own and those in the lists of children below them. -/
theorem idsFrom_append_children_perm {trees : List (Tree α)}
    (h : ∀ tree ∈ trees, ∀ next, ((tree.recordsFrom next).flatMap Record.children).Perm
      (List.range' (next + 1) (tree.size - 1))) (next : Nat) :
    (idsFrom next trees ++ (recordsOfAll next trees).flatMap Record.children).Perm
      (List.range' next (sizeAll trees)) := by
  induction trees generalizing next with
  | nil => exact List.Perm.nil
  | cons tree rest ih =>
    have hfirst := h tree (by simp) next
    have hrest := ih (fun other hother ↦ h other (List.mem_cons_of_mem tree hother))
      (next + tree.size)
    have hblock : next :: List.range' (next + 1) (tree.size - 1) = List.range' next tree.size := by
      rw [← List.range'_succ, Nat.sub_add_cancel tree.size_pos]
    let own := (tree.recordsFrom next).flatMap Record.children
    let others := (recordsOfAll (next + tree.size) rest).flatMap Record.children
    have hswap : (idsFrom (next + tree.size) rest ++ (own ++ others)).Perm
        (own ++ (idsFrom (next + tree.size) rest ++ others)) := by
      rw [← List.append_assoc, ← List.append_assoc]
      exact List.perm_append_comm.append_right others
    rw [idsFrom_cons, recordsOfAll_cons, List.flatMap_append, sizeAll, ← List.range'_append_1,
      ← hblock]
    exact (hswap.cons next).trans ((hfirst.cons next).append hrest)

theorem children_recordsFrom_perm (tree : Tree α) (next : Nat) :
    ((tree.recordsFrom next).flatMap Record.children).Perm
      (List.range' (next + 1) (tree.size - 1)) := by
  induction tree generalizing next with
  | node value children ih =>
    rw [recordsFrom_node, List.flatMap_cons, size_node, Nat.add_sub_cancel]
    exact idsFrom_append_children_perm ih (next + 1)

/-- What a record says about the node that a walk meets at its id. -/
structure Describes (nodes : List (Tree α)) (id : Nat) (record : Record α) (part : Tree α) :
    Prop where
  here : nodes[id]? = some part
  id_eq : record.id = id
  value_eq : record.value = part.value
  /-- The subtree takes up as many ids as it has nodes, the first of them its own. -/
  block : (nodes.drop id).take part.size = visited [part]
  children_eq : record.children =
    (List.range part.children.length).map fun place ↦
      id + 1 + sizeAll (part.children.take place)
  found : record.children.map (fun child ↦ nodes[child]?) = part.children.map some
  increasing : record.children.Pairwise (· < ·)
  after : ∀ child ∈ record.children, id < child

theorem describes_recordAt {tree part : Tree α} {id : Nat} (h : tree.preorder[id]? = some part) :
    Describes tree.preorder id (recordAt id part) part where
  here := h
  id_eq := rfl
  value_eq := rfl
  block := by
    have hblock := List.prefix_iff_eq_take.mp (preorder_isPrefix_drop h)
    rw [visited_singleton, ← length_preorder, ← hblock]
  children_eq := idsFrom_eq_map_range _ _
  found := map_getElem?_idsFrom h
  increasing := idsFrom_increasing _ _
  after := le_of_mem_idsFrom

/-- The flat form enumerates the nodes in the order in which a walk with a stack meets them, and
each id but that of the root stands once among all lists of children. -/
theorem flatten_enumerates_visited (tree : Tree α) :
    tree.flatten.length = tree.size ∧
      (∀ id < tree.size, ∃ record part, tree.flatten[id]? = some record ∧
        Describes (visited [tree]) id record part) ∧
      (tree.flatten.flatMap Record.children).Perm (List.range' 1 (tree.size - 1)) := by
  refine ⟨?_, ?_, ?_⟩
  · rw [flatten_eq, length_recordsFrom]
  · intro id hid
    rw [← length_preorder] at hid
    have hpart : tree.preorder[id]? = some tree.preorder[id] := List.getElem?_eq_getElem hid
    refine ⟨recordAt id tree.preorder[id], tree.preorder[id], ?_, ?_⟩
    · rw [getElem?_flatten, hpart, Option.map_some]
    · rw [visited_singleton]
      exact describes_recordAt hpart
  · rw [flatten_eq]
    exact children_recordsFrom_perm tree 0

end SyntaxMining.Tree
