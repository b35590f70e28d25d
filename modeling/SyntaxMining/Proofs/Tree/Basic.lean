import Mathlib.Data.List.Forall2
import SyntaxMining.Tree.Normalize
import SyntaxMining.Tree.Tokens

/-!
# Induction on trees

Definitions on trees recurse through lists of children in a companion function. Each companion is
identified with the list operation it stands for, so that later proofs use one induction principle
whose hypothesis speaks of all children at once.
-/

namespace SyntaxMining

variable {α β γ : Type}

/-- Lists that agree under two maps agree item by item. -/
theorem forall₂_iff_map_eq {f : α → γ} {g : β → γ} {left : List α} {right : List β} :
    List.Forall₂ (fun a b ↦ f a = g b) left right ↔ left.map f = right.map g := by
  rw [← List.forall₂_eq_eq_eq, List.forall₂_map_left_iff, List.forall₂_map_right_iff]

theorem rel_head? {related : α → β → Prop} {left : List α} {right : List β}
    (h : List.Forall₂ related left right) : Option.Rel related left.head? right.head? := by
  cases h with
  | nil => exact .none
  | cons hfirst _ => exact .some hfirst

theorem rel_getLast? {related : α → β → Prop} {left : List α} {right : List β}
    (h : List.Forall₂ related left right) : Option.Rel related left.getLast? right.getLast? := by
  rw [← List.head?_reverse, ← List.head?_reverse]
  exact rel_head? (List.rel_reverse h)

theorem exists_of_rel_some {related : α → β → Prop} {item : α} {found : Option β}
    (h : Option.Rel related (some item) found) :
    ∃ partner, found = some partner ∧ related item partner := by
  cases h with
  | some hrelated => exact ⟨_, rfl, hrelated⟩

/-- Related lists have a partner for each item. -/
theorem exists_partner_of_mem {related : α → β → Prop} {left : List α} {right : List β}
    (h : List.Forall₂ related left right) {item : β} (hitem : item ∈ right) :
    ∃ partner ∈ left, related partner item := by
  induction h with
  | nil => simp at hitem
  | @cons first second rest others hfirst _ ih =>
    rcases List.mem_cons.mp hitem with rfl | hlater
    · exact ⟨first, List.mem_cons_self, hfirst⟩
    · obtain ⟨partner, hpartner, hrelated⟩ := ih hlater
      exact ⟨partner, List.mem_cons_of_mem first hpartner, hrelated⟩

namespace Tree

@[elab_as_elim, induction_eliminator]
theorem inductionOnChildren {motive : Tree α → Prop}
    (node : ∀ value children, (∀ child ∈ children, motive child) → motive (node value children)) :
    ∀ tree, motive tree
  | .node value children => node value children fun child _ ↦ inductionOnChildren node child

theorem node_value_children (tree : Tree α) : node tree.value tree.children = tree := by
  cases tree with
  | node value children => rfl

theorem size_node (value : α) (children : List (Tree α)) :
    (node value children).size = sizeAll children + 1 := by
  rw [size]

theorem size_pos (tree : Tree α) : 0 < tree.size := by
  cases tree with
  | node value children => simp [size_node]

theorem size_le_sizeAll {tree : Tree α} {trees : List (Tree α)} (h : tree ∈ trees) :
    tree.size ≤ sizeAll trees := by
  induction trees with
  | nil => simp at h
  | cons other rest ih =>
    rw [sizeAll]
    rcases List.mem_cons.mp h with rfl | hrest
    · exact Nat.le_add_right _ _
    · exact Nat.le_add_left_of_le (ih hrest)

/-! ## Mapped trees -/

theorem mapAll_eq_map (f : α → β) (trees : List (Tree α)) : mapAll f trees = trees.map (map f) := by
  induction trees with
  | nil => rfl
  | cons tree rest ih => rw [mapAll, ih, List.map_cons]

@[simp]
theorem map_node (f : α → β) (value : α) (children : List (Tree α)) :
    (node value children).map f = node (f value) (children.map (map f)) := by
  rw [map, mapAll_eq_map]

@[simp]
theorem value_map (f : α → β) (tree : Tree α) : (tree.map f).value = f tree.value := by
  cases tree with
  | node value children => simp

@[simp]
theorem children_map (f : α → β) (tree : Tree α) :
    (tree.map f).children = tree.children.map (map f) := by
  cases tree with
  | node value children => simp

@[simp]
theorem map_id (tree : Tree α) : tree.map id = tree := by
  induction tree with
  | node value children ih => simpa using List.map_congr_left ih

theorem map_map (f : α → β) (g : β → γ) (tree : Tree α) :
    (tree.map f).map g = tree.map (g ∘ f) := by
  induction tree with
  | node value children ih => simpa using ih

theorem map_injective {f : α → β} (h : Function.Injective f) : Function.Injective (map f) := by
  intro left right heq
  have : Nonempty α := ⟨left.value⟩
  have hback := congrArg (map (Function.invFun f)) heq
  rwa [map_map, map_map, Function.invFun_comp h, map_id, map_id] at hback

/-! ## Nodes in pre-order -/

theorem preorderAll_eq_flatMap (trees : List (Tree α)) :
    preorderAll trees = trees.flatMap preorder := by
  induction trees with
  | nil => rfl
  | cons tree rest ih => rw [preorderAll, ih, List.flatMap_cons]

theorem preorder_node (value : α) (children : List (Tree α)) :
    (node value children).preorder = node value children :: children.flatMap preorder := by
  rw [preorder, preorderAll_eq_flatMap]

theorem self_mem_preorder (tree : Tree α) : tree ∈ tree.preorder := by
  cases tree with
  | node value children => simp [preorder_node]

theorem mem_preorder_of_mem_children {tree child part : Tree α} (hchild : child ∈ tree.children)
    (hpart : part ∈ child.preorder) : part ∈ tree.preorder := by
  cases tree with
  | node value children =>
    rw [preorder_node]
    exact List.mem_cons_of_mem _ (List.mem_flatMap.mpr ⟨child, hchild, hpart⟩)

theorem mem_preorder_trans {tree middle part : Tree α} (hmiddle : middle ∈ tree.preorder)
    (hpart : part ∈ middle.preorder) : part ∈ tree.preorder := by
  induction tree with
  | node value children ih =>
    rw [preorder_node] at hmiddle
    rcases List.mem_cons.mp hmiddle with rfl | hbelow
    · exact hpart
    · obtain ⟨child, hchild, hin⟩ := List.mem_flatMap.mp hbelow
      exact mem_preorder_of_mem_children hchild (ih child hchild hin)

theorem preorder_map (f : α → β) (tree : Tree α) :
    (tree.map f).preorder = tree.preorder.map (map f) := by
  induction tree with
  | node value children ih =>
    rw [map_node, preorder_node, preorder_node, List.map_cons, map_node, List.flatMap_map,
      List.map_flatMap]
    congr 1
    exact List.flatMap_congr ih

/-- Values of all nodes in pre-order. -/
def values (tree : Tree α) : List α :=
  tree.preorder.map value

theorem values_node (value : α) (children : List (Tree α)) :
    (node value children).values = value :: children.flatMap values := by
  rw [values, preorder_node, List.map_cons, List.map_flatMap]
  rfl

theorem values_map (f : α → β) (tree : Tree α) : (tree.map f).values = tree.values.map f := by
  rw [values, preorder_map, values, List.map_map, List.map_map]
  exact List.map_congr_left fun part _ ↦ part.value_map f

/-- A tree is mapped alike by functions that agree on its values. -/
theorem map_congr_left {f g : α → β} {tree : Tree α}
    (h : ∀ value ∈ tree.values, f value = g value) : tree.map f = tree.map g := by
  induction tree with
  | node value children ih =>
    rw [values_node, List.forall_mem_cons] at h
    obtain ⟨hvalue, hbelow⟩ := h
    rw [map_node, map_node, hvalue]
    congr 1
    refine List.map_congr_left fun child hchild ↦ ih child hchild ?_
    exact fun other hother ↦ hbelow other (List.mem_flatMap.mpr ⟨child, hchild, hother⟩)

theorem value_mem_values (tree : Tree α) : tree.value ∈ tree.values := by
  cases tree with
  | node value children => simp [values_node]

theorem mem_values_of_mem_preorder {tree part : Tree α} (h : part ∈ tree.preorder) :
    part.value ∈ tree.values :=
  List.mem_map_of_mem h

/-- The nodes of a part stand in the order in which they stand in the tree. -/
theorem values_sublist_of_mem_preorder {tree part : Tree α} (h : part ∈ tree.preorder) :
    part.values.Sublist tree.values := by
  induction tree with
  | node value children ih =>
    rw [preorder_node] at h
    rcases List.mem_cons.mp h with rfl | hbelow
    · exact List.Sublist.refl _
    · obtain ⟨child, hchild, hin⟩ := List.mem_flatMap.mp hbelow
      rw [values_node]
      refine ((ih child hchild hin).trans ?_).cons value
      rw [List.flatMap_def]
      exact List.sublist_flatten_of_mem (List.mem_map_of_mem hchild)

theorem length_flatMap_values {trees : List (Tree α)}
    (h : ∀ tree ∈ trees, tree.values.length = tree.size) :
    (trees.flatMap values).length = sizeAll trees := by
  induction trees with
  | nil => rfl
  | cons tree rest ih =>
    have hrest := ih fun other hother ↦ h other (List.mem_cons_of_mem tree hother)
    rw [List.flatMap_cons, List.length_append, h tree (by simp), hrest, sizeAll]

theorem length_values (tree : Tree α) : tree.values.length = tree.size := by
  induction tree with
  | node value children ih =>
    rw [values_node, size_node, List.length_cons, length_flatMap_values ih]

/-! ## Trees of one shape -/

/-- A tree of pairs whose two sides agree under two maps. -/
structure Pairs (f : α → γ) (g : β → γ) (left : Tree α) (right : Tree β) (pairs : Tree (α × β)) :
    Prop where
  left_eq : pairs.map Prod.fst = left
  right_eq : pairs.map Prod.snd = right
  agree : ∀ pair ∈ pairs.values, f pair.1 = g pair.2

theorem Pairs.node {f : α → γ} {g : β → γ} {value : α} {other : β} {lefts : List (Tree α)}
    {rights : List (Tree β)} {pairs : List (Tree (α × β))} (hvalue : f value = g other)
    (hleft : pairs.map (map Prod.fst) = lefts) (hright : pairs.map (map Prod.snd) = rights)
    (hagree : ∀ tree ∈ pairs, ∀ pair ∈ tree.values, f pair.1 = g pair.2) :
    Pairs f g (.node value lefts) (.node other rights) (.node (value, other) pairs) where
  left_eq := by rw [map_node, hleft]
  right_eq := by rw [map_node, hright]
  agree := by
    intro pair hpair
    rw [values_node] at hpair
    rcases List.mem_cons.mp hpair with rfl | hbelow
    · exact hvalue
    · obtain ⟨tree, htree, hin⟩ := List.mem_flatMap.mp hbelow
      exact hagree tree htree pair hin

/-- Trees that agree under two maps are the two sides of one tree of pairs. -/
theorem exists_pairs {f : α → γ} {g : β → γ} {left : Tree α} {right : Tree β}
    (h : left.map f = right.map g) : ∃ pairs, Pairs f g left right pairs := by
  induction left generalizing right with
  | node value children ih =>
    obtain ⟨other, others⟩ := right
    rw [map_node, map_node, node.injEq] at h
    obtain ⟨hvalue, hchildren⟩ := h
    have hall : ∃ pairs : List (Tree (α × β)), pairs.map (map Prod.fst) = children ∧
        pairs.map (map Prod.snd) = others ∧
          ∀ tree ∈ pairs, ∀ pair ∈ tree.values, f pair.1 = g pair.2 := by
      induction children generalizing others with
      | nil =>
        obtain rfl : others = [] := by simpa using hchildren.symm
        exact ⟨[], rfl, rfl, by simp⟩
      | cons child rest ihRest =>
        cases others with
        | nil => simp at hchildren
        | cons next others =>
          obtain ⟨hfirst, hrest⟩ := List.cons.inj hchildren
          obtain ⟨pair, hpair⟩ := ih child (by simp) hfirst
          obtain ⟨pairs, hlefts, hrights, hpairs⟩ :=
            ihRest (fun tree htree _ ↦ ih tree (List.mem_cons_of_mem child htree)) others hrest
          refine ⟨pair :: pairs, by rw [List.map_cons, hpair.left_eq, hlefts],
            by rw [List.map_cons, hpair.right_eq, hrights], ?_⟩
          intro tree htree
          rcases List.mem_cons.mp htree with rfl | hlater
          · exact hpair.agree
          · exact hpairs tree hlater
    obtain ⟨pairs, hlefts, hrights, hpairs⟩ := hall
    exact ⟨.node (value, other) pairs, .node hvalue hlefts hrights hpairs⟩

/-! ## Normal forms and leaf tokens by children -/

theorem compressAll_eq_map (trees : List SyntaxTree) : compressAll trees = trees.map compress := by
  induction trees with
  | nil => rfl
  | cons tree rest ih => rw [compressAll, ih, List.map_cons]

theorem simplifyAll_eq_map (trees : List SyntaxTree) : simplifyAll trees = trees.map simplify := by
  induction trees with
  | nil => rfl
  | cons tree rest ih => rw [simplifyAll, ih, List.map_cons]

theorem compress_node (entry : Entry) (children : List SyntaxTree) :
    (node entry children).compress = foldChain entry (children.map compress) := by
  rw [compress, compressAll_eq_map]

theorem simplify_node (entry : Entry) (children : List SyntaxTree) :
    (node entry children).simplify = dropChain entry (children.map simplify) := by
  rw [simplify, simplifyAll_eq_map]

theorem leafTokensAll_eq_flatMap (trees : List SyntaxTree) :
    leafTokensAll trees = trees.flatMap leafTokens := by
  induction trees with
  | nil => rfl
  | cons tree rest ih => rw [leafTokensAll, ih, List.flatMap_cons]

theorem leafTokens_node_of_ne_nil (entry : Entry) {children : List SyntaxTree}
    (h : children ≠ []) : (node entry children).leafTokens = children.flatMap leafTokens := by
  cases children with
  | nil => exact absurd rfl h
  | cons child rest => rw [leafTokens, leafTokensAll_eq_flatMap, List.flatMap_cons]

end Tree

end SyntaxMining
