import SyntaxMining.Proofs.Tree.Chain

/-!
# Leaves of a tree

The leaves in pre-order are found from child to child. Removing chains keeps them: each leaf of the
tree of chains is a chain that ends in a leaf of the tree, in the same order. The text of a syntax
tree is what its leaves carry.
-/

namespace SyntaxMining.Tree

variable {α β : Type}

/-- Values of the leaves in pre-order. -/
def leaves (tree : Tree α) : List α :=
  (tree.preorder.filter isLeaf).map value

theorem leaves_leaf (value : α) : (node value []).leaves = [value] := by
  rw [leaves, preorder_node]
  rfl

theorem leaves_node_of_ne_nil (value : α) {children : List (Tree α)} (h : children ≠ []) :
    (node value children).leaves = children.flatMap leaves := by
  have hinner : (node value children).isLeaf = false := by simpa [isLeaf] using h
  rw [leaves, preorder_node, List.filter_cons_of_neg (by simp [hinner]), List.filter_flatMap,
    List.map_flatMap]
  rfl

@[simp]
theorem isLeaf_map (f : α → β) (tree : Tree α) : (tree.map f).isLeaf = tree.isLeaf := by
  rw [isLeaf, children_map, List.isEmpty_map, isLeaf]

theorem leaves_map (f : α → β) (tree : Tree α) : (tree.map f).leaves = tree.leaves.map f := by
  rw [leaves, preorder_map, List.filter_map, leaves, List.map_map, List.map_map]
  simp only [Function.comp_def, isLeaf_map, value_map]

/-- Leaves that are known by their value are met by going through all values. -/
theorem leaves_eq_filter_values {tree : Tree α} {accept : α → Bool}
    (h : ∀ part ∈ tree.preorder, part.isLeaf = accept part.value) :
    tree.leaves = tree.values.filter accept := by
  rw [leaves, values, List.filter_map]
  congr 1
  exact List.filter_congr h

/-! ## Leaves and chains -/

theorem leaves_chainEnd (tree : Tree α) : tree.chainEnd.leaves = tree.leaves := by
  induction tree using inductionAlongChain with
  | only value child ih =>
    rw [chainEnd_only, ih, leaves_node_of_ne_nil value (by simp), List.flatMap_singleton]
  | stop value children h => rw [chainEnd_stop value h]

/-- The leaves of the tree of chains are the chains that end in the leaves. -/
theorem map_getLast?_leaves_chains (tree : Tree α) :
    tree.chains.leaves.map List.getLast? = tree.leaves.map some := by
  induction tree using inductionOnChains with
  | chain tree ih =>
    rw [← leaves_chainEnd tree, chains_eq, ← node_value_children tree.chainEnd, children_node]
    by_cases hleaf : tree.chainEnd.children = []
    · rw [hleaf, List.map_nil, leaves_leaf, leaves_leaf, List.map_singleton, getLast?_chain,
        List.map_singleton]
    · rw [leaves_node_of_ne_nil _ (by simpa using hleaf), leaves_node_of_ne_nil _ hleaf,
        List.flatMap_map, List.map_flatMap, List.map_flatMap]
      exact List.flatMap_congr ih

/-- Every part of the tree of chains is the tree of chains of a part. -/
theorem exists_eq_chains {tree : Tree α} {part : Tree (List α)} (h : part ∈ tree.chains.preorder) :
    ∃ start ∈ tree.preorder, part = start.chains := by
  induction tree using inductionOnChains with
  | chain tree ih =>
    rw [chains_eq, preorder_node, List.flatMap_map] at h
    rcases List.mem_cons.mp h with rfl | hin
    · exact ⟨tree, tree.self_mem_preorder, by rw [chains_eq tree]⟩
    · obtain ⟨below, hbelow, hin⟩ := List.mem_flatMap.mp hin
      obtain ⟨start, hstart, rfl⟩ := ih below hbelow hin
      exact ⟨start, mem_preorder_trans tree.chainEnd_mem_preorder
        (mem_preorder_of_mem_children hbelow hstart), rfl⟩

/-- A property of the parts that decides whether they are leaves does so at the ends of chains. -/
theorem exists_last_of_mem_chains {tree : Tree α} {accept : α → Bool}
    (h : ∀ part ∈ tree.preorder, part.isLeaf = accept part.value) {part : Tree (List α)}
    (hpart : part ∈ tree.chains.preorder) :
    ∃ last, part.value.getLast? = some last ∧ part.isLeaf = accept last := by
  obtain ⟨start, hstart, rfl⟩ := exists_eq_chains hpart
  refine ⟨start.chainEnd.value, by rw [value_chains, getLast?_chain], ?_⟩
  rw [← h _ (mem_preorder_trans hstart start.chainEnd_mem_preorder), isLeaf, chains_eq,
    children_node, List.isEmpty_map, isLeaf]

/-! ## Text of the leaves -/

theorem leafTokens_eq_map_leaves (tree : SyntaxTree) :
    tree.leafTokens = tree.leaves.map Entry.token := by
  induction tree using inductionOnChildren with
  | node entry children ih =>
    cases children with
    | nil => rw [leafTokens, leaves_leaf, List.map_singleton]
    | cons child rest =>
      rw [leafTokens_node_of_ne_nil entry (List.cons_ne_nil child rest),
        leaves_node_of_ne_nil entry (List.cons_ne_nil child rest), List.map_flatMap]
      exact List.flatMap_congr ih

/-- All nodes of a chain have the text that is found where the chain ends. -/
theorem text_chainEnd (tree : SyntaxTree) : tree.chainEnd.text = tree.text := by
  rw [text_eq_joinTokens, text_eq_joinTokens, leafTokens_eq_map_leaves, leafTokens_eq_map_leaves,
    leaves_chainEnd]

/-- Whichever way chains are removed, the leaves keep their tokens. -/
theorem leafTokens_normalize (mode : Mode) (tree : SyntaxTree) :
    (tree.normalize mode).leafTokens = tree.leafTokens := by
  rw [leafTokens_eq_map_leaves, leafTokens_eq_map_leaves, normalize_eq_map_chains, leaves_map,
    List.map_map]
  -- chain by chain: what is left of a chain has the token of its last node
  have hlasts := forall₂_iff_map_eq.mpr tree.map_getLast?_leaves_chains
  exact forall₂_iff_map_eq.mp (hlasts.imp fun _ _ hlast ↦ mode.token_merge hlast)

theorem text_normalize (mode : Mode) (tree : SyntaxTree) :
    (tree.normalize mode).text = tree.text := by
  rw [text_eq_joinTokens, text_eq_joinTokens, leafTokens_normalize]

theorem joinTokens_map_some (written : String) (texts : List String) :
    joinTokens written (texts.map some) = written ++ String.join texts := by
  induction texts generalizing written with
  | nil => simp [joinTokens]
  | cons text rest ih =>
    have hrest := ih (written ++ text)
    rw [joinTokens] at hrest ⊢
    simpa [String.append_assoc] using hrest

end SyntaxMining.Tree
