import SyntaxMining.Proofs.Forest.Quotient
import SyntaxMining.Proofs.Tree.Leaves

/-!
# Tokens of the leaves

Removing chains drops the tokens of all nodes but the last of each chain. A leaf ends its chain, so
no token of a leaf is dropped, and a node that has become a leaf carries the token of the leaf that
ended its chain: the leaves carry the same tokens in the same order, absent ones included. All nodes
of a chain stand above the same leaves, so each node that is left of a chain has the text that every
node of the chain had.
-/

namespace SyntaxMining.Forest

/-- Tokens of the leaves below a node in pre-order, also where there is none. -/
def leafTokens (forest : Forest) (root : NodeId) : List (Option String) :=
  ((forest.preorder root).filter fun id ↦ Query.isLeaf (⟨forest, id⟩ : Member)).map
    fun id ↦ Query.token (⟨forest, id⟩ : Member)

variable {forest after : Forest} {ids result : Tree NodeId} {root : NodeId} {mode : Mode}

theorem Spans.isLeaf_value (h : forest.Spans ids) :
    Query.isLeaf (⟨forest, ids.value⟩ : Member) = ids.isLeaf := by
  change ((forest.node ids.value).children.map fun id ↦ (⟨forest, id⟩ : Member)).isEmpty = _
  rw [h.links_value, List.isEmpty_map, List.isEmpty_map, Tree.isLeaf]

theorem Spans.leafTokens_eq (h : forest.Spans ids) (hnodup : ids.values.Nodup) :
    forest.leafTokens ids.value = (forest.entries ids).leafTokens := by
  have hleaves : ids.leaves = ids.values.filter fun id ↦ Query.isLeaf (⟨forest, id⟩ : Member) :=
    Tree.leaves_eq_filter_values fun part hpart ↦ (h.of_mem_preorder hpart).isLeaf_value.symm
  rw [leafTokens, h.preorder_eq hnodup, ← hleaves, Tree.leafTokens_eq_map_leaves, entries,
    Tree.leaves_map, List.map_map]
  rfl

theorem Spans.text_eq (h : forest.Spans ids) (hnodup : ids.values.Nodup) :
    Query.text (⟨forest, ids.value⟩ : Member) = (forest.entries ids).text := by
  rw [Query.text, h.subtree_eq hnodup]

/-- All nodes of the chain that starts at a node have the same text. -/
theorem Spans.text_of_mem_chain (h : forest.Spans ids) (hnodup : ids.values.Nodup) {id : NodeId}
    (hid : id ∈ ids.chain) :
    Query.text (⟨forest, id⟩ : Member) = (forest.entries ids).text := by
  obtain ⟨part, hpart, rfl, hend⟩ := Tree.exists_part_of_mem_chain hid
  have hpartNodup := hnodup.sublist (Tree.values_sublist_of_mem_preorder hpart)
  calc
    Query.text (⟨forest, part.value⟩ : Member) = (forest.entries part).text :=
      (h.of_mem_preorder hpart).text_eq hpartNodup
    _ = (forest.entries part.chainEnd).text := by
      rw [← Tree.text_chainEnd, entries, Tree.chainEnd_map, entries]
    _ = (forest.entries ids.chainEnd).text := by rw [hend]
    _ = (forest.entries ids).text := by
      rw [← Tree.text_chainEnd (forest.entries ids), entries, entries, Tree.chainEnd_map]

/-- The normal form of a tree of linked nodes, chain by chain. -/
theorem normalize_entries (mode : Mode) (forest : Forest) (ids : Tree NodeId) :
    (forest.entries ids).normalize mode =
      ids.chains.map fun chain ↦ mode.merge (chain.map fun id ↦ (forest.node id).entry) := by
  rw [Tree.normalize_eq_map_chains, entries, Tree.chains_map, Tree.map_map]
  rfl

/-- What is left of a chain has the text of all nodes of the chain, whichever part of a tree the
chain starts. -/
theorem Spans.text_of_pair (h : forest.Spans ids) (hnodup : ids.values.Nodup)
    (hresult : after.Spans result) (hresultNodup : result.values.Nodup)
    {pairs : Tree (List NodeId × NodeId)}
    (hpairs : Tree.Pairs (fun chain ↦ mode.merge (chain.map fun id ↦ (forest.node id).entry))
      (fun id ↦ (after.node id).entry) ids.chains result pairs)
    {pair : List NodeId × NodeId} (hpair : pair ∈ pairs.values) {id : NodeId} (hid : id ∈ pair.1) :
    Query.text (⟨after, pair.2⟩ : Member) = Query.text (⟨forest, id⟩ : Member) := by
  obtain ⟨part, hpart, rfl⟩ := List.mem_map.mp hpair
  have hleft : part.map Prod.fst ∈ ids.chains.preorder := by
    rw [← hpairs.left_eq, Tree.preorder_map]
    exact List.mem_map_of_mem hpart
  have hright : part.map Prod.snd ∈ result.preorder := by
    rw [← hpairs.right_eq, Tree.preorder_map]
    exact List.mem_map_of_mem hpart
  obtain ⟨start, hstart, hchains⟩ := Tree.exists_eq_chains hleft
  have hentries : after.entries (part.map Prod.snd) = (forest.entries start).normalize mode := by
    rw [normalize_entries, ← hchains, entries, Tree.map_map, Tree.map_map]
    apply Tree.map_congr_left
    intro other hother
    exact (hpairs.agree other ((Tree.values_sublist_of_mem_preorder hpart).subset hother)).symm
  have hchain : part.value.1 = start.chain := by
    rw [← Tree.value_chains, ← hchains, Tree.value_map]
  have hstartNodup := hnodup.sublist (Tree.values_sublist_of_mem_preorder hstart)
  have hrightNodup := hresultNodup.sublist (Tree.values_sublist_of_mem_preorder hright)
  have hafter := (hresult.of_mem_preorder hright).text_eq hrightNodup
  rw [hchain] at hid
  rw [Tree.value_map] at hafter
  rw [hafter, hentries, Tree.text_normalize,
    (h.of_mem_preorder hstart).text_of_mem_chain hstartNodup hid]

/-- Whichever way chains are removed from a tree, the leaves keep their tokens in order, and what is
left of a maximal chain has the text of each node of the chain. -/
theorem rebuild_keeps_leaf_tokens (h : forest.IsTree root) (mode : Mode) :
    ∃ (after : Forest) (result : NodeId) (pairs : Tree (List NodeId × NodeId)),
      rebuild mode forest root = .ok (after, result) ∧
      after.leafTokens result = forest.leafTokens root ∧
      forest.IsQuotient root (pairs.map Prod.fst) ∧
      after.unfold result = pairs.map Prod.snd ∧
      ∀ pair ∈ pairs.values,
        (after.node pair.2).entry = mode.merge (pair.1.map fun id ↦ (forest.node id).entry) ∧
        ∀ id ∈ pair.1,
          Query.text (⟨after, pair.2⟩ : Member) = Query.text (⟨forest, id⟩ : Member) := by
  obtain ⟨ids, rfl, hspans, hnodup⟩ := h
  obtain ⟨after, result, hrebuild, hhangs, hresultNodup, hentries⟩ :=
    exists_rebuild_hangs mode hspans hnodup
  have hresult := hhangs.spans
  obtain ⟨pairs, hpairs⟩ :=
    Tree.exists_pairs ((normalize_entries mode forest ids).symm.trans hentries.symm)
  refine ⟨after, result.value, pairs, hrebuild, ?_, ?_, ?_, ?_⟩
  · rw [hresult.leafTokens_eq hresultNodup, hentries, Tree.leafTokens_normalize,
      hspans.leafTokens_eq hnodup]
  · rw [hpairs.left_eq]
    exact hspans.isQuotient hnodup
  · rw [hpairs.right_eq, hresult.unfold_eq hresultNodup]
  · intro pair hpair
    exact ⟨(hpairs.agree pair hpair).symm, fun id hid ↦
      hspans.text_of_pair hnodup hresult hresultNodup hpairs hpair hid⟩

/-- Tokens above an empty leaf and above a branch, neither of which is the token of a leaf. -/
def tokensAbove : SyntaxTree :=
  .node ⟨⟨"a"⟩, some "x", none⟩ [.node ⟨⟨"b"⟩, some "y", none⟩ [.node ⟨⟨"c"⟩, none, none⟩ []],
    .node ⟨⟨"d"⟩, none, none⟩ [.node ⟨⟨"e"⟩, some "z", none⟩ []]]

/-- The leaf left of the first chain stays empty, and the second one takes over its token. -/
theorem rebuild_keeps_leaf_tokens_tokensAbove :
    let planted := empty.plant none tokensAbove
    planted.1.IsTree planted.2 ∧
      ∀ mode, ∃ (after : Forest) (result : NodeId) (pairs : Tree (List NodeId × NodeId)),
        rebuild mode planted.1 planted.2 = .ok (after, result) ∧
        after.leafTokens result = [none, some "z"] ∧
        planted.1.IsQuotient planted.2 (pairs.map Prod.fst) ∧
        after.unfold result = pairs.map Prod.snd ∧
        ∀ pair ∈ pairs.values, ∀ id ∈ pair.1,
          Query.text (⟨after, pair.2⟩ : Member) = Query.text (⟨planted.1, id⟩ : Member) := by
  intro planted
  have htree : planted.1.IsTree planted.2 := isTree_plant empty none tokensAbove
  refine ⟨htree, ?_⟩
  intro mode
  obtain ⟨after, result, pairs, hrebuild, htokens, hquotient, hnodes, hpairs⟩ :=
    rebuild_keeps_leaf_tokens htree mode
  exact ⟨after, result, pairs, hrebuild, htokens.trans (by decide +kernel), hquotient, hnodes,
    fun pair hpair ↦ (hpairs pair hpair).2⟩

end SyntaxMining.Forest
