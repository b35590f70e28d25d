import SyntaxMining.Proofs.Forest.Quotient

/-!
# Folding and cutting down agree

Compression and simplification of the same linked nodes give two trees over the same maximal
chains. At each chain both carry the token of its last node; compression joins all labels and
takes the span of the first node, simplification keeps label and span of the last.
-/

namespace SyntaxMining

namespace Forest

/-- Whether a chain ends at a node. -/
def branches (forest : Forest) (id : NodeId) : Bool :=
  (forest.node id).children.length != 1

variable {forest : Forest} {ids : Tree NodeId} {root : NodeId}

theorem Spans.branches_value (h : forest.Spans ids) : forest.branches ids.value = ids.branches := by
  rw [branches, h.length_children, Tree.branches]

theorem Spans.filter_branches_preorder (h : forest.Spans ids) (hnodup : ids.values.Nodup) :
    (forest.preorder ids.value).filter forest.branches =
      (ids.preorder.filter Tree.branches).map Tree.value := by
  rw [h.preorder_eq hnodup, Tree.values, List.filter_map]
  congr 1
  apply List.filter_congr
  intro part hpart
  exact (h.of_mem_preorder hpart).branches_value

/-- There are as many maximal chains as nodes where a chain ends. -/
theorem Spans.size_chains (h : forest.Spans ids) (hnodup : ids.values.Nodup) :
    ids.chains.size = ((forest.preorder ids.value).filter forest.branches).length := by
  rw [h.filter_branches_preorder hnodup, ← Tree.length_values, List.length_map,
    ← List.length_map List.getLast?, Tree.map_getLast?_chains, List.length_map]

/-- Compression and simplification, each begun from the same nodes, give trees of one shape: a node
for each maximal chain. -/
theorem rebuild_compress_simplify_agree (h : forest.IsTree root) :
    ∃ (folded cut : Forest) (foldedRoot cutRoot : NodeId) (chains : Tree (List NodeId))
      (foldedEntry cutEntry : List NodeId → Entry),
      rebuild .compress forest root = .ok (folded, foldedRoot) ∧
      rebuild .simplify forest root = .ok (cut, cutRoot) ∧
      forest.IsQuotient root chains ∧
      chains.size = ((forest.preorder root).filter forest.branches).length ∧
      Query.subtree (⟨folded, foldedRoot⟩ : Member) = chains.map foldedEntry ∧
      Query.subtree (⟨cut, cutRoot⟩ : Member) = chains.map cutEntry ∧
      ∀ chain ∈ chains.values, ∃ first last,
        chain.head? = some first ∧ chain.getLast? = some last ∧
        (foldedEntry chain).token = (cutEntry chain).token ∧
        (cutEntry chain).label = (forest.node last).entry.label ∧
        ((foldedEntry chain).label = (cutEntry chain).label ∨ ∃ outer,
          (foldedEntry chain).label.text = outer ++ "|" ++ (cutEntry chain).label.text) ∧
        (foldedEntry chain).span = (forest.node first).entry.span ∧
        (cutEntry chain).span = (forest.node last).entry.span := by
  obtain ⟨ids, rfl, hspans, hnodup⟩ := h
  obtain ⟨folded, foldedIds, hfolded, hfoldedHangs, hfoldedNodup, hfoldedEntries⟩ :=
    exists_rebuild_hangs .compress hspans hnodup
  obtain ⟨cut, cutIds, hcut, hcutHangs, hcutNodup, hcutEntries⟩ :=
    exists_rebuild_hangs .simplify hspans hnodup
  let entriesOf (chain : List NodeId) : List Entry := chain.map fun id ↦ (forest.node id).entry
  have hquotient := hspans.isQuotient hnodup
  refine ⟨folded, cut, foldedIds.value, cutIds.value, ids.chains, Entry.ofChain ∘ entriesOf,
    Entry.innermost ∘ entriesOf, hfolded, hcut, hquotient, hspans.size_chains hnodup, ?_, ?_, ?_⟩
  · rw [hfoldedHangs.spans.subtree_eq hfoldedNodup, hfoldedEntries, Tree.normalize,
      Tree.compress_eq_map_chains, entries, Tree.chains_map, Tree.map_map]
  · rw [hcutHangs.spans.subtree_eq hcutNodup, hcutEntries, Tree.normalize,
      Tree.simplify_eq_map_chains, entries, Tree.chains_map, Tree.map_map]
  · intro chain hchain
    have hmaximal := (hquotient.mem_iff chain).mp hchain
    obtain ⟨first, hfirst, -⟩ := hmaximal.starts
    obtain ⟨last, hlast, -⟩ := hmaximal.stops
    have hhead : (entriesOf chain).head? = some (forest.node first).entry := by
      simp [entriesOf, hfirst]
    have hend : (entriesOf chain).getLast? = some (forest.node last).entry := by
      simp [entriesOf, hlast]
    have hcutEntry : Entry.innermost (entriesOf chain) = (forest.node last).entry := by
      rw [Entry.innermost, hend, Option.getD_some]
    refine ⟨first, last, hfirst, hlast, ?_⟩
    rw [Function.comp_apply, Function.comp_apply, hcutEntry]
    refine ⟨?_, rfl, ?_, ?_, rfl⟩
    · rw [Entry.ofChain, hend, Option.bind_some]
    · exact Label.joined_cases (by rw [List.getLast?_map, hend, Option.map_some])
    · rw [Entry.ofChain, hhead, Option.bind_some]

/-- A chain of two nodes above a leaf and a second chain: three nodes are left of five, whichever
way the chains are removed. -/
theorem rebuild_compress_simplify_agree_of_two_chains :
    let planted := empty.plant none
      (.node ⟨⟨"a"⟩, none, none⟩ [.node ⟨⟨"b"⟩, some "x", none⟩
        [.node ⟨⟨"c"⟩, some "y", none⟩ [],
          .node ⟨⟨"d"⟩, none, none⟩ [.node ⟨⟨"e"⟩, some "z", none⟩ []]]])
    planted.1.IsTree planted.2 ∧
      ∃ (folded cut : Forest) (foldedRoot cutRoot : NodeId) (chains : Tree (List NodeId))
        (foldedEntry cutEntry : List NodeId → Entry),
        rebuild .compress planted.1 planted.2 = .ok (folded, foldedRoot) ∧
        rebuild .simplify planted.1 planted.2 = .ok (cut, cutRoot) ∧ chains.size = 3 ∧
        Query.subtree (⟨folded, foldedRoot⟩ : Member) = chains.map foldedEntry ∧
        Query.subtree (⟨cut, cutRoot⟩ : Member) = chains.map cutEntry := by
  refine ⟨isTree_plant _ _ _, ?_⟩
  obtain ⟨folded, cut, foldedRoot, cutRoot, chains, foldedEntry, cutEntry, hfolded, hcut, -, hsize,
    hfoldedTree, hcutTree, -⟩ :=
    rebuild_compress_simplify_agree (isTree_plant empty none (.node ⟨⟨"a"⟩, none, none⟩
      [.node ⟨⟨"b"⟩, some "x", none⟩ [.node ⟨⟨"c"⟩, some "y", none⟩ [],
        .node ⟨⟨"d"⟩, none, none⟩ [.node ⟨⟨"e"⟩, some "z", none⟩ []]]]))
  exact ⟨folded, cut, foldedRoot, cutRoot, chains, foldedEntry, cutEntry, hfolded, hcut,
    hsize.trans (by decide), hfoldedTree, hcutTree⟩

end Forest

end SyntaxMining
