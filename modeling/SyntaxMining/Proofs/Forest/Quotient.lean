import Mathlib.Data.List.Nodup
import SyntaxMining.Proofs.Forest.Plant
import SyntaxMining.Proofs.Forest.Rebuild

/-!
# The quotient by maximal chains

A chain of linked nodes is maximal when it starts at the root or below a node that branches, runs
through only children, and ends at a node that branches. Every node below the root lies on exactly
one maximal chain. Compression in place always succeeds, and the nodes of its result are the
maximal chains: each carries the joined labels, the innermost token and the outermost span of its
chain, over the chains that start at the children of its last node.
-/

namespace SyntaxMining.Forest

/-- A node where a chain cannot be continued upwards. -/
def StartsChain (forest : Forest) (root id : NodeId) : Prop :=
  id = root ∨ ∃ above ∈ forest.preorder root,
    id ∈ (forest.node above).children ∧ (forest.node above).children.length ≠ 1

/-- A chain of only children that can be continued neither upwards nor downwards. -/
structure IsMaximalChain (forest : Forest) (root : NodeId) (chain : List NodeId) : Prop where
  starts : ∃ first, chain.head? = some first ∧ forest.StartsChain root first
  links : chain.IsChain fun outer inner ↦ (forest.node outer).children = [inner]
  stops : ∃ last, chain.getLast? = some last ∧ (forest.node last).children.length ≠ 1

/-- The tree of all maximal chains below a root, in the order of their nodes. -/
structure IsQuotient (forest : Forest) (root : NodeId) (chains : Tree (List NodeId)) : Prop where
  mem_iff : ∀ chain, chain ∈ chains.values ↔ forest.IsMaximalChain root chain
  nodup : chains.values.Nodup
  /-- Put one after the other, the chains are the nodes below the root in pre-order. -/
  flatten_eq : chains.values.flatten = forest.preorder root
  /-- Below a chain stand the chains that start at the children of its last node. -/
  below : ∀ part ∈ chains.preorder, ∃ last, part.value.getLast? = some last ∧
    part.children.map (fun child ↦ child.value.head?) = (forest.node last).children.map some

variable {forest : Forest} {ids : Tree NodeId} {root : NodeId}

theorem Spans.length_children (h : forest.Spans ids) :
    (forest.node ids.value).children.length = ids.children.length := by
  rw [h.links_value, List.length_map]

theorem Spans.chainEnd (h : forest.Spans ids) : forest.Spans ids.chainEnd :=
  h.of_mem_preorder ids.chainEnd_mem_preorder

theorem Spans.stops_chain (h : forest.Spans ids) :
    (forest.node ids.chainEnd.value).children.length ≠ 1 := by
  rw [h.chainEnd.length_children]
  exact ids.length_children_chainEnd

theorem exists_chain_eq_cons (ids : Tree NodeId) : ∃ rest, ids.chain = ids.value :: rest :=
  List.head?_eq_some_iff.mp ids.head?_chain

theorem Spans.isChain (h : forest.Spans ids) :
    ids.chain.IsChain fun outer inner ↦ (forest.node outer).children = [inner] := by
  induction ids using Tree.inductionAlongChain with
  | only id child ih =>
    have hchild := ih (h.of_mem_preorder (Tree.mem_preorder_of_mem_children (by simp)
      child.self_mem_preorder))
    have hlinks := h.links_value
    obtain ⟨rest, hrest⟩ := exists_chain_eq_cons child
    rw [Tree.chain_only]
    rw [hrest] at hchild ⊢
    exact List.isChain_cons_cons.mpr ⟨by simpa using hlinks, hchild⟩
  | stop id children hstop => simp [Tree.chain_stop id hstop]

/-- The links determine a chain that runs from a node to where it must stop. -/
theorem Spans.eq_chain (h : forest.Spans ids) {chain : List NodeId}
    (hhead : chain.head? = some ids.value)
    (hlinks : chain.IsChain fun outer inner ↦ (forest.node outer).children = [inner])
    (hstops : ∃ last, chain.getLast? = some last ∧ (forest.node last).children.length ≠ 1) :
    chain = ids.chain := by
  induction ids using Tree.inductionAlongChain generalizing chain with
  | only id child ih =>
    obtain ⟨rest, rfl⟩ := List.head?_eq_some_iff.mp hhead
    have hid : (forest.node id).children = [child.value] := by simpa using h.links_value
    cases rest with
    | nil =>
      obtain ⟨last, hlast, hlength⟩ := hstops
      obtain rfl : id = last := by simpa using hlast
      simp [hid] at hlength
    | cons next rest =>
      obtain ⟨hnext, hrest⟩ := List.isChain_cons_cons.mp hlinks
      obtain rfl : child.value = next := by simpa [hid] using hnext
      rw [Tree.chain_only, Tree.value_node]
      congr 1
      refine ih (h.of_mem_preorder ?_) rfl hrest ?_
      · exact Tree.mem_preorder_of_mem_children (by simp) child.self_mem_preorder
      · simpa using hstops
  | stop id children hstop =>
    obtain ⟨rest, rfl⟩ := List.head?_eq_some_iff.mp hhead
    rw [Tree.chain_stop id hstop]
    cases rest with
    | nil => rfl
    | cons next rest =>
      have hnext := (List.isChain_cons_cons.mp hlinks).1
      have hlength := h.length_children
      simp only [Tree.value_node, Tree.children_node] at hnext hlength
      simp [hnext] at hlength
      exact absurd hlength.symm hstop

/-- Every chain found below a start of a chain is maximal. -/
theorem Spans.isMaximalChain_of_mem (h : forest.Spans ids)
    (hbelow : ∀ id ∈ ids.values, id ∈ forest.preorder root)
    (hstart : forest.StartsChain root ids.value)
    {chain : List NodeId} (hchain : chain ∈ ids.chains.values) :
    forest.IsMaximalChain root chain := by
  induction ids using Tree.inductionOnChains with
  | chain ids ih =>
    rw [Tree.chains_eq, Tree.values_node, List.flatMap_map] at hchain
    rcases List.mem_cons.mp hchain with rfl | hin
    · exact ⟨⟨ids.value, ids.head?_chain, hstart⟩, h.isChain,
        ⟨ids.chainEnd.value, ids.getLast?_chain, h.stops_chain⟩⟩
    · obtain ⟨start, hmem, hin⟩ := List.mem_flatMap.mp hin
      have hpart : start ∈ ids.preorder := Tree.mem_preorder_trans ids.chainEnd_mem_preorder
        (Tree.mem_preorder_of_mem_children hmem start.self_mem_preorder)
      refine ih start hmem (h.of_mem_preorder hpart) ?_ ?_ hin
      · intro id hid
        obtain ⟨part, hpreorder, rfl⟩ := List.mem_map.mp hid
        exact hbelow _ (Tree.mem_values_of_mem_preorder (Tree.mem_preorder_trans hpart hpreorder))
      · refine Or.inr ⟨ids.chainEnd.value, ?_, ?_, h.stops_chain⟩
        · exact hbelow _ (Tree.mem_values_of_mem_preorder ids.chainEnd_mem_preorder)
        · rw [h.chainEnd.links_value]
          exact List.mem_map_of_mem hmem

/-- Every maximal chain is found. -/
theorem Spans.mem_chains (h : forest.Spans ids) (hnodup : ids.values.Nodup) {chain : List NodeId}
    (hchain : forest.IsMaximalChain ids.value chain) : chain ∈ ids.chains.values := by
  obtain ⟨first, hhead, hstart⟩ := hchain.starts
  rcases hstart with rfl | ⟨above, habove, hfirst, hlength⟩
  · rw [h.eq_chain hhead hchain.links hchain.stops, ← Tree.value_chains]
    exact Tree.value_mem_values _
  · rw [h.preorder_eq hnodup] at habove
    obtain ⟨part, hpart, rfl⟩ := List.mem_map.mp habove
    have hspans := h.of_mem_preorder hpart
    rw [hspans.links_value] at hfirst
    obtain ⟨start, hmem, rfl⟩ := List.mem_map.mp hfirst
    have hstartSpans := h.of_mem_preorder (Tree.mem_preorder_trans hpart
      (Tree.mem_preorder_of_mem_children hmem start.self_mem_preorder))
    rw [hstartSpans.eq_chain hhead hchain.links hchain.stops]
    exact Tree.chain_mem_chains hpart (by rwa [← hspans.length_children]) hmem

theorem Spans.isQuotient (h : forest.Spans ids) (hnodup : ids.values.Nodup) :
    forest.IsQuotient ids.value ids.chains := by
  have hpreorder := h.preorder_eq hnodup
  have hmaximal : ∀ chain ∈ ids.chains.values, forest.IsMaximalChain ids.value chain :=
    fun chain hchain ↦ h.isMaximalChain_of_mem (by simp [hpreorder]) (Or.inl rfl) hchain
  refine ⟨fun chain ↦ ⟨hmaximal chain, h.mem_chains hnodup⟩, ?_, ?_, ?_⟩
  · have hflatten : ids.chains.values.flatten.Nodup := by rwa [Tree.flatten_values_chains]
    refine (List.nodup_flatten.mp hflatten).2.imp_of_mem ?_
    rintro chain other hchain - hdisjoint rfl
    obtain ⟨first, hhead, -⟩ := (hmaximal chain hchain).starts
    have hfirst := List.mem_of_head? hhead
    exact hdisjoint hfirst hfirst
  · rw [Tree.flatten_values_chains, hpreorder]
  · clear hnodup hpreorder hmaximal
    induction ids using Tree.inductionOnChains with
    | chain ids ih =>
      intro part hpart
      rw [Tree.chains_eq, Tree.preorder_node, List.flatMap_map] at hpart
      rcases List.mem_cons.mp hpart with rfl | hin
      · refine ⟨ids.chainEnd.value, ids.getLast?_chain, ?_⟩
        rw [h.chainEnd.links_value]
        simp [Function.comp_def, Tree.head?_chain]
      · obtain ⟨start, hmem, hin⟩ := List.mem_flatMap.mp hin
        refine ih start hmem (h.of_mem_preorder ?_) part hin
        exact Tree.mem_preorder_trans ids.chainEnd_mem_preorder
          (Tree.mem_preorder_of_mem_children hmem start.self_mem_preorder)

/-- Compression in place never fails on a tree, and gives its quotient by maximal chains. -/
theorem rebuild_compress_eq_quotient (h : forest.IsTree root) :
    ∃ (after : Forest) (result : NodeId) (chains : Tree (List NodeId)),
      rebuild .compress forest root = .ok (after, result) ∧
      forest.IsQuotient root chains ∧
      (after.preorder result).Nodup ∧
      Query.subtree (⟨after, result⟩ : Member) =
        chains.map (fun chain ↦ Entry.ofChain (chain.map fun id ↦ (forest.node id).entry)) ∧
      ∀ id ∈ after.preorder result, (after.node id).children.length ≠ 1 := by
  obtain ⟨ids, rfl, hspans, hnodup⟩ := h
  obtain ⟨after, result, hrebuild, hrebuilds⟩ := rebuild_eq .compress hspans hnodup
  have hresultSpans := (hrebuilds.hangs result (by simp)).spans
  have hresultNodup : result.values.Nodup := by simpa using hrebuilds.nodup
  have hentries : after.entries result = (forest.entries ids).compress := by
    simpa [Tree.normalize] using hrebuilds.entries
  refine ⟨after, result.value, ids.chains, hrebuild, hspans.isQuotient hnodup, ?_, ?_, ?_⟩
  · rwa [hresultSpans.preorder_eq hresultNodup]
  · rw [hresultSpans.subtree_eq hresultNodup, hentries, Tree.compress_eq_map_chains, entries,
      Tree.chains_map, Tree.map_map]
    rfl
  · intro id hid
    rw [hresultSpans.preorder_eq hresultNodup] at hid
    obtain ⟨part, hpart, rfl⟩ := List.mem_map.mp hid
    have hcompressed : part.map (fun id ↦ (after.node id).entry) ∈
        (forest.entries ids).compress.preorder := by
      rw [← hentries, entries, Tree.preorder_map]
      exact List.mem_map_of_mem hpart
    have hlength := Tree.length_children_of_mem_compress hcompressed
    rw [Tree.children_map, List.length_map] at hlength
    rwa [(hresultSpans.of_mem_preorder hpart).length_children]

/-- A chain that ends in a branch, whose second child is a chain that ends in a token. The result
keeps the outermost spans, the innermost tokens and all labels. -/
theorem rebuild_compress_eq_quotient_of_two_chains :
    let wide : Span := ⟨⟨1, 0⟩, ⟨1, 9⟩⟩
    let narrow : Span := ⟨⟨1, 4⟩, ⟨1, 9⟩⟩
    let planted := empty.plant none
      (.node ⟨⟨"a"⟩, none, wide⟩ [.node ⟨⟨"b"⟩, some "x", narrow⟩
        [.node ⟨⟨"c"⟩, some "y", none⟩ [],
          .node ⟨⟨"d"⟩, none, narrow⟩ [.node ⟨⟨"e"⟩, some "z", wide⟩ []]]])
    planted.1.IsTree planted.2 ∧
      ∃ (after : Forest) (result : NodeId) (chains : Tree (List NodeId)),
        rebuild .compress planted.1 planted.2 = .ok (after, result) ∧
        planted.1.IsQuotient planted.2 chains ∧
        (after.preorder result).Nodup ∧
        Query.subtree (⟨after, result⟩ : Member) =
          chains.map (fun chain ↦ Entry.ofChain (chain.map fun id ↦ (planted.1.node id).entry)) ∧
        (Query.subtree (⟨after, result⟩ : Member)).preorder.map
            (fun part ↦ (part.value, part.children.length)) =
          [(⟨⟨"a|b"⟩, some "x", wide⟩, 2), (⟨⟨"c"⟩, some "y", none⟩, 0),
            (⟨⟨"d|e"⟩, some "z", narrow⟩, 0)] ∧
        ∀ id ∈ after.preorder result, (after.node id).children.length ≠ 1 := by
  intro wide narrow planted
  have htree : planted.1.IsTree planted.2 := isTree_plant _ _ _
  obtain ⟨after, result, chains, hrebuild, hquotient, hnodup, hsubtree, hlength⟩ :=
    rebuild_compress_eq_quotient htree
  have hread : ∀ rebuilt ∈ (rebuild .compress planted.1 planted.2).toOption,
      (Query.subtree (⟨rebuilt.1, rebuilt.2⟩ : Member)).preorder.map
          (fun part ↦ (part.value, part.children.length)) =
        [(⟨⟨"a|b"⟩, some "x", wide⟩, 2), (⟨⟨"c"⟩, some "y", none⟩, 0),
          (⟨⟨"d|e"⟩, some "z", narrow⟩, 0)] := by
    decide +kernel
  exact ⟨htree, after, result, chains, hrebuild, hquotient, hnodup, hsubtree,
    hread (after, result) (by rw [hrebuild]; rfl), hlength⟩

end SyntaxMining.Forest
