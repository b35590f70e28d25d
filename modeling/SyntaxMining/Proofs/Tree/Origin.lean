import SyntaxMining.Proofs.Tree.Leaves

/-!
# Where spans come from

What is left of a chain has its span from one end of the chain: from the first node when the chain
is folded, from the last one when it is cut down. The nodes that give spans stand to each other as
the nodes that are left do: what gives a node its span lies below what gives its ancestors theirs.
-/

namespace SyntaxMining

namespace Mode

variable {α β : Type}

/-- The node of a chain that gives the merged node its span. -/
def origin? : Mode → List α → Option α
  | compress => List.head?
  | simplify => List.getLast?

theorem origin?_map (mode : Mode) (f : α → β) (chain : List α) :
    mode.origin? (chain.map f) = (mode.origin? chain).map f := by
  cases mode with
  | compress => exact List.head?_map
  | simplify => exact List.getLast?_map

theorem span_merge (mode : Mode) {entries : List Entry} {origin : Entry}
    (h : mode.origin? entries = some origin) : (mode.merge entries).span = origin.span := by
  cases mode with
  | compress =>
    have hhead : entries.head? = some origin := h
    rw [merge, Entry.ofChain, hhead, Option.bind_some]
  | simplify =>
    have hlast : entries.getLast? = some origin := h
    rw [merge, Entry.innermost, hlast, Option.getD_some]

/-- The part of a tree whose root gives the merged chain of the tree's root its span. -/
def originPart : Mode → Tree α → Tree α
  | compress, tree => tree
  | simplify, tree => tree.chainEnd

theorem originPart_mem_preorder (mode : Mode) (tree : Tree α) :
    mode.originPart tree ∈ tree.preorder := by
  cases mode with
  | compress => exact tree.self_mem_preorder
  | simplify => exact tree.chainEnd_mem_preorder

theorem origin?_chain (mode : Mode) (tree : Tree α) :
    mode.origin? tree.chain = some (mode.originPart tree).value := by
  cases mode with
  | compress => exact tree.head?_chain
  | simplify => exact tree.getLast?_chain

theorem leaves_originPart (mode : Mode) (tree : Tree α) :
    (mode.originPart tree).leaves = tree.leaves := by
  cases mode with
  | compress => rfl
  | simplify => exact tree.leaves_chainEnd

end Mode

namespace Tree

variable {α : Type}

/-- Each part of the tree of chains gets its span from below what gives the root its span. -/
theorem exists_origin_of_mem_chains (mode : Mode) {tree : Tree α} {part : Tree (List α)}
    (h : part ∈ tree.chains.preorder) :
    ∃ start ∈ tree.preorder, part = start.chains ∧
      mode.originPart start ∈ (mode.originPart tree).preorder := by
  rw [chains_eq, preorder_node, List.flatMap_map] at h
  rcases List.mem_cons.mp h with rfl | hbelow
  · exact ⟨tree, tree.self_mem_preorder, (chains_eq tree).symm, self_mem_preorder _⟩
  · obtain ⟨below, hchild, hin⟩ := List.mem_flatMap.mp hbelow
    obtain ⟨start, hstart, rfl⟩ := exists_eq_chains hin
    have hend : start ∈ tree.chainEnd.preorder := mem_preorder_of_mem_children hchild hstart
    have htree : start ∈ tree.preorder := mem_preorder_trans tree.chainEnd_mem_preorder hend
    refine ⟨start, htree, rfl, ?_⟩
    cases mode with
    | compress => exact htree
    | simplify => exact mem_preorder_trans hend start.chainEnd_mem_preorder

/-- What holds between a node and its children, and can be chained, holds between a node and
everything below it. -/
theorem rel_of_mem_preorder {related : α → α → Prop} (hrefl : ∀ value, related value value)
    (htrans : ∀ {outer middle inner}, related outer middle → related middle inner →
      related outer inner) {tree inner : Tree α}
    (h : ∀ part ∈ tree.preorder, ∀ child ∈ part.children, related part.value child.value)
    (hinner : inner ∈ tree.preorder) : related tree.value inner.value := by
  induction tree with
  | node value children ih =>
    rw [preorder_node] at hinner
    rcases List.mem_cons.mp hinner with rfl | hbelow
    · exact hrefl value
    · obtain ⟨child, hchild, hin⟩ := List.mem_flatMap.mp hbelow
      have hfirst := h _ (self_mem_preorder _) child hchild
      refine htrans hfirst (ih child hchild ?_ hin)
      intro part hpart
      exact h part (mem_preorder_of_mem_children hchild hpart)

/-! ## Normal forms -/

/-- A normal form is what is left of the root's chain, over the normal forms of what follows it. -/
theorem normalize_eq (mode : Mode) (tree : SyntaxTree) :
    tree.normalize mode =
      node (mode.merge tree.chain) (tree.chainEnd.children.map (normalize mode)) := by
  cases mode with
  | compress => exact compress_eq tree
  | simplify =>
    rw [Mode.merge, Entry.innermost, getLast?_chain, Option.getD_some]
    exact simplify_eq tree

theorem span_normalize (mode : Mode) (tree : SyntaxTree) :
    (tree.normalize mode).value.span = (mode.originPart tree).value.span := by
  rw [normalize_eq, value_node, mode.span_merge (mode.origin?_chain tree)]

/-- Every part of a normal form is the normal form of a part. -/
theorem exists_eq_normalize {mode : Mode} {tree part : SyntaxTree}
    (h : part ∈ (tree.normalize mode).preorder) :
    ∃ start ∈ tree.preorder, part = start.normalize mode := by
  rw [normalize_eq_map_chains, preorder_map] at h
  obtain ⟨chains, hchains, rfl⟩ := List.mem_map.mp h
  obtain ⟨start, hstart, rfl⟩ := exists_eq_chains hchains
  exact ⟨start, hstart, (normalize_eq_map_chains mode start).symm⟩

end Tree

end SyntaxMining
