import SyntaxMining.Proofs.Tree.Origin

/-!
# Nodes that span their tokens

A node spans its tokens when its span runs from the start of the first leaf with a token to the end
of the last one, and when it has no span in case there is no such leaf. If all nodes of a tree do,
then so do all nodes of its normal forms: the nodes of a chain have the same leaves, so that each of
them could give the chain its span.
-/

namespace SyntaxMining

/-- The span from the first to the last of some entries; none when there are no entries. -/
inductive IsHull : List Entry → Option Span → Prop where
  | empty : IsHull [] none
  | spanned {entries : List Entry} {first last : Entry} {start stop : Span}
      (head : entries.head? = some first) (tail : entries.getLast? = some last)
      (start_eq : first.span = some start) (stop_eq : last.span = some stop) :
      IsHull entries (some ⟨start.start, stop.stop⟩)

theorem IsHull.singleton {leaf : Entry} {span : Option Span} (h : IsHull [leaf] span) :
    span = leaf.span := by
  cases h with
  | spanned head tail start_eq stop_eq =>
    obtain rfl : leaf = _ := by simpa using head
    obtain rfl : leaf = _ := by simpa using tail
    obtain rfl := Option.some.inj (start_eq.symm.trans stop_eq)
    exact start_eq.symm

/-- Hulls depend on nothing but the spans of the entries. -/
theorem IsHull.congr {entries others : List Entry} {span : Option Span} (h : IsHull entries span)
    (heq : entries.map Entry.span = others.map Entry.span) : IsHull others span := by
  cases h with
  | empty =>
    obtain rfl : others = [] := by simpa using heq.symm
    exact .empty
  | @spanned entries first last start stop head tail start_eq stop_eq =>
    have hhead : others.head?.map Entry.span = some (some start) := by
      rw [← List.head?_map, ← heq, List.head?_map, head, Option.map_some, start_eq]
    have htail : others.getLast?.map Entry.span = some (some stop) := by
      rw [← List.getLast?_map, ← heq, List.getLast?_map, tail, Option.map_some, stop_eq]
    obtain ⟨other, hother, hstart⟩ := Option.map_eq_some_iff.mp hhead
    obtain ⟨final, hfinal, hstop⟩ := Option.map_eq_some_iff.mp htail
    exact .spanned hother hfinal hstart hstop

namespace Tree

/-! ## Leaves with tokens -/

/-- Leaves that carry a token, in pre-order. -/
def tokenLeaves (tree : SyntaxTree) : List Entry :=
  tree.leaves.filter fun leaf ↦ leaf.token.isSome

theorem tokenLeaves_leaf_of_some {entry : Entry} (h : entry.token.isSome) :
    (node entry []).tokenLeaves = [entry] := by
  rw [tokenLeaves, leaves_leaf, List.filter_singleton, h, cond_true]

theorem tokenLeaves_leaf_of_none {entry : Entry} (h : entry.token = none) :
    (node entry []).tokenLeaves = [] := by
  rw [tokenLeaves, leaves_leaf, List.filter_singleton, h, Option.isSome_none, cond_false]

theorem tokenLeaves_node_of_ne_nil (entry : Entry) {children : List SyntaxTree}
    (h : children ≠ []) : (node entry children).tokenLeaves = children.flatMap tokenLeaves := by
  rw [tokenLeaves, leaves_node_of_ne_nil entry h, List.filter_flatMap]
  rfl

theorem tokenLeaves_chainEnd (tree : SyntaxTree) :
    tree.chainEnd.tokenLeaves = tree.tokenLeaves := by
  rw [tokenLeaves, leaves_chainEnd, tokenLeaves]

/-! ## Spanning the tokens -/

/-- Every node spans its tokens. -/
def SpansTokens (tree : SyntaxTree) : Prop :=
  ∀ part ∈ tree.preorder, IsHull part.tokenLeaves part.value.span

theorem spansTokens_node {entry : Entry} {children : List SyntaxTree} :
    (node entry children).SpansTokens ↔
      IsHull (node entry children).tokenLeaves entry.span ∧
        ∀ child ∈ children, child.SpansTokens := by
  simp only [SpansTokens, preorder_node, List.forall_mem_cons, value_node, List.mem_flatMap,
    forall_exists_index, and_imp]
  tauto

theorem SpansTokens.of_mem_preorder {tree part : SyntaxTree} (h : tree.SpansTokens)
    (hpart : part ∈ tree.preorder) : part.SpansTokens :=
  fun _ hinner ↦ h _ (mem_preorder_trans hpart hinner)

/-- The node that gives a chain its span spans the tokens of the chain. -/
theorem SpansTokens.isHull_originPart {tree : SyntaxTree} (h : tree.SpansTokens) (mode : Mode) :
    IsHull tree.tokenLeaves (mode.originPart tree).value.span := by
  have hhull := h _ (mode.originPart_mem_preorder tree)
  rwa [tokenLeaves, mode.leaves_originPart, ← tokenLeaves] at hhull

/-- A chain that ends in a leaf leaves that leaf behind, with the same span if it has a token. -/
theorem SpansTokens.map_span_of_leaf {tree : SyntaxTree} (h : tree.SpansTokens) (mode : Mode)
    (hleaf : tree.chainEnd.children = []) :
    (tree.normalize mode).tokenLeaves.map Entry.span = tree.tokenLeaves.map Entry.span := by
  have hnormal : tree.normalize mode = node (mode.merge tree.chain) [] := by
    rw [normalize_eq, hleaf, List.map_nil]
  have htoken : (mode.merge tree.chain).token = tree.chainEnd.value.token :=
    mode.token_merge tree.getLast?_chain
  have hend : tree.tokenLeaves = (node tree.chainEnd.value []).tokenLeaves := by
    rw [← hleaf, node_value_children, tokenLeaves_chainEnd]
  cases hsome : tree.chainEnd.value.token with
  | none =>
    rw [hnormal, hend, tokenLeaves_leaf_of_none hsome,
      tokenLeaves_leaf_of_none (htoken.trans hsome)]
  | some token =>
    have hisSome : tree.chainEnd.value.token.isSome := by rw [hsome, Option.isSome_some]
    have hhull := h.isHull_originPart mode
    rw [hend, tokenLeaves_leaf_of_some hisSome] at hhull
    have hspan : (mode.merge tree.chain).span = tree.chainEnd.value.span := by
      rw [mode.span_merge (mode.origin?_chain tree), hhull.singleton]
    rw [hnormal, hend, tokenLeaves_leaf_of_some hisSome,
      tokenLeaves_leaf_of_some (htoken ▸ hisSome), List.map_singleton, List.map_singleton, hspan]

/-- Where all nodes span their tokens, leaves with tokens keep their spans. -/
theorem SpansTokens.map_span_tokenLeaves {tree : SyntaxTree} (h : tree.SpansTokens) (mode : Mode) :
    (tree.normalize mode).tokenLeaves.map Entry.span = tree.tokenLeaves.map Entry.span := by
  induction tree using inductionOnChains with
  | chain tree ih =>
    by_cases hleaf : tree.chainEnd.children = []
    · exact h.map_span_of_leaf mode hleaf
    · have hbelow (below : SyntaxTree) (hmem : below ∈ tree.chainEnd.children) :
          (below.normalize mode).tokenLeaves.map Entry.span = below.tokenLeaves.map Entry.span :=
        ih below hmem (h.of_mem_preorder (mem_preorder_trans tree.chainEnd_mem_preorder
          (mem_preorder_of_mem_children hmem below.self_mem_preorder)))
      calc
        (tree.normalize mode).tokenLeaves.map Entry.span =
            tree.chainEnd.children.flatMap fun below ↦
              (below.normalize mode).tokenLeaves.map Entry.span := by
          rw [normalize_eq, tokenLeaves_node_of_ne_nil _ (by simpa using hleaf), List.flatMap_map,
            List.map_flatMap]
        _ = tree.chainEnd.children.flatMap fun below ↦ below.tokenLeaves.map Entry.span :=
          List.flatMap_congr hbelow
        _ = tree.tokenLeaves.map Entry.span := by
          rw [← List.map_flatMap, ← tokenLeaves_node_of_ne_nil tree.chainEnd.value hleaf,
            node_value_children, tokenLeaves_chainEnd]

/-- Whichever way chains are removed, nodes go on spanning their tokens. -/
theorem SpansTokens.normalize {tree : SyntaxTree} (h : tree.SpansTokens) (mode : Mode) :
    (tree.normalize mode).SpansTokens := by
  intro part hpart
  obtain ⟨start, hstart, rfl⟩ := exists_eq_normalize hpart
  have hspans := h.of_mem_preorder hstart
  rw [span_normalize]
  exact (hspans.isHull_originPart mode).congr (hspans.map_span_tokenLeaves mode).symm

end Tree

end SyntaxMining
