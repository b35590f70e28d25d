import SyntaxMining.Proofs.Label
import SyntaxMining.Proofs.Tree.Basic

/-!
# Chains of only children

The chain that starts at a node runs down through only children and ends at the first node whose
number of children is not one. Every tree is the tree of its maximal chains: the chain of the root,
above the chains that start at the children of its end. Compression puts one node in the place of
each maximal chain, and the questions asked of a compressed node are answered by the two ends of
its chain.
-/

namespace SyntaxMining

namespace Entry

/-- What a chain is folded into: all labels, the innermost token and the outermost span. -/
def ofChain (entries : List Entry) : Entry where
  label := Label.joined (entries.map label)
  token := entries.getLast?.bind token
  span := entries.head?.bind span

@[simp]
theorem ofChain_singleton (entry : Entry) : ofChain [entry] = entry :=
  rfl

theorem ofChain_cons (outer : Entry) {entries : List Entry} (h : entries ≠ []) :
    ofChain (outer :: entries) =
      ⟨outer.label.fold (ofChain entries).label, (ofChain entries).token, outer.span⟩ := by
  have hlabels : entries.map label ≠ [] := by simpa using h
  rw [ofChain, List.map_cons, Label.joined_cons _ hlabels, List.getLast?_cons_of_ne_nil h]
  rfl

/-- What is left of a chain that is cut down to its innermost node. -/
def innermost (entries : List Entry) : Entry :=
  entries.getLast?.getD default

end Entry

namespace Tree

variable {α β : Type}

/-- Values along the chain that starts at the root. -/
def chain : Tree α → List α
  | node value [child] => value :: child.chain
  | node value _ => [value]

/-- Where the chain that starts at the root ends. -/
def chainEnd : Tree α → Tree α
  | node _ [child] => child.chainEnd
  | tree => tree

/-- A tree is an only child below one more node, or its root ends its own chain. -/
@[elab_as_elim]
theorem inductionAlongChain {motive : Tree α → Prop}
    (only : ∀ value child, motive child → motive (node value [child]))
    (stop : ∀ value children, children.length ≠ 1 → motive (node value children)) (tree : Tree α) :
    motive tree := by
  induction tree with
  | node value children ih =>
    by_cases hone : children.length = 1
    · obtain ⟨child, rfl⟩ := List.length_eq_one_iff.mp hone
      exact only value child (ih child (by simp))
    · exact stop value children hone

@[simp]
theorem chain_only (value : α) (child : Tree α) :
    (node value [child]).chain = value :: child.chain := by
  rw [chain]

@[simp]
theorem chainEnd_only (value : α) (child : Tree α) :
    (node value [child]).chainEnd = child.chainEnd := by
  rw [chainEnd]

theorem chain_stop (value : α) {children : List (Tree α)} (h : children.length ≠ 1) :
    (node value children).chain = [value] := by
  match children with
  | [] => rw [chain]; simp
  | [_] => simp at h
  | _ :: _ :: _ => rw [chain]; simp

theorem chainEnd_stop (value : α) {children : List (Tree α)} (h : children.length ≠ 1) :
    (node value children).chainEnd = node value children := by
  match children with
  | [] => rw [chainEnd]; simp
  | [_] => simp at h
  | _ :: _ :: _ => rw [chainEnd]; simp

theorem chainEnd_eq_self {tree : Tree α} (h : tree.children.length ≠ 1) :
    tree.chainEnd = tree := by
  cases tree with
  | node value children => exact chainEnd_stop value h

theorem length_children_chainEnd (tree : Tree α) : tree.chainEnd.children.length ≠ 1 := by
  induction tree using inductionAlongChain with
  | only value child ih => rwa [chainEnd_only]
  | stop value children h => rwa [chainEnd_stop value h]

theorem head?_chain (tree : Tree α) : tree.chain.head? = some tree.value := by
  induction tree using inductionAlongChain with
  | only value child ih => simp
  | stop value children h => simp [chain_stop value h]

theorem chain_ne_nil (tree : Tree α) : tree.chain ≠ [] := by
  intro h
  have hhead := head?_chain tree
  simp [h] at hhead

theorem getLast?_chain (tree : Tree α) : tree.chain.getLast? = some tree.chainEnd.value := by
  induction tree using inductionAlongChain with
  | only value child ih =>
    rw [chain_only, chainEnd_only, List.getLast?_cons_of_ne_nil (chain_ne_nil child), ih]
  | stop value children h => simp [chain_stop value h, chainEnd_stop value h]

/-- The pre-order meets a chain as one block, before everything below its end. -/
theorem values_eq_chain_append (tree : Tree α) :
    tree.values = tree.chain ++ tree.chainEnd.children.flatMap values := by
  induction tree using inductionAlongChain with
  | only value child ih => simp [values_node, ih]
  | stop value children h => simp [values_node, chain_stop value h, chainEnd_stop value h]

theorem size_lt_of_mem_chainEnd {tree below : Tree α} (h : below ∈ tree.chainEnd.children) :
    below.size < tree.size := by
  induction tree using inductionAlongChain with
  | only value child ih =>
    rw [chainEnd_only] at h
    have hbelow := ih h
    have hchild : child.size ≤ sizeAll [child] := size_le_sizeAll (by simp)
    rw [size_node]
    omega
  | stop value children hstop =>
    rw [chainEnd_stop value hstop, children_node] at h
    have hbelow := size_le_sizeAll h
    rw [size_node]
    omega

/-- Induction from chain to chain: the hypothesis is about the trees below the end of the chain. -/
@[elab_as_elim]
theorem inductionOnChains {motive : Tree α → Prop}
    (chain : ∀ tree, (∀ below ∈ tree.chainEnd.children, motive below) → motive tree) :
    ∀ tree, motive tree := by
  intro tree
  induction hsize : tree.size using Nat.strongRecOn generalizing tree with
  | ind size ih =>
    apply chain tree
    intro below hbelow
    exact ih below.size (hsize ▸ size_lt_of_mem_chainEnd hbelow) below rfl

theorem chainEnd_mem_preorder (tree : Tree α) : tree.chainEnd ∈ tree.preorder := by
  induction tree using inductionAlongChain with
  | only value child ih =>
    rw [chainEnd_only]
    exact mem_preorder_of_mem_children (by simp) ih
  | stop value children h =>
    rw [chainEnd_stop value h]
    exact self_mem_preorder _

/-- The chain that starts at a node of a chain ends where the whole chain ends. -/
theorem exists_part_of_mem_chain {tree : Tree α} {value : α} (h : value ∈ tree.chain) :
    ∃ part ∈ tree.preorder, part.value = value ∧ part.chainEnd = tree.chainEnd := by
  induction tree using inductionAlongChain with
  | only outer child ih =>
    rw [chain_only] at h
    rcases List.mem_cons.mp h with rfl | hinner
    · exact ⟨_, self_mem_preorder _, rfl, rfl⟩
    · obtain ⟨part, hpart, hvalue, hend⟩ := ih hinner
      refine ⟨part, mem_preorder_of_mem_children (by simp) hpart, hvalue, ?_⟩
      rw [hend, chainEnd_only]
  | stop outer children hstop =>
    rw [chain_stop outer hstop] at h
    exact ⟨_, self_mem_preorder _, (List.mem_singleton.mp h).symm, rfl⟩

/-- Whatever branches in a tree is the end of the root's chain or lies below it. -/
theorem eq_chainEnd_or_below {tree part : Tree α} (hpart : part ∈ tree.preorder)
    (hbranches : part.children.length ≠ 1) :
    part = tree.chainEnd ∨ ∃ below ∈ tree.chainEnd.children, part ∈ below.preorder := by
  induction tree using inductionAlongChain with
  | only value child ih =>
    rw [preorder_node, List.flatMap_singleton] at hpart
    rw [chainEnd_only]
    rcases List.mem_cons.mp hpart with rfl | hchild
    · simp at hbranches
    · exact ih hchild
  | stop value children h =>
    rw [preorder_node] at hpart
    rw [chainEnd_stop value h]
    rcases List.mem_cons.mp hpart with rfl | hbelow
    · exact Or.inl rfl
    · exact Or.inr (List.mem_flatMap.mp hbelow)

/-- Whether a chain ends at the root. -/
def branches (tree : Tree α) : Bool :=
  tree.children.length != 1

theorem branches_iff {tree : Tree α} : tree.branches ↔ tree.children.length ≠ 1 :=
  bne_iff_ne

@[simp]
theorem branches_only (value : α) (child : Tree α) : (node value [child]).branches = false :=
  rfl

/-- The first node in pre-order that branches is the end of the root's chain. -/
theorem filter_branches_preorder (tree : Tree α) : tree.preorder.filter branches =
    tree.chainEnd :: tree.chainEnd.children.flatMap fun below ↦ below.preorder.filter branches := by
  induction tree using inductionAlongChain with
  | only value child ih => simp [preorder_node, ih]
  | stop value children h =>
    have hbranches : (node value children).branches := branches_iff.mpr h
    rw [chainEnd_stop value h, preorder_node, List.filter_cons_of_pos hbranches,
      List.filter_flatMap, children_node]

/-! ## The tree of maximal chains -/

/-- One node for each maximal chain, above the chains that start at the children of its end. -/
def chains (tree : Tree α) : Tree (List α) :=
  node tree.chain (tree.chainEnd.children.attach.map fun below ↦ chains below.1)
termination_by tree.size
decreasing_by exact size_lt_of_mem_chainEnd below.2

theorem chains_eq (tree : Tree α) :
    tree.chains = node tree.chain (tree.chainEnd.children.map chains) := by
  rw [chains, List.attach_map_val (f := chains)]

@[simp]
theorem value_chains (tree : Tree α) : tree.chains.value = tree.chain := by
  rw [chains_eq, value_node]

/-- The maximal chains in pre-order, put one after the other, are the nodes in pre-order. -/
theorem flatten_values_chains (tree : Tree α) : tree.chains.values.flatten = tree.values := by
  induction tree using inductionOnChains with
  | chain tree ih =>
    rw [chains_eq, values_node, List.flatten_cons, values_eq_chain_append, List.flatMap_map]
    congr 1
    rw [← List.flatMap_id, List.flatMap_assoc]
    exact List.flatMap_congr fun below hbelow ↦ by rw [List.flatMap_id, ih below hbelow]

/-- A chain starts below every node that branches. -/
theorem chain_mem_chains {tree part start : Tree α} (hpart : part ∈ tree.preorder)
    (hbranches : part.children.length ≠ 1) (hstart : start ∈ part.children) :
    start.chain ∈ tree.chains.values := by
  induction tree using inductionOnChains with
  | chain tree ih =>
    rw [chains_eq, values_node, List.flatMap_map]
    apply List.mem_cons_of_mem
    rcases eq_chainEnd_or_below hpart hbranches with rfl | ⟨below, hbelow, hin⟩
    · refine List.mem_flatMap.mpr ⟨start, hstart, ?_⟩
      rw [← value_chains start]
      exact value_mem_values _
    · exact List.mem_flatMap.mpr ⟨below, hbelow, ih below hbelow hin⟩

/-- The chains end, in order, at the nodes that branch. -/
theorem map_getLast?_chains (tree : Tree α) : tree.chains.values.map List.getLast? =
    (tree.preorder.filter branches).map fun part ↦ some part.value := by
  induction tree using inductionOnChains with
  | chain tree ih =>
    rw [chains_eq, values_node, filter_branches_preorder, List.map_cons, List.map_cons,
      getLast?_chain, List.flatMap_map, List.map_flatMap, List.map_flatMap]
    congr 1
    exact List.flatMap_congr ih

theorem chain_map (f : α → β) (tree : Tree α) : (tree.map f).chain = tree.chain.map f := by
  induction tree using inductionAlongChain with
  | only value child ih => simp [ih]
  | stop value children h => simp [chain_stop, h]

theorem chainEnd_map (f : α → β) (tree : Tree α) : (tree.map f).chainEnd = tree.chainEnd.map f := by
  induction tree using inductionAlongChain with
  | only value child ih => simp [ih]
  | stop value children h => simp [chainEnd_stop, h]

theorem chains_map (f : α → β) (tree : Tree α) :
    (tree.map f).chains = tree.chains.map (List.map f) := by
  induction tree using inductionOnChains with
  | chain tree ih =>
    rw [chains_eq, chains_eq tree, map_node, chain_map, chainEnd_map, children_map, List.map_map,
      List.map_map]
    congr 1
    exact List.map_congr_left ih

/-! ## Compression, chain by chain -/

theorem foldChain_stop (outer : Entry) {children : List SyntaxTree} (h : children.length ≠ 1) :
    foldChain outer children = node outer children := by
  match children with
  | [] => rfl
  | [_] => simp at h
  | _ :: _ :: _ => rw [foldChain]; simp

/-- A compressed tree is one node for the root's chain, over what follows the chain. -/
theorem compress_eq (tree : SyntaxTree) :
    tree.compress = node (Entry.ofChain tree.chain) (tree.chainEnd.children.map compress) := by
  induction tree using inductionAlongChain with
  | only outer child ih =>
    rw [compress_node, List.map_singleton, ih, foldChain, chain_only, chainEnd_only,
      Entry.ofChain_cons outer (chain_ne_nil child)]
  | stop entry children h =>
    rw [compress_node, foldChain_stop entry (by simpa using h), chain_stop entry h,
      chainEnd_stop entry h, Entry.ofChain_singleton, children_node]

/-- Compression is the tree of maximal chains with each chain folded. -/
theorem compress_eq_map_chains (tree : SyntaxTree) :
    tree.compress = tree.chains.map Entry.ofChain := by
  induction tree using inductionOnChains with
  | chain tree ih =>
    rw [compress_eq, chains_eq, map_node, List.map_map]
    congr 1
    exact List.map_congr_left ih

theorem children_compress (tree : SyntaxTree) :
    tree.compress.children = tree.chainEnd.children.map compress := by
  rw [compress_eq, children_node]

theorem length_children_of_mem_compress {tree part : SyntaxTree}
    (hpart : part ∈ tree.compress.preorder) : part.children.length ≠ 1 := by
  induction tree using inductionOnChains with
  | chain tree ih =>
    rw [compress_eq, preorder_node, List.flatMap_map] at hpart
    rcases List.mem_cons.mp hpart with rfl | hbelow
    · simpa using length_children_chainEnd tree
    · obtain ⟨below, hmem, hin⟩ := List.mem_flatMap.mp hbelow
      exact ih below hmem hin

theorem token_compress (tree : SyntaxTree) :
    tree.compress.value.token = tree.chainEnd.value.token := by
  rw [compress_eq, value_node, Entry.ofChain, getLast?_chain, Option.bind_some]

theorem first_compress (tree : SyntaxTree) :
    tree.compress.value.label.first = tree.value.label.first := by
  induction tree using inductionAlongChain with
  | only outer child ih =>
    rw [compress_eq, chain_only, Entry.ofChain_cons outer (chain_ne_nil child)]
    simp
  | stop entry children h => simp [compress_eq, chain_stop entry h]

theorem last_compress (tree : SyntaxTree) :
    tree.compress.value.label.last = tree.chainEnd.value.label.last := by
  induction tree using inductionAlongChain with
  | only outer child ih =>
    rw [compress_eq, value_node] at ih
    rw [compress_eq, value_node, chain_only, Entry.ofChain_cons outer (chain_ne_nil child),
      Label.last_fold, chainEnd_only, ih]
  | stop entry children h => simp [compress_eq, chain_stop entry h, chainEnd_stop entry h]

/-! ## Simplification, chain by chain -/

theorem dropChain_stop (outer : Entry) {children : List SyntaxTree} (h : children.length ≠ 1) :
    dropChain outer children = node outer children := by
  match children with
  | [] => rfl
  | [_] => simp at h
  | _ :: _ :: _ => rfl

/-- A simplified tree is the end of the root's chain, over what follows the chain. -/
theorem simplify_eq (tree : SyntaxTree) :
    tree.simplify = node tree.chainEnd.value (tree.chainEnd.children.map simplify) := by
  induction tree using inductionAlongChain with
  | only outer child ih =>
    rw [simplify_node, List.map_singleton, dropChain, ih, chainEnd_only]
  | stop entry children h =>
    rw [simplify_node, dropChain_stop entry (by simpa using h), chainEnd_stop entry h, value_node,
      children_node]

/-- Simplification is the tree of maximal chains with each chain cut down to its end. -/
theorem simplify_eq_map_chains (tree : SyntaxTree) :
    tree.simplify = tree.chains.map Entry.innermost := by
  induction tree using inductionOnChains with
  | chain tree ih =>
    rw [simplify_eq, chains_eq, map_node, List.map_map, Entry.innermost, getLast?_chain,
      Option.getD_some]
    congr 1
    exact List.map_congr_left ih

end Tree

/-! ## Either way of removing chains -/

namespace Mode

/-- What is left of a chain. -/
def merge : Mode → List Entry → Entry
  | compress => Entry.ofChain
  | simplify => Entry.innermost

theorem token_merge (mode : Mode) {entries : List Entry} {last : Entry}
    (h : entries.getLast? = some last) : (mode.merge entries).token = last.token := by
  cases mode with
  | compress => rw [merge, Entry.ofChain, h, Option.bind_some]
  | simplify => rw [merge, Entry.innermost, h, Option.getD_some]

theorem last_merge (mode : Mode) {entries : List Entry} {last : Entry}
    (h : entries.getLast? = some last) : (mode.merge entries).label.last = last.label.last := by
  cases mode with
  | compress => exact Label.last_joined (by rw [List.getLast?_map, h, Option.map_some])
  | simplify => rw [merge, Entry.innermost, h, Option.getD_some]

end Mode

theorem Tree.normalize_eq_map_chains (mode : Mode) (tree : SyntaxTree) :
    tree.normalize mode = tree.chains.map mode.merge := by
  cases mode with
  | compress => exact tree.compress_eq_map_chains
  | simplify => exact tree.simplify_eq_map_chains

end SyntaxMining
