import SyntaxMining.Parse.Tree
import SyntaxMining.Proofs.Concrete.Conversion

/-!
# Consistent links

Every linked tree starts out with child and parent links that agree, whether it was grown from a
parse tree, grown from a concrete tree or built by hand. Removing chains rewires nodes that were
lifted or replaced, and any number of such passes leaves links that agree again: no node stands at
two places, and each leads back to the one node it is a child of.
-/

namespace SyntaxMining.Forest

/-- The links of the nodes below a root agree. -/
structure LinksAgree (forest : Forest) (root : NodeId) : Prop where
  nodup : (forest.preorder root).Nodup
  lt_size : ∀ id ∈ forest.preorder root, id < forest.size
  /-- The pre-order misses no child. -/
  closed : ∀ id ∈ forest.preorder root, ∀ child ∈ (forest.node id).children,
    child ∈ forest.preorder root
  root_parent : (forest.node root).parent = none
  exists_parent : ∀ id ∈ forest.preorder root, id ≠ root →
    ∃ above, (forest.node id).parent = some above
  /-- A parent link leads to the node below the root that has the node as a child. -/
  parent_iff : ∀ id ∈ forest.preorder root, ∀ above, (forest.node id).parent = some above ↔
    above ∈ forest.preorder root ∧ id ∈ (forest.node above).children

/-- How linked trees come about. -/
inductive Produced : Forest → NodeId → Prop where
  | parsed {forest : Forest} {root : NodeId} (names : ParseNames) (tree : ParseTree)
      (h : ParseTree.link? names tree = .ok (forest, root)) : Produced forest root
  | converted {forest : Forest} {root : NodeId} (source : List UInt8) (tree : ConcreteTree)
      (h : ConcreteTree.link source tree = .ok (forest, root)) : Produced forest root
  | built {forest : Forest} {root : NodeId} (h : forest.IsRooted root) : Produced forest root

variable {forest : Forest} {parent : Option NodeId} {ids : Tree NodeId} {root : NodeId}

theorem Hangs.of_mem_preorder (h : forest.Hangs parent ids) {part : Tree NodeId}
    (hpart : part ∈ ids.preorder) : ∃ above, forest.Hangs above part := by
  induction h with
  | @node parent id children lt_size links back below ih =>
    rw [Tree.preorder_node] at hpart
    rcases List.mem_cons.mp hpart with rfl | hbelow
    · exact ⟨parent, .node lt_size links back below⟩
    · obtain ⟨child, hchild, hin⟩ := List.mem_flatMap.mp hbelow
      exact ih child hchild hin

/-- A node of a tree is its root or a child of one of its nodes. -/
theorem eq_or_mem_children (ids : Tree NodeId) : ∀ part ∈ ids.preorder,
    part = ids ∨ ∃ above ∈ ids.preorder, part ∈ above.children := by
  induction ids with
  | node id children ih =>
    intro part hpart
    rw [Tree.preorder_node] at hpart
    rcases List.mem_cons.mp hpart with rfl | hbelow
    · exact Or.inl rfl
    · obtain ⟨child, hchild, hin⟩ := List.mem_flatMap.mp hbelow
      refine Or.inr ?_
      rcases ih child hchild part hin with rfl | ⟨above, habove, hpart⟩
      · exact ⟨_, Tree.self_mem_preorder _, hchild⟩
      · exact ⟨above, Tree.mem_preorder_of_mem_children hchild habove, hpart⟩

/-- The parent link of a child leads to the node it is a child of. -/
theorem Hangs.parent_eq (h : forest.Hangs parent ids) {above child : Tree NodeId}
    (habove : above ∈ ids.preorder) (hchild : child ∈ above.children) :
    (forest.node child.value).parent = some above.value := by
  obtain ⟨_, hhangs⟩ := h.of_mem_preorder habove
  exact (hhangs.below_value child hchild).back_value

/-- The child links of a node lead to the nodes below it. -/
theorem Hangs.children_eq (h : forest.Hangs parent ids) {above : Tree NodeId}
    (habove : above ∈ ids.preorder) :
    (forest.node above.value).children = above.children.map Tree.value :=
  (h.spans.of_mem_preorder habove).links_value

theorem exists_above {part : Tree NodeId} (hpart : part ∈ ids.preorder)
    (hne : part.value ≠ ids.value) : ∃ above ∈ ids.preorder, part ∈ above.children :=
  (eq_or_mem_children ids part hpart).resolve_left fun heq ↦ hne (heq ▸ rfl)

theorem Hangs.parent_eq_iff (h : forest.Hangs none ids) {part : Tree NodeId}
    (hpart : part ∈ ids.preorder) (above : NodeId) :
    (forest.node part.value).parent = some above ↔
      above ∈ ids.values ∧ part.value ∈ (forest.node above).children := by
  constructor
  · intro hback
    have hne : part.value ≠ ids.value := by
      intro heq
      rw [heq, h.back_value] at hback
      simp at hback
    obtain ⟨outer, houter, hchild⟩ := exists_above hpart hne
    obtain rfl : outer.value = above := by
      simpa [h.parent_eq houter hchild] using hback
    refine ⟨Tree.mem_values_of_mem_preorder houter, ?_⟩
    rw [h.children_eq houter]
    exact List.mem_map_of_mem hchild
  · rintro ⟨habove, hchild⟩
    obtain ⟨outer, houter, rfl⟩ := List.mem_map.mp habove
    rw [h.children_eq houter] at hchild
    obtain ⟨other, hother, hvalue⟩ := List.mem_map.mp hchild
    rw [← hvalue]
    exact h.parent_eq houter hother

theorem IsRooted.linksAgree (h : forest.IsRooted root) : forest.LinksAgree root := by
  obtain ⟨ids, rfl, hhangs, hnodup⟩ := h
  have hpreorder := hhangs.spans.preorder_eq hnodup
  refine ⟨by rwa [hpreorder], ?_, ?_, hhangs.back_value, ?_, ?_⟩ <;> rw [hpreorder]
  · exact hhangs.spans.lt_size
  · intro id hid child hchild
    obtain ⟨above, habove, rfl⟩ := List.mem_map.mp hid
    rw [hhangs.children_eq habove] at hchild
    obtain ⟨part, hpart, rfl⟩ := List.mem_map.mp hchild
    exact Tree.mem_values_of_mem_preorder (Tree.mem_preorder_trans habove
      (Tree.mem_preorder_of_mem_children hpart part.self_mem_preorder))
  · intro id hid hne
    obtain ⟨part, hpart, rfl⟩ := List.mem_map.mp hid
    obtain ⟨above, habove, hchild⟩ := exists_above hpart hne
    exact ⟨above.value, hhangs.parent_eq habove hchild⟩
  · intro id hid above
    obtain ⟨part, hpart, rfl⟩ := List.mem_map.mp hid
    exact hhangs.parent_eq_iff hpart above

/-! ## Passes over a tree -/

/-- A pass over a tree succeeds and leaves the linked form of its normal form. -/
theorem IsRooted.exists_rebuild (h : forest.IsRooted root) (mode : Mode) :
    ∃ after result, rebuild mode forest root = .ok (after, result) ∧ after.IsRooted result ∧
      Query.subtree (⟨after, result⟩ : Member) =
        (Query.subtree (⟨forest, root⟩ : Member)).normalize mode := by
  obtain ⟨ids, rfl, hhangs, hnodup⟩ := h
  obtain ⟨after, result, hrebuild, hresult, hresultNodup, hentries⟩ :=
    exists_rebuild_hangs mode hhangs.spans hnodup
  rw [hhangs.back_value] at hresult
  refine ⟨after, result.value, hrebuild, ⟨result, rfl, hresult, hresultNodup⟩, ?_⟩
  rw [hresult.spans.subtree_eq hresultNodup, hhangs.spans.subtree_eq hnodup, hentries]

theorem IsRooted.exists_rebuildAll (h : forest.IsRooted root) (modes : List Mode) :
    ∃ after result, rebuildAll forest root modes = .ok (after, result) ∧ after.IsRooted result := by
  induction modes generalizing forest root with
  | nil => exact ⟨forest, root, rfl, h⟩
  | cons mode modes ih =>
    obtain ⟨middle, next, hrebuild, hmiddle, -⟩ := h.exists_rebuild mode
    obtain ⟨after, result, hrest, hafter⟩ := ih hmiddle
    refine ⟨after, result, ?_, hafter⟩
    rw [rebuildAll, hrebuild]
    exact hrest

/-! ## Grown trees -/

theorem isRooted_of_ofTree {ε α : Type} {conversion : Conversion ε α} {tree : Tree α}
    (h : ofTree conversion tree = .ok (forest, root)) : forest.IsRooted root := by
  have hsettles := ofTree_settles conversion tree
  rw [h] at hsettles
  exact hsettles.of_ok.2.1

/-- The linked nodes of a concrete tree always come about. -/
theorem exists_link (source : List UInt8) (tree : ConcreteTree) :
    ∃ forest root, ConcreteTree.link source tree = .ok (forest, root) := by
  obtain ⟨forest, root, hlink, -⟩ := ConcreteTree.exists_link_eq source tree
  exact ⟨forest, root, hlink⟩

/-- The linked nodes of a concrete tree read as its conversion. -/
theorem subtree_of_link {source : List UInt8} {tree : ConcreteTree}
    (h : ConcreteTree.link source tree = .ok (forest, root)) :
    Query.subtree (⟨forest, root⟩ : Member) = ConcreteTree.toSyntax source tree := by
  obtain ⟨linked, top, hlink, -, hsubtree⟩ := ConcreteTree.exists_link_eq source tree
  obtain ⟨rfl, rfl⟩ : linked = forest ∧ top = root := by simpa [hlink] using h
  exact hsubtree

theorem Produced.isRooted (h : Produced forest root) : forest.IsRooted root := by
  cases h with
  | parsed names tree h => exact isRooted_of_ofTree h
  | converted source tree h => exact isRooted_of_ofTree h
  | built h => exact h

/-- However a linked tree came about and however often its chains are removed, folded or cut down,
every pass succeeds and the links of the result agree. -/
theorem rebuildAll_linksAgree (h : Produced forest root) (modes : List Mode) :
    ∃ after result, rebuildAll forest root modes = .ok (after, result) ∧
      after.LinksAgree result := by
  obtain ⟨after, result, hrebuild, hrooted⟩ := h.isRooted.exists_rebuildAll modes
  exact ⟨after, result, hrebuild, hrooted.linksAgree⟩

/-- A chain above two leaves, grown from a concrete tree, folded and then cut down. -/
theorem rebuildAll_linksAgree_of_call :
    let tree : ConcreteTree := .node ⟨"module", 0, 3, ⟨0, 0⟩, ⟨0, 3⟩, false⟩
      [.node ⟨"call", 0, 3, ⟨0, 0⟩, ⟨0, 3⟩, false⟩
        [.node ⟨"identifier", 0, 1, ⟨0, 0⟩, ⟨0, 1⟩, false⟩ [],
          .node ⟨"arguments", 1, 3, ⟨0, 1⟩, ⟨0, 3⟩, false⟩ []]]
    ∃ forest root after result, ConcreteTree.link [102, 40, 41] tree = .ok (forest, root) ∧
      rebuildAll forest root [.compress, .simplify] = .ok (after, result) ∧
      after.LinksAgree result := by
  intro tree
  obtain ⟨forest, root, hlink⟩ := exists_link [102, 40, 41] tree
  obtain ⟨after, result, hrebuild, hagree⟩ :=
    rebuildAll_linksAgree (.converted _ _ hlink) [.compress, .simplify]
  exact ⟨forest, root, after, result, hlink, hrebuild, hagree⟩

end SyntaxMining.Forest
