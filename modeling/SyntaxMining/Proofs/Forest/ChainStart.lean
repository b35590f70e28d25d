import SyntaxMining.Proofs.Forest.Consistency
import SyntaxMining.Proofs.Forest.Image

/-!
# Where chains start

Walking up from the last node of a maximal chain meets the other nodes of the chain first: each of
them has an only child, and above the chain stands a node that branches, or nothing. The walk thus
finds the node where the chain starts. An image is labelled by the whole chain, so its first atom
is that of the node where the chain starts, while its last atom is that of the node itself.
-/

namespace SyntaxMining.Forest

/-- The nodes above a node on the chain that ends there, nearest first. -/
def chainAbove (forest : Forest) (id : NodeId) : List NodeId :=
  ((Query.ancestors (⟨forest, id⟩ : Member)).map Member.id).takeWhile fun above ↦
    !forest.branches above

/-- The first node of the chain that ends at a node. -/
def chainStart (forest : Forest) (id : NodeId) : NodeId :=
  (forest.chainAbove id).getLast?.getD id

variable {forest after : Forest} {root result : NodeId} {image : NodeId → NodeId}
  {chain : List NodeId}

/-! ## The walk up a chain -/

/-- Up a chain of only children the walk meets the chain in reverse. -/
theorem IsRooted.ancestors_chain (h : forest.IsRooted root) {first last : NodeId}
    (hfirst : first ∈ forest.preorder root)
    (hlinks : (first :: chain).IsChain fun outer inner ↦ (forest.node outer).children = [inner])
    (hlast : (first :: chain).getLast? = some last) :
    Query.ancestors (⟨forest, last⟩ : Member) =
      (first :: chain).dropLast.reverse.map (Member.mk forest) ++
        Query.ancestors (⟨forest, first⟩ : Member) := by
  -- downwards along the chain: each step puts one more node in front of the way up
  induction chain generalizing first with
  | nil =>
    obtain rfl : first = last := by simpa using hlast
    rfl
  | cons next rest ih =>
    obtain ⟨honly, hrest⟩ := List.isChain_cons_cons.mp hlinks
    have hnext : next ∈ (forest.node first).children := by simp [honly]
    rw [List.getLast?_cons_cons] at hlast
    rw [ih (h.linksAgree.closed first hfirst next hnext) hrest hlast,
      h.ancestors_child hfirst hnext]
    simp

/-! ## The first node of a chain -/

theorem StartsChain.mem_preorder {first : NodeId} (hstart : forest.StartsChain root first)
    (h : forest.IsRooted root) : first ∈ forest.preorder root := by
  rcases hstart with rfl | ⟨above, habove, hchild, -⟩
  · exact forest.self_mem_preorder first
  · exact h.linksAgree.closed above habove first hchild

/-- Above a node where a chain starts there is nothing, or a node that branches. -/
theorem StartsChain.chainAbove_eq_nil {first : NodeId} (hstart : forest.StartsChain root first)
    (h : forest.IsRooted root) : forest.chainAbove first = [] := by
  rcases hstart with rfl | ⟨above, habove, hchild, hbranches⟩
  · rw [chainAbove, h.ancestors_root]
    rfl
  · have hstops : forest.branches above := bne_iff_ne.mpr hbranches
    rw [chainAbove, h.ancestors_child habove hchild, List.map_cons]
    exact List.takeWhile_cons_of_neg (by simp [hstops])

/-- Every node of a chain but the last has an only child. -/
theorem not_branches_of_mem_dropLast
    (hlinks : chain.IsChain fun outer inner ↦ (forest.node outer).children = [inner]) :
    ∀ id ∈ chain.dropLast, !forest.branches id := by
  induction chain with
  | nil => simp
  | cons first rest ih =>
    cases rest with
    | nil => simp
    | cons next others =>
      obtain ⟨honly, hrest⟩ := List.isChain_cons_cons.mp hlinks
      rw [List.dropLast_cons_cons, List.forall_mem_cons]
      exact ⟨by simp [branches, honly], ih hrest⟩

theorem IsMaximalChain.chainAbove_eq (hchain : forest.IsMaximalChain root chain)
    (h : forest.IsRooted root) {last : NodeId} (hlast : chain.getLast? = some last) :
    forest.chainAbove last = chain.dropLast.reverse := by
  obtain ⟨first, hhead, hstart⟩ := hchain.starts
  obtain ⟨rest, rfl⟩ := List.head?_eq_some_iff.mp hhead
  have hstops : forest.chainAbove first = [] := hstart.chainAbove_eq_nil h
  have hids (ids : List NodeId) : (ids.map (Member.mk forest)).map Member.id = ids := by
    rw [List.map_map]
    exact List.map_id ids
  rw [chainAbove] at hstops ⊢
  rw [h.ancestors_chain (hstart.mem_preorder h) hchain.links hlast, List.map_append, hids,
    List.takeWhile_append_of_pos, hstops, List.append_nil]
  intro id hid
  exact not_branches_of_mem_dropLast hchain.links id (List.mem_reverse.mp hid)

theorem IsMaximalChain.head?_eq (hchain : forest.IsMaximalChain root chain)
    (h : forest.IsRooted root) {last : NodeId} (hlast : chain.getLast? = some last) :
    chain.head? = some (forest.chainStart last) := by
  rw [chainStart, hchain.chainAbove_eq h hlast, List.getLast?_reverse]
  cases chain with
  | nil => simp at hlast
  | cons first rest =>
    cases rest with
    | nil =>
      obtain rfl : first = last := by simpa using hlast
      rfl
    | cons next others => rfl

/-- An image starts as the chain does that it is left of. -/
theorem IsImage.first_label (himage : forest.IsImage root after result image)
    (h : forest.IsRooted root) {id : NodeId} (hid : id ∈ forest.preorder root)
    (hends : forest.branches id) :
    (Query.label (⟨after, image id⟩ : Member)).first =
      (Query.label (⟨forest, forest.chainStart id⟩ : Member)).first := by
  obtain ⟨chain, hmaximal, hlast⟩ := h.exists_maximalChain hid hends
  change (after.node (image id)).entry.label.first = _
  rw [himage.entry_eq chain id hmaximal hlast]
  apply Label.first_joined
  rw [List.map_map, List.head?_map, hmaximal.head?_eq h hlast]
  rfl

end SyntaxMining.Forest
