import SyntaxMining.Proofs.Forest.Consistency
import SyntaxMining.Proofs.Forest.Image

/-!
# Atoms of folded nodes

Compression writes the labels of a chain into one label, with bars between them and nothing that
would tell a bar inside a label apart. Cutting the folded label at its bars therefore gives the
atoms of each label in turn, outermost first. These are the labels that the nodes of the chain had
exactly when none of them has a bar of its own; a node for the operator `|` has two empty atoms.
-/

namespace SyntaxMining.Forest

/-- Labels of the nodes of a chain, outermost first. -/
def labelsOf (forest : Forest) (chain : List NodeId) : List Label :=
  chain.map fun id ↦ (forest.node id).entry.label

variable {forest after : Forest} {root result : NodeId} {image : NodeId → NodeId}

/-- Whatever is read off the nodes of a tree can be read off the tree they form. -/
theorem map_preorder {α : Type} (read : Entry → α) :
    (forest.preorder root).map (fun id ↦ read (forest.node id).entry) =
      (Query.subtree (⟨forest, root⟩ : Member)).values.map read := by
  change _ = ((forest.unfold root).map fun id ↦ (forest.node id).entry).values.map read
  rw [Tree.values_map, List.map_map]
  rfl

theorem IsMaximalChain.ne_nil {chain : List NodeId} (h : forest.IsMaximalChain root chain) :
    chain ≠ [] := by
  rintro rfl
  obtain ⟨first, hfirst, -⟩ := h.starts
  simp at hfirst

/-- The label of an image is made of the labels of the chain it stands for. -/
theorem IsImage.label_eq (himage : forest.IsImage root after result image) {chain : List NodeId}
    {last : NodeId} (hchain : forest.IsMaximalChain root chain)
    (hlast : chain.getLast? = some last) :
    (after.node (image last)).entry.label = .joined (forest.labelsOf chain) := by
  rw [himage.entry_eq chain last hchain hlast, Entry.ofChain, List.map_map]
  rfl

/-- Every node that compression leaves is the image of the last node of a maximal chain. -/
theorem IsImage.exists_chain (himage : forest.IsImage root after result image)
    (h : forest.IsRooted root) {id : NodeId} (hid : id ∈ after.preorder result) :
    ∃ chain last, forest.IsMaximalChain root chain ∧ chain.getLast? = some last ∧
      image last = id := by
  rw [himage.preorder_eq] at hid
  obtain ⟨last, hmem, rfl⟩ := List.mem_map.mp hid
  obtain ⟨hraw, hends⟩ := List.mem_filter.mp hmem
  obtain ⟨chain, hchain, hlast⟩ := h.exists_maximalChain hraw hends
  exact ⟨chain, last, hchain, hlast, rfl⟩

/-- The atoms of a node that compression leaves are those of the labels of its chain, and they are
these labels exactly when no label of the chain has a bar. -/
theorem rebuild_compress_atoms (h : Produced forest root) :
    ∃ after result image, rebuild .compress forest root = .ok (after, result) ∧
      forest.IsImage root after result image ∧
      ∀ id ∈ after.preorder result, ∃ chain last,
        forest.IsMaximalChain root chain ∧ chain.getLast? = some last ∧ image last = id ∧
        (after.node id).entry.label.atoms = (forest.labelsOf chain).flatMap Label.atoms ∧
        ((after.node id).entry.label.atoms = (forest.labelsOf chain).map Label.text ↔
          ∀ label ∈ forest.labelsOf chain, Label.bar ∉ label.text.toList) := by
  have hrooted := h.isRooted
  obtain ⟨after, result, image, hrebuild, himage⟩ := exists_isImage hrooted
  refine ⟨after, result, image, hrebuild, himage, ?_⟩
  intro id hid
  obtain ⟨chain, last, hchain, hlast, rfl⟩ := himage.exists_chain hrooted hid
  have hlabels : forest.labelsOf chain ≠ [] := by simpa [labelsOf] using hchain.ne_nil
  refine ⟨chain, last, hchain, hlast, rfl, ?_⟩
  rw [himage.label_eq hchain hlast]
  exact ⟨Label.atoms_joined hlabels, Label.atoms_joined_eq_map_text_iff hlabels⟩

/-- The source `a|b`, whose operator is a node named after itself. -/
def orExpression : ConcreteTree :=
  .node ⟨"expression_statement", 0, 3, ⟨0, 0⟩, ⟨0, 3⟩, false⟩
    [.node ⟨"binary_operator", 0, 3, ⟨0, 0⟩, ⟨0, 3⟩, false⟩
      [.node ⟨"identifier", 0, 1, ⟨0, 0⟩, ⟨0, 1⟩, false⟩ [],
        .node ⟨"|", 1, 2, ⟨0, 1⟩, ⟨0, 2⟩, false⟩ [],
        .node ⟨"identifier", 2, 3, ⟨0, 2⟩, ⟨0, 3⟩, false⟩ []]]

theorem rebuild_compress_atoms_orExpression :
    ∃ forest root after result, ConcreteTree.link [97, 124, 98] orExpression = .ok (forest, root) ∧
      rebuild .compress forest root = .ok (after, result) ∧
      ∀ id ∈ after.preorder result, ∃ chain, forest.IsMaximalChain root chain ∧
        (after.node id).entry.label.atoms = (forest.labelsOf chain).flatMap Label.atoms ∧
        ((after.node id).entry.label.atoms = (forest.labelsOf chain).map Label.text ↔
          ∀ label ∈ forest.labelsOf chain, Label.bar ∉ label.text.toList) := by
  obtain ⟨forest, root, hlink⟩ := exists_link [97, 124, 98] orExpression
  obtain ⟨after, result, image, hrebuild, -, hatoms⟩ :=
    rebuild_compress_atoms (.converted _ _ hlink)
  refine ⟨forest, root, after, result, hlink, hrebuild, ?_⟩
  intro id hid
  obtain ⟨chain, -, hchain, -, -, hexact⟩ := hatoms id hid
  exact ⟨chain, hchain, hexact⟩

/-- The operator is folded with nothing, and yet its label is cut into two atoms no node has. -/
theorem rebuild_compress_splits_operator :
    ∃ forest root after result, ConcreteTree.link [97, 124, 98] orExpression = .ok (forest, root) ∧
      rebuild .compress forest root = .ok (after, result) ∧
      (forest.preorder root).map (fun id ↦ (forest.node id).entry.label.text) =
        ["expression_statement", "binary_operator", "identifier", "|", "identifier"] ∧
      (after.preorder result).map (fun id ↦ (after.node id).entry.label.text) =
        ["expression_statement|binary_operator", "identifier", "|", "identifier"] ∧
      (after.preorder result).map (fun id ↦ (after.node id).entry.label.atoms) =
        [["expression_statement", "binary_operator"], ["identifier"],
         ["", ""], ["identifier"]] := by
  obtain ⟨forest, root, hlink⟩ := exists_link [97, 124, 98] orExpression
  obtain ⟨after, result, hrebuild, -, hafter⟩ :=
    (Produced.converted _ _ hlink).isRooted.exists_rebuild .compress
  have hraw := subtree_of_link hlink
  rw [hraw] at hafter
  refine ⟨forest, root, after, result, hlink, hrebuild, ?_, ?_, ?_⟩
  · rw [map_preorder fun entry ↦ entry.label.text, hraw]
    rfl
  · rw [map_preorder fun entry ↦ entry.label.text, hafter]
    rfl
  · rw [map_preorder fun entry ↦ entry.label.atoms, hafter]
    rfl

end SyntaxMining.Forest
