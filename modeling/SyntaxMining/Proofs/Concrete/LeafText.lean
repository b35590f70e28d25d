import SyntaxMining.Proofs.Forest.Consistency
import SyntaxMining.Proofs.Tree.Leaves

/-!
# The text of a concrete tree

A node of a concrete tree is shown unless an error stands above it. The shown nodes form a tree of
their own, which ends at the errors and at the nodes without children; these cover the text. However
chains are removed from the linked nodes of a concrete tree, what is left are chains of shown nodes.
A node that is left carries a token exactly when it is a leaf, and the leaves carry, in order, the
source text of the nodes that cover it: no text is lost, doubled or moved.
-/

namespace SyntaxMining

/-- Whether a node covers unparsable text or had to be invented: nothing below it is shown. -/
def Segment.isCut (segment : Segment) : Bool :=
  segment.kind = "ERROR" || segment.missing

theorem Segment.isError_eq_isCut (segment : Segment) : segment.isError = segment.isCut := rfl

namespace ConcreteTree

/-! ## Shown nodes -/

/-- Whether no error stands above a place. -/
def isShown (place : Cursor Segment) : Bool :=
  place.above.all fun outer ↦ !outer.value.isCut

/-- Whether a node is a leaf once nothing below errors is shown. -/
def coversText (place : Cursor Segment) : Bool :=
  place.focus.value.isCut || place.focus.children.isEmpty

/-- Places of a concrete tree that are shown, in pre-order. -/
def shownPlaces (tree : ConcreteTree) : List (Cursor Segment) :=
  (Cursor.places tree).filter isShown

/-- Places whose source text makes up the text of a concrete tree, in pre-order. -/
def textPlaces (tree : ConcreteTree) : List (Cursor Segment) :=
  (shownPlaces tree).filter coversText

/-- The bytes from the first of a node to the one before its stop, decoded. -/
def textAt (source : List UInt8) (place : Cursor Segment) : String :=
  Text.Utf8.decode ((source.take place.focus.value.stopByte).drop place.focus.value.startByte)

/-- What a shown node becomes: an error keeps nothing but its text, and only nodes that cover text
have a token. -/
def entryAt (source : List UInt8) (place : Cursor Segment) : Entry where
  label := if place.focus.value.isCut then ⟨"Error"⟩ else ⟨place.focus.value.kind⟩
  token := if coversText place then some (textAt source place) else none
  span := some place.focus.value.span

mutual

/-- The shown places of a tree below some ancestors, in their shape. -/
def shownBelow (above : List ConcreteTree) : ConcreteTree → Tree (Cursor Segment)
  | .node segment children =>
    .node ⟨.node segment children, above⟩
      (if segment.isCut then [] else shownBelowAll (.node segment children :: above) children)

def shownBelowAll (above : List ConcreteTree) : List ConcreteTree → List (Tree (Cursor Segment))
  | [] => []
  | child :: rest => shownBelow above child :: shownBelowAll above rest

end

theorem shownBelowAll_eq_map (above trees : List ConcreteTree) :
    shownBelowAll above trees = trees.map (shownBelow above) := by
  induction trees with
  | nil => rfl
  | cons tree rest ih => rw [shownBelowAll, ih, List.map_cons]

section Node

variable (above : List ConcreteTree) {segment : Segment} (children : List ConcreteTree)

theorem shownBelow_of_isCut (h : segment.isCut) :
    shownBelow above (.node segment children) = .node ⟨.node segment children, above⟩ [] := by
  rw [shownBelow, if_pos h]

theorem shownBelow_of_not_isCut (h : ¬segment.isCut) :
    shownBelow above (.node segment children) = .node ⟨.node segment children, above⟩
      (children.map (shownBelow (.node segment children :: above))) := by
  rw [shownBelow, if_neg h, shownBelowAll_eq_map]

end Node

/-- A shown node is a leaf exactly when it covers text. -/
theorem isLeaf_of_mem_shownBelow {above : List ConcreteTree} {tree : ConcreteTree} :
    ∀ part ∈ (shownBelow above tree).preorder, part.isLeaf = coversText part.value := by
  induction tree using Tree.inductionOnChildren generalizing above with
  | node segment children ih =>
    intro part hpart
    by_cases hcut : segment.isCut
    · rw [shownBelow_of_isCut above children hcut, Tree.preorder_node] at hpart
      obtain rfl := List.mem_singleton.mp hpart
      simp [Tree.isLeaf, coversText, hcut]
    · rw [shownBelow_of_not_isCut above children hcut, Tree.preorder_node,
        List.flatMap_map] at hpart
      rcases List.mem_cons.mp hpart with rfl | hbelow
      · simp [Tree.isLeaf, coversText, hcut]
      · obtain ⟨child, hchild, hin⟩ := List.mem_flatMap.mp hbelow
        exact ih child hchild part hin

/-- Nothing is shown below an error, however deep. -/
theorem filter_isShown_eq_nil {above : List ConcreteTree} {tree : ConcreteTree}
    (h : ∃ outer ∈ above, outer.value.isCut) :
    (Cursor.placesBelow above tree).filter isShown = [] := by
  induction tree using Tree.inductionOnChildren generalizing above with
  | node segment children ih =>
    obtain ⟨outer, houter, hcut⟩ := h
    have hhidden : ¬isShown (⟨.node segment children, above⟩ : Cursor Segment) := by
      simp only [isShown, List.all_eq_true, not_forall]
      exact ⟨outer, houter, by simp [hcut]⟩
    rw [Cursor.placesBelow_node, List.filter_cons_of_neg hhidden, List.filter_flatMap,
      List.flatMap_eq_nil_iff]
    intro child hchild
    exact ih child hchild ⟨outer, List.mem_cons_of_mem _ houter, hcut⟩

theorem values_shownBelow {above : List ConcreteTree} {tree : ConcreteTree}
    (h : ∀ outer ∈ above, ¬outer.value.isCut) :
    (shownBelow above tree).values = (Cursor.placesBelow above tree).filter isShown := by
  induction tree using Tree.inductionOnChildren generalizing above with
  | node segment children ih =>
    have hshown : isShown (⟨.node segment children, above⟩ : Cursor Segment) := by
      simpa [isShown] using h
    rw [Cursor.placesBelow_node, List.filter_cons_of_pos hshown, List.filter_flatMap]
    by_cases hcut : segment.isCut
    · rw [shownBelow_of_isCut above children hcut, Tree.values_node]
      congr 1
      symm
      rw [List.flatMap_nil, List.flatMap_eq_nil_iff]
      intro child _
      exact filter_isShown_eq_nil ⟨.node segment children, by simp, hcut⟩
    · rw [shownBelow_of_not_isCut above children hcut, Tree.values_node, List.flatMap_map]
      congr 1
      apply List.flatMap_congr
      intro child hchild
      refine ih child hchild ?_
      intro outer houter
      rcases List.mem_cons.mp houter with rfl | habove
      · exact hcut
      · exact h outer habove

theorem entry_eq_entryAt (source : List UInt8) (place : Cursor Segment) :
    entry source place.focus = entryAt source place := by
  obtain ⟨⟨segment, children⟩, above⟩ := place
  rw [entry, segment.isError_eq_isCut]
  by_cases hcut : segment.isCut
  · simp [entryAt, coversText, textAt, Segment.text, hcut, Label.error]
  · cases children with
    | nil => simp [entryAt, coversText, textAt, Segment.text, hcut]
    | cons child rest => simp [entryAt, coversText, hcut]

/-- A concrete tree is converted by converting its shown nodes one by one. -/
theorem toSyntax_eq_map_shownBelow (source : List UInt8) (above : List ConcreteTree)
    (tree : ConcreteTree) :
    toSyntax source tree = (shownBelow above tree).map (entryAt source) := by
  induction tree using Tree.inductionOnChildren generalizing above with
  | node segment children ih =>
    rw [toSyntax, entry_eq_entryAt source ⟨.node segment children, above⟩, segment.isError_eq_isCut]
    by_cases hcut : segment.isCut
    · rw [shownBelow_of_isCut above children hcut, if_pos hcut]
      rfl
    · rw [shownBelow_of_not_isCut above children hcut, if_neg hcut, Tree.map_node,
        List.map_map, toSyntaxAll_eq_map]
      congr 1
      exact List.map_congr_left fun child hchild ↦ ih child hchild _

/-- The shown places of a whole tree, in their shape. -/
def shown (tree : ConcreteTree) : Tree (Cursor Segment) :=
  shownBelow [] tree

theorem values_shown (tree : ConcreteTree) : (shown tree).values = shownPlaces tree :=
  values_shownBelow (by simp)

theorem leaves_shown (tree : ConcreteTree) : (shown tree).leaves = textPlaces tree := by
  rw [shown, Tree.leaves_eq_filter_values isLeaf_of_mem_shownBelow, ← shown, values_shown,
    textPlaces]

/-! ## Normalised trees -/

/-- The linked nodes of a concrete tree can be freed of chains, and then read as the normal form of
its conversion. -/
theorem exists_link_rebuild (source : List UInt8) (tree : ConcreteTree) (mode : Mode) :
    ∃ forest root after result, link source tree = .ok (forest, root) ∧
      Forest.rebuild mode forest root = .ok (after, result) ∧
      Query.subtree (⟨after, result⟩ : Forest.Member) = (toSyntax source tree).normalize mode := by
  obtain ⟨forest, root, hlink, hrooted, hread⟩ := exists_link_eq source tree
  obtain ⟨after, result, hrebuild, -, hsubtree⟩ := hrooted.exists_rebuild mode
  rw [hread] at hsubtree
  exact ⟨forest, root, after, result, hlink, hrebuild, hsubtree⟩

theorem normalize_toSyntax (source : List UInt8) (tree : ConcreteTree) (mode : Mode) :
    (toSyntax source tree).normalize mode =
      (shown tree).chains.map fun chain ↦ mode.merge (chain.map (entryAt source)) := by
  rw [toSyntax_eq_map_shownBelow source [], Tree.normalize_eq_map_chains, Tree.chains_map,
    Tree.map_map]
  rfl

/-- A leaf that stands for a place which covers text: it carries the source text there, and was
folded down to an error or to the node there. -/
structure Reads (source : List UInt8) (place : Cursor Segment) (leaf : Entry) : Prop where
  token_eq : leaf.token = some
    (Text.Utf8.decode ((source.take place.focus.value.stopByte).drop place.focus.value.startByte))
  last_eq : leaf.label.last =
    if place.focus.value.isCut then "Error" else (⟨place.focus.value.kind⟩ : Label).last

theorem reads_merge (source : List UInt8) (mode : Mode) {place : Cursor Segment}
    {chain : List (Cursor Segment)} (hcovers : coversText place)
    (hlast : chain.getLast? = some place) :
    Reads source place (mode.merge (chain.map (entryAt source))) := by
  have hentry : (chain.map (entryAt source)).getLast? = some (entryAt source place) := by
    rw [List.getLast?_map, hlast, Option.map_some]
  refine ⟨?_, ?_⟩
  · rw [mode.token_merge hentry, entryAt, if_pos hcovers, textAt]
  · rw [mode.last_merge hentry, entryAt]
    split
    · exact Label.last_of_notMem (by decide)
    · rfl

/-- However chains are removed from the linked nodes of a concrete tree, the nodes that are left are
chains of shown nodes, tokens stand at the leaves only, and the leaves carry the source text of the
places that cover it, one by one. -/
theorem rebuild_link_keeps_leaf_text (source : List UInt8) (tree : ConcreteTree) (mode : Mode) :
    ∃ forest root after result, link source tree = .ok (forest, root) ∧
      Forest.rebuild mode forest root = .ok (after, result) ∧
      (∃ chains : Tree (List (Cursor Segment)), chains.values.flatten = shownPlaces tree ∧
        Query.subtree (⟨after, result⟩ : Forest.Member) =
          chains.map fun chain ↦ mode.merge (chain.map (entryAt source))) ∧
      (∀ part ∈ (Query.subtree (⟨after, result⟩ : Forest.Member)).preorder,
        part.value.token.isSome = part.isLeaf) ∧
      List.Forall₂ (Reads source) (textPlaces tree)
        (Query.subtree (⟨after, result⟩ : Forest.Member)).leaves ∧
      Query.text (⟨after, result⟩ : Forest.Member) =
        String.join ((textPlaces tree).map fun place ↦ Text.Utf8.decode
          ((source.take place.focus.value.stopByte).drop place.focus.value.startByte)) := by
  obtain ⟨forest, root, after, result, hlink, hrebuild, hsubtree⟩ :=
    exists_link_rebuild source tree mode
  rw [normalize_toSyntax] at hsubtree
  have hreads : List.Forall₂ (Reads source) (textPlaces tree)
      (Query.subtree (⟨after, result⟩ : Forest.Member)).leaves := by
    have hlasts := forall₂_iff_map_eq.mpr (shown tree).map_getLast?_leaves_chains.symm
    rw [leaves_shown] at hlasts
    rw [hsubtree, Tree.leaves_map, List.forall₂_map_right_iff]
    have hpairs := (List.forall₂_and_left _ _).mpr ⟨fun _ hplace ↦ hplace, hlasts⟩
    exact hpairs.imp fun place chain hpair ↦
      reads_merge source mode (List.mem_filter.mp hpair.1).2 hpair.2.symm
  refine ⟨forest, root, after, result, hlink, hrebuild, ⟨(shown tree).chains, ?_, hsubtree⟩, ?_,
    hreads, ?_⟩
  · rw [Tree.flatten_values_chains, values_shown]
  · rw [hsubtree, Tree.preorder_map]
    intro part hpart
    obtain ⟨chains, hchains, rfl⟩ := List.mem_map.mp hpart
    obtain ⟨last, hlast, hleaf⟩ :=
      Tree.exists_last_of_mem_chains isLeaf_of_mem_shownBelow hchains
    have hentry : (chains.value.map (entryAt source)).getLast? = some (entryAt source last) := by
      rw [List.getLast?_map, hlast, Option.map_some]
    rw [Tree.value_map, mode.token_merge hentry, Tree.isLeaf_map, hleaf, entryAt]
    cases coversText last <;> rfl
  · have htokens := forall₂_iff_map_eq.mp (hreads.imp fun _ _ hread ↦ hread.token_eq.symm)
    rw [Query.text, Tree.text_eq_joinTokens, Tree.leafTokens_eq_map_leaves, ← htokens]
    have hjoin := Tree.joinTokens_map_some ""
      ((textPlaces tree).map (textAt source))
    rw [List.map_map, String.empty_append] at hjoin
    exact hjoin

end ConcreteTree

end SyntaxMining
