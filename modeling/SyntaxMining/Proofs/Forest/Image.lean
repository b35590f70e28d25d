import SyntaxMining.Proofs.Forest.Agreement
import SyntaxMining.Proofs.Forest.Walk
import SyntaxMining.Proofs.Query.Quotient

/-!
# Images of linked nodes

Compression in place leaves one node of every maximal chain, a new one when the chain was folded.
The image of a node where a chain ends is the node that is left of its chain. Images keep the
pre-order, carry what the chain is folded into, and lead upwards, along the rewired parent links, to
the images of the ancestors where a chain ends. Below an image stand the compressed children of the
node.
-/

namespace SyntaxMining

namespace Query

variable {ν : Type} [Navigable ν]

/-- What the children of a node are to it, in order. -/
def childTypes (node : ν) : List String :=
  (children node).map fun child ↦ (label child).first

theorem isSome_childOfType? (node : ν) (atom : String) :
    (childOfType? node atom).isSome = (childTypes node).contains atom := by
  rw [Bool.eq_iff_iff, childOfType?, List.find?_isSome]
  simp [childTypes, firstIs]

end Query

namespace Forest

/-- Where compression takes the nodes at which a chain ends. -/
structure IsImage (forest : Forest) (root : NodeId) (after : Forest) (result : NodeId)
    (image : NodeId → NodeId) : Prop where
  nodup : (after.preorder result).Nodup
  preorder_eq : after.preorder result = ((forest.preorder root).filter forest.branches).map image
  /-- The image is what is left of the chain that ends in a node. -/
  entry_eq : ∀ chain last, forest.IsMaximalChain root chain → chain.getLast? = some last →
    (after.node (image last)).entry = .ofChain (chain.map fun id ↦ (forest.node id).entry)
  ancestors_eq : ∀ id ∈ forest.preorder root, forest.branches id →
    Query.ancestors (⟨after, image id⟩ : Member) =
      ((Query.ancestors (⟨forest, id⟩ : Member)).filter fun above ↦ forest.branches above.id).map
        fun above ↦ ⟨after, image above.id⟩

theorem IsImage.mem_preorder {forest after : Forest} {root result id : NodeId}
    {image : NodeId → NodeId} (himage : forest.IsImage root after result image)
    (hid : id ∈ forest.preorder root) (hends : forest.branches id) :
    image id ∈ after.preorder result := by
  rw [himage.preorder_eq]
  exact List.mem_map_of_mem (List.mem_filter.mpr ⟨hid, hends⟩)

/-- Distinct keys can be given any values. -/
theorem exists_value_of_nodup {ι κ : Type} {items : List ι} {key : ι → κ}
    (h : (items.map key).Nodup) (value : ι → NodeId) :
    ∃ f : κ → NodeId, ∀ item ∈ items, f (key item) = value item := by
  classical
  induction items with
  | nil => exact ⟨fun _ ↦ 0, by simp⟩
  | cons item rest ih =>
    rw [List.map_cons, List.nodup_cons] at h
    obtain ⟨f, hf⟩ := ih h.2
    refine ⟨Function.update f (key item) (value item), ?_⟩
    intro other hother
    rcases List.mem_cons.mp hother with rfl | hrest
    · exact Function.update_self _ _ _
    · have hne : key other ≠ key item := fun heq ↦ h.1 (heq ▸ List.mem_map_of_mem hrest)
      rw [Function.update_of_ne hne, hf other hrest]

variable {forest after : Forest} {ids result : Tree NodeId}

/-- The chains of a tree, each with the node that is left of it, and the map from the last nodes of
the chains to these nodes. -/
structure Pairing (ids result : Tree NodeId) (pairs : Tree (List NodeId × NodeId))
    (image : NodeId → NodeId) : Prop where
  chains_eq : pairs.map Prod.fst = ids.chains
  result_eq : pairs.map Prod.snd = result
  image_eq : ∀ pair ∈ pairs.values, ∀ last, pair.1.getLast? = some last → image last = pair.2

/-- Trees of one shape, one of chains that end apart, are paired by a map on the last nodes. -/
theorem exists_pairing {f : List NodeId → Entry} {g : NodeId → Entry} (hnodup : ids.values.Nodup)
    (h : ids.chains.map f = result.map g) :
    ∃ pairs image, Pairing ids result pairs image ∧ ∀ pair ∈ pairs.values, f pair.1 = g pair.2 := by
  obtain ⟨pairs, hpairs⟩ := Tree.exists_pairs h
  have hlasts : pairs.values.map (fun pair ↦ pair.1.getLast?) =
      (ids.preorder.filter Tree.branches).map fun part ↦ some part.value := by
    rw [← Tree.map_getLast?_chains, ← hpairs.left_eq, Tree.values_map, List.map_map]
    rfl
  have hapart : (pairs.values.map fun pair ↦ pair.1.getLast?).Nodup := by
    have hends : ((ids.preorder.filter Tree.branches).map Tree.value).Nodup :=
      hnodup.sublist (List.filter_sublist.map Tree.value)
    rw [hlasts]
    simpa [Function.comp_def] using hends.map fun _ _ heq ↦ Option.some.inj heq
  obtain ⟨target, htarget⟩ := exists_value_of_nodup hapart Prod.snd
  refine ⟨pairs, fun id ↦ target (some id), ⟨hpairs.left_eq, hpairs.right_eq, ?_⟩, hpairs.agree⟩
  intro pair hpair last hlast
  rw [← hlast, htarget pair hpair]

namespace Pairing

variable {pairs : Tree (List NodeId × NodeId)} {image : NodeId → NodeId}

/-- The node left of the chain that ends at a place is the image of the place. -/
theorem image_of_chainPlace (h : Pairing ids result pairs image)
    {item : Cursor (List NodeId × NodeId)} {place : Cursor NodeId}
    (hitem : item ∈ Cursor.places pairs) (hplace : place ∈ Cursor.places ids)
    (hbranches : place.branches) (hchain : item.map Prod.fst = place.chainPlace) :
    image place.focus.value = item.focus.value.2 := by
  have hpair : item.focus.value ∈ pairs.values :=
    Tree.mem_values_of_mem_preorder (Cursor.focus_mem_preorder hitem)
  apply h.image_eq _ hpair
  have hvalue : item.focus.value.1 = place.chainPlace.focus.value := by
    rw [← hchain, Cursor.focus_map, Tree.value_map]
  rw [hvalue, Cursor.getLast?_chainPlace hplace,
    Tree.chainEnd_eq_self (Tree.branches_iff.mp hbranches)]

/-- Where items stand for the chains that end at some places, their nodes are the images. -/
theorem map_image (h : Pairing ids result pairs image)
    {items : List (Cursor (List NodeId × NodeId))} {raws : List (Cursor NodeId)}
    (hitems : ∀ item ∈ items, item ∈ Cursor.places pairs)
    (hraws : ∀ raw ∈ raws, raw ∈ Cursor.places ids ∧ raw.branches)
    (hchains : items.map (Cursor.map Prod.fst) = raws.map Cursor.chainPlace) :
    items.map (fun item ↦ item.focus.value.2) = raws.map fun raw ↦ image raw.focus.value := by
  induction items generalizing raws with
  | nil =>
    obtain rfl : raws = [] := by simpa using hchains.symm
    rfl
  | cons item items ih =>
    cases raws with
    | nil => simp at hchains
    | cons raw raws =>
      obtain ⟨hfirst, hrest⟩ := List.cons.inj hchains
      obtain ⟨hplace, hbranches⟩ := hraws raw (by simp)
      have himage := h.image_of_chainPlace (hitems item (by simp)) hplace hbranches hfirst
      have himages := ih (fun other hother ↦ hitems other (List.mem_cons_of_mem item hother))
        (fun other hother ↦ hraws other (List.mem_cons_of_mem raw hother)) hrest
      rw [List.map_cons, List.map_cons, himage, himages]

theorem places_result (h : Pairing ids result pairs image) :
    Cursor.places result = (Cursor.places pairs).map (Cursor.map Prod.snd) := by
  rw [← h.result_eq, Cursor.places_map]

theorem places_chains (h : Pairing ids result pairs image) :
    (Cursor.places pairs).map (Cursor.map Prod.fst) =
      ((Cursor.places ids).filter Cursor.branches).map Cursor.chainPlace := by
  rw [Cursor.map_chainPlace_places, ← h.chains_eq, Cursor.places_map]

/-- The nodes that are left, in pre-order, are the images of the nodes where a chain ends. -/
theorem values_result (h : Pairing ids result pairs image) :
    (Cursor.places result).map (fun place ↦ place.focus.value) =
      ((Cursor.places ids).filter Cursor.branches).map fun place ↦ image place.focus.value := by
  have himages := h.map_image (fun _ hitem ↦ hitem)
    (fun raw hraw ↦ (List.mem_filter.mp hraw).imp id id) h.places_chains
  rw [h.places_result, ← himages, List.map_map]
  simp [Function.comp_def]

/-- The chain that ends at a place, with the node that is left of it. -/
theorem exists_item (h : Pairing ids result pairs image) {place : Cursor NodeId}
    (hplace : place ∈ Cursor.places ids) (hbranches : place.branches) :
    ∃ item ∈ Cursor.places pairs, item.map Prod.fst = place.chainPlace ∧
      item.focus.value.2 = image place.focus.value := by
  have hchain : place.chainPlace ∈ (Cursor.places pairs).map (Cursor.map Prod.fst) := by
    rw [h.places_chains]
    exact List.mem_map_of_mem (List.mem_filter.mpr ⟨hplace, hbranches⟩)
  obtain ⟨item, hitem, hfirst⟩ := List.mem_map.mp hchain
  exact ⟨item, hitem, hfirst, (h.image_of_chainPlace hitem hplace hbranches hfirst).symm⟩

/-- The nodes above the image of a node are the images of those above the node. -/
theorem exists_place_result (h : Pairing ids result pairs image) {place : Cursor NodeId}
    (hplace : place ∈ Cursor.places ids) (hbranches : place.branches) :
    ∃ item ∈ Cursor.places result, item.focus.value = image place.focus.value ∧
      item.ancestors.map (fun above ↦ above.focus.value) =
        (place.ancestors.filter Cursor.branches).map fun above ↦ image above.focus.value := by
  obtain ⟨item, hitem, hfirst, hvalue⟩ := h.exists_item hplace hbranches
  refine ⟨item.map Prod.snd, ?_, ?_, ?_⟩
  · rw [h.places_result]
    exact List.mem_map_of_mem hitem
  · rw [Cursor.focus_map, Tree.value_map, hvalue]
  · have hancestors : item.ancestors.map (Cursor.map Prod.fst) =
        (place.ancestors.filter Cursor.branches).map Cursor.chainPlace := by
      rw [← Cursor.ancestors_map, hfirst, Cursor.ancestors_chainPlace place hplace]
    have himages := h.map_image (Cursor.mem_places_of_mem_ancestors item hitem) (by
      intro raw hraw
      obtain ⟨habove, hends⟩ := List.mem_filter.mp hraw
      exact ⟨Cursor.mem_places_of_mem_ancestors place hplace raw habove, hends⟩) hancestors
    rw [Cursor.ancestors_map, ← himages, List.map_map]
    simp [Function.comp_def]

/-- The tree below the image of a node is compressed from where the chain of the node starts. -/
theorem exists_subtree_image (h : Pairing ids result pairs image)
    (hagree : ∀ pair ∈ pairs.values,
      Entry.ofChain (pair.1.map fun id ↦ (forest.node id).entry) = (after.node pair.2).entry)
    (hspans : after.Spans result) (hnodup : result.values.Nodup) {place : Cursor NodeId}
    (hplace : place ∈ Cursor.places ids) (hbranches : place.branches) :
    ∃ start : SyntaxTree, start.chainEnd = forest.entries place.focus ∧
      Query.subtree (⟨after, image place.focus.value⟩ : Member) = start.compress := by
  obtain ⟨item, hitem, hfirst, hvalue⟩ := h.exists_item hplace hbranches
  obtain ⟨start, hstart, hend⟩ := Cursor.exists_chainPlace_eq place hplace
  have hpart : item.focus.map Prod.snd ∈ result.preorder := by
    rw [← h.result_eq, Tree.preorder_map]
    exact List.mem_map_of_mem (Cursor.focus_mem_preorder hitem)
  let folded (chain : List NodeId) : Entry :=
    .ofChain (chain.map fun id ↦ (forest.node id).entry)
  refine ⟨forest.entries start, ?_, ?_⟩
  · rw [entries, Tree.chainEnd_map, hend, Tree.chainEnd_eq_self (Tree.branches_iff.mp hbranches)]
    rfl
  · calc
      Query.subtree (⟨after, image place.focus.value⟩ : Member) =
          after.entries (item.focus.map Prod.snd) := by
        rw [← hvalue, ← Tree.value_map Prod.snd]
        exact (hspans.of_mem_preorder hpart).subtree_eq
          (hnodup.sublist (Tree.values_sublist_of_mem_preorder hpart))
      _ = item.focus.map fun pair ↦ folded pair.1 := by
        rw [entries, Tree.map_map]
        apply Tree.map_congr_left
        intro pair hpair
        exact (hagree pair (Tree.values_sublist_of_mem_preorder
          (Cursor.focus_mem_preorder hitem) |>.subset hpair)).symm
      _ = start.chains.map folded := by
        rw [← hstart, ← hfirst, Cursor.focus_map, Tree.map_map]
        rfl
      _ = (forest.entries start).compress := by
        rw [Tree.compress_eq_map_chains, entries, Tree.chains_map, Tree.map_map]
        rfl

end Pairing

theorem IsTree.branches_eq {id : NodeId} (h : forest.IsTree id) :
    forest.branches id = (Query.subtree (⟨forest, id⟩ : Member)).branches := by
  rw [Tree.branches, ← h.map_subtree_children, List.length_map]
  change _ = (((forest.node id).children.map _).length != 1)
  rw [List.length_map, branches]

theorem Hangs.branches_at (h : forest.Hangs none ids) {place : Cursor NodeId}
    (hplace : place ∈ Cursor.places ids) :
    forest.branches place.focus.value = place.branches :=
  (h.at_places place hplace).1.spans.branches_value

theorem Hangs.filter_ancestors (h : forest.Hangs none ids) {place : Cursor NodeId}
    (hplace : place ∈ Cursor.places ids) :
    place.ancestors.filter Cursor.branches =
      place.ancestors.filter fun above ↦ forest.branches above.focus.value := by
  apply List.filter_congr
  intro above habove
  exact (h.branches_at (Cursor.mem_places_of_mem_ancestors place hplace above habove)).symm

/-- The upward walk from an image meets the images of the ancestors where a chain ends. -/
theorem Pairing.ancestors_image {pairs : Tree (List NodeId × NodeId)} {image : NodeId → NodeId}
    (h : Pairing ids result pairs image) (hhangs : forest.Hangs none ids)
    (hnodup : ids.values.Nodup) (hresult : after.Hangs none result)
    (hresultNodup : result.values.Nodup) {place : Cursor NodeId}
    (hplace : place ∈ Cursor.places ids) (hbranches : place.branches) :
    Query.ancestors (⟨after, image place.focus.value⟩ : Member) =
      ((Query.ancestors (forest.memberAt place)).filter fun above ↦ forest.branches above.id).map
        fun above ↦ ⟨after, image above.id⟩ := by
  obtain ⟨item, hitem, hvalue, hancestors⟩ := h.exists_place_result hplace hbranches
  calc
    Query.ancestors (⟨after, image place.focus.value⟩ : Member) =
        item.ancestors.map after.memberAt := by
      rw [← hvalue]
      exact hresult.ancestors_memberAt hresultNodup item hitem
    _ = (item.ancestors.map fun above ↦ above.focus.value).map (Member.mk after) := by
      rw [List.map_map]
      rfl
    _ = (place.ancestors.filter Cursor.branches).map
        fun above ↦ ⟨after, image above.focus.value⟩ := by
      rw [hancestors, List.map_map]
      rfl
    _ = ((place.ancestors.map forest.memberAt).filter fun above ↦ forest.branches above.id).map
        fun above ↦ ⟨after, image above.id⟩ := by
      rw [hhangs.filter_ancestors hplace, List.filter_map, List.map_map]
      rfl
    _ = _ := by rw [hhangs.ancestors_memberAt hnodup place hplace]

/-- Compression in place takes every node where a chain ends to an image, which has the compressed
children of the node. -/
theorem exists_isImage_children {root : NodeId} (h : forest.IsRooted root) :
    ∃ after result image, rebuild .compress forest root = .ok (after, result) ∧
      after.IsRooted result ∧ forest.IsImage root after result image ∧
      ∀ id ∈ forest.preorder root, forest.branches id →
        (Query.children (⟨after, image id⟩ : Member)).map Query.subtree =
          (Query.children (⟨forest, id⟩ : Member)).map fun child ↦
            (Query.subtree child).compress := by
  have htree := h.isTree
  obtain ⟨ids, rfl, hhangs, hnodup⟩ := h
  obtain ⟨after, result, hrebuild, hresult, hresultNodup, hcompress⟩ :=
    exists_rebuild_hangs .compress hhangs.spans hnodup
  rw [hhangs.back_value] at hresult
  rw [Tree.normalize, Tree.compress_eq_map_chains, entries, entries, Tree.chains_map,
    Tree.map_map] at hcompress
  obtain ⟨pairs, image, hpairing, hagree⟩ := exists_pairing hnodup hcompress.symm
  have himage : forest.IsImage ids.value after result.value image := by
    refine ⟨?_, ?_, ?_, ?_⟩
    · rwa [hresult.spans.preorder_eq hresultNodup]
    · rw [hresult.spans.preorder_eq_map_places hresultNodup, hpairing.values_result,
        hhangs.spans.preorder_eq_map_places hnodup, List.filter_map, List.map_map]
      congr 1
      exact List.filter_congr fun place hplace ↦ (hhangs.branches_at hplace).symm
    · intro chain last hmaximal hlast
      have hchain : chain ∈ pairs.values.map Prod.fst := by
        rw [← Tree.values_map, hpairing.chains_eq]
        exact hhangs.spans.mem_chains hnodup hmaximal
      obtain ⟨pair, hpair, rfl⟩ := List.mem_map.mp hchain
      rw [hpairing.image_eq pair hpair last hlast, ← hagree pair hpair]
      rfl
    · intro id hid hends
      obtain ⟨place, hplace, rfl⟩ := (hhangs.spans.mem_preorder_iff hnodup).mp hid
      rw [hhangs.branches_at hplace] at hends
      exact hpairing.ancestors_image hhangs hnodup hresult hresultNodup hplace hends
  have hrooted : after.IsRooted result.value := ⟨result, rfl, hresult, hresultNodup⟩
  refine ⟨after, result.value, image, hrebuild, hrooted, himage, ?_⟩
  intro id hid hends
  have himageTree := hrooted.isTree.of_mem_preorder (himage.mem_preorder hid hends)
  have hidTree := htree.of_mem_preorder hid
  obtain ⟨place, hplace, rfl⟩ := (hhangs.spans.mem_preorder_iff hnodup).mp hid
  rw [hhangs.branches_at hplace] at hends
  obtain ⟨start, hend, hsubtree⟩ := hpairing.exists_subtree_image hagree hresult.spans
    hresultNodup hplace hends
  have hpart := Cursor.focus_mem_preorder hplace
  rw [himageTree.map_subtree_children, hsubtree, Tree.children_compress, hend,
    ← (hhangs.at_places place hplace).1.spans.subtree_eq
      (hnodup.sublist (Tree.values_sublist_of_mem_preorder hpart)),
    ← hidTree.map_subtree_children, List.map_map]
  rfl

/-- An image has children of the same types as the node: a chain starts as its first node does. -/
theorem exists_isImage_childTypes {root : NodeId} (h : forest.IsRooted root) :
    ∃ after result image, rebuild .compress forest root = .ok (after, result) ∧
      forest.IsImage root after result image ∧
      ∀ id ∈ forest.preorder root, forest.branches id →
        Query.childTypes (⟨after, image id⟩ : Member) =
          Query.childTypes (⟨forest, id⟩ : Member) := by
  obtain ⟨after, result, image, hrebuild, -, himage, hchildren⟩ := exists_isImage_children h
  refine ⟨after, result, image, hrebuild, himage, ?_⟩
  intro id hid hends
  have hfirst := congrArg (List.map fun tree ↦ tree.value.label.first) (hchildren id hid hends)
  simp only [List.map_map, Function.comp_def, Tree.first_compress, value_subtree] at hfirst
  exact hfirst

theorem exists_isImage {root : NodeId} (h : forest.IsRooted root) :
    ∃ after result image, rebuild .compress forest root = .ok (after, result) ∧
      forest.IsImage root after result image := by
  obtain ⟨after, result, image, hrebuild, himage, -⟩ := exists_isImage_childTypes h
  exact ⟨after, result, image, hrebuild, himage⟩

/-! ## What an image answers -/

variable {root : NodeId}

/-- A maximal chain ends at every node where a chain can end. -/
theorem IsRooted.exists_maximalChain (h : forest.IsRooted root) {id : NodeId}
    (hid : id ∈ forest.preorder root) (hends : forest.branches id) :
    ∃ chain, forest.IsMaximalChain root chain ∧ chain.getLast? = some id := by
  obtain ⟨ids, rfl, hhangs, hnodup⟩ := h
  have hmem : some id ∈ ids.chains.values.map List.getLast? := by
    have hfilter := List.mem_filter.mpr ⟨hid, hends⟩
    rw [hhangs.spans.filter_branches_preorder hnodup] at hfilter
    obtain ⟨part, hpart, rfl⟩ := List.mem_map.mp hfilter
    rw [Tree.map_getLast?_chains]
    exact List.mem_map.mpr ⟨part, hpart, rfl⟩
  obtain ⟨chain, hchain, hlast⟩ := List.mem_map.mp hmem
  exact ⟨chain, ((hhangs.spans.isQuotient hnodup).mem_iff chain).mp hchain, hlast⟩

/-- An image is recognised by what the node was folded down to: the node itself. -/
theorem IsImage.last_label {result : NodeId} {image : NodeId → NodeId}
    (himage : forest.IsImage root after result image) (h : forest.IsRooted root) {id : NodeId}
    (hid : id ∈ forest.preorder root) (hends : forest.branches id) :
    (Query.label (⟨after, image id⟩ : Member)).last =
      (Query.label (⟨forest, id⟩ : Member)).last := by
  obtain ⟨chain, hmaximal, hlast⟩ := h.exists_maximalChain hid hends
  change (after.node (image id)).entry.label.last = (forest.node id).entry.label.last
  rw [himage.entry_eq chain id hmaximal hlast]
  exact Label.last_joined (by simp [hlast])

/-- The nodes above a node of a tree belong to the tree. -/
theorem IsRooted.ancestors_mem (h : forest.IsRooted root) {id : NodeId}
    (hid : id ∈ forest.preorder root) :
    ∀ above ∈ Query.ancestors (⟨forest, id⟩ : Member),
      ∃ outer ∈ forest.preorder root, above = ⟨forest, outer⟩ := by
  obtain ⟨ids, rfl, hhangs, hnodup⟩ := h
  obtain ⟨place, hplace, rfl⟩ := (hhangs.spans.mem_preorder_iff hnodup).mp hid
  intro above habove
  have hwalk := hhangs.ancestors_memberAt hnodup place hplace
  rw [memberAt] at hwalk
  rw [hwalk] at habove
  obtain ⟨outer, houter, rfl⟩ := List.mem_map.mp habove
  refine ⟨outer.focus.value, (hhangs.spans.mem_preorder_iff hnodup).mpr ⟨outer, ?_, rfl⟩, rfl⟩
  exact Cursor.mem_places_of_mem_ancestors place hplace outer houter

end Forest

end SyntaxMining
