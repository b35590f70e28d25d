import SyntaxMining.Proofs.Forest.Consistency
import SyntaxMining.Proofs.Query.Keeping

/-!
# Replacing what is below a node

New trees can be grown in the place of the ones below a node. The node itself keeps its entry and
its parent, and every other node that was there stays as it is. What can be seen from another node
is therefore kept as far as it does not lie below the changed one: the subtree of a node that the
changed one is not part of, and the way up from a node that is not part of the changed one.
-/

namespace SyntaxMining

namespace Forest

/-- Grows new trees in the place of those below a node. -/
def regrow (forest : Forest) (site : NodeId) (trees : List SyntaxTree) : Forest :=
  let planted := forest.plantAll site trees
  planted.1.setChildren site planted.2

/-- The same node in another forest. -/
def Member.into (after : Forest) (member : Member) : Member :=
  ⟨after, member.id⟩

/-- Only the children of one node have changed. -/
structure DiffersAt (before after : Forest) (site : NodeId) : Prop where
  size_le : before.size ≤ after.size
  node_eq : ∀ id < before.size, id ≠ site → after.node id = before.node id
  entry_eq : (after.node site).entry = (before.node site).entry
  parent_eq : (after.node site).parent = (before.node site).parent

variable {forest before after : Forest} {root site : NodeId} {ids : Tree NodeId}

theorem regrow_differsAt_and_subtree (hlt : site < forest.size) (trees : List SyntaxTree) :
    DiffersAt forest (forest.regrow site trees) site ∧
      Query.subtree (⟨forest.regrow site trees, site⟩ : Member) =
        .node (forest.node site).entry trees := by
  obtain ⟨results, hvalues, hplants⟩ :=
    plantAll_eq (fun tree _ ↦ plant_eq tree) forest site
  let grown := (forest.plantAll site trees).1
  have hregrow : forest.regrow site trees = grown.setChildren site (results.map Tree.value) := by
    rw [← hvalues]
    rfl
  have hold : ∀ id < forest.size, id ∉ idsOf results := fun id hid hin ↦
    absurd hid (Nat.not_lt.mpr (hplants.fresh id hin))
  have hgrown : site < grown.size := Nat.lt_of_lt_of_le hlt hplants.size_le
  have hnodup : (site :: idsOf results).Nodup :=
    List.nodup_cons.mpr ⟨hold site hlt, hplants.nodup⟩
  have hsite := node_setChildren_self hgrown fun hroot ↦ hold site hlt (root_mem_idsOf hroot)
  have hframe : grown.node site = forest.node site := hplants.frame site hlt
  rw [hregrow]
  refine ⟨⟨?_, ?_, ?_, ?_⟩, ?_⟩
  · rw [size_setChildren]
    exact hplants.size_le
  · intro id hid hne
    rw [node_setChildren_of_notMem_idsOf hne (hold id hid), hplants.frame id hid]
  · rw [hsite, hframe]
  · rw [hsite, hframe]
  · have hhangs := hangs_setChildren hgrown
      (fun tree htree ↦ ⟨_, hplants.hangs tree htree⟩) hnodup
    have hsubtree := hhangs.spans.subtree_eq (by rwa [Tree.values_node])
    rw [Tree.value_node, entries_setChildren, hplants.entries, hframe] at hsubtree
    exact hsubtree

namespace DiffersAt

variable (h : DiffersAt before after site)

include h

theorem keeps {id : NodeId} (hlt : id < before.size) :
    Query.Keeps (Member.into after) (⟨before, id⟩ : Member) := by
  change (after.node id).entry = (before.node id).entry
  by_cases hid : id = site
  · rw [hid, h.entry_eq]
  · rw [h.node_eq id hlt hid]

theorem parent_node_eq {id : NodeId} (hlt : id < before.size) :
    (after.node id).parent = (before.node id).parent := by
  by_cases hid : id = site
  · rw [hid, h.parent_eq]
  · rw [h.node_eq id hlt hid]

/-- Every node but the changed one keeps its children. -/
theorem keepsChildren (hrooted : before.IsRooted root) {id : NodeId}
    (hid : id ∈ before.preorder root) (hne : id ≠ site) :
    Query.KeepsChildren (Member.into after) (⟨before, id⟩ : Member) := by
  have hlinks := hrooted.linksAgree
  refine ⟨h.keeps (hlinks.lt_size id hid), ?_, ?_⟩
  · change (after.node id).children.map _ = ((before.node id).children.map _).map _
    rw [h.node_eq id (hlinks.lt_size id hid) hne, List.map_map]
    rfl
  · intro child hchild
    obtain ⟨below, hbelow, rfl⟩ := List.mem_map.mp hchild
    exact h.keeps (hlinks.lt_size below (hlinks.closed id hid below hbelow))

/-- A part of the tree that the changed node does not belong to is kept whole. -/
theorem keepsSubtree (hhangs : before.Hangs none ids) (hnodup : ids.values.Nodup)
    {part : Tree NodeId} (hpart : part ∈ ids.preorder) (hsite : site ∉ part.values) :
    Query.KeepsSubtree (Member.into after) (⟨before, part.value⟩ : Member) := by
  -- no node of the part is the changed one, so all of them are as they were
  induction part with
  | node id children ih =>
    have hspans := hhangs.spans.of_mem_preorder hpart
    have hapart := hnodup.sublist (Tree.values_sublist_of_mem_preorder hpart)
    have hkept : ∀ other ∈ (Tree.node id children).values, after.node other = before.node other :=
      fun other hother ↦
        h.node_eq other (hspans.lt_size other hother) fun heq ↦ hsite (heq ▸ hother)
    rw [Tree.value_node]
    refine .node ?_ ?_ ?_
    · apply h.keepsChildren ⟨ids, rfl, hhangs, hnodup⟩
      · rw [hhangs.spans.preorder_eq hnodup]
        exact Tree.mem_values_of_mem_preorder hpart
      · rintro rfl
        exact hsite (Tree.value_mem_values _)
    · have hentries : after.entries (.node id children) = before.entries (.node id children) :=
        entries_congr fun other hother ↦ by rw [hkept other hother]
      calc
        Query.subtree (⟨after, id⟩ : Member) = after.entries (.node id children) :=
          (hspans.congr h.size_le hkept).subtree_eq hapart
        _ = before.entries (.node id children) := hentries
        _ = Query.subtree (⟨before, id⟩ : Member) := (hspans.subtree_eq hapart).symm
    · intro member hmember
      obtain ⟨below, hbelow, rfl⟩ := List.mem_map.mp hmember
      change below ∈ (before.node (Tree.node id children).value).children at hbelow
      rw [hspans.links_value] at hbelow
      obtain ⟨child, hchild, rfl⟩ := List.mem_map.mp hbelow
      refine ih child hchild (Tree.mem_preorder_trans hpart
        (Tree.mem_preorder_of_mem_children hchild child.self_mem_preorder)) ?_
      intro hin
      rw [Tree.values_node] at hsite
      exact hsite (List.mem_cons_of_mem _ (List.mem_flatMap.mpr ⟨child, hchild, hin⟩))

/-- The parent links are the same, so the walk upwards is. -/
theorem ancestorsTo_eq (hrooted : before.IsRooted root) (steps : Nat) {id : NodeId}
    (hid : id ∈ before.preorder root) :
    after.ancestorsTo steps id = before.ancestorsTo steps id := by
  induction steps generalizing id with
  | zero => rfl
  | succ steps ih =>
    have hlinks := hrooted.linksAgree
    rw [ancestorsTo, ancestorsTo, h.parent_node_eq (hlinks.lt_size id hid)]
    cases hparent : (before.node id).parent with
    | none => rfl
    | some parent => simp only [ih ((hlinks.parent_iff id hid parent).mp hparent).1]

theorem ancestors_eq (hhangs : before.Hangs none ids) (hnodup : ids.values.Nodup)
    {place : Cursor NodeId} (hplace : place ∈ Cursor.places ids) :
    Query.ancestors ((before.memberAt place).into after) =
      (Query.ancestors (before.memberAt place)).map (Member.into after) := by
  have hid := (hhangs.spans.mem_preorder_iff hnodup).mpr ⟨place, hplace, rfl⟩
  have hlength := hhangs.length_above_le hnodup hplace
  have hwalk := (hhangs.at_places place hplace).2
  change (after.ancestorsTo after.size place.focus.value).map _ =
    ((before.ancestorsTo before.size place.focus.value).map _).map _
  rw [h.ancestorsTo_eq ⟨ids, rfl, hhangs, hnodup⟩ _ hid, hwalk before.size hlength,
    hwalk after.size (Nat.le_trans hlength h.size_le), List.map_map, List.map_map, List.map_map]
  rfl

/-- The way up from a node that does not lie below the changed one is kept. -/
theorem keepsAncestors (hhangs : before.Hangs none ids) (hnodup : ids.values.Nodup) :
    ∀ place ∈ Cursor.places ids, site ∉ place.above.map Tree.value →
      Query.KeepsAncestors (Member.into after) (before.memberAt place) := by
  -- the changed node is none of the ancestors, so each of them keeps its children
  refine Cursor.inductionOnPlaces ?_ ?_
  · intro _
    have htop := Cursor.self_mem_placesBelow [] ids
    have hnone : Query.ancestors (before.memberAt (Cursor.top ids)) = [] :=
      hhangs.ancestors_memberAt hnodup _ htop
    refine .node (h.ancestors_eq hhangs hnodup htop) ?_ ?_
    · simp [hnone]
    · simp [hnone]
  · intro place hplace ih child hchild hsite
    rw [List.map_cons, List.mem_cons, not_or] at hsite
    obtain ⟨hparent, habove⟩ := hsite
    have hup := ih habove
    have hbelow := Cursor.child_mem_places hplace hchild
    have hancestors : Query.ancestors (before.memberAt ⟨child, place.focus :: place.above⟩) =
        before.memberAt place :: Query.ancestors (before.memberAt place) := by
      rw [hhangs.ancestors_memberAt hnodup _ hbelow, hhangs.ancestors_memberAt hnodup _ hplace,
        Cursor.ancestors_child, List.map_cons]
    have hchildren : Query.KeepsChildren (Member.into after) (before.memberAt place) :=
      h.keepsChildren ⟨ids, rfl, hhangs, hnodup⟩
        ((hhangs.spans.mem_preorder_iff hnodup).mpr ⟨place, hplace, rfl⟩) (Ne.symm hparent)
    refine .node (h.ancestors_eq hhangs hnodup hbelow) ?_ ?_ <;>
      rw [hancestors, List.forall_mem_cons]
    · exact ⟨hchildren, hup.keepsChildren⟩
    · exact ⟨hup, hup.of_mem_ancestors⟩

/-- From a node that stands apart from the changed one, all there is below it and on its way up is
kept. -/
theorem keeps_of_apart (hrooted : before.IsRooted root) {id : NodeId}
    (hid : id ∈ before.preorder root) (hbelow : id ∉ before.preorder site)
    (habove : site ∉ before.preorder id) :
    Query.KeepsSubtree (Member.into after) (⟨before, id⟩ : Member) ∧
      Query.KeepsAncestors (Member.into after) (⟨before, id⟩ : Member) := by
  obtain ⟨ids, rfl, hhangs, hnodup⟩ := hrooted
  have hpreorder {part : Tree NodeId} (hpart : part ∈ ids.preorder) :
      before.preorder part.value = part.values :=
    (hhangs.spans.of_mem_preorder hpart).preorder_eq
      (hnodup.sublist (Tree.values_sublist_of_mem_preorder hpart))
  obtain ⟨place, hplace, rfl⟩ := (hhangs.spans.mem_preorder_iff hnodup).mp hid
  have hpart := Cursor.focus_mem_preorder hplace
  refine ⟨h.keepsSubtree hhangs hnodup hpart ?_, h.keepsAncestors hhangs hnodup place hplace ?_⟩
  · rwa [hpreorder hpart] at habove
  · intro hsite
    obtain ⟨outer, houter, rfl⟩ := List.mem_map.mp hsite
    obtain ⟨hin, hfocus⟩ := Cursor.focus_mem_preorder_of_mem_above place hplace outer houter
    rw [hpreorder hin] at hbelow
    exact hbelow (Tree.mem_values_of_mem_preorder hfocus)

end DiffersAt

end Forest

end SyntaxMining
