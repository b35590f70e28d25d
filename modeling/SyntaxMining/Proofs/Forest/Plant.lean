import SyntaxMining.Proofs.Forest.Links

/-!
# Planted trees

Planting a tree adds one node for each of its nodes and touches nothing that was there. The new
nodes hang from the given parent and read back as the tree, so a planted tree is a tree of linked
nodes.
-/

namespace SyntaxMining.Forest

/-- Some trees have been planted below a parent. -/
structure Plants (before after : Forest) (parent : Option NodeId) (trees : List SyntaxTree)
    (results : List (Tree NodeId)) : Prop where
  size_le : before.size ≤ after.size
  frame : ∀ id < before.size, after.node id = before.node id
  fresh : ∀ id ∈ idsOf results, before.size ≤ id
  nodup : (idsOf results).Nodup
  hangs : ∀ result ∈ results, after.Hangs parent result
  entries : results.map after.entries = trees

/-- The trees that `plantAll` has planted first stay as they are. -/
theorem Plants.cons {before middle after : Forest} {parent : Option NodeId} {tree : SyntaxTree}
    {trees : List SyntaxTree} {result : Tree NodeId} {results : List (Tree NodeId)}
    (first : Plants before middle parent [tree] [result])
    (others : Plants middle after parent trees results) :
    Plants before after parent (tree :: trees) (result :: results) := by
  have hhangs := first.hangs result (by simp)
  have hlt : ∀ id ∈ result.values, id < middle.size := hhangs.spans.lt_size
  have hkept : ∀ id ∈ result.values, after.node id = middle.node id := fun id hid ↦
    others.frame id (hlt id hid)
  refine ⟨Nat.le_trans first.size_le others.size_le, ?_, ?_, ?_, ?_, ?_⟩
  · intro id hid
    rw [others.frame id (Nat.lt_of_lt_of_le hid first.size_le), first.frame id hid]
  · intro id hid
    rcases List.mem_append.mp hid with hresult | hresults
    · exact first.fresh id (by simpa using hresult)
    · exact Nat.le_trans first.size_le (others.fresh id hresults)
  · refine List.Nodup.append (by simpa using first.nodup) others.nodup ?_
    intro id hresult hresults
    exact absurd (hlt id hresult) (Nat.not_lt.mpr (others.fresh id hresults))
  · intro other hother
    rcases List.mem_cons.mp hother with rfl | hrest
    · exact hhangs.congr others.size_le hkept
    · exact others.hangs other hrest
  · have hentries : after.entries result = middle.entries result :=
      entries_congr fun id hid ↦ by rw [hkept id hid]
    have hfirst : middle.entries result = tree := by simpa using first.entries
    rw [List.map_cons, hentries, hfirst, others.entries]

theorem plantAll_eq {trees : List SyntaxTree}
    (h : ∀ tree ∈ trees, ∀ (forest : Forest) (parent : Option NodeId), ∃ result : Tree NodeId,
      (forest.plant parent tree).2 = result.value ∧
        Plants forest (forest.plant parent tree).1 parent [tree] [result])
    (forest : Forest) (parent : NodeId) : ∃ results : List (Tree NodeId),
      (forest.plantAll parent trees).2 = results.map Tree.value ∧
        Plants forest (forest.plantAll parent trees).1 (some parent) trees results := by
  induction trees generalizing forest with
  | nil =>
    refine ⟨[], rfl, Nat.le_refl _, fun _ _ ↦ rfl, ?_, List.nodup_nil, ?_, rfl⟩
    · intro id hid
      simp at hid
    · intro result hresult
      simp at hresult
  | cons tree rest ih =>
    obtain ⟨result, hvalue, hfirst⟩ := h tree (by simp) forest (some parent)
    obtain ⟨results, hvalues, hothers⟩ :=
      ih (fun other hother ↦ h other (List.mem_cons_of_mem _ hother))
        (forest.plant (some parent) tree).1
    refine ⟨result :: results, ?_, ?_⟩
    · rw [plantAll, List.map_cons, hvalue, hvalues]
    · rw [plantAll]
      exact hfirst.cons hothers

theorem plant_eq (tree : SyntaxTree) (forest : Forest) (parent : Option NodeId) :
    ∃ result : Tree NodeId, (forest.plant parent tree).2 = result.value ∧
      Plants forest (forest.plant parent tree).1 parent [tree] [result] := by
  induction tree using Tree.inductionOnChildren generalizing forest parent with
  | node entry children ih =>
    let added := (forest.add entry parent).1
    have hroom : forest.size < added.size := by
      rw [size_add]
      exact Nat.lt_succ_self _
    obtain ⟨results, hvalues, hplants⟩ := plantAll_eq ih added forest.size
    let grown := (added.plantAll forest.size children).1
    have hafter : (forest.plant parent (.node entry children)).1 =
        grown.setChildren forest.size (results.map Tree.value) := by
      rw [plant, ← hvalues]
      rfl
    have hnode : grown.node forest.size = ⟨entry, [], parent⟩ := by
      rw [hplants.frame _ hroom]
      exact node_add_self _ _ _
    have hfresh : ∀ id ∈ idsOf results, forest.size < id := fun id hid ↦
      Nat.lt_of_lt_of_le hroom (hplants.fresh id hid)
    have hnodup : (forest.size :: idsOf results).Nodup :=
      List.nodup_cons.mpr ⟨fun hin ↦ absurd (hfresh _ hin) (Nat.lt_irrefl _), hplants.nodup⟩
    have hgrown : forest.size < grown.size := Nat.lt_of_lt_of_le hroom hplants.size_le
    refine ⟨.node forest.size results, rfl, ?_⟩
    rw [hafter]
    refine ⟨?_, ?_, ?_, ?_, ?_, ?_⟩
    · rw [size_setChildren]
      exact Nat.le_of_lt hgrown
    · intro id hid
      rw [node_setChildren_of_notMem_idsOf (Nat.ne_of_lt hid)
          (fun hin ↦ absurd (hfresh id hin) (Nat.not_lt.mpr (Nat.le_of_lt hid))),
        hplants.frame id (Nat.lt_trans hid hroom)]
      exact node_add_of_ne _ _ _ (Nat.ne_of_lt hid)
    · intro id hid
      simp only [idsOf_cons, idsOf_nil, List.append_nil, Tree.values_node, List.mem_cons] at hid
      rcases hid with rfl | hin
      · exact Nat.le_refl _
      · exact Nat.le_of_lt (hfresh id hin)
    · rwa [idsOf_cons, idsOf_nil, List.append_nil, Tree.values_node]
    · intro result hresult
      obtain rfl := List.mem_singleton.mp hresult
      have hhangs := hangs_setChildren hgrown
        (fun tree htree ↦ ⟨_, hplants.hangs tree htree⟩) hnodup
      rwa [hnode] at hhangs
    · rw [List.map_singleton, entries_setChildren, hnode, hplants.entries]

theorem isTree_plant (forest : Forest) (parent : Option NodeId) (tree : SyntaxTree) :
    (forest.plant parent tree).1.IsTree (forest.plant parent tree).2 := by
  obtain ⟨result, hvalue, hplants⟩ := plant_eq tree forest parent
  exact ⟨result, hvalue.symm, (hplants.hangs result (by simp)).spans, by simpa using hplants.nodup⟩

end SyntaxMining.Forest
