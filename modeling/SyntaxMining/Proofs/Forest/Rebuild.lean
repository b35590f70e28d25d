import SyntaxMining.Proofs.Forest.Finish

/-!
# Rebuilding in place

The loop that removes chains agrees with the recursive normal form. By induction on the tree, a
visit of its root takes two jobs for each node, finds every entry of the table it asks for and
leaves only the entry of the root behind. The number of jobs that the loop is given is therefore
the number it needs.
-/

namespace SyntaxMining.Forest

/-! ## The table of finished nodes -/

/-- What the table holds for a node. -/
def lookup (rebuilt : Rebuilt) (id : NodeId) : Option NodeId :=
  rebuilt.getD id none

theorem lookup_set_self {rebuilt : Rebuilt} {id : NodeId} (value : Option NodeId)
    (h : id < rebuilt.size) : lookup (rebuilt.setIfInBounds id value) id = value := by
  simp [lookup, h]

theorem lookup_set_of_ne (rebuilt : Rebuilt) {id other : NodeId} (value : Option NodeId)
    (h : other ≠ id) : lookup (rebuilt.setIfInBounds id value) other = lookup rebuilt other := by
  simp [lookup, Array.getD_eq_getD_getElem?, h.symm]

theorem lt_size_of_lookup {rebuilt : Rebuilt} {id result : NodeId}
    (h : lookup rebuilt id = some result) : id < rebuilt.size := by
  by_contra hlt
  simp [lookup, Array.getD_eq_getD_getElem?, Nat.not_lt.mp hlt] at h

theorem take_eq {rebuilt : Rebuilt} {id result : NodeId} (h : lookup rebuilt id = some result) :
    take rebuilt id = .ok (result, rebuilt.setIfInBounds id none) := by
  unfold lookup at h
  rw [take, h]

/-- Taking out several entries that are there succeeds and empties exactly these. -/
theorem takeAll_eq {rebuilt : Rebuilt} {ids results : List NodeId} (hnodup : ids.Nodup)
    (h : ids.map (lookup rebuilt) = results.map some) :
    ∃ rest, takeAll rebuilt ids = .ok (results, rest) ∧ rest.size = rebuilt.size ∧
      (∀ id ∈ ids, lookup rest id = none) ∧ ∀ id ∉ ids, lookup rest id = lookup rebuilt id := by
  induction ids generalizing rebuilt results with
  | nil =>
    have hresults : results = [] := by simpa using h.symm
    subst hresults
    exact ⟨rebuilt, rfl, rfl, by simp, fun _ _ ↦ rfl⟩
  | cons id ids ih =>
    cases results with
    | nil => simp at h
    | cons result results =>
      obtain ⟨hfirst, hrest⟩ : lookup rebuilt id = some result ∧
          ids.map (lookup rebuilt) = results.map some := by simpa using h
      obtain ⟨hid, hids⟩ := List.nodup_cons.mp hnodup
      have hlookup : ids.map (lookup (rebuilt.setIfInBounds id none)) = results.map some := by
        rw [← hrest]
        apply List.map_congr_left
        rintro other hother
        exact lookup_set_of_ne rebuilt none (ne_of_mem_of_not_mem hother hid)
      obtain ⟨rest, htake, hsize, hempty, hframe⟩ := ih hids hlookup
      refine ⟨rest, ?_, by rw [hsize, Array.size_setIfInBounds], ?_, ?_⟩
      · rw [takeAll, take_eq hfirst]
        simp only [htake]
      · intro other hother
        rcases List.mem_cons.mp hother with rfl | hin
        · rw [hframe other hid, lookup_set_self none (lt_size_of_lookup hfirst)]
        · exact hempty other hin
      · intro other hother
        rw [List.mem_cons, not_or] at hother
        rw [hframe other hother.2, lookup_set_of_ne rebuilt none hother.1]

/-- The table has gained the results of some trees and is otherwise unchanged. -/
structure Records (before after : Rebuilt) (trees results : List (Tree NodeId)) : Prop where
  size_eq : after.size = before.size
  roots : trees.map (fun tree ↦ lookup after tree.value) =
    results.map fun result ↦ some result.value
  frame : ∀ id ∉ trees.map Tree.value, lookup after id = lookup before id

/-! ## The loop -/

/-- Visiting some trees takes two jobs for each node and rebuilds them, whatever waits behind. -/
def Visits (mode : Mode) (trees : List (Tree NodeId)) : Prop :=
  ∀ (forest : Forest) (rebuilt : Rebuilt) (steps : Nat) (jobs : List Job),
    (∀ tree ∈ trees, forest.Spans tree) → (idsOf trees).Nodup →
    (∀ id ∈ idsOf trees, id < rebuilt.size ∧ lookup rebuilt id = none) →
    ∃ (after : Forest) (table : Rebuilt) (results : List (Tree NodeId)),
      work mode (2 * Tree.sizeAll trees + steps)
          (trees.map (fun tree ↦ Job.visit tree.value) ++ jobs) forest rebuilt =
        work mode steps jobs after table ∧
      Rebuilds mode forest after trees results ∧ Records rebuilt table trees results

variable {mode : Mode}

theorem visits_nil : Visits mode [] := by
  intro forest rebuilt steps jobs _ _ _
  refine ⟨forest, rebuilt, [], by simp [Tree.sizeAll], .nil mode forest, rfl, rfl, fun _ _ ↦ rfl⟩

theorem visits_cons {tree : Tree NodeId} {trees : List (Tree NodeId)}
    (hfirst : Visits mode [tree]) (hrest : Visits mode trees) : Visits mode (tree :: trees) := by
  intro forest rebuilt steps jobs hspans hnodup hempty
  have hdisjoint : List.Disjoint tree.values (idsOf trees) :=
    List.disjoint_of_nodup_append hnodup
  obtain ⟨middle, table, results, hwork, hrebuilds, hrecords⟩ :=
    hfirst forest rebuilt (2 * Tree.sizeAll trees + steps)
      (trees.map (fun tree ↦ Job.visit tree.value) ++ jobs)
      (fun other hother ↦ hspans other (by simp_all))
      (by simpa using hnodup.of_append_left) (fun id hid ↦ hempty id (by simp_all))
  obtain ⟨result, rfl⟩ := hrebuilds.exists_eq_singleton
  have houtside : ∀ id ∈ idsOf trees, id ∉ [tree].map Tree.value := by
    intro id hid hroot
    obtain rfl : id = tree.value := by simpa using hroot
    exact hdisjoint tree.value_mem_values hid
  have hspansRest : ∀ other ∈ trees, forest.Spans other := fun other hother ↦
    hspans other (List.mem_cons_of_mem _ hother)
  have hspansMiddle : ∀ other ∈ trees, middle.Spans other := by
    intro other hother
    refine (hspansRest other hother).congr hrebuilds.size_le fun id hid ↦ ?_
    refine hrebuilds.frame id ((hspansRest other hother).lt_size id hid) fun hin ↦ ?_
    exact hdisjoint (by simpa using hin) (mem_idsOf.mpr ⟨other, hother, hid⟩)
  obtain ⟨after, tableAfter, others, hworkRest, hrebuildsRest, hrecordsRest⟩ :=
    hrest middle table steps jobs hspansMiddle hnodup.of_append_right (by
      intro id hid
      rw [hrecords.size_eq, hrecords.frame id (houtside id hid)]
      exact hempty id (List.mem_append_right _ hid))
  refine ⟨after, tableAfter, result :: others, ?_, hrebuilds.cons hrebuildsRest hspansRest hnodup,
    ?_, ?_, ?_⟩
  · rw [← hworkRest, ← hwork]
    congr 1
    simp only [Tree.sizeAll]
    omega
  · rw [hrecordsRest.size_eq, hrecords.size_eq]
  · have hroot : lookup table tree.value = some result.value := by simpa using hrecords.roots
    have hkept : lookup tableAfter tree.value = lookup table tree.value := by
      apply hrecordsRest.frame
      intro hin
      obtain ⟨other, hother, hvalue⟩ := List.mem_map.mp hin
      exact hdisjoint tree.value_mem_values (hvalue ▸ value_mem_idsOf hother)
    rw [List.map_cons, List.map_cons, hkept, hroot, hrecordsRest.roots]
  · intro id hid
    rw [List.map_cons, List.mem_cons, not_or] at hid
    rw [hrecordsRest.frame id hid.2, hrecords.frame id (by simpa using hid.1)]

theorem visits_of_forall {trees : List (Tree NodeId)} (h : ∀ tree ∈ trees, Visits mode [tree]) :
    Visits mode trees := by
  induction trees with
  | nil => exact visits_nil
  | cons tree rest ih =>
    refine visits_cons (h tree (by simp)) (ih fun other hother ↦ h other ?_)
    exact List.mem_cons_of_mem _ hother

/-- One node: its children are visited from the last to the first, then it is finished. -/
theorem visits_node {id : NodeId} {children : List (Tree NodeId)}
    (hchildren : Visits mode children.reverse) : Visits mode [.node id children] := by
  intro forest rebuilt steps jobs hspans hnodup hempty
  have hspansNode := hspans (.node id children) (by simp)
  simp only [idsOf_cons, idsOf_nil, List.append_nil, Tree.values_node] at hnodup hempty
  obtain ⟨hid, hnodupChildren⟩ := List.nodup_cons.mp hnodup
  have hperm := idsOf_reverse_perm children
  cases hspansNode with
  | node hlt hlinks hbelow =>
    obtain ⟨middle, table, results, hwork, hrebuilds, hrecords⟩ :=
      hchildren forest rebuilt (steps + 1) (Job.finish id :: jobs)
        (fun child hchild ↦ hbelow child (by simpa using hchild))
        (hperm.nodup_iff.mpr hnodupChildren)
        (fun other hother ↦ hempty other (List.mem_cons_of_mem _ (hperm.mem_iff.mp hother)))
    have hready : Rebuilds.Ready mode forest middle id children results.reverse :=
      ⟨hrebuilds.of_reverse, hlt, hid⟩
    have hroots : (children.map Tree.value).map (lookup table) =
        (results.reverse.map Tree.value).map some := by
      have h := congrArg List.reverse hrecords.roots
      simpa [List.map_reverse, Function.comp_def] using h
    obtain ⟨rest, htake, hsize, htaken, hframe⟩ :=
      takeAll_eq ((roots_sublist children).nodup hnodupChildren) hroots
    obtain ⟨result, hvalue, hresult⟩ := hready.finish
    refine ⟨_, rest.setIfInBounds id (some result.value), [result], ?_, hresult, ?_, ?_, ?_⟩
    · have hstart : 2 * Tree.sizeAll [Tree.node id children] + steps =
          2 * Tree.sizeAll children.reverse + (steps + 1) + 1 := by
        rw [Tree.sizeAll_reverse]
        simp only [Tree.sizeAll, Tree.size_node]
        omega
      have hjobs : (forest.node id).children.reverse.map Job.visit =
          children.reverse.map fun tree ↦ Job.visit tree.value := by
        rw [hlinks, ← List.map_reverse, List.map_map]
        rfl
      rw [hstart, List.map_singleton, List.singleton_append, Tree.value_node, work, hjobs, hwork,
        work, hready.node_eq, hlinks]
      simp only [htake, hvalue]
    · rw [Array.size_setIfInBounds, hsize, hrecords.size_eq]
    · have hsizeId : id < rest.size := by
        rw [hsize, hrecords.size_eq]
        exact (hempty id (by simp)).1
      simp [lookup_set_self _ hsizeId]
    · intro other hother
      have hne : other ≠ id := by simpa using hother
      rw [lookup_set_of_ne rest _ hne]
      by_cases hchild : other ∈ children.map Tree.value
      · have hin := (roots_sublist children).subset hchild
        rw [htaken other hchild, (hempty other (List.mem_cons_of_mem _ hin)).2]
      · rw [hframe other hchild, hrecords.frame other (by simpa using hchild)]

theorem visits (mode : Mode) (tree : Tree NodeId) : Visits mode [tree] := by
  induction tree with
  | node id children ih =>
    apply visits_node
    apply visits_of_forall
    intro child hchild
    exact ih child (List.mem_reverse.mp hchild)

/-- Rebuilding a tree of linked nodes succeeds and gives the linked form of its normal form. -/
theorem rebuild_eq (mode : Mode) {forest : Forest} {ids : Tree NodeId} (hspans : forest.Spans ids)
    (hnodup : ids.values.Nodup) :
    ∃ (after : Forest) (result : Tree NodeId),
      rebuild mode forest ids.value = .ok (after, result.value) ∧
      Rebuilds mode forest after [ids] [result] := by
  have hfresh : ∀ id ∈ idsOf [ids], id < (Array.replicate forest.size none : Rebuilt).size ∧
      lookup (Array.replicate forest.size none) id = none := by
    intro id hid
    have hlt := hspans.lt_size id (by simpa using hid)
    simp [lookup, hlt]
  obtain ⟨after, table, results, hwork, hrebuilds, hrecords⟩ :=
    visits mode ids forest (Array.replicate forest.size none) 0 [] (by simpa using hspans)
      (by simpa using hnodup) hfresh
  obtain ⟨result, rfl⟩ := hrebuilds.exists_eq_singleton
  have hroot : lookup table ids.value = some result.value := by simpa using hrecords.roots
  have hsteps : 2 * Tree.sizeAll [ids] + 0 = 2 * (forest.unfold ids.value).size := by
    rw [hspans.unfold_eq hnodup]
    simp [Tree.sizeAll]
  rw [hsteps, List.map_singleton, List.append_nil, work] at hwork
  refine ⟨after, result, ?_, hrebuilds⟩
  rw [rebuild]
  simp only [hwork, take_eq hroot]

/-- The result hangs where the tree did and reads as its normal form. -/
theorem exists_rebuild_hangs (mode : Mode) {forest : Forest} {ids : Tree NodeId}
    (hspans : forest.Spans ids) (hnodup : ids.values.Nodup) :
    ∃ (after : Forest) (result : Tree NodeId),
      rebuild mode forest ids.value = .ok (after, result.value) ∧
      after.Hangs (forest.node ids.value).parent result ∧ result.values.Nodup ∧
      after.entries result = (forest.entries ids).normalize mode := by
  obtain ⟨after, result, hrebuild, hrebuilds⟩ := rebuild_eq mode hspans hnodup
  have hparent : (after.node result.value).parent = (forest.node ids.value).parent := by
    simpa using hrebuilds.parents
  refine ⟨after, result, hrebuild, ?_, by simpa using hrebuilds.nodup,
    by simpa using hrebuilds.entries⟩
  rw [← hparent]
  exact hrebuilds.hangs result (by simp)

end SyntaxMining.Forest
