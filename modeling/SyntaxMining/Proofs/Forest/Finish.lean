import SyntaxMining.Forest.Rebuild
import SyntaxMining.Proofs.Forest.Links
import SyntaxMining.Proofs.Tree.Chain

/-!
# Finishing a node in place

Rebuilding some trees of a forest is described by its effect: the results hang where the trees did,
no node stands in two of them, their entries are the normal forms of the trees, and nothing outside
the trees has changed. The effect composes tree by tree in either order, and finishing a node over
its rebuilt children, whether it is kept, folded into a new node or replaced by its only child,
extends it to the whole tree.
-/

namespace SyntaxMining

namespace Tree

/-- Normal form of a node over children in normal form. -/
def normalizeNode (outer : Entry) (children : List SyntaxTree) : Mode → SyntaxTree
  | .compress => foldChain outer children
  | .simplify => dropChain outer children

theorem normalize_node (mode : Mode) (entry : Entry) (children : List SyntaxTree) :
    (node entry children).normalize mode =
      normalizeNode entry (children.map (normalize mode)) mode := by
  cases mode with
  | compress => exact compress_node entry children
  | simplify => exact simplify_node entry children

theorem normalizeNode_stop (mode : Mode) (outer : Entry) {children : List SyntaxTree}
    (h : children.length ≠ 1) : normalizeNode outer children mode = node outer children := by
  cases mode with
  | compress => exact foldChain_stop outer h
  | simplify => exact dropChain_stop outer h

end Tree

namespace Forest

/-! ## What rebuilding does to a forest -/

/-- Some trees have been rebuilt, one after the other. -/
structure Rebuilds (mode : Mode) (before after : Forest) (trees results : List (Tree NodeId)) :
    Prop where
  size_le : before.size ≤ after.size
  /-- Only the nodes of the trees are written to. -/
  frame : ∀ id < before.size, id ∉ idsOf trees → after.node id = before.node id
  /-- The results consist of nodes of the trees and of new ones. -/
  origin : ∀ id ∈ idsOf results, id ∈ idsOf trees ∨ before.size ≤ id
  nodup : (idsOf results).Nodup
  hangs : ∀ result ∈ results, after.Hangs (after.node result.value).parent result
  /-- Each result has the parent of the tree it replaces. -/
  parents : results.map (fun result ↦ (after.node result.value).parent) =
    trees.map fun tree ↦ (before.node tree.value).parent
  entries : results.map after.entries = trees.map fun tree ↦ (before.entries tree).normalize mode

namespace Rebuilds

variable {mode : Mode} {before middle after : Forest} {trees results : List (Tree NodeId)}

theorem nil (mode : Mode) (forest : Forest) : Rebuilds mode forest forest [] [] where
  size_le := Nat.le_refl _
  frame _ _ _ := rfl
  origin _ h := by simp at h
  nodup := List.nodup_nil
  hangs _ h := by simp at h
  parents := rfl
  entries := rfl

theorem single {tree result : Tree NodeId} (hsize : before.size ≤ after.size)
    (hframe : ∀ id < before.size, id ∉ idsOf [tree] → after.node id = before.node id)
    (horigin : ∀ id ∈ result.values, id ∈ idsOf [tree] ∨ before.size ≤ id)
    (hnodup : result.values.Nodup)
    (hhangs : after.Hangs (before.node tree.value).parent result)
    (hentries : after.entries result = (before.entries tree).normalize mode) :
    Rebuilds mode before after [tree] [result] where
  size_le := hsize
  frame := hframe
  origin := by simpa using horigin
  nodup := by simpa using hnodup
  hangs := by
    intro other hother
    obtain rfl := List.mem_singleton.mp hother
    rwa [hhangs.back_value]
  parents := by rw [List.map_singleton, List.map_singleton, hhangs.back_value]
  entries := by rw [List.map_singleton, List.map_singleton, hentries]

theorem lt_size (h : Rebuilds mode before after trees results) :
    ∀ id ∈ idsOf results, id < after.size := by
  intro id hid
  obtain ⟨result, hresult, hin⟩ := mem_idsOf.mp hid
  exact (h.hangs result hresult).spans.lt_size id hin

theorem exists_eq_singleton {tree : Tree NodeId} (h : Rebuilds mode before after [tree] results) :
    ∃ result, results = [result] := by
  have hlength := congrArg List.length h.entries
  exact List.length_eq_one_iff.mp (by simpa using hlength)

/-- Results of one tree stay intact while further trees are rebuilt. -/
theorem cons {tree result : Tree NodeId} (first : Rebuilds mode before middle [tree] [result])
    (others : Rebuilds mode middle after trees results)
    (hspans : ∀ other ∈ trees, before.Spans other) (hnodup : (idsOf (tree :: trees)).Nodup) :
    Rebuilds mode before after (tree :: trees) (result :: results) := by
  have hdisjoint : List.Disjoint tree.values (idsOf trees) :=
    List.disjoint_of_nodup_append hnodup
  have hlt : ∀ id ∈ idsOf trees, id < before.size := by
    intro id hid
    obtain ⟨other, hother, hin⟩ := mem_idsOf.mp hid
    exact (hspans other hother).lt_size id hin
  have horigin : ∀ id ∈ result.values, id ∈ tree.values ∨ before.size ≤ id := by
    simpa using first.origin
  have hresultLt : ∀ id ∈ result.values, id < middle.size := by
    simpa using first.lt_size
  -- what the first tree has become shares no node with the trees still to be rebuilt
  have hapart : ∀ id ∈ result.values, id ∉ idsOf trees := by
    intro id hid htrees
    rcases horigin id hid with hold | hnew
    · exact hdisjoint hold htrees
    · exact absurd (hlt id htrees) (Nat.not_lt.mpr hnew)
  have hkept : ∀ id ∈ result.values, after.node id = middle.node id := by
    intro id hid
    exact others.frame id (hresultLt id hid) (hapart id hid)
  have huntouched : ∀ id ∈ idsOf trees, middle.node id = before.node id := by
    intro id hid
    exact first.frame id (hlt id hid) fun hold ↦ hdisjoint (by simpa using hold) hid
  refine ⟨Nat.le_trans first.size_le others.size_le, ?_, ?_, ?_, ?_, ?_, ?_⟩
  · intro id hid hout
    simp only [idsOf_cons, List.mem_append, not_or] at hout
    rw [others.frame id (Nat.lt_of_lt_of_le hid first.size_le) hout.2,
      first.frame id hid (by simpa using hout.1)]
  · intro id hid
    simp only [idsOf_cons, List.mem_append] at hid ⊢
    rcases hid with hresult | hresults
    · rcases horigin id hresult with hold | hnew
      · exact Or.inl (Or.inl hold)
      · exact Or.inr hnew
    · rcases others.origin id hresults with hold | hnew
      · exact Or.inl (Or.inr hold)
      · exact Or.inr (Nat.le_trans first.size_le hnew)
  · rw [idsOf_cons]
    refine List.Nodup.append (by simpa using first.nodup) others.nodup ?_
    intro id hresult hresults
    rcases others.origin id hresults with hold | hnew
    · exact hapart id hresult hold
    · exact absurd (hresultLt id hresult) (Nat.not_lt.mpr hnew)
  · intro other hother
    rcases List.mem_cons.mp hother with rfl | hrest
    · rw [hkept _ other.value_mem_values]
      exact (first.hangs other (by simp)).congr others.size_le hkept
    · exact others.hangs other hrest
  · have hfirst := first.parents
    simp only [List.map_cons, List.map_nil, List.cons.injEq, and_true] at hfirst
    rw [List.map_cons, List.map_cons, others.parents, hkept _ result.value_mem_values, hfirst]
    congr 1
    apply List.map_congr_left
    intro other hother
    rw [huntouched _ (value_mem_idsOf hother)]
  · have hfirst := first.entries
    simp only [List.map_cons, List.map_nil, List.cons.injEq, and_true] at hfirst
    rw [List.map_cons, List.map_cons, others.entries, ← hfirst]
    congr 1
    · exact entries_congr fun id hid ↦ by rw [hkept id hid]
    · apply List.map_congr_left
      intro other hother
      have hsame : middle.entries other = before.entries other :=
        entries_congr fun id hid ↦ by rw [huntouched id (mem_idsOf.mpr ⟨other, hother, hid⟩)]
      rw [hsame]

/-- The order in which disjoint trees were rebuilt does not matter. -/
theorem of_reverse (h : Rebuilds mode before after trees.reverse results) :
    Rebuilds mode before after trees results.reverse := by
  have hmem (id : NodeId) : id ∈ idsOf trees.reverse ↔ id ∈ idsOf trees :=
    (idsOf_reverse_perm trees).mem_iff
  have hmemResults (id : NodeId) : id ∈ idsOf results.reverse ↔ id ∈ idsOf results :=
    (idsOf_reverse_perm results).mem_iff
  refine ⟨h.size_le, ?_, ?_, ?_, ?_, ?_, ?_⟩
  · intro id hid hout
    exact h.frame id hid (by rwa [hmem])
  · intro id hid
    rw [← hmem]
    exact h.origin id (by rwa [← hmemResults])
  · exact (idsOf_reverse_perm results).nodup_iff.mpr h.nodup
  · intro result hresult
    exact h.hangs result (by simpa using hresult)
  · rw [List.map_reverse, h.parents, List.map_reverse, List.reverse_reverse]
  · rw [List.map_reverse, h.entries, List.map_reverse, List.reverse_reverse]

/-! ### Finishing one node -/

section Finish

variable {id : NodeId} {children : List (Tree NodeId)}

/-- What finishing a node may rely on: its children are rebuilt and the node is as before. -/
structure Ready (mode : Mode) (before middle : Forest) (id : NodeId)
    (children results : List (Tree NodeId)) : Prop where
  rebuilds : Rebuilds mode before middle children results
  id_lt : id < before.size
  id_notMem : id ∉ idsOf children

variable (ready : Ready mode before middle id children results)

include ready

theorem Ready.node_eq : middle.node id = before.node id :=
  ready.rebuilds.frame id ready.id_lt ready.id_notMem

theorem Ready.notMem_results : id ∉ idsOf results := by
  intro hid
  rcases ready.rebuilds.origin id hid with hold | hnew
  · exact ready.id_notMem hold
  · exact absurd ready.id_lt (Nat.not_lt.mpr hnew)

/-- Nodes outside the tree are no nodes of the results either. -/
theorem Ready.outside {other : NodeId} (hlt : other < before.size)
    (hout : other ∉ idsOf [Tree.node id children]) :
    other ≠ id ∧ other ∉ idsOf results ∧ middle.node other = before.node other := by
  simp only [idsOf_cons, idsOf_nil, List.append_nil, Tree.values_node, List.mem_cons,
    not_or] at hout
  refine ⟨hout.1, ?_, ready.rebuilds.frame other hlt hout.2⟩
  intro hin
  rcases ready.rebuilds.origin other hin with hold | hnew
  · exact hout.2 hold
  · exact absurd hlt (Nat.not_lt.mpr hnew)

theorem Ready.origin {other : NodeId} (hin : other ∈ idsOf results) :
    other ∈ idsOf [Tree.node id children] ∨ before.size ≤ other := by
  rcases ready.rebuilds.origin other hin with hold | hnew
  · refine Or.inl ?_
    simp only [idsOf_cons, idsOf_nil, List.append_nil, Tree.values_node]
    exact List.mem_cons_of_mem _ hold
  · exact Or.inr hnew

theorem Ready.normalize_eq : (before.entries (.node id children)).normalize mode =
    Tree.normalizeNode (middle.node id).entry (results.map middle.entries) mode := by
  rw [entries_node, Tree.normalize_node, List.map_map, ready.rebuilds.entries, ready.node_eq]
  rfl

/-- A node without exactly one rebuilt child is kept. -/
theorem Ready.keep (hlength : results.length ≠ 1) :
    Rebuilds mode before (middle.setChildren id (results.map Tree.value)) [.node id children]
      [.node id results] := by
  have hidLt : id < middle.size := Nat.lt_of_lt_of_le ready.id_lt ready.rebuilds.size_le
  have hnodup : (id :: idsOf results).Nodup :=
    List.nodup_cons.mpr ⟨ready.notMem_results, ready.rebuilds.nodup⟩
  have hhangs := hangs_setChildren hidLt
    (fun result hresult ↦ ⟨_, ready.rebuilds.hangs result hresult⟩) hnodup
  refine .single (by simpa using ready.rebuilds.size_le) ?_ ?_ ?_ ?_ ?_
  · intro other hlt hout
    obtain ⟨hne, hnotMem, hsame⟩ := ready.outside hlt hout
    rw [node_setChildren_of_notMem_idsOf hne hnotMem, hsame]
  · intro other hother
    rw [Tree.values_node, List.mem_cons] at hother
    rcases hother with rfl | hin
    · exact Or.inl (by simp [Tree.values_node])
    · exact ready.origin hin
  · rwa [Tree.values_node]
  · rwa [ready.node_eq] at hhangs
  · rw [ready.normalize_eq, Tree.normalizeNode_stop mode _ (by simpa using hlength),
      entries_setChildren]

end Finish

section FinishOnly

variable {id : NodeId} {children : List (Tree NodeId)} {inner : Tree NodeId}
  (ready : Ready mode before middle id children [inner])

include ready

theorem Ready.values_nodup : (inner.value :: idsOf inner.children).Nodup := by
  have hnodup := ready.rebuilds.nodup
  rw [idsOf_cons, values_eq_cons_idsOf] at hnodup
  exact hnodup.of_append_left

theorem Ready.below_lt : ∀ other ∈ idsOf inner.children, other < middle.size := by
  intro other hother
  apply ready.rebuilds.lt_size
  rw [idsOf_cons, values_eq_cons_idsOf]
  exact List.mem_append_left _ (List.mem_cons_of_mem _ hother)

/-- A new node takes the place of a node and its only rebuilt child. -/
theorem Ready.fold (hmode : mode = .compress) :
    Rebuilds mode before (middle.foldOnto id inner.value).1 [.node id children]
      [.node (middle.foldOnto id inner.value).2 inner.children] := by
  have hhangs := ready.rebuilds.hangs inner (by simp)
  let entry : Entry :=
    ⟨(middle.node id).entry.label.fold (middle.node inner.value).entry.label,
      (middle.node inner.value).entry.token, (middle.node id).entry.span⟩
  let added := (middle.add entry (middle.node id).parent).1
  have hafter : (middle.foldOnto id inner.value).1 =
      added.setChildren middle.size (inner.children.map Tree.value) := by
    rw [foldOnto, hhangs.spans.links_value]
    rfl
  have hnew : (middle.foldOnto id inner.value).2 = middle.size := rfl
  have hroom : middle.size < added.size := by
    rw [size_add]
    exact Nat.lt_succ_self _
  have hadded {other : NodeId} (hlt : other < middle.size) : added.node other = middle.node other :=
    node_add_of_ne _ _ _ (Nat.ne_of_lt hlt)
  have haddedNew : added.node middle.size = ⟨entry, [], (middle.node id).parent⟩ :=
    node_add_self _ _ _
  have hnodup : (middle.size :: idsOf inner.children).Nodup := by
    refine List.nodup_cons.mpr ⟨fun hin ↦ ?_, (List.nodup_cons.mp ready.values_nodup).2⟩
    exact absurd (ready.below_lt _ hin) (Nat.lt_irrefl _)
  have hbelow : ∀ child ∈ inner.children, ∃ parent, added.Hangs parent child := by
    intro child hchild
    refine ⟨_, (hhangs.below_value child hchild).congr (Nat.le_of_lt hroom) fun other hother ↦ ?_⟩
    exact hadded (ready.below_lt other (mem_idsOf.mpr ⟨child, hchild, hother⟩))
  rw [hafter, hnew]
  refine .single ?_ ?_ ?_ ?_ ?_ ?_
  · rw [size_setChildren]
    exact Nat.le_trans ready.rebuilds.size_le (Nat.le_of_lt hroom)
  · intro other hlt hout
    obtain ⟨-, hnotMem, hsame⟩ := ready.outside hlt hout
    have hltMiddle := Nat.lt_of_lt_of_le hlt ready.rebuilds.size_le
    rw [idsOf_cons, values_eq_cons_idsOf] at hnotMem
    rw [node_setChildren_of_notMem_idsOf (Nat.ne_of_lt hltMiddle)
      (fun hin ↦ hnotMem (by simp [hin])),
      hadded hltMiddle, hsame]
  · intro other hother
    rw [Tree.values_node, List.mem_cons] at hother
    rcases hother with rfl | hin
    · exact Or.inr ready.rebuilds.size_le
    · refine ready.origin ?_
      rw [idsOf_cons, values_eq_cons_idsOf]
      exact List.mem_append_left _ (List.mem_cons_of_mem _ hin)
  · rwa [Tree.values_node]
  · have hresult := hangs_setChildren hroom hbelow hnodup
    rwa [haddedNew, ready.node_eq] at hresult
  · have hentries : inner.children.map added.entries = inner.children.map middle.entries := by
      apply List.map_congr_left
      intro child hchild
      exact entries_congr fun other hother ↦ by
        rw [hadded (ready.below_lt other (mem_idsOf.mpr ⟨child, hchild, hother⟩))]
    have hinner : middle.entries inner =
        .node (middle.node inner.value).entry (inner.children.map middle.entries) := by
      rw [← entries_node, Tree.node_value_children]
    subst hmode
    rw [ready.normalize_eq, List.map_singleton, hinner, entries_setChildren, haddedNew, hentries]
    rfl

/-- The only rebuilt child of a node takes its place. -/
theorem Ready.replace (hmode : mode = .simplify) :
    Rebuilds mode before (middle.replaceBy id inner.value).1 [.node id children] [inner] := by
  have hhangs := ready.rebuilds.hangs inner (by simp)
  have hroot : (middle.replaceBy id inner.value).1.node inner.value =
      { middle.node inner.value with parent := (middle.node id).parent } :=
    node_setParent_self _ (ready.rebuilds.lt_size _ (value_mem_idsOf (by simp)))
  have hkept {other : NodeId} (hne : other ≠ inner.value) :
      (middle.replaceBy id inner.value).1.node other = middle.node other :=
    node_setParent_of_ne _ _ hne
  have hsize : (middle.replaceBy id inner.value).1.size = middle.size := size_setParent _ _ _
  refine .single (by rw [hsize]; exact ready.rebuilds.size_le) ?_ ?_ ?_ ?_ ?_
  · intro other hother hout
    obtain ⟨-, hnotMem, hsame⟩ := ready.outside hother hout
    rw [hkept, hsame]
    rintro rfl
    exact hnotMem (value_mem_idsOf (by simp))
  · intro other hother
    exact ready.origin (by simpa using hother)
  · rw [values_eq_cons_idsOf]
    exact ready.values_nodup
  · rw [Tree.value_node, ← ready.node_eq]
    refine hhangs.reparent (Nat.le_of_eq hsize.symm) hroot ?_
    intro other hother
    apply hkept
    rintro rfl
    exact (List.nodup_cons.mp ready.values_nodup).1 hother
  · have hentries : (middle.replaceBy id inner.value).1.entries inner = middle.entries inner :=
      entries_congr fun other _ ↦ entry_setParent _ _ _ _
    subst hmode
    rw [ready.normalize_eq, hentries]
    rfl

end FinishOnly

/-- Finishing a node turns its rebuilt children into the rebuilt node. -/
theorem Ready.finish {id : NodeId} {children : List (Tree NodeId)}
    (ready : Ready mode before middle id children results) :
    ∃ result : Tree NodeId,
      result.value = (rebuildNode mode middle id (results.map Tree.value)).2 ∧
      Rebuilds mode before (rebuildNode mode middle id (results.map Tree.value)).1
        [.node id children] [result] := by
  by_cases hone : results.length = 1
  · obtain ⟨inner, rfl⟩ := List.length_eq_one_iff.mp hone
    cases hmode : mode with
    | compress =>
      subst hmode
      exact ⟨_, rfl, ready.fold rfl⟩
    | simplify =>
      subst hmode
      exact ⟨inner, rfl, ready.replace rfl⟩
  · have hkeep : rebuildNode mode middle id (results.map Tree.value) =
        (middle.setChildren id (results.map Tree.value), id) := by
      match results with
      | [] => rfl
      | [_] => simp at hone
      | _ :: _ :: _ => rfl
    rw [hkeep]
    exact ⟨.node id results, rfl, ready.keep hone⟩

end Rebuilds

end Forest

end SyntaxMining
