import SyntaxMining.Forest.Growth
import SyntaxMining.Proofs.Forest.Walk

/-!
# Growing linked nodes keeps the tree

A sketch shows what a conversion makes of a foreign tree: its nodes, each converted on its own, with
nothing below those that are not expanded. The loop that grows linked nodes expands a node by
converting all its children and goes on with the last of them that is to be expanded. It stops at
the first conversion that fails in the order of expansion. If none fails, every node on the stack
becomes the root of a tree that hangs where the node did and reads as the sketch, and nothing else
is touched.
-/

namespace SyntaxMining

/-- A converted tree, each node on its own. -/
abbrev Sketch (ε : Type) := Tree (Except ε Entry)

namespace Conversion

variable {ε α : Type} (conversion : Conversion ε α)

mutual

/-- What a conversion makes of a foreign tree. -/
def sketch : Tree α → Sketch ε
  | .node value children =>
    .node (conversion.entry (.node value children))
      (if conversion.expands (.node value children) then sketchAll children else [])

def sketchAll : List (Tree α) → List (Sketch ε)
  | [] => []
  | tree :: rest => sketch tree :: sketchAll rest

end

theorem sketchAll_eq_map (trees : List (Tree α)) :
    conversion.sketchAll trees = trees.map conversion.sketch := by
  induction trees with
  | nil => rfl
  | cons tree rest ih => rw [sketchAll, ih, List.map_cons]

variable {conversion} {value : α} {children : List (Tree α)}

theorem sketch_of_expands (h : conversion.expands (.node value children)) :
    conversion.sketch (.node value children) =
      .node (conversion.entry (.node value children)) (children.map conversion.sketch) := by
  rw [sketch, if_pos h, sketchAll_eq_map]

theorem sketch_of_not_expands {tree : Tree α} (h : ¬conversion.expands tree) :
    conversion.sketch tree = .node (conversion.entry tree) [] := by
  obtain ⟨value, children⟩ := tree
  rw [sketch, if_neg h]

@[simp]
theorem value_sketch (tree : Tree α) : (conversion.sketch tree).value = conversion.entry tree := by
  obtain ⟨value, children⟩ := tree
  rw [sketch, Tree.value_node]

end Conversion

/-! ## The order of expansion -/

namespace Tree

variable {α β : Type}

mutual

/-- Values below a node: those of its children from left to right, then what is below the last
child, then what is below the one before it, and so on. -/
def expanded : Tree α → List α
  | node _ children => children.map value ++ expandedAll children

def expandedAll : List (Tree α) → List α
  | [] => []
  | child :: rest => expandedAll rest ++ child.expanded

end

/-- Values in the order in which the nodes of a tree are converted. -/
def expansionOrder (tree : Tree α) : List α :=
  tree.value :: tree.expanded

theorem expandedAll_eq_flatMap (trees : List (Tree α)) :
    expandedAll trees = trees.reverse.flatMap expanded := by
  induction trees with
  | nil => rfl
  | cons tree rest ih => simp [expandedAll, ih]

theorem expanded_node (value : α) (children : List (Tree α)) :
    (node value children).expanded =
      children.map Tree.value ++ children.reverse.flatMap expanded := by
  rw [expanded, expandedAll_eq_flatMap]

theorem expandedAll_perm {trees : List (Tree α)}
    (h : ∀ tree ∈ trees, tree.expansionOrder.Perm tree.values) :
    (trees.map value ++ expandedAll trees).Perm (trees.flatMap values) := by
  induction trees with
  | nil => exact .nil
  | cons tree rest ih =>
    have hrest := ih fun other hother ↦ h other (List.mem_cons_of_mem tree hother)
    calc
      (tree :: rest).map value ++ expandedAll (tree :: rest) =
          tree.value :: ((rest.map value ++ expandedAll rest) ++ tree.expanded) := by
        simp [expandedAll]
      (tree.value :: ((rest.map value ++ expandedAll rest) ++ tree.expanded)).Perm
          (tree.value :: (tree.expanded ++ (rest.map value ++ expandedAll rest))) :=
        List.perm_append_comm.cons _
      _ = tree.expansionOrder ++ (rest.map value ++ expandedAll rest) := rfl
      List.Perm _ (tree.values ++ rest.flatMap values) := (h tree (by simp)).append hrest

/-- Every node is converted once. -/
theorem expansionOrder_perm (tree : Tree α) : tree.expansionOrder.Perm tree.values := by
  induction tree with
  | node value children ih =>
    rw [expansionOrder, expanded, values_node]
    exact (expandedAll_perm ih).cons _

theorem expanded_map (f : α → β) (tree : Tree α) : (tree.map f).expanded = tree.expanded.map f := by
  induction tree with
  | node value children ih =>
    rw [map_node, expanded_node, expanded_node, List.map_append, List.map_flatMap,
      ← List.map_reverse,
      List.flatMap_map]
    congr 1
    · simp [Function.comp_def]
    · exact List.flatMap_congr fun child hchild ↦ ih child (List.mem_reverse.mp hchild)

theorem expansionOrder_map (f : α → β) (tree : Tree α) :
    (tree.map f).expansionOrder = tree.expansionOrder.map f := by
  rw [expansionOrder, expansionOrder, value_map, expanded_map, List.map_cons]

end Tree

/-! ## Attempts in order -/

/-- The outcome of attempts that are made one after the other: the fault of the first one that
fails, or a result as it should be once all have succeeded. -/
inductive Settles {ε α β : Type} (attempts : List (Except ε α)) (expected : β → Prop) :
    Except ε β → Prop where
  | failed (before after : List (Except ε α)) {fault : ε}
      (clean : ∀ attempt ∈ before, attempt.isOk)
      (split : attempts = before ++ .error fault :: after) :
      Settles attempts expected (.error fault)
  | done {result : β} (clean : ∀ attempt ∈ attempts, attempt.isOk) (holds : expected result) :
      Settles attempts expected (.ok result)

namespace Settles

variable {ε α β γ : Type} {attempts later : List (Except ε α)} {expected : β → Prop}
  {wanted : γ → Prop}

/-- Attempts behind a failure are not made. -/
theorem stop {fault : ε} (h : Settles attempts expected (.error fault)) :
    Settles (attempts ++ later) wanted (.error fault) := by
  cases h with
  | failed before after clean split =>
    exact .failed before (after ++ later) clean (by rw [split, List.append_assoc, List.cons_append])

/-- After attempts that succeed, the later ones decide. -/
theorem proceed {outcome : Except ε γ} (hclean : ∀ attempt ∈ attempts, attempt.isOk)
    (h : Settles later wanted outcome) : Settles (attempts ++ later) wanted outcome := by
  cases h with
  | failed before after clean split =>
    refine .failed (attempts ++ before) after ?_ (by rw [split, List.append_assoc])
    intro attempt hattempt
    exact (List.mem_append.mp hattempt).elim (hclean attempt) (clean attempt)
  | done clean holds =>
    refine .done ?_ holds
    intro attempt hattempt
    exact (List.mem_append.mp hattempt).elim (hclean attempt) (clean attempt)

theorem of_ok {result : β} (h : Settles attempts expected (.ok result)) :
    (∀ attempt ∈ attempts, attempt.isOk) ∧ expected result := by
  cases h with
  | done clean holds => exact ⟨clean, holds⟩

theorem imp {outcome : Except ε β} {weaker : β → Prop} (h : Settles attempts expected outcome)
    (himp : ∀ result, expected result → weaker result) : Settles attempts weaker outcome := by
  cases h with
  | failed before after clean split => exact .failed before after clean split
  | done clean holds => exact .done clean (himp _ holds)

end Settles

namespace Forest

variable {ε : Type}

/-! ## Adding siblings -/

/-- A node has been added for each conversion. -/
structure Adds (before after : Forest) (conversions : List (Except ε Entry)) (ids : List NodeId) :
    Prop where
  size_le : before.size ≤ after.size
  frame : ∀ id < before.size, after.node id = before.node id
  fresh : ∀ id ∈ ids, before.size ≤ id ∧ id < after.size
  nodup : ids.Nodup
  entries : ids.map (fun id ↦ .ok (after.node id).entry) = conversions
  childless : ∀ id ∈ ids, (after.node id).children = []

theorem Adds.cons {before after : Forest} {parent : Option NodeId} {entry : Entry}
    {rest : List (Except ε Entry)} {ids : List NodeId}
    (h : Adds (before.add entry parent).1 after rest ids) :
    Adds before after (.ok entry :: rest) (before.size :: ids) := by
  have hsize : before.size < (before.add entry parent).1.size := by
    rw [size_add]
    exact Nat.lt_succ_self _
  have hnew : after.node before.size = ⟨entry, [], parent⟩ := by
    rw [h.frame _ hsize, node_add_self]
  refine ⟨Nat.le_trans (Nat.le_of_lt hsize) h.size_le, ?_, ?_, ?_, ?_, ?_⟩
  · intro id hid
    rw [h.frame id (Nat.lt_trans hid hsize), node_add_of_ne _ _ _ (Nat.ne_of_lt hid)]
  · intro id hid
    rcases List.mem_cons.mp hid with rfl | hrest
    · exact ⟨Nat.le_refl _, Nat.lt_of_lt_of_le hsize h.size_le⟩
    · have hfresh := h.fresh id hrest
      exact ⟨Nat.le_trans (Nat.le_of_lt hsize) hfresh.1, hfresh.2⟩
  · refine List.nodup_cons.mpr ⟨fun hin ↦ ?_, h.nodup⟩
    exact absurd hsize (Nat.not_lt.mpr (h.fresh _ hin).1)
  · rw [List.map_cons, hnew, h.entries]
  · intro id hid
    rcases List.mem_cons.mp hid with rfl | hrest
    · rw [hnew]
    · exact h.childless id hrest

theorem addAll_settles (forest : Forest) (parent : NodeId) (conversions : List (Except ε Entry)) :
    Settles conversions (fun result ↦ Adds forest result.1 conversions result.2)
      (forest.addAll parent conversions) := by
  induction conversions generalizing forest with
  | nil =>
    refine .done (by simp) ⟨Nat.le_refl _, fun _ _ ↦ rfl, ?_, List.nodup_nil, rfl, ?_⟩
    · intro id hid
      simp at hid
    · intro id hid
      simp at hid
  | cons conversion rest ih =>
    cases conversion with
    | error fault => exact .failed [] rest (by simp) rfl
    | ok entry =>
      have hclean : ∀ attempt ∈ [(.ok entry : Except ε Entry)], attempt.isOk := by
        simp [Except.isOk, Except.toBool]
      have hrest := ih (forest.add entry (some parent)).1
      rw [addAll]
      generalize (forest.add entry (some parent)).1.addAll parent rest = outcome at hrest
      cases hrest with
      | failed before after clean split =>
        exact Settles.proceed hclean (.failed before after clean split)
      | done clean holds => exact Settles.proceed hclean (.done clean holds.cons)

/-! ## The loop -/

/-- The nodes on the stack are distinct and carry the conversion of their tree's root. -/
structure Waits (forest : Forest) (pending : List (Sketch ε × NodeId)) : Prop where
  nodup : (pending.map Prod.snd).Nodup
  lt_size : ∀ item ∈ pending, item.2 < forest.size
  value_eq : ∀ item ∈ pending, item.1.value = .ok (forest.node item.2).entry

/-- The nodes on the stack have become the roots of their trees. -/
structure Grows (before after : Forest) (pending : List (Sketch ε × NodeId))
    (results : List (Tree NodeId)) : Prop where
  size_le : before.size ≤ after.size
  frame : ∀ id < before.size, id ∉ pending.map Prod.snd → after.node id = before.node id
  roots : results.map Tree.value = pending.map Prod.snd
  origin : ∀ id ∈ idsOf results, id ∈ pending.map Prod.snd ∨ before.size ≤ id
  nodup : (idsOf results).Nodup
  hangs : ∀ result ∈ results, after.Hangs (before.node result.value).parent result
  entries : results.map (fun result ↦ (after.entries result).map .ok) = pending.map Prod.fst

theorem Grows.nil (forest : Forest) :
    Grows forest forest ([] : List (Sketch ε × NodeId)) [] where
  size_le := Nat.le_refl _
  frame _ _ _ := rfl
  roots := rfl
  origin _ h := by simp at h
  nodup := List.nodup_nil
  hangs _ h := by simp at h
  entries := rfl

variable {forest added after : Forest} {value : Except ε Entry} {children : List (Sketch ε)}
  {id : NodeId} {rest : List (Sketch ε × NodeId)} {ids : List NodeId}

section Added

variable (hadds : Adds forest added (children.map Tree.value) ids)

include hadds

theorem Adds.length_eq : ids.length = children.length := by
  simpa using congrArg List.length hadds.entries

theorem Adds.map_fst_zip : (children.zip ids).map Prod.fst = children :=
  List.map_fst_zip (Nat.le_of_eq hadds.length_eq.symm)

theorem Adds.map_snd_zip : (children.zip ids).map Prod.snd = ids :=
  List.map_snd_zip (Nat.le_of_eq hadds.length_eq)

theorem Adds.notMem {other : NodeId} (h : other < forest.size) : other ∉ ids := fun hin ↦
  absurd h (Nat.not_lt.mpr (hadds.fresh other hin).1)

/-- Nodes that were there before, other than the one expanded, are as before. -/
theorem Adds.node_setChildren {other : NodeId} (h : other < forest.size) (hne : other ≠ id) :
    (added.setChildren id ids).node other = forest.node other := by
  rw [node_setChildren_of_notMem _ (hadds.notMem h) hne, hadds.frame other h]

end Added

section Rest

variable {sketch : Sketch ε} (hwaits : forest.Waits ((sketch, id) :: rest))

include hwaits

theorem Waits.id_notMem : id ∉ rest.map Prod.snd :=
  (List.nodup_cons.mp hwaits.nodup).1

theorem Waits.rest_lt {other : NodeId} (h : other ∈ rest.map Prod.snd) :
    other < forest.size ∧ other ≠ id := by
  obtain ⟨item, hitem, rfl⟩ := List.mem_map.mp h
  refine ⟨hwaits.lt_size item (List.mem_cons_of_mem _ hitem), ?_⟩
  rintro rfl
  exact hwaits.id_notMem (List.mem_map_of_mem hitem)

theorem Waits.tail : forest.Waits rest :=
  ⟨(List.nodup_cons.mp hwaits.nodup).2,
    fun item hitem ↦ hwaits.lt_size item (List.mem_cons_of_mem _ hitem),
    fun item hitem ↦ hwaits.value_eq item (List.mem_cons_of_mem _ hitem)⟩

end Rest

section Expanded

variable (hwaits : forest.Waits ((Tree.node value children, id) :: rest))

include hwaits

theorem Waits.expand (hadds : Adds forest added (children.map Tree.value) ids) :
    (added.setChildren id ids).Waits ((children.zip ids).reverse ++ rest) := by
  refine ⟨?_, ?_, ?_⟩
  · rw [List.map_append, List.map_reverse, hadds.map_snd_zip]
    refine List.Nodup.append (List.nodup_reverse.mpr hadds.nodup)
      (List.nodup_cons.mp hwaits.nodup).2 ?_
    intro other hnew hold
    exact hadds.notMem (hwaits.rest_lt hold).1 (List.mem_reverse.mp hnew)
  · intro item hitem
    rw [size_setChildren]
    rcases List.mem_append.mp hitem with hnew | hold
    · have hid : item.2 ∈ ids := by
        rw [← hadds.map_snd_zip]
        exact List.mem_map_of_mem (List.mem_reverse.mp hnew)
      exact (hadds.fresh _ hid).2
    · exact Nat.lt_of_lt_of_le (hwaits.rest_lt (List.mem_map_of_mem hold)).1 hadds.size_le
  · intro item hitem
    rcases List.mem_append.mp hitem with hnew | hold
    · have hvalues : (children.zip ids).map (fun item ↦ item.1.value) =
          (children.zip ids).map fun item ↦ .ok (added.node item.2).entry := by
        have hleft := congrArg (List.map Tree.value) hadds.map_fst_zip
        have hright := congrArg (List.map fun id ↦ (.ok (added.node id).entry : Except ε Entry))
          hadds.map_snd_zip
        rw [List.map_map] at hleft hright
        exact hleft.trans (hadds.entries.symm.trans hright.symm)
      rw [entry_setChildren]
      exact List.map_inj_left.mp hvalues item (List.mem_reverse.mp hnew)
    · obtain ⟨hlt, hne⟩ := hwaits.rest_lt (List.mem_map_of_mem hold)
      rw [hadds.node_setChildren hlt hne]
      exact hwaits.value_eq item (List.mem_cons_of_mem _ hold)

/-- A node becomes the root of its tree once its children have become the roots of theirs. -/
theorem Waits.expanded (hadds : Adds forest added (children.map Tree.value) ids)
    {results : List (Tree NodeId)}
    (hgrows : Grows (added.setChildren id ids) after ((children.zip ids).reverse ++ rest) results) :
    ∃ grown, Grows forest after ((Tree.node value children, id) :: rest) grown := by
  have hid := hwaits.lt_size _ (List.mem_cons_self ..)
  have hpending : ((children.zip ids).reverse ++ rest).map Prod.snd =
      ids.reverse ++ rest.map Prod.snd := by
    rw [List.map_append, List.map_reverse, hadds.map_snd_zip]
  have hsize : forest.size ≤ (added.setChildren id ids).size := by
    rw [size_setChildren]
    exact hadds.size_le
  -- the nodes of the results are new, or wait further down on the stack
  have horigin : ∀ other ∈ idsOf results, other ∈ rest.map Prod.snd ∨ forest.size ≤ other := by
    intro other hother
    rcases hgrows.origin other hother with hroot | hnew
    · rw [hpending, List.mem_append, List.mem_reverse] at hroot
      exact hroot.elim (fun hnew ↦ Or.inr (hadds.fresh other hnew).1) Or.inl
    · exact Or.inr (Nat.le_trans hsize hnew)
  have hidResults : id ∉ idsOf results := by
    intro hin
    rcases horigin id hin with hrest | hnew
    · exact hwaits.id_notMem hrest
    · exact absurd hid (Nat.not_lt.mpr hnew)
  have hroots := hgrows.roots
  rw [hpending] at hroots
  obtain ⟨front, back, rfl, hfront, hback⟩ := List.map_eq_append_iff.mp hroots
  have hentries := hgrows.entries
  rw [List.map_append, List.map_append, List.map_reverse, hadds.map_fst_zip] at hentries
  have hlength : front.length = children.length := by
    simpa [hadds.length_eq] using congrArg List.length hfront
  obtain ⟨hfrontEntries, hbackEntries⟩ := List.append_inj hentries (by simpa using hlength)
  have hnode : after.node id = { forest.node id with children := ids } := by
    have hkept := hgrows.frame id (Nat.lt_of_lt_of_le hid hsize) (by
      rw [hpending, List.mem_append, List.mem_reverse, not_or]
      exact ⟨hadds.notMem hid, hwaits.id_notMem⟩)
    rw [hkept, node_setChildren_self (Nat.lt_of_lt_of_le hid hadds.size_le) (hadds.notMem hid),
      hadds.frame id hid]
  have hids : idsOf (Tree.node id front.reverse :: back) =
      id :: (idsOf front.reverse ++ idsOf back) := by
    rw [idsOf_cons, Tree.values_node]
    rfl
  have hperm : (idsOf front.reverse ++ idsOf back).Perm (idsOf (front ++ back)) := by
    rw [idsOf, idsOf, idsOf, List.flatMap_append]
    exact (idsOf_reverse_perm front).append_right _
  refine ⟨.node id front.reverse :: back, Nat.le_trans hsize hgrows.size_le, ?_, ?_, ?_, ?_, ?_, ?_⟩
  · intro other hother hout
    rw [List.map_cons, List.mem_cons, not_or] at hout
    rw [hgrows.frame other (Nat.lt_of_lt_of_le hother hsize), hadds.node_setChildren hother hout.1]
    rw [hpending, List.mem_append, List.mem_reverse, not_or]
    exact ⟨hadds.notMem hother, hout.2⟩
  · rw [List.map_cons, List.map_cons, hback, Tree.value_node]
  · intro other hother
    rw [hids, List.mem_cons, hperm.mem_iff] at hother
    rcases hother with rfl | hin
    · exact Or.inl (by simp)
    · exact (horigin other hin).imp_left (List.mem_cons_of_mem _)
  · rw [hids, List.nodup_cons, hperm.mem_iff, hperm.nodup_iff]
    exact ⟨hidResults, hgrows.nodup⟩
  · intro result hresult
    rcases List.mem_cons.mp hresult with rfl | hin
    · refine .node (Nat.lt_of_lt_of_le hid (Nat.le_trans hsize hgrows.size_le)) ?_ ?_ ?_
      · rw [hnode, List.map_reverse, hfront, List.reverse_reverse]
      · rw [hnode, Tree.value_node]
      · intro child hchild
        have hmem : child ∈ front := List.mem_reverse.mp hchild
        have hchildId : child.value ∈ ids := by
          rw [← List.mem_reverse, ← hfront]
          exact List.mem_map_of_mem hmem
        have hhangs := hgrows.hangs child (List.mem_append_left _ hmem)
        rwa [node_setChildren_of_mem hchildId (hadds.fresh _ hchildId).2] at hhangs
        rintro heq
        exact hadds.notMem hid (heq ▸ hchildId)
    · have hvalue : result.value ∈ rest.map Prod.snd := by
        rw [← hback]
        exact List.mem_map_of_mem hin
      obtain ⟨hlt, hne⟩ := hwaits.rest_lt hvalue
      have hhangs := hgrows.hangs result (List.mem_append_right _ hin)
      rwa [hadds.node_setChildren hlt hne] at hhangs
  · have hvalue : value = .ok (after.node id).entry := by
      rw [hnode]
      exact hwaits.value_eq _ (List.mem_cons_self ..)
    rw [List.map_cons, List.map_cons, hbackEntries, entries_node, Tree.map_node, hvalue]
    congr 2
    rw [List.map_map, List.map_reverse]
    exact List.reverse_eq_iff.mpr hfrontEntries

end Expanded

/-- The sketches of foreign trees on a stack. -/
def sketched {α : Type} (conversion : Conversion ε α) (items : List (Tree α × NodeId)) :
    List (Sketch ε × NodeId) :=
  items.map fun item ↦ (conversion.sketch item.1, item.2)

section Loop

variable {α : Type} {conversion : Conversion ε α} {items : List (Tree α × NodeId)} {tree : Tree α}
  {others : List (Tree α × NodeId)} {siblings : List (Tree α)}

theorem sketched_zip (conversion : Conversion ε α) (siblings : List (Tree α)) (ids : List NodeId) :
    sketched conversion (siblings.zip ids) = (siblings.map conversion.sketch).zip ids := by
  rw [sketched, List.zip_map_left]
  rfl

theorem sketched_cons (conversion : Conversion ε α) (tree : Tree α) (id : NodeId)
    (others : List (Tree α × NodeId)) :
    sketched conversion ((tree, id) :: others) =
      (conversion.sketch tree, id) :: sketched conversion others :=
  rfl

theorem sketched_append (conversion : Conversion ε α) (items others : List (Tree α × NodeId)) :
    sketched conversion (items ++ others) =
      sketched conversion items ++ sketched conversion others :=
  List.map_append

theorem sketched_expanded (conversion : Conversion ε α) (siblings : List (Tree α))
    (ids : List NodeId) (others : List (Tree α × NodeId)) :
    sketched conversion ((siblings.zip ids).reverse ++ others) =
      ((siblings.map conversion.sketch).zip ids).reverse ++ sketched conversion others := by
  rw [sketched_append, ← sketched_zip, sketched, List.map_reverse]
  rfl

/-- The nodes that are not expanded have no children. -/
def Bare (conversion : Conversion ε α) (forest : Forest) (items : List (Tree α × NodeId)) : Prop :=
  ∀ item ∈ items, ¬conversion.expands item.1 → (forest.node item.2).children = []

theorem Bare.expand (hbare : Bare conversion forest ((tree, id) :: others))
    (hwaits : forest.Waits (sketched conversion ((tree, id) :: others)))
    (hadds : Adds forest added (siblings.map conversion.entry) ids) :
    Bare conversion (added.setChildren id ids) ((siblings.zip ids).reverse ++ others) := by
  intro item hitem hexpands
  rcases List.mem_append.mp hitem with hnew | hold
  · have hid : item.2 ∈ ids := (List.of_mem_zip (List.mem_reverse.mp hnew)).2
    have hne : item.2 ≠ id := by
      rintro rfl
      exact absurd (hwaits.lt_size _ List.mem_cons_self) (Nat.not_lt.mpr (hadds.fresh _ hid).1)
    rw [node_setChildren_of_mem hid (hadds.fresh _ hid).2 hne]
    exact hadds.childless _ hid
  · have hmem : item.2 ∈ (sketched conversion others).map Prod.snd :=
      List.mem_map_of_mem (List.mem_map_of_mem hold)
    obtain ⟨hlt, hne⟩ := hwaits.rest_lt hmem
    have hnotMem : item.2 ∉ ids := fun hin ↦ absurd hlt (Nat.not_lt.mpr (hadds.fresh _ hin).1)
    rw [node_setChildren_of_notMem _ hnotMem hne, hadds.frame _ hlt]
    exact hbare item (List.mem_cons_of_mem _ hold) hexpands

theorem Waits.expand_sketched {value : α} {children : List (Tree α)}
    (hwaits : forest.Waits (sketched conversion ((.node value children, id) :: others)))
    (hexpands : conversion.expands (.node value children))
    (hadds : Adds forest added (children.map conversion.entry) ids) :
    (added.setChildren id ids).Waits
      (sketched conversion ((children.zip ids).reverse ++ others)) := by
  have hvalues : (children.map conversion.sketch).map Tree.value =
      children.map conversion.entry := by
    simp [Function.comp_def]
  rw [sketched_cons, Conversion.sketch_of_expands hexpands] at hwaits
  rw [← hvalues] at hadds
  rw [sketched_expanded]
  exact hwaits.expand hadds

/-- What growing from the expanded ones among some nodes comes to: it stops at the first conversion
that fails, or makes every one of the nodes the root of its tree. -/
def GrowSettles (conversion : Conversion ε α) (forest : Forest) (items : List (Tree α × NodeId)) :
    Prop :=
  Settles ((sketched conversion items).flatMap fun item ↦ item.1.expanded)
    (fun after ↦ ∃ results, Grows forest after (sketched conversion items) results)
    (grow conversion (items.filter fun item ↦ conversion.expands item.1) forest)

/-- A node that is expanded leaves its work to its children. -/
theorem growSettles_of_expands {value : α} {children : List (Tree α)}
    (hexpands : conversion.expands (.node value children))
    (hwaits : forest.Waits (sketched conversion ((.node value children, id) :: others)))
    (hrest : ∀ added ids, Adds forest added (children.map conversion.entry) ids →
      GrowSettles conversion (added.setChildren id ids) ((children.zip ids).reverse ++ others)) :
    GrowSettles conversion forest ((.node value children, id) :: others) := by
  have hvalues : (children.map conversion.sketch).map Tree.value =
      children.map conversion.entry := by
    simp [Function.comp_def]
  have hsketched : sketched conversion ((.node value children, id) :: others) =
      (.node (conversion.entry (.node value children)) (children.map conversion.sketch), id) ::
        sketched conversion others := by
    rw [sketched_cons, Conversion.sketch_of_expands hexpands]
  rw [hsketched] at hwaits
  have hsettles := forest.addAll_settles id (children.map conversion.entry)
  rw [GrowSettles, hsketched, List.flatMap_cons, Tree.expanded_node, hvalues, List.append_assoc,
    List.filter_cons, if_pos hexpands, grow]
  cases hadded : forest.addAll id (children.map conversion.entry) with
  | error fault =>
    rw [hadded] at hsettles
    exact hsettles.stop
  | ok grown =>
    obtain ⟨added, ids⟩ := grown
    rw [hadded] at hsettles
    obtain ⟨hclean, hadds⟩ := hsettles.of_ok
    have hbelow := hrest added ids hadds
    rw [← hvalues] at hadds
    have hattempts : (((children.map conversion.sketch).zip ids).reverse ++
          sketched conversion others).flatMap (fun item ↦ item.1.expanded) =
        (children.map conversion.sketch).reverse.flatMap Tree.expanded ++
          (sketched conversion others).flatMap fun item ↦ item.1.expanded := by
      conv_rhs => rw [← hadds.map_fst_zip, ← List.map_reverse, List.flatMap_map]
      exact List.flatMap_append
    rw [GrowSettles, sketched_expanded, hattempts, List.filter_append,
      List.filter_reverse] at hbelow
    apply Settles.proceed hclean
    apply hbelow.imp
    intro after hafter
    obtain ⟨results, hgrows⟩ := hafter
    exact hwaits.expanded hadds hgrows

/-- A node that is not expanded becomes a tree of its own and changes nothing. -/
theorem growSettles_of_not_expands (hexpands : ¬conversion.expands tree)
    (hwaits : forest.Waits (sketched conversion ((tree, id) :: others)))
    (hbare : Bare conversion forest ((tree, id) :: others))
    (hrest : GrowSettles conversion forest others) :
    GrowSettles conversion forest ((tree, id) :: others) := by
  have hsketched : sketched conversion ((tree, id) :: others) =
      (.node (conversion.entry tree) [], id) :: sketched conversion others := by
    rw [sketched_cons, Conversion.sketch_of_not_expands hexpands]
  rw [hsketched] at hwaits
  have hadds : Adds forest forest (([] : List (Sketch ε)).map Tree.value) [] :=
    ⟨Nat.le_refl _, fun _ _ ↦ rfl, by simp, List.nodup_nil, rfl, by simp⟩
  rw [GrowSettles, hsketched, List.flatMap_cons, Tree.expanded_node, List.filter_cons,
    if_neg hexpands]
  apply hrest.imp
  intro after hafter
  obtain ⟨results, hgrows⟩ := hafter
  have hgrows : Grows (forest.setChildren id []) after
      ((([] : List (Sketch ε)).zip []).reverse ++ sketched conversion others) results := by
    rwa [setChildren_nil (hbare _ List.mem_cons_self hexpands)]
  exact hwaits.expanded hadds hgrows

theorem growSettles (items : List (Tree α × NodeId)) (forest : Forest)
    (hwaits : forest.Waits (sketched conversion items)) (hbare : Bare conversion forest items) :
    GrowSettles conversion forest items := by
  -- the induction is on the number of nodes that hang on the stack
  induction hsize : Tree.sizeAll (items.map Prod.fst) using Nat.strongRecOn
    generalizing items forest with
  | _ size ih =>
    subst hsize
    match items with
    | [] =>
      rw [GrowSettles, List.filter_nil, grow]
      exact .done (by simp [sketched]) ⟨[], .nil forest⟩
    | (tree, id) :: rest =>
      by_cases hexpands : conversion.expands tree
      · obtain ⟨value, children⟩ := tree
        refine growSettles_of_expands hexpands hwaits fun added ids hadds ↦ ?_
        have hfst : (children.zip ids).map Prod.fst = children :=
          List.map_fst_zip (by simpa using Nat.le_of_eq (congrArg List.length hadds.entries).symm)
        refine ih _ ?_ _ _ (hwaits.expand_sketched hexpands hadds) (hbare.expand hwaits hadds) rfl
        rw [List.map_append, List.map_reverse, hfst, Tree.sizeAll_append, Tree.sizeAll_reverse,
          List.map_cons, Tree.sizeAll, Tree.size]
        omega
      · refine growSettles_of_not_expands hexpands hwaits hbare ?_
        refine ih _ ?_ _ _ hwaits.tail
          (fun item hitem ↦ hbare item (List.mem_cons_of_mem _ hitem)) rfl
        have htree := tree.size_pos
        simp only [List.map_cons, Tree.sizeAll]
        omega

/-- A foreign tree fails with the first conversion that does, or becomes a tree of linked nodes
that reads as its sketch. -/
theorem ofTree_settles (conversion : Conversion ε α) (tree : Tree α) :
    Settles (conversion.sketch tree).expansionOrder
      (fun linked ↦ linked.1.IsRooted linked.2 ∧
        (Query.subtree (⟨linked.1, linked.2⟩ : Member)).map .ok = conversion.sketch tree)
      (ofTree conversion tree) := by
  rw [ofTree, Tree.expansionOrder, Conversion.value_sketch]
  cases hentry : conversion.entry tree with
  | error fault => exact .failed [] _ (by simp) rfl
  | ok entry =>
    let start := (empty.add entry none).1
    have hnode : start.node empty.size = ⟨entry, [], none⟩ := node_add_self _ _ _
    have hwaits : start.Waits (sketched conversion [(tree, empty.size)]) := by
      refine ⟨List.nodup_singleton _, ?_, ?_⟩
      · intro item hitem
        obtain rfl := List.mem_singleton.mp hitem
        rw [size_add]
        exact Nat.lt_succ_self _
      · intro item hitem
        obtain rfl := List.mem_singleton.mp hitem
        rw [hnode, Conversion.value_sketch, hentry]
    have hbare : Bare conversion start [(tree, empty.size)] := by
      intro item hitem _
      obtain rfl := List.mem_singleton.mp hitem
      rw [hnode]
    have hclean : ∀ attempt ∈ [(.ok entry : Except ε Entry)], attempt.isOk := by
      simp [Except.isOk, Except.toBool]
    have hgrown := growSettles [(tree, empty.size)] start hwaits hbare
    have hwaiting : waiting conversion [tree] [empty.size] =
        [(tree, empty.size)].filter fun item ↦ conversion.expands item.1 := by
      rw [waiting, ← List.filter_reverse]
      rfl
    rw [GrowSettles, sketched, List.map_singleton, List.flatMap_singleton] at hgrown
    rw [← List.singleton_append]
    apply Settles.proceed hclean
    have hroot : (empty.add entry none).2 = empty.size := rfl
    simp only [hroot, hwaiting]
    generalize grow conversion _ start = outcome at hgrown ⊢
    cases hgrown with
    | failed before after clean split => exact .failed before after clean split
    | done clean holds =>
      obtain ⟨results, hgrows⟩ := holds
      obtain ⟨ids, rfl⟩ : ∃ ids, results = [ids] :=
        List.length_eq_one_iff.mp (by simpa using congrArg List.length hgrows.roots)
      have hroot : ids.value = empty.size := by simpa using hgrows.roots
      have hnodup : ids.values.Nodup := by simpa using hgrows.nodup
      have hhangs := hgrows.hangs ids (by simp)
      rw [hroot, hnode] at hhangs
      refine .done clean ⟨⟨ids, hroot, hhangs, hnodup⟩, ?_⟩
      rw [← hroot, hhangs.spans.subtree_eq hnodup]
      simpa using hgrows.entries

end Loop

end Forest

end SyntaxMining
