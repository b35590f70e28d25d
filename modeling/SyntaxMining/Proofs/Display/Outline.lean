import SyntaxMining.Display.Outline
import SyntaxMining.Proofs.Tree.Flatten

/-!
# An outline shows its tree

The loop that grows an outline handles its stack as the loop does that makes the flat form of a
tree, so the two can be followed side by side: whatever waits on the stack, the rows made so far are
the records made so far, each with its node described. The rows of an outline are therefore in
pre-order, and every row finds the rows of its children where the flat form puts their ids. Read
from the top, they give back the tree, each node described.
-/

namespace SyntaxMining.Display.Outline

variable (describe : Entry → String)

/-! ## Rows and records -/

/-- Rows that describe the nodes of some records. -/
def ofRecords (records : Array (Record Entry)) : Outline :=
  ⟨records.map fun record ↦ (describe record.value, record.children)⟩

@[simp]
theorem size_rows_ofRecords (records : Array (Record Entry)) :
    (ofRecords describe records).rows.size = records.size :=
  Array.size_map

/-- Adding a line to such rows is making a record and then telling the parent its id. -/
theorem add_ofRecords {records : Array (Record Entry)} {parent : Nat} (h : parent < records.size)
    (entry : Entry) :
    (ofRecords describe records).add parent (describe entry) =
      (ofRecords describe (Tree.attach (some parent) records.size
        (records.push ⟨records.size, entry, []⟩)), records.size) := by
  rw [add, size_rows_ofRecords, Prod.mk.injEq]
  refine ⟨?_, rfl⟩
  simp only [ofRecords, Tree.attach, mk.injEq]
  apply Array.ext_getElem?
  intro row
  simp only [Array.getElem?_push, Array.getElem?_map, Array.getElem?_modify, Array.size_modify,
    Array.size_map]
  by_cases hnew : row = records.size
  · -- the new row is not its own parent
    have hother : parent ≠ row := hnew ▸ Nat.ne_of_lt h
    simp only [if_pos hnew, if_neg hother, Option.map_some]
  · simp only [if_neg hnew]
    by_cases hparent : parent = row
    · simp only [if_pos hparent, Option.map_map]
      rfl
    · simp only [if_neg hparent]

/-- The trees on the stack wait for rows that are there. -/
def Awaits (size : Nat) (pending : List (Option Nat × SyntaxTree)) : Prop :=
  ∀ item ∈ pending, ∃ parent < size, item.1 = some parent

theorem awaits_waiting {size id : Nat} (h : id < size) (children : List SyntaxTree) :
    Awaits size (Tree.waiting id children) := by
  intro item hitem
  obtain ⟨child, -, rfl⟩ := List.mem_map.mp hitem
  exact ⟨id, h, rfl⟩

theorem Awaits.append {size : Nat} {first second : List (Option Nat × SyntaxTree)}
    (hfirst : Awaits size first) (hsecond : Awaits size second) : Awaits size (first ++ second) :=
  fun item hitem ↦ (List.mem_append.mp hitem).elim (hfirst item) (hsecond item)

theorem Awaits.mono {size larger : Nat} {pending : List (Option Nat × SyntaxTree)}
    (h : Awaits size pending) (hle : size ≤ larger) : Awaits larger pending := by
  intro item hitem
  obtain ⟨parent, hparent, hitem⟩ := h item hitem
  exact ⟨parent, Nat.lt_of_lt_of_le hparent hle, hitem⟩

/-- The two loops go side by side from any point on. -/
theorem addAll_ofRecords (pending : List (Option Nat × SyntaxTree))
    (records : Array (Record Entry)) (h : Awaits records.size pending) :
    addAll describe pending (ofRecords describe records) =
      ofRecords describe (Tree.enumerate pending records) := by
  induction pending, records using Tree.enumerate.induct with
  | case1 records => rw [addAll, Tree.enumerate]
  | case2 records parent entry children rest id ih =>
    obtain ⟨above, habove, rfl⟩ : ∃ above < records.size, parent = some above :=
      h _ List.mem_cons_self
    have hrest : Awaits records.size rest := fun item hitem ↦ h item (List.mem_cons_of_mem _ hitem)
    have hsize : (Tree.attach (some above) id (records.push ⟨id, entry, []⟩)).size =
        records.size + 1 := by simp
    rw [addAll, Tree.enumerate]
    simp only [Option.getD_some, add_ofRecords describe habove]
    apply ih
    rw [hsize]
    exact (awaits_waiting (Nat.lt_succ_self _) children).append (hrest.mono (Nat.le_succ _))

/-- The rows of an outline are the records of the flat form, each node described. -/
theorem ofTree_eq_ofRecords (tree : SyntaxTree) :
    ofTree describe tree = ofRecords describe tree.flatten.toArray := by
  obtain ⟨entry, children⟩ := tree
  have hstart : Tree.enumerate [(none, .node entry children)] #[] =
      Tree.enumerate (Tree.waiting 0 children) #[⟨0, entry, []⟩] := by
    rw [Tree.enumerate]
    simp [Tree.attach]
  calc
    ofTree describe (.node entry children) =
        addAll describe (Tree.waiting 0 children) (ofRecords describe #[⟨0, entry, []⟩]) := by
      simp [ofTree, single, ofRecords]
    _ = ofRecords describe (Tree.enumerate (Tree.waiting 0 children) #[⟨0, entry, []⟩]) :=
      addAll_ofRecords describe _ _ (awaits_waiting Nat.zero_lt_one children)
    _ = ofRecords describe (Tree.flatten (.node entry children)).toArray := by
      rw [← hstart, Tree.flatten, Array.toArray_toList]

/-! ## Reading the rows -/

/-- The row of a node holds its description and the rows of its children. -/
theorem getElem?_rows_ofTree {tree : SyntaxTree} {part : Tree (Nat × Entry)}
    (h : part ∈ (tree.number 0).preorder) :
    (ofTree describe tree).rows[part.value.1]? =
      some (describe part.value.2, part.children.map fun child ↦ child.value.1) := by
  simp [ofTree_eq_ofRecords, ofRecords, Tree.flatten_eq, Tree.recordsFrom,
    Tree.getElem?_preorder_number h, Record.ofNumbered]

/-- As many levels as a part of a tree has nodes show the whole part. -/
theorem treeAt_ofTree {tree : SyntaxTree} {part : Tree (Nat × Entry)}
    (h : part ∈ (tree.number 0).preorder) {depth : Nat} (hdepth : part.size ≤ depth) :
    (ofTree describe tree).treeAt depth part.value.1 = part.map (describe ∘ Prod.snd) := by
  induction depth generalizing part with
  | zero => exact absurd part.size_pos (Nat.not_lt.mpr hdepth)
  | succ depth ih =>
    obtain ⟨value, children⟩ := part
    rw [Tree.size_node] at hdepth
    have hchild : ∀ child ∈ children,
        (ofTree describe tree).treeAt depth child.value.1 = child.map (describe ∘ Prod.snd) := by
      intro child hchild
      have hpart : child ∈ (Tree.node value children).preorder :=
        Tree.mem_preorder_of_mem_children hchild child.self_mem_preorder
      have hsize := Tree.size_le_sizeAll hchild
      exact ih (Tree.mem_preorder_trans h hpart) (by omega)
    rw [treeAt, getElem?_rows_ofTree describe h, Tree.map_node]
    simp only [Tree.value_node, Tree.children_node, List.map_map, Function.comp_apply,
      Tree.node.injEq, true_and]
    exact List.map_congr_left hchild

theorem size_rows_ofTree (tree : SyntaxTree) : (ofTree describe tree).rows.size = tree.size := by
  rw [ofTree_eq_ofRecords, size_rows_ofRecords, List.size_toArray, Tree.flatten_eq,
    Tree.length_recordsFrom]

theorem toTree_ofTree (tree : SyntaxTree) : (ofTree describe tree).toTree = tree.map describe := by
  have hroot : (tree.number 0).value.1 = 0 := by
    cases tree with
    | node entry children => rw [Tree.number_node, Tree.value_node]
  have hsize : (tree.number 0).size = (ofTree describe tree).rows.size := by
    rw [Tree.size_number, size_rows_ofTree]
  have hshown := treeAt_ofTree describe (tree.number 0).self_mem_preorder (Nat.le_of_eq hsize)
  rwa [hroot, Tree.map_number] at hshown

/-- Whatever a node is described by, the loop that grows an outline makes one row for each node of
the tree, and the tree of lines read from them has the shape of the tree, with each node described
where it stands. Its lines are therefore, in pre-order, the described nodes of the flat form. -/
theorem toTree_ofTree_describes (tree : SyntaxTree) :
    (ofTree describe tree).rows.size = tree.size ∧
      (ofTree describe tree).toTree = tree.map describe ∧
      (ofTree describe tree).toTree.values =
        tree.flatten.map fun record ↦ describe record.value := by
  refine ⟨size_rows_ofTree describe tree, toTree_ofTree describe tree, ?_⟩
  calc
    (ofTree describe tree).toTree.values = ((tree.number 0).map (describe ∘ Prod.snd)).values := by
      rw [toTree_ofTree, Tree.map_number]
    _ = (tree.number 0).preorder.map fun part ↦ describe part.value.2 := by
      rw [Tree.values_map, Tree.values, List.map_map]
      rfl
    _ = tree.flatten.map fun record ↦ describe record.value := by
      rw [Tree.flatten_eq, Tree.recordsFrom, List.map_map]
      rfl

end SyntaxMining.Display.Outline
