import SyntaxMining.Proofs.Tree.Basic
import SyntaxMining.Tree.Flatten

/-!
# Flat form and pre-order

A tree whose values are paired with their places in the pre-order has the places as ids: the record
of a node holds its own place and the places of its children. The loop that makes the records takes
one tree at a time off its stack; it adds the records of that tree, tells the parent the id of the
tree, and leaves the rest of the stack as it was.
-/

namespace SyntaxMining

variable {α β : Type}

/-- Record of a node that was paired with its place. -/
def Record.ofNumbered (part : Tree (Nat × α)) : Record α where
  id := part.value.1
  value := part.value.2
  children := part.children.map fun child ↦ child.value.1

theorem modify_append_of_lt {parent : Nat} {left : List α} (h : parent < left.length) (f : α → α)
    (right : List α) : (left ++ right).modify parent f = left.modify parent f ++ right := by
  induction left generalizing parent with
  | nil => simp at h
  | cons item rest ih =>
    cases parent with
    | zero => simp
    | succ parent => simp [ih (Nat.lt_of_succ_lt_succ h)]

theorem modify_append_length (left : List α) (f : α → α) (item : α) (right : List α) :
    (left ++ item :: right).modify left.length f = left ++ f item :: right := by
  induction left with
  | nil => simp
  | cons first rest ih => simp [ih]

namespace Tree

/-! ## Places in the pre-order -/

theorem number_node (next : Nat) (value : α) (children : List (Tree α)) :
    (node value children).number next = node (next, value) (numberAll (next + 1) children) := by
  rw [number]

theorem map_map_numberAll (f : α → β) {trees : List (Tree α)}
    (h : ∀ tree ∈ trees, ∀ next, (tree.number next).map (f ∘ Prod.snd) = tree.map f) (next : Nat) :
    (numberAll next trees).map (map (f ∘ Prod.snd)) = trees.map (map f) := by
  induction trees generalizing next with
  | nil => rfl
  | cons tree rest ih =>
    have hrest := ih (fun other hother ↦ h other (List.mem_cons_of_mem tree hother))
    rw [numberAll, List.map_cons, List.map_cons, h tree (by simp), hrest]

/-- Without the places it is the tree as it was. -/
theorem map_number (f : α → β) (tree : Tree α) (next : Nat) :
    (tree.number next).map (f ∘ Prod.snd) = tree.map f := by
  induction tree generalizing next with
  | node value children ih =>
    rw [number_node, map_node, map_node, map_map_numberAll f ih]
    rfl

theorem places_numberAll {trees : List (Tree α)}
    (h : ∀ tree ∈ trees, ∀ next,
      (tree.number next).values.map Prod.fst = List.range' next tree.size) (next : Nat) :
    ((numberAll next trees).flatMap values).map Prod.fst = List.range' next (sizeAll trees) := by
  induction trees generalizing next with
  | nil => rfl
  | cons tree rest ih =>
    have hrest := ih (fun other hother ↦ h other (List.mem_cons_of_mem tree hother))
    rw [numberAll, List.flatMap_cons, List.map_append, h tree (by simp), hrest, sizeAll,
      List.range'_append_1]

theorem places_number (tree : Tree α) (next : Nat) :
    (tree.number next).values.map Prod.fst = List.range' next tree.size := by
  induction tree generalizing next with
  | node value children ih =>
    rw [number_node, values_node, List.map_cons, places_numberAll ih, size_node, List.range'_succ]

theorem size_number (tree : Tree α) (next : Nat) : (tree.number next).size = tree.size := by
  have hplaces := congrArg List.length (tree.places_number next)
  rwa [List.length_map, length_values, List.length_range'] at hplaces

/-- A node stands in the pre-order at the place it was paired with. -/
theorem getElem?_preorder_number {tree : Tree α} {part : Tree (Nat × α)}
    (h : part ∈ (tree.number 0).preorder) :
    (tree.number 0).preorder[part.value.1]? = some part := by
  obtain ⟨place, hplace⟩ := List.mem_iff_getElem?.mp h
  have hnumber : ((tree.number 0).values.map Prod.fst)[place]? = some part.value.1 := by
    simp [values, hplace]
  rw [places_number] at hnumber
  have hbound : place < tree.size := by
    simpa using (List.getElem?_eq_some_iff.mp hnumber).1
  rw [List.getElem?_range' hbound] at hnumber
  have heq : place = part.value.1 := by simpa using hnumber
  rw [← heq, hplace]

/-! ## The loop -/

@[simp]
theorem size_attach (parent : Option Nat) (id : Nat) (records : Array (Record α)) :
    (attach parent id records).size = records.size := by
  cases parent with
  | none => rfl
  | some parent => simp [attach]

/-- Records as a list, with an id added to the children of the record at `parent`. -/
def attachTo (parent : Option Nat) (id : Nat) (made : List (Record α)) : List (Record α) :=
  (attach parent id made.toArray).toList

@[simp]
theorem length_attachTo (parent : Option Nat) (id : Nat) (made : List (Record α)) :
    (attachTo parent id made).length = made.length :=
  size_attach parent id made.toArray

theorem attachTo_append {parent : Option Nat} {made : List (Record α)}
    (h : ∀ place ∈ parent, place < made.length) (id : Nat) (later : List (Record α)) :
    attachTo parent id (made ++ later) = attachTo parent id made ++ later := by
  cases parent with
  | none => rfl
  | some parent => simp [attachTo, attach, modify_append_of_lt (h parent rfl)]

theorem attachTo_append_cons (id : Nat) (made : List (Record α)) (record : Record α)
    (later : List (Record α)) :
    attachTo (some made.length) id (made ++ record :: later) =
      made ++ { record with children := record.children ++ [id] } :: later := by
  simp [attachTo, attach, modify_append_length]

/-- Records of a tree whose root gets the id `next`. -/
def recordsFrom (next : Nat) (tree : Tree α) : List (Record α) :=
  (tree.number next).preorder.map Record.ofNumbered

theorem length_recordsFrom (next : Nat) (tree : Tree α) :
    (tree.recordsFrom next).length = tree.size := by
  rw [recordsFrom, List.length_map, ← tree.size_number next, ← length_values, values,
    List.length_map]

/-- Records of consecutive trees, the first of which gets the id `next`. -/
def recordsOfAll (next : Nat) (trees : List (Tree α)) : List (Record α) :=
  (numberAll next trees).flatMap fun tree ↦ tree.preorder.map Record.ofNumbered

/-- Ids of consecutive trees. -/
def idsFrom (next : Nat) (trees : List (Tree α)) : List Nat :=
  (numberAll next trees).map fun tree ↦ tree.value.1

theorem recordsFrom_node (next : Nat) (value : α) (children : List (Tree α)) :
    (node value children).recordsFrom next =
      ⟨next, value, idsFrom (next + 1) children⟩ :: recordsOfAll (next + 1) children := by
  rw [recordsFrom, number_node, preorder_node, List.map_cons, List.map_flatMap]
  rfl

theorem recordsOfAll_cons (next : Nat) (tree : Tree α) (rest : List (Tree α)) :
    recordsOfAll next (tree :: rest) =
      tree.recordsFrom next ++ recordsOfAll (next + tree.size) rest := by
  rw [recordsOfAll, numberAll, List.flatMap_cons]
  rfl

theorem idsFrom_cons (next : Nat) (tree : Tree α) (rest : List (Tree α)) :
    idsFrom next (tree :: rest) = next :: idsFrom (next + tree.size) rest := by
  cases tree with
  | node value children =>
    rw [idsFrom, numberAll, number_node]
    rfl

/-- The loop takes a tree off its stack, with the id of its parent. -/
def Enumerates (tree : Tree α) : Prop :=
  ∀ {parent : Option Nat} {rest : List (Option Nat × Tree α)} {made : List (Record α)},
    (∀ place ∈ parent, place < made.length) →
      enumerate ((parent, tree) :: rest) made.toArray =
        enumerate rest (attachTo parent made.length made ++ tree.recordsFrom made.length).toArray

theorem enumerate_waiting {children : List (Tree α)} (h : ∀ child ∈ children, Enumerates child)
    (record : Record α) (made later : List (Record α)) (rest : List (Option Nat × Tree α))
    {next : Nat} (hnext : (made ++ record :: later).length = next) :
    enumerate (waiting made.length children ++ rest) (made ++ record :: later).toArray =
      enumerate rest (made ++
        { record with children := record.children ++ idsFrom next children } ::
          (later ++ recordsOfAll next children)).toArray := by
  -- the parent's record stays where it is while the records of its descendants pile up after it
  induction children generalizing record later next with
  | nil => simp [waiting, numberAll, idsFrom, recordsOfAll]
  | cons child others ih =>
    have hothers : ∀ other ∈ others, Enumerates other := fun other hother ↦
      h other (List.mem_cons_of_mem child hother)
    have hparent : ∀ place ∈ some made.length, place < (made ++ record :: later).length := by
      simp
    have hlater : (made ++ { record with children := record.children ++ [next] } ::
        (later ++ child.recordsFrom next)).length = next + child.size := by
      rw [← hnext]
      simp [length_recordsFrom]
      omega
    calc
      enumerate (waiting made.length (child :: others) ++ rest) (made ++ record :: later).toArray =
          enumerate (waiting made.length others ++ rest)
            (attachTo (some made.length) next (made ++ record :: later) ++
              child.recordsFrom next).toArray := hnext ▸ h child (by simp) hparent
      _ = enumerate (waiting made.length others ++ rest)
            (made ++ { record with children := record.children ++ [next] } ::
              (later ++ child.recordsFrom next)).toArray := by
        rw [attachTo_append_cons, List.append_assoc, List.cons_append]
      _ = enumerate rest (made ++
            { record with children := record.children ++ idsFrom next (child :: others) } ::
              (later ++ recordsOfAll next (child :: others))).toArray := by
        rw [ih hothers _ _ hlater, idsFrom_cons, recordsOfAll_cons]
        simp

theorem enumerates (tree : Tree α) : Enumerates tree := by
  induction tree with
  | node value children ih =>
    intro parent rest made hparent
    let root : Record α := ⟨made.length, value, []⟩
    have hnext : (attachTo parent made.length made ++ [root]).length = made.length + 1 := by
      simp
    calc
      enumerate ((parent, node value children) :: rest) made.toArray =
          enumerate (waiting made.length children ++ rest)
            (attachTo parent made.length (made ++ [root])).toArray := by
        rw [enumerate]
        simp [attachTo, root]
      _ = enumerate (waiting (attachTo parent made.length made).length children ++ rest)
            (attachTo parent made.length made ++ [root]).toArray := by
        rw [attachTo_append hparent, length_attachTo]
      _ = enumerate rest (attachTo parent made.length made ++
            (node value children).recordsFrom made.length).toArray := by
        rw [enumerate_waiting ih root _ [] rest hnext, recordsFrom_node]
        rfl

/-- The flat form lists the nodes in pre-order. -/
theorem flatten_eq (tree : Tree α) : tree.flatten = tree.recordsFrom 0 := by
  have hroot : enumerate [(none, tree)] #[] = enumerate [] (tree.recordsFrom 0).toArray :=
    tree.enumerates (by simp)
  rw [flatten, hroot, enumerate]

end Tree

end SyntaxMining
