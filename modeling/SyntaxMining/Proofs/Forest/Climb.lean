import Mathlib.Order.Bounds.Basic
import SyntaxMining.Proofs.Forest.Consistency

/-!
# Climbing to what encloses a node

A search for what encloses a node climbs from parent to parent. It follows the links that lead back,
not the tree, and would never end if these ran in a circle. The loop is therefore a relation of its
own, which holds of the searches that end and counts the nodes they test. However a linked tree came
about and however often its chains have been removed, the search from a node ends, tests no node
above it twice, and finds the last accepted node of the path that leads down to it.
-/

namespace SyntaxMining.Forest

/-! ## The loop -/

/-- The search that starts at some node, or above the root, ends after a number of tests with an
answer: the first node that is accepted, or none once the root is left. -/
inductive Climbs (forest : Forest) (accept : Member → Bool) :
    Option NodeId → Nat → Option Member → Prop where
  | left : Climbs forest accept none 0 none
  | found {id : NodeId} (accepted : accept ⟨forest, id⟩) :
      Climbs forest accept (some id) 1 (some ⟨forest, id⟩)
  | passed {id : NodeId} {tests : Nat} {answer : Option Member}
      (rejected : accept ⟨forest, id⟩ = false)
      (above : Climbs forest accept (forest.node id).parent tests answer) :
      Climbs forest accept (some id) (tests + 1) answer

variable {forest : Forest} {accept : Member → Bool} {root id : NodeId} {path : List NodeId}

/-- A search that ends has one answer. -/
theorem Climbs.unique {start : Option NodeId} {tests others : Nat} {answer other : Option Member}
    (h : forest.Climbs accept start tests answer)
    (hother : forest.Climbs accept start others other) : answer = other := by
  induction h generalizing others with
  | left =>
    cases hother with
    | left => rfl
  | found accepted =>
    cases hother with
    | found => rfl
    | passed rejected => simp [accepted] at rejected
  | passed rejected above ih =>
    cases hother with
    | found accepted => simp [accepted] at rejected
    | passed _ otherAbove => exact ih otherAbove

/-! ## Paths -/

/-- Child links lead from the root through the nodes of a path to a node, which is not itself on
the path. -/
inductive LeadsDown (forest : Forest) (root : NodeId) : List NodeId → NodeId → Prop where
  | root : LeadsDown forest root [] root
  | child {path : List NodeId} {outer inner : NodeId} (above : LeadsDown forest root path outer)
      (link : inner ∈ (forest.node outer).children) :
      LeadsDown forest root (path ++ [outer]) inner

theorem IsRooted.mem_preorder_of_leadsDown (h : forest.IsRooted root)
    (hpath : forest.LeadsDown root path id) : id ∈ forest.preorder root := by
  induction hpath with
  | root => exact forest.self_mem_preorder root
  | child above link ih => exact h.linksAgree.closed _ ih _ link

/-- The nodes above a node are those of the path that leads to it, from its end. -/
theorem IsRooted.ancestors_of_leadsDown (h : forest.IsRooted root)
    (hpath : forest.LeadsDown root path id) :
    Query.ancestors (⟨forest, id⟩ : Member) = path.reverse.map (Member.mk forest) := by
  induction hpath with
  | root => exact h.ancestors_root
  | child above link ih =>
    rw [h.ancestors_child (h.mem_preorder_of_leadsDown above) link, ih]
    simp

/-- The search climbs the path that leads to a node, and tests at most the nodes of the path. -/
theorem IsRooted.exists_climbs (h : forest.IsRooted root) (hpath : forest.LeadsDown root path id)
    (accept : Member → Bool) :
    ∃ tests ≤ path.length, forest.Climbs accept (forest.node id).parent tests
      (Query.enclosing? (⟨forest, id⟩ : Member) accept) := by
  induction hpath with
  | root =>
    rw [h.linksAgree.root_parent, Query.enclosing?, h.ancestors_root]
    exact ⟨0, Nat.le_refl _, .left⟩
  | @child path outer inner above link ih =>
    have houter := h.mem_preorder_of_leadsDown above
    have hback : (forest.node inner).parent = some outer :=
      (h.linksAgree.parent_iff inner (h.linksAgree.closed outer houter inner link) outer).mpr
        ⟨houter, link⟩
    rw [hback, Query.enclosing?, h.ancestors_child houter link, List.length_append]
    cases haccept : accept ⟨forest, outer⟩ with
    | true =>
      rw [List.find?_cons_of_pos haccept]
      exact ⟨1, Nat.le_add_left _ _, .found haccept⟩
    | false =>
      rw [List.find?_cons_of_neg (by simp [haccept])]
      obtain ⟨tests, hle, hclimbs⟩ := ih
      exact ⟨tests + 1, Nat.succ_le_succ hle, .passed haccept hclimbs⟩

/-! ## The nearest node -/

/-- Places of a path whose nodes are accepted. -/
def acceptedPlaces (forest : Forest) (accept : Member → Bool) (path : List NodeId) : Set Nat :=
  {place | ∃ id, path[place]? = some id ∧ accept ⟨forest, id⟩}

/-- From its end, a path is searched for the greatest of its accepted places. -/
theorem exists_isGreatest_of_find?_reverse {found : NodeId}
    (h : path.reverse.find? (fun id ↦ accept ⟨forest, id⟩) = some found) :
    ∃ place, IsGreatest (forest.acceptedPlaces accept path) place ∧ path[place]? = some found := by
  obtain ⟨haccept, later, earlier, hsplit, hlater⟩ := List.find?_eq_some_iff_append.mp h
  have hpath : path = earlier.reverse ++ found :: later.reverse := by
    rw [← path.reverse_reverse, hsplit]
    simp
  have hat : path[earlier.length]? = some found := by
    simp [hpath]
  have hgreatest : ∀ place ∈ forest.acceptedPlaces accept path, place ≤ earlier.length := by
    intro place hplace
    obtain ⟨id, hid, hidAccept⟩ := hplace
    by_contra hbehind
    -- whatever stands behind has been met before, and rejected
    obtain ⟨gap, rfl⟩ := Nat.exists_eq_add_of_lt (Nat.not_le.mp hbehind)
    have hlast : path[earlier.length + gap + 1]? = later.reverse[gap]? := by
      rw [hpath, List.getElem?_append_right (by simp; omega), List.length_reverse, Nat.add_assoc,
        Nat.add_sub_cancel_left, List.getElem?_cons_succ]
    have hin : id ∈ later := List.mem_reverse.mp (List.mem_of_getElem? (hlast ▸ hid))
    simpa [hidAccept] using hlater id hin
  exact ⟨earlier.length, ⟨⟨found, hat, haccept⟩, hgreatest⟩, hat⟩

theorem find?_reverse_eq_some_iff {found : NodeId} :
    path.reverse.find? (fun id ↦ accept ⟨forest, id⟩) = some found ↔
      ∃ place, IsGreatest (forest.acceptedPlaces accept path) place ∧
        path[place]? = some found := by
  refine ⟨exists_isGreatest_of_find?_reverse, ?_⟩
  intro hplace
  obtain ⟨place, hgreatest, hat⟩ := hplace
  cases hfind : path.reverse.find? fun id ↦ accept ⟨forest, id⟩ with
  | none =>
    obtain ⟨id, hid, hidAccept⟩ := hgreatest.1
    have hrejected := List.find?_eq_none.mp hfind id
      (List.mem_reverse.mpr (List.mem_of_getElem? hid))
    exact absurd hidAccept hrejected
  | some other =>
    obtain ⟨otherPlace, hother, hotherAt⟩ := exists_isGreatest_of_find?_reverse hfind
    rw [hother.unique hgreatest, hat] at hotherAt
    exact hotherAt.symm

/-- What a search finds above the node at the end of a path. -/
structure FindsNearest (forest : Forest) (accept : Member → Bool) (path : List NodeId)
    (id : NodeId) (answer : Option Member) : Prop where
  /-- The search ends, and tests each node of the path once at most. -/
  ends : ∃ tests ≤ path.length, forest.Climbs accept (forest.node id).parent tests answer
  /-- No search from the node ends with another answer. -/
  only : ∀ tests other, forest.Climbs accept (forest.node id).parent tests other → other = answer
  /-- The answer is the node at the greatest of the accepted places. -/
  some_iff : ∀ member, answer = some member ↔ ∃ place found,
    IsGreatest (forest.acceptedPlaces accept path) place ∧ path[place]? = some found ∧
      member = ⟨forest, found⟩
  none_iff : answer = none ↔ ∀ above ∈ path, accept ⟨forest, above⟩ = false

theorem IsRooted.findsNearest (h : forest.IsRooted root) (hpath : forest.LeadsDown root path id)
    (accept : Member → Bool) :
    forest.FindsNearest accept path id (Query.enclosing? (⟨forest, id⟩ : Member) accept) := by
  have hsearch : Query.enclosing? (⟨forest, id⟩ : Member) accept =
      (path.reverse.find? fun id ↦ accept ⟨forest, id⟩).map (Member.mk forest) := by
    rw [Query.enclosing?, h.ancestors_of_leadsDown hpath, List.find?_map]
    rfl
  obtain ⟨tests, hle, hclimbs⟩ := h.exists_climbs hpath accept
  refine ⟨⟨tests, hle, hclimbs⟩, fun _ _ hother ↦ hother.unique hclimbs, ?_, ?_⟩
  · intro member
    rw [hsearch, Option.map_eq_some_iff]
    simp only [find?_reverse_eq_some_iff]
    grind
  · rw [hsearch, Option.map_eq_none_iff, List.find?_eq_none]
    simp

/-- However a linked tree came about and however often its chains are removed, every pass succeeds,
and from each node of the result the search up the parent links ends with the nearest accepted node
of the path that leads down to it. -/
theorem rebuildAll_findsNearest (h : Produced forest root) (modes : List Mode) :
    ∃ after result, rebuildAll forest root modes = .ok (after, result) ∧
      ∀ path id, after.LeadsDown result path id → ∀ accept,
        after.FindsNearest accept path id (Query.enclosing? (⟨after, id⟩ : Member) accept) := by
  obtain ⟨after, result, hrebuild, hrooted⟩ := h.isRooted.exists_rebuildAll modes
  exact ⟨after, result, hrebuild, fun _ _ hpath accept ↦ hrooted.findsNearest hpath accept⟩

/-- A module that holds only a class, whose block holds only a class, whose block holds only a
function. -/
def innerClass : ConcreteTree :=
  let part (kind : String) (start stop : Nat) (children : List ConcreteTree) : ConcreteTree :=
    .node ⟨kind, start, stop, ⟨0, start⟩, ⟨0, stop⟩, false⟩ children
  part "module" 0 7 [part "class" 0 7 [part "name" 0 1 [], part "block" 2 7 [
    part "class" 2 7 [part "name" 2 3 [], part "block" 4 7 [
      part "function" 4 7 [part "name" 4 5 [], part "body" 6 7 []]]]]]]

/-- Folding makes new nodes of the function, the inner class and the outer class; the search from
the function finds the inner one. -/
theorem rebuildAll_findsNearest_innerClass :
    ∃ forest root after result,
      ConcreteTree.link [65, 32, 66, 32, 109, 32, 120] innerClass = .ok (forest, root) ∧
      rebuildAll forest root [.compress, .simplify] = .ok (after, result) ∧
      after.LeadsDown result [12, 11] 10 ∧
      (∃ tests ≤ 2, after.Climbs (Query.lastIs · "class") (after.node 10).parent tests
        (some ⟨after, 11⟩)) ∧
      Query.enclosing? (⟨after, 10⟩ : Member) (Query.lastIs · "class") = some ⟨after, 11⟩ := by
  obtain ⟨forest, root, hlink⟩ := exists_link [65, 32, 66, 32, 109, 32, 120] innerClass
  obtain ⟨after, result, hrebuild, hfinds⟩ :=
    rebuildAll_findsNearest (.converted _ _ hlink) [.compress, .simplify]
  have hread : ((ConcreteTree.link [65, 32, 66, 32, 109, 32, 120] innerClass).toOption.bind
      fun linked ↦ (rebuildAll linked.1 linked.2 [.compress, .simplify]).toOption.map
        fun rebuilt ↦ (rebuilt.2, (rebuilt.1.node 12).children, (rebuilt.1.node 11).children,
          Query.lastIs (⟨rebuilt.1, 11⟩ : Member) "class")) =
      some (12, [2, 11], [5, 10], true) := by
    decide +kernel
  simp only [hlink, hrebuild, Except.toOption, Option.bind_some, Option.map_some, Option.some.injEq,
    Prod.mk.injEq] at hread
  obtain ⟨rfl, houter, hinner, hclass⟩ := hread
  have hpath : after.LeadsDown 12 [12, 11] 10 :=
    .child (.child .root (by simp [houter])) (by simp [hinner])
  have hnearest := hfinds [12, 11] 10 hpath (Query.lastIs · "class")
  have hgreatest : IsGreatest (after.acceptedPlaces (Query.lastIs · "class") [12, 11]) 1 := by
    refine ⟨⟨11, rfl, hclass⟩, ?_⟩
    intro place hplace
    obtain ⟨id, hid, -⟩ := hplace
    have hlt := (List.getElem?_eq_some_iff.mp hid).1
    exact Nat.le_of_lt_succ hlt
  have hfound := (hnearest.some_iff ⟨after, 11⟩).mpr ⟨1, 11, hgreatest, rfl, rfl⟩
  rw [hfound] at hnearest
  exact ⟨forest, root, after, 12, hlink, hrebuild, hpath, hnearest.ends, hfound⟩

end SyntaxMining.Forest
