import SyntaxMining.Proofs.Query.Places
import SyntaxMining.Proofs.Tree.Chain

/-!
# Places of the tree of chains

Every place of a tree lies on one maximal chain, and that chain has a place in the tree of chains.
Taken over the places where a chain ends, this map is onto and keeps the pre-order; the chains above
a chain are those that end at its ancestors.
-/

namespace SyntaxMining.Cursor

variable {α : Type}

/-- Where the chain through a tree below some ancestors stands: an only child lies on the chain of
its parent. -/
def chainPlaceBelow (focus : Tree α) : List (Tree α) → Cursor (List α)
  | [] => ⟨focus.chains, []⟩
  | parent :: above =>
    let outer := chainPlaceBelow parent above
    if parent.children.length = 1 then outer else ⟨focus.chains, outer.focus :: outer.above⟩

/-- The place, in the tree of chains, of the chain that runs through a place. -/
def chainPlace (place : Cursor α) : Cursor (List α) :=
  chainPlaceBelow place.focus place.above

/-- Whether a chain ends at a place. -/
def branches (place : Cursor α) : Bool :=
  place.focus.branches

theorem chainPlace_of_only (place : Cursor α) (child : Tree α)
    (h : place.focus.children.length = 1) :
    chainPlace ⟨child, place.focus :: place.above⟩ = place.chainPlace :=
  if_pos h

theorem chainPlace_of_branches (place : Cursor α) (child : Tree α) (h : place.branches) :
    chainPlace ⟨child, place.focus :: place.above⟩ =
      ⟨child.chains, place.chainPlace.focus :: place.chainPlace.above⟩ :=
  if_neg (Tree.branches_iff.mp h)

/-- The places below a place where a chain ends are the ones below the place of the chain. -/
theorem map_chainPlace_placesBelow (tree : Tree α) {start : Tree α} {above : List (Tree α)}
    {outer : List (Tree (List α))} (hplace : chainPlace ⟨tree, above⟩ = ⟨start.chains, outer⟩)
    (hend : start.chainEnd = tree.chainEnd) :
    ((placesBelow above tree).filter branches).map chainPlace =
      placesBelow outer start.chains := by
  induction tree generalizing above start outer with
  | node value children ih =>
    rw [placesBelow_node]
    by_cases honly : children.length = 1
    · -- the chain goes on: the place is left out, and the only child lies on the same chain
      obtain ⟨child, rfl⟩ := List.length_eq_one_iff.mp honly
      rw [List.filter_cons_of_neg (by simp [branches]), List.flatMap_singleton]
      refine ih child (by simp) ?_ (by rw [hend, Tree.chainEnd_only])
      rw [← hplace]
      exact chainPlace_of_only ⟨.node value [child], above⟩ child rfl
    · have hbranches : branches (⟨.node value children, above⟩ : Cursor α) :=
        Tree.branches_iff.mpr honly
      rw [List.filter_cons_of_pos hbranches, List.map_cons, hplace, List.filter_flatMap,
        List.map_flatMap, Tree.chains_eq start, placesBelow_node, hend,
        Tree.chainEnd_stop value honly, Tree.children_node, List.flatMap_map]
      congr 1
      apply List.flatMap_congr
      intro child hchild
      refine ih child hchild ?_ rfl
      rw [chainPlace_of_branches ⟨.node value children, above⟩ child hbranches, hplace,
        Tree.chains_eq start, hend, Tree.chainEnd_stop value honly, Tree.children_node]

/-- The chains, in order, stand where the chains through the ends of chains do. -/
theorem map_chainPlace_places (tree : Tree α) :
    ((places tree).filter branches).map chainPlace = places tree.chains :=
  map_chainPlace_placesBelow tree rfl rfl

/-- Walking up from a chain meets the chains that end at the ancestors. -/
theorem ancestors_chainPlace {tree : Tree α} : ∀ place ∈ places tree,
    place.chainPlace.ancestors = (place.ancestors.filter branches).map chainPlace := by
  refine inductionOnPlaces rfl ?_
  intro place _ ih child _
  rw [ancestors_child]
  by_cases honly : place.focus.children.length = 1
  · have hbranches : ¬ place.branches := fun h ↦ Tree.branches_iff.mp h honly
    rw [chainPlace_of_only place child honly, List.filter_cons_of_neg hbranches, ih]
  · have hbranches : place.branches := Tree.branches_iff.mpr honly
    rw [chainPlace_of_branches place child hbranches, ancestors_child, ih,
      List.filter_cons_of_pos hbranches, List.map_cons]

/-- The chain through a place goes on as the place does, from where the chain starts. -/
theorem exists_chainPlace_eq {tree : Tree α} : ∀ place ∈ places tree,
    ∃ start : Tree α, place.chainPlace.focus = start.chains ∧
      start.chainEnd = place.focus.chainEnd := by
  refine inductionOnPlaces ⟨tree, rfl, rfl⟩ ?_
  rintro place - ⟨start, hstart, hend⟩ child hchild
  by_cases honly : place.focus.children.length = 1
  · obtain ⟨sole, hsole⟩ := List.length_eq_one_iff.mp honly
    rw [hsole, List.mem_singleton] at hchild
    rw [chainPlace_of_only place child honly]
    refine ⟨start, hstart, hend.trans ?_⟩
    rw [← Tree.node_value_children place.focus, hsole, Tree.chainEnd_only, hchild]
  · rw [chainPlace_of_branches place child (Tree.branches_iff.mpr honly)]
    exact ⟨child, rfl, rfl⟩

/-- The chain through a place where a chain ends is the one that ends there. -/
theorem getLast?_chainPlace {tree : Tree α} {place : Cursor α} (hplace : place ∈ places tree) :
    place.chainPlace.focus.value.getLast? = some place.focus.chainEnd.value := by
  obtain ⟨start, hstart, hend⟩ := exists_chainPlace_eq place hplace
  rw [hstart, Tree.value_chains, Tree.getLast?_chain, hend]

end SyntaxMining.Cursor
