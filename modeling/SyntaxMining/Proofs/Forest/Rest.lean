import Mathlib.Data.List.ReduceOption
import SyntaxMining.Proofs.Forest.Consistency
import SyntaxMining.Proofs.Tree.Leaves

/-!
# Nodes at rest

A node is at rest when its number of children is not one and each of its children leads back to it.
A pass over nodes at rest writes nothing: the table holds for each node the node itself, and
finishing a node gives it the children that it has. Whatever a pass leaves is at rest, so a second
pass of either kind changes neither a node nor a link, and of several passes only the first counts.
-/

namespace SyntaxMining

/-- No node of a normal form has an only child, whichever way chains are removed. -/
theorem Tree.length_children_of_mem_normalize {mode : Mode} {tree part : SyntaxTree}
    (hpart : part ∈ (tree.normalize mode).preorder) : part.children.length ≠ 1 := by
  rw [normalize_eq_map_chains, preorder_map] at hpart
  obtain ⟨chains, hchains, rfl⟩ := List.mem_map.mp hpart
  obtain ⟨start, -, rfl⟩ := exists_eq_chains hchains
  rw [children_map, chains_eq, children_node, List.length_map, List.length_map]
  exact start.length_children_chainEnd

namespace Forest

/-- A node that neither way of removing chains has to change. -/
structure IsAtRest (forest : Forest) (id : NodeId) : Prop where
  length_ne : (forest.node id).children.length ≠ 1
  back : ∀ child ∈ (forest.node id).children, (forest.node child).parent = some id

variable {forest after : Forest} {id root : NodeId} {mode : Mode}

/-! ## Writing what is there -/

theorem update_eq_self {change : LinkedNode → LinkedNode}
    (h : change (forest.node id) = forest.node id) : forest.update id change = forest := by
  obtain ⟨nodes⟩ := forest
  rw [update, mk.injEq]
  apply Array.ext
  · exact Array.size_modify
  · intro place _ hplace
    rw [Array.getElem_modify]
    split
    · next heq =>
      subst heq
      simpa [node, Array.getD_eq_getD_getElem?, hplace] using h
    · rfl

theorem setParent_eq_self {parent : Option NodeId} (h : (forest.node id).parent = parent) :
    forest.setParent id parent = forest :=
  update_eq_self (by rw [← h])

theorem adopt_eq_self {children : List NodeId}
    (h : ∀ child ∈ children, (forest.node child).parent = some id) :
    forest.adopt children id = forest := by
  induction children with
  | nil => rfl
  | cons child rest ih =>
    rw [List.forall_mem_cons] at h
    rw [adopt_cons, setParent_eq_self h.1, ih h.2]

theorem IsAtRest.setChildren_eq_self (h : forest.IsAtRest id) :
    forest.setChildren id (forest.node id).children = forest := by
  rw [setChildren_eq_adopt, update_eq_self rfl, adopt_eq_self h.back]

/-- Finishing a node at rest over the children that it has changes nothing. -/
theorem IsAtRest.rebuildNode_eq_self (h : forest.IsAtRest id) :
    rebuildNode mode forest id (forest.node id).children = (forest, id) := by
  have hlength := h.length_ne
  have hkeep := h.setChildren_eq_self
  generalize (forest.node id).children = children at hlength hkeep
  match children with
  | [] => rw [rebuildNode, hkeep]; simp
  | [_] => simp at hlength
  | _ :: _ :: _ => rw [rebuildNode, hkeep]; simp

/-! ## Tables of unchanged nodes -/

/-- Every node that the table holds has become itself. -/
def IsDiagonal (rebuilt : Rebuilt) : Prop :=
  ∀ id result, lookup rebuilt id = some result → result = id

theorem IsDiagonal.set {rebuilt : Rebuilt} (h : IsDiagonal rebuilt) {value : Option NodeId}
    (hvalue : ∀ result ∈ value, result = id) : IsDiagonal (rebuilt.setIfInBounds id value) := by
  intro other result hresult
  by_cases hother : other = id
  · subst hother
    have hlt : other < rebuilt.size := by simpa using lt_size_of_lookup hresult
    rw [lookup_set_self value hlt] at hresult
    exact hvalue result hresult
  · rw [lookup_set_of_ne rebuilt value hother] at hresult
    exact h other result hresult

theorem IsDiagonal.take {rebuilt rest : Rebuilt} (h : IsDiagonal rebuilt) {result : NodeId}
    (htake : Forest.take rebuilt id = .ok (result, rest)) : result = id ∧ IsDiagonal rest := by
  rw [Forest.take] at htake
  split at htake
  · cases htake
  · next found hfound =>
    cases htake
    exact ⟨h id result hfound, h.set (by simp)⟩

theorem IsDiagonal.takeAll {rebuilt rest : Rebuilt} (h : IsDiagonal rebuilt)
    {ids results : List NodeId} (htake : Forest.takeAll rebuilt ids = .ok (results, rest)) :
    results = ids ∧ IsDiagonal rest := by
  induction ids generalizing rebuilt rest results with
  | nil =>
    cases htake
    exact ⟨rfl, h⟩
  | cons id ids ih =>
    rw [Forest.takeAll] at htake
    split at htake
    · cases htake
    · next result middle hfirst =>
      obtain ⟨rfl, hmiddle⟩ := h.take hfirst
      split at htake
      · cases htake
      · next others final hothers =>
        obtain ⟨rfl, hfinal⟩ := ih hmiddle hothers
        cases htake
        exact ⟨rfl, hfinal⟩

/-! ## The loop -/

/-- The node that a job is about. -/
def Job.node : Job → NodeId
  | visit id => id
  | finish id => id

/-- However far the loop gets among nodes at rest, it leaves the forest as it was. -/
theorem work_eq_self {nodes : List NodeId} (hrest : ∀ id ∈ nodes, forest.IsAtRest id)
    (hclosed : ∀ id ∈ nodes, ∀ child ∈ (forest.node id).children, child ∈ nodes)
    {steps : Nat} {jobs : List Job} {rebuilt table : Rebuilt}
    (hjobs : ∀ job ∈ jobs, job.node ∈ nodes) (hdiagonal : IsDiagonal rebuilt)
    (hwork : work mode steps jobs forest rebuilt = .ok (after, table)) :
    after = forest ∧ IsDiagonal table := by
  induction steps generalizing jobs rebuilt with
  | zero =>
    cases jobs with
    | nil =>
      cases hwork
      exact ⟨rfl, hdiagonal⟩
    | cons job jobs => cases hwork
  | succ steps ih =>
    cases jobs with
    | nil =>
      cases hwork
      exact ⟨rfl, hdiagonal⟩
    | cons job jobs =>
      rw [List.forall_mem_cons] at hjobs
      obtain ⟨hnode, hlater⟩ := hjobs
      cases job with
      | visit id =>
        rw [work] at hwork
        refine ih ?_ hdiagonal hwork
        intro job hjob
        rcases List.mem_append.mp hjob with hchild | hafter
        · obtain ⟨child, hmem, rfl⟩ := List.mem_map.mp hchild
          exact hclosed id hnode child (List.mem_reverse.mp hmem)
        · rcases List.mem_cons.mp hafter with rfl | hin
          · exact hnode
          · exact hlater job hin
      | finish id =>
        rw [work] at hwork
        split at hwork
        · cases hwork
        · next children rest htake =>
          obtain ⟨rfl, hrestTable⟩ := hdiagonal.takeAll htake
          rw [(hrest id hnode).rebuildNode_eq_self] at hwork
          exact ih hlater (hrestTable.set (by simp)) hwork

/-- A tree of linked nodes without only children is its own normal form, node by node and link by
link. -/
theorem Hangs.rebuild_eq_self {parent : Option NodeId} {ids : Tree NodeId}
    (h : forest.Hangs parent ids) (hnodup : ids.values.Nodup)
    (hlength : ∀ part ∈ ids.preorder, part.children.length ≠ 1) (mode : Mode) :
    rebuild mode forest ids.value = .ok (forest, ids.value) := by
  have hrest : ∀ id ∈ ids.values, forest.IsAtRest id := by
    intro id hid
    obtain ⟨part, hpart, rfl⟩ := List.mem_map.mp hid
    refine ⟨?_, ?_⟩ <;> rw [h.children_eq hpart]
    · rw [List.length_map]
      exact hlength part hpart
    · intro child hchild
      obtain ⟨below, hbelow, rfl⟩ := List.mem_map.mp hchild
      exact h.parent_eq hpart hbelow
  have hclosed : ∀ id ∈ ids.values, ∀ child ∈ (forest.node id).children, child ∈ ids.values := by
    intro id hid child hchild
    obtain ⟨part, hpart, rfl⟩ := List.mem_map.mp hid
    rw [h.children_eq hpart] at hchild
    obtain ⟨below, hbelow, rfl⟩ := List.mem_map.mp hchild
    exact Tree.mem_values_of_mem_preorder (Tree.mem_preorder_trans hpart
      (Tree.mem_preorder_of_mem_children hbelow below.self_mem_preorder))
  have hempty : IsDiagonal (Array.replicate forest.size none) := by
    intro id result hresult
    have hlt := lt_size_of_lookup hresult
    simp [lookup, Array.getD_eq_getD_getElem?, Array.size_replicate ▸ hlt] at hresult
  -- the loop does end, and what it ends with is what it began with
  obtain ⟨after, result, hrebuild, -⟩ := rebuild_eq mode h.spans hnodup
  rw [hrebuild]
  rw [rebuild] at hrebuild
  split at hrebuild
  · cases hrebuild
  · next final table hwork =>
    obtain ⟨rfl, htable⟩ :=
      work_eq_self hrest hclosed (by simp [Job.node, ids.value_mem_values]) hempty hwork
    split at hrebuild
    · cases hrebuild
    · next found _ htake =>
      rw [(htable.take htake).1] at hrebuild
      exact hrebuild.symm

/-! ## Several passes -/

/-- A pass succeeds on every tree, and what it leaves is not changed by another. -/
theorem IsTree.exists_rebuild_settled (h : forest.IsTree root) (mode : Mode) :
    ∃ after result, rebuild mode forest root = .ok (after, result) ∧
      ∀ again, rebuild again after result = .ok (after, result) := by
  obtain ⟨ids, rfl, hspans, hnodup⟩ := h
  obtain ⟨after, result, hrebuild, hhangs, hresult, hentries⟩ :=
    exists_rebuild_hangs mode hspans hnodup
  refine ⟨after, result.value, hrebuild, hhangs.rebuild_eq_self hresult ?_⟩
  intro part hpart
  have hnormal : after.entries part ∈ ((forest.entries ids).normalize mode).preorder := by
    rw [← hentries, entries, Tree.preorder_map]
    exact List.mem_map_of_mem hpart
  have hlength := Tree.length_children_of_mem_normalize hnormal
  rwa [entries, Tree.children_map, List.length_map] at hlength

theorem rebuildAll_eq_self (h : ∀ mode, rebuild mode forest root = .ok (forest, root))
    (modes : List Mode) : rebuildAll forest root modes = .ok (forest, root) := by
  induction modes with
  | nil => rfl
  | cons mode modes ih =>
    rw [rebuildAll, h mode]
    exact ih

theorem IsTree.rebuildAll_cons (h : forest.IsTree root) (mode : Mode) (modes : List Mode) :
    rebuildAll forest root (mode :: modes) = rebuild mode forest root := by
  obtain ⟨after, result, hrebuild, hsettled⟩ := h.exists_rebuild_settled mode
  rw [rebuildAll, hrebuild]
  exact rebuildAll_eq_self hsettled modes

/-- A second pass leaves the very nodes and links that the first one has left, whichever ways they
remove chains. In a list of passes, some of which ask for nothing, the first that asks for anything
decides the result. -/
theorem rebuildAll_first_pass_decides (h : forest.IsTree root) :
    (∀ first second, ∃ after result, rebuild first forest root = .ok (after, result) ∧
      rebuild second after result = .ok (after, result)) ∧
    ∀ modes : List (Option Mode), rebuildAll forest root modes.reduceOption =
      match modes.reduceOption with
      | [] => .ok (forest, root)
      | first :: _ => rebuild first forest root := by
  refine ⟨?_, ?_⟩
  · intro first second
    obtain ⟨after, result, hrebuild, hsettled⟩ := h.exists_rebuild_settled first
    exact ⟨after, result, hrebuild, hsettled second⟩
  · intro modes
    cases modes.reduceOption with
    | nil => rfl
    | cons first others => exact h.rebuildAll_cons first others

/-- A chain that ends in a branch, whose second child is a chain that ends in a token. -/
def twoChains : SyntaxTree :=
  .node ⟨⟨"a"⟩, none, none⟩ [.node ⟨⟨"b"⟩, some "x", none⟩
    [.node ⟨⟨"c"⟩, some "y", none⟩ [],
      .node ⟨⟨"d"⟩, none, none⟩ [.node ⟨⟨"e"⟩, some "z", none⟩ []]]]

/-- Folding, cutting down and folding again, with wishes for nothing between them, give what folding
gives. -/
theorem rebuildAll_first_pass_decides_twoChains :
    let planted := empty.plant none twoChains
    planted.1.IsTree planted.2 ∧
      (∃ after result, rebuild .compress planted.1 planted.2 = .ok (after, result) ∧
        rebuild .simplify after result = .ok (after, result)) ∧
      rebuildAll planted.1 planted.2 [.compress, .simplify, .compress] =
        rebuild .compress planted.1 planted.2 := by
  intro planted
  have htree : planted.1.IsTree planted.2 := isTree_plant empty none twoChains
  obtain ⟨htwice, hmany⟩ := rebuildAll_first_pass_decides htree
  exact ⟨htree, htwice .compress .simplify,
    hmany [none, some .compress, some .simplify, none, some .compress]⟩

end Forest

end SyntaxMining
