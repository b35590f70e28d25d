import Mathlib.Data.List.Forall2
import SyntaxMining.Proofs.Forest.Atoms

/-!
# Questions asked of compressed copies

A part of a linked tree can be copied and the copy compressed. The root of the copy is then left of
the chain that starts at the root of the part. It answers by the first node of this chain when it is
asked how its label starts, and by the last node when it is asked what it was folded down to. Its
children are the compressed forms of the children of the last node, in order and with the same first
atoms, so a lookup by first atom finds the compressed forms of what it finds below the last node.
-/

namespace SyntaxMining.Forest

variable {forest : Forest} {root id : NodeId}

/-! ## Chains and copies -/

theorem subtree_plant (forest : Forest) (parent : Option NodeId) (tree : SyntaxTree) :
    Query.subtree (⟨(forest.plant parent tree).1, (forest.plant parent tree).2⟩ : Member) =
      tree := by
  obtain ⟨result, hvalue, hplants⟩ := plant_eq tree forest parent
  have hspans := (hplants.hangs result (by simp)).spans
  rw [hvalue, hspans.subtree_eq (by simpa using hplants.nodup)]
  simpa using hplants.entries

/-- The chain that starts at a node, and the tree below its last node. -/
theorem IsTree.exists_chain (h : forest.IsTree id) :
    ∃ chain last, forest.IsMaximalChain id chain ∧ chain.head? = some id ∧
      chain.getLast? = some last ∧ forest.IsTree last ∧
      (Query.subtree (⟨forest, id⟩ : Member)).chain =
        chain.map (fun id ↦ (forest.node id).entry) ∧
      (Query.subtree (⟨forest, id⟩ : Member)).chainEnd =
        Query.subtree (⟨forest, last⟩ : Member) := by
  obtain ⟨ids, rfl, hspans, hnodup⟩ := h
  have hend := hnodup.sublist (Tree.values_sublist_of_mem_preorder ids.chainEnd_mem_preorder)
  have hmaximal : forest.IsMaximalChain ids.value ids.chain := by
    apply ((hspans.isQuotient hnodup).mem_iff ids.chain).mp
    rw [← Tree.value_chains]
    exact Tree.value_mem_values _
  refine ⟨ids.chain, ids.chainEnd.value, hmaximal, ids.head?_chain, ids.getLast?_chain,
    ⟨ids.chainEnd, rfl, hspans.chainEnd, hend⟩, ?_, ?_⟩
  · rw [hspans.subtree_eq hnodup, entries, Tree.chain_map]
  · rw [hspans.subtree_eq hnodup, hspans.chainEnd.subtree_eq hend, entries, Tree.chainEnd_map]
    rfl

/-- Only one chain starts at a node. -/
theorem IsTree.chain_unique (h : forest.IsTree id) {chain other : List NodeId}
    (hchain : forest.IsMaximalChain id chain) (hhead : chain.head? = some id)
    (hother : forest.IsMaximalChain id other) (hotherHead : other.head? = some id) :
    chain = other := by
  obtain ⟨ids, rfl, hspans, -⟩ := h
  rw [hspans.eq_chain hhead hchain.links hchain.stops,
    hspans.eq_chain hotherHead hother.links hother.stops]

/-! ## Compressed copies -/

/-- What compression in place makes of a copy of the tree below a node. -/
def compressedCopy (member : Member) : Except RebuildError Member :=
  let planted := empty.plant none (Query.subtree member)
  match rebuild .compress planted.1 planted.2 with
  | .error e => .error e
  | .ok (forest, root) => .ok ⟨forest, root⟩

/-- The tree below a node is what compression makes of a copy of the tree below another. -/
def IsCompressedForm (raw member : Member) : Prop :=
  ∃ copy, compressedCopy raw = .ok copy ∧ Query.subtree member = Query.subtree copy

theorem exists_compressedCopy (raw : Member) :
    ∃ copy, compressedCopy raw = .ok copy ∧ copy.forest.IsTree copy.id ∧
      Query.subtree copy = (Query.subtree raw).compress := by
  obtain ⟨after, result, hrebuild, hrooted, hsubtree⟩ :=
    (isRooted_plant empty (Query.subtree raw)).exists_rebuild .compress
  rw [subtree_plant] at hsubtree
  refine ⟨⟨after, result⟩, ?_, hrooted.isTree, hsubtree⟩
  rw [compressedCopy]
  simp only [hrebuild]

theorem isCompressedForm_iff {raw member : Member} :
    IsCompressedForm raw member ↔ (Query.subtree raw).compress = Query.subtree member := by
  obtain ⟨copy, hcopy, -, hsubtree⟩ := exists_compressedCopy raw
  constructor
  · rintro ⟨other, hother, hmember⟩
    obtain rfl : copy = other := Except.ok.inj (hcopy.symm.trans hother)
    rw [hmember, hsubtree]
  · intro hmember
    exact ⟨copy, hcopy, by rw [hsubtree, hmember]⟩

/-- A compressed form starts as the node does. -/
theorem IsCompressedForm.firstIs_eq {raw member : Member} (h : IsCompressedForm raw member)
    (atom : String) : Query.firstIs member atom = Query.firstIs raw atom := by
  have hfirst := (Query.subtree raw).first_compress
  rw [isCompressedForm_iff.mp h, value_subtree, value_subtree] at hfirst
  exact congrArg (· == atom) hfirst

/-! ## What a compressed copy answers -/

/-- A node answers by the two ends of a chain: by the first node when it is asked how its label
starts, by the last one for what it was folded down to and for its children. -/
structure AnswersByEnds (first last member : Member) : Prop where
  firstIs_eq : ∀ atom, Query.firstIs member atom = Query.firstIs first atom
  firstIn_eq : ∀ atoms, Query.firstIn member atoms = Query.firstIn first atoms
  lastIs_eq : ∀ atom, Query.lastIs member atom = Query.lastIs last atom
  lastIn_eq : ∀ atoms, Query.lastIn member atoms = Query.lastIn last atoms
  childrenOfType : ∀ atom, List.Forall₂ IsCompressedForm (Query.childrenOfType last atom)
    (Query.childrenOfType member atom)
  childOfType? : ∀ atom, Option.Rel IsCompressedForm (Query.childOfType? last atom)
    (Query.childOfType? member atom)
  selfOrChildrenOfType : ∀ atom,
    if Query.lastIs last atom then Query.selfOrChildrenOfType member atom = [member]
    else List.Forall₂ IsCompressedForm (Query.childrenOfType last atom)
      (Query.selfOrChildrenOfType member atom)

theorem AnswersByEnds.of_children {first last member : Member}
    (hfirst : (Query.label member).first = (Query.label first).first)
    (hlast : (Query.label member).last = (Query.label last).last)
    (hchildren : List.Forall₂ IsCompressedForm (Query.children last) (Query.children member)) :
    AnswersByEnds first last member := by
  have hlastIs (atom : String) : Query.lastIs member atom = Query.lastIs last atom := by
    rw [Query.lastIs, Query.lastIs, hlast]
  have hfound (atom : String) : List.Forall₂ IsCompressedForm (Query.childrenOfType last atom)
      (Query.childrenOfType member atom) :=
    List.rel_filter (fun _ _ hform ↦ Eq.congr_left (hform.firstIs_eq atom).symm) hchildren
  refine ⟨?_, ?_, hlastIs, ?_, hfound, ?_, ?_⟩
  · intro atom
    rw [Query.firstIs, Query.firstIs, hfirst]
  · intro atoms
    rw [Query.firstIn, Query.firstIn, hfirst]
  · intro atoms
    rw [Query.lastIn, Query.lastIn, hlast]
  · intro atom
    -- the first child of a type is the first of all children of the type
    rw [Query.childOfType?, Query.childOfType?, ← List.head?_filter, ← List.head?_filter]
    exact rel_head? (hfound atom)
  · intro atom
    rw [Query.selfOrChildrenOfType, hlastIs]
    split
    · rfl
    · exact hfound atom

/-- However the label of a node is made up, the compressed copy of the tree below it has the atoms
of the chain that starts at the node, and answers every question by the two ends of this chain. -/
theorem compressedCopy_answers_by_ends (h : forest.IsTree root) (hid : id ∈ forest.preorder root) :
    ∃ chain last copy, forest.IsMaximalChain id chain ∧ chain.head? = some id ∧
      chain.getLast? = some last ∧ compressedCopy ⟨forest, id⟩ = .ok copy ∧
      (Query.label copy).atoms = (forest.labelsOf chain).flatMap Label.atoms ∧
      AnswersByEnds ⟨forest, id⟩ ⟨forest, last⟩ copy := by
  obtain ⟨chain, last, hmaximal, hhead, hlast, htree, hchain, hend⟩ :=
    (h.of_mem_preorder hid).exists_chain
  obtain ⟨copy, hcopy, hcopyTree, hsubtree⟩ := exists_compressedCopy ⟨forest, id⟩
  have hentry : Query.entry copy = .ofChain (chain.map fun id ↦ (forest.node id).entry) := by
    rw [← value_subtree, hsubtree, Tree.compress_eq, Tree.value_node, hchain]
  have hlabel : Query.label copy = .joined (forest.labelsOf chain) := by
    rw [Query.label, hentry, Entry.ofChain, List.map_map]
    rfl
  have hlabels : forest.labelsOf chain ≠ [] := by simpa [labelsOf] using hmaximal.ne_nil
  refine ⟨chain, last, copy, hmaximal, hhead, hlast, hcopy, ?_, .of_children ?_ ?_ ?_⟩
  · rw [hlabel, Label.atoms_joined hlabels]
  · rw [hlabel]
    exact Label.first_joined (by rw [labelsOf, List.head?_map, hhead]; rfl)
  · rw [hlabel]
    exact Label.last_joined (by rw [labelsOf, List.getLast?_map, hlast]; rfl)
  · have hforms : (Query.children (⟨forest, last⟩ : Member)).map
        (fun child ↦ (Query.subtree child).compress) =
          (Query.children copy).map Query.subtree := by
      rw [hcopyTree.map_subtree_children, hsubtree, Tree.children_compress, hend,
        ← htree.map_subtree_children, List.map_map]
      rfl
    exact (forall₂_iff_map_eq.mpr hforms).imp fun _ _ ↦ isCompressedForm_iff.mpr

/-- A parameter list that is folded down to its only parameter, below a method. -/
def soleParameter : SyntaxTree :=
  .node ⟨⟨"method"⟩, none, none⟩ [.node ⟨⟨"NAME"⟩, some "f", none⟩ [],
    .node ⟨⟨"list|"⟩, none, none⟩ [.node ⟨⟨"parameter"⟩, none, none⟩
      [.node ⟨⟨"type"⟩, none, none⟩ [.node ⟨⟨"INT"⟩, some "int", none⟩ []],
        .node ⟨⟨"NAME"⟩, some "x", none⟩ []]]]

/-- The list is the third node of the tree and its parameter the fourth. -/
theorem compressedCopy_answers_by_ends_soleParameter :
    let planted := empty.plant none soleParameter
    planted.1.IsTree planted.2 ∧ 2 ∈ planted.1.preorder planted.2 ∧
      ∃ copy, compressedCopy ⟨planted.1, 2⟩ = .ok copy ∧
        (Query.label copy).atoms = ["list", "", "parameter"] ∧
        AnswersByEnds ⟨planted.1, 2⟩ ⟨planted.1, 3⟩ copy := by
  intro planted
  have htree : planted.1.IsTree planted.2 := isTree_plant empty none soleParameter
  have hlist : 2 ∈ planted.1.preorder planted.2 := by decide +kernel
  refine ⟨htree, hlist, ?_⟩
  obtain ⟨chain, last, copy, hmaximal, hhead, hlast, hcopy, hatoms, hanswers⟩ :=
    compressedCopy_answers_by_ends htree hlist
  have hfolded : planted.1.IsMaximalChain 2 [2, 3] := by
    refine ⟨⟨2, rfl, Or.inl rfl⟩, ?_, ⟨3, rfl, by decide +kernel⟩⟩
    exact List.isChain_cons_cons.mpr ⟨by decide +kernel, .singleton 3⟩
  obtain rfl := (htree.of_mem_preorder hlist).chain_unique hmaximal hhead hfolded rfl
  obtain rfl : 3 = last := by simpa using hlast
  exact ⟨copy, hcopy, hatoms.trans (by decide +kernel), hanswers⟩

end SyntaxMining.Forest
