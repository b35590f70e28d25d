import SyntaxMining.Proofs.Concrete.LeafText
import SyntaxMining.Proofs.Tree.Origin

/-!
# Spans of concrete trees

A parser hands over nodes that end no earlier than they start and that lie within their parents. A
span names the last character of a node instead of the first one behind it, so that a node of no
width, and one that ends where a line starts, cannot be taken over as they are. Nevertheless spans
never run backwards, and whichever way chains are removed, the span of a node lies within the spans
of all nodes above it, unless the node has no width.
-/

namespace SyntaxMining

/-! ## Order of points and positions -/

/-- Points are read row by row. -/
instance : LE Point where
  le first second := first.row < second.row ∨ first.row = second.row ∧ first.column ≤ second.column

/-- Positions are read line by line. -/
instance : LE Position where
  le first second :=
    first.line < second.line ∨ first.line = second.line ∧ first.column ≤ second.column

theorem Point.le_iff {first second : Point} :
    first ≤ second ↔
      first.row < second.row ∨ first.row = second.row ∧ first.column ≤ second.column :=
  Iff.rfl

theorem Position.le_iff {first second : Position} :
    first ≤ second ↔
      first.line < second.line ∨ first.line = second.line ∧ first.column ≤ second.column :=
  Iff.rfl

theorem Point.eq_iff {first second : Point} :
    first = second ↔ first.row = second.row ∧ first.column = second.column := by
  cases first
  cases second
  simp

instance : DecidableLE Point := fun _ _ ↦ decidable_of_iff _ Point.le_iff.symm

instance : DecidableLE Position := fun _ _ ↦ decidable_of_iff _ Position.le_iff.symm

/-- A span starts no later and ends no earlier than another one. -/
def Span.Encloses (outer inner : Span) : Prop :=
  outer.start ≤ inner.start ∧ inner.stop ≤ outer.stop

namespace Segment

variable {segment outer inner middle : Segment}

/-- A node that starts no later and stops no earlier than another one. -/
def Covers (outer inner : Segment) : Prop :=
  outer.start ≤ inner.start ∧ inner.stop ≤ outer.stop

instance : Decidable (outer.Covers inner) :=
  inferInstanceAs (Decidable (outer.start ≤ inner.start ∧ inner.stop ≤ outer.stop))

theorem Covers.refl (segment : Segment) : segment.Covers segment :=
  ⟨.inr ⟨rfl, Nat.le_refl _⟩, .inr ⟨rfl, Nat.le_refl _⟩⟩

theorem Covers.trans (h : outer.Covers middle) (h' : middle.Covers inner) : outer.Covers inner := by
  simp only [Covers, Point.le_iff] at h h' ⊢
  omega

theorem span_of_empty (h : segment.start = segment.stop) :
    segment.span = ⟨⟨segment.start.row + 1, segment.start.column⟩,
      ⟨segment.start.row + 1, segment.start.column⟩⟩ := by
  rw [span, if_pos h.symm]

theorem span_of_wide (h : segment.start ≠ segment.stop) :
    segment.span = ⟨⟨segment.start.row + 1, segment.start.column⟩,
      ⟨segment.stop.row + 1, max ((segment.stop.column : Int) - 1) 0⟩⟩ := by
  rw [span, if_neg (Ne.symm h)]

/-- The span of a node does not run backwards. -/
theorem start_span_le_stop_span (h : segment.start ≤ segment.stop) :
    segment.span.start ≤ segment.span.stop := by
  by_cases hwide : segment.start = segment.stop
  · rw [span_of_empty hwide]
    exact .inr ⟨rfl, Int.le_refl _⟩
  · rw [span_of_wide hwide, Position.le_iff]
    rw [Point.le_iff] at h
    rw [Point.eq_iff] at hwide
    dsimp only
    omega

/-- Nodes of some width are enclosed, since both ends move back alike. -/
theorem Covers.encloses (h : outer.Covers inner) (horder : inner.start ≤ inner.stop)
    (hwide : inner.start ≠ inner.stop) : outer.span.Encloses inner.span := by
  obtain ⟨hstart, hstop⟩ := h
  rw [Point.le_iff] at hstart hstop horder
  -- an outer node of no width would have no room for the inner one
  have houter : outer.start ≠ outer.stop := by
    rw [Ne, Point.eq_iff] at hwide ⊢
    omega
  rw [Span.Encloses, span_of_wide hwide, span_of_wide houter, Position.le_iff, Position.le_iff]
  dsimp only
  omega

end Segment

namespace ConcreteTree

/-! ## Nested nodes -/

/-- What a parser promises: no node stops before it starts, and children lie within their parent. -/
structure IsNested (tree : ConcreteTree) : Prop where
  ordered : ∀ segment ∈ tree.values, segment.start ≤ segment.stop
  within : ∀ part ∈ tree.preorder, ∀ child ∈ part.children, part.value.Covers child.value

theorem IsNested.covers {tree part inner : ConcreteTree} (h : tree.IsNested)
    (hpart : part ∈ tree.preorder) (hinner : inner ∈ part.preorder) :
    part.value.Covers inner.value := by
  apply Tree.rel_of_mem_preorder Segment.Covers.refl Segment.Covers.trans _ hinner
  intro middle hmiddle
  exact h.within middle (Tree.mem_preorder_trans hpart hmiddle)

theorem focus_value_shownBelow (above : List ConcreteTree) (tree : ConcreteTree) :
    (shownBelow above tree).value.focus = tree := by
  cases tree with
  | node segment children => rw [shownBelow, Tree.value_node]

/-- Every part of a shown tree is what is shown of some part. -/
theorem exists_eq_shownBelow {above : List ConcreteTree} {tree : ConcreteTree}
    {part : Tree (Cursor Segment)} (h : part ∈ (shownBelow above tree).preorder) :
    ∃ outer, ∃ below ∈ tree.preorder, part = shownBelow outer below := by
  induction tree using Tree.inductionOnChildren generalizing above with
  | node segment children ih =>
    rw [← Tree.node_value_children (shownBelow _ _), Tree.preorder_node,
      Tree.node_value_children] at h
    rcases List.mem_cons.mp h with rfl | hbelow
    · exact ⟨above, _, Tree.self_mem_preorder _, rfl⟩
    · by_cases hcut : segment.isCut
      · simp [shownBelow_of_isCut above children hcut] at hbelow
      · rw [shownBelow_of_not_isCut above children hcut, Tree.children_node,
          List.flatMap_map] at hbelow
        obtain ⟨child, hchild, hin⟩ := List.mem_flatMap.mp hbelow
        obtain ⟨outer, below, hpart, rfl⟩ := ih child hchild hin
        exact ⟨outer, below, Tree.mem_preorder_of_mem_children hchild hpart, rfl⟩

/-- A shown node covers all nodes that are shown below it. -/
theorem IsNested.covers_shown {tree : ConcreteTree} (h : tree.IsNested)
    {part inner : Tree (Cursor Segment)} (hpart : part ∈ (shown tree).preorder)
    (hinner : inner ∈ part.preorder) :
    part.value.focus.value.Covers inner.value.focus.value := by
  obtain ⟨outer, below, hbelow, rfl⟩ := exists_eq_shownBelow hpart
  obtain ⟨_, deeper, hdeeper, rfl⟩ := exists_eq_shownBelow hinner
  rw [focus_value_shownBelow, focus_value_shownBelow]
  exact h.covers hbelow hdeeper

theorem IsNested.ordered_shown {tree : ConcreteTree} (h : tree.IsNested)
    {part : Tree (Cursor Segment)} (hpart : part ∈ (shown tree).preorder) :
    part.value.focus.value.start ≤ part.value.focus.value.stop := by
  obtain ⟨outer, below, hbelow, rfl⟩ := exists_eq_shownBelow hpart
  rw [focus_value_shownBelow]
  exact h.ordered _ (Tree.mem_values_of_mem_preorder hbelow)

/-! ## Spans after removing chains -/

/-- The nodes left of a concrete tree, each with the concrete node that gave it its span. -/
def traced (source : List UInt8) (mode : Mode) (tree : ConcreteTree) : Tree (Segment × Entry) :=
  (shown tree).chains.map fun chain ↦
    (((mode.origin? chain).getD (shown tree).value).focus.value,
      mode.merge (chain.map (entryAt source)))

variable {source : List UInt8} {mode : Mode} {tree : ConcreteTree}

theorem map_snd_traced : (traced source mode tree).map Prod.snd =
    (toSyntax source tree).normalize mode := by
  rw [normalize_toSyntax, traced, Tree.map_map]
  rfl

theorem map_fst_traced : (traced source mode tree).map (fun pair ↦ some pair.1) =
    (shown tree).chains.map fun chain ↦
      (mode.origin? chain).map fun place ↦ place.focus.value := by
  rw [traced, Tree.map_map]
  apply Tree.map_congr_left
  intro chain hchain
  obtain ⟨part, hpart, rfl⟩ := List.mem_map.mp hchain
  obtain ⟨start, -, rfl⟩ := Tree.exists_eq_chains hpart
  simp [mode.origin?_chain]

/-- A traced node has the span of the concrete node that it is traced to. -/
theorem span_of_mem_traced {pair : Segment × Entry} (h : pair ∈ (traced source mode tree).values) :
    pair.2.span = some pair.1.span := by
  rw [traced, Tree.values_map] at h
  obtain ⟨chain, hchain, rfl⟩ := List.mem_map.mp h
  obtain ⟨part, hpart, rfl⟩ := List.mem_map.mp hchain
  obtain ⟨start, -, rfl⟩ := Tree.exists_eq_chains hpart
  have horigin := mode.origin?_chain start
  have hentry : mode.origin? (start.chain.map (entryAt source)) =
      some (entryAt source (mode.originPart start).value) := by
    rw [mode.origin?_map, horigin, Option.map_some]
  rw [Tree.value_chains, horigin, mode.span_merge hentry, Option.getD_some, entryAt]

/-- A traced node and one below it come from a shown node and one that is shown below it. -/
theorem exists_origins {outer inner : Tree (Segment × Entry)}
    (houter : outer ∈ (traced source mode tree).preorder) (hinner : inner ∈ outer.preorder) :
    ∃ part ∈ (shown tree).preorder, ∃ below ∈ part.preorder,
      outer.value.1 = part.value.focus.value ∧ inner.value.1 = below.value.focus.value := by
  rw [traced, Tree.preorder_map] at houter
  obtain ⟨chains, hchains, rfl⟩ := List.mem_map.mp houter
  rw [Tree.preorder_map] at hinner
  obtain ⟨chainsBelow, hbelow, rfl⟩ := List.mem_map.mp hinner
  obtain ⟨start, hstart, rfl⟩ := Tree.exists_eq_chains hchains
  obtain ⟨deeper, -, rfl, hdeeper⟩ := Tree.exists_origin_of_mem_chains mode hbelow
  refine ⟨mode.originPart start,
    Tree.mem_preorder_trans hstart (mode.originPart_mem_preorder start),
    mode.originPart deeper, hdeeper, ?_, ?_⟩
  · simp [mode.origin?_chain]
  · simp [mode.origin?_chain]

/-- Whichever way chains are removed from the linked nodes of a concrete tree, every node has a span
that does not run backwards, of a single character where the span comes from a node of no width, and
the spans of all nodes above enclose it where it does not. -/
theorem rebuild_link_nests_spans (h : tree.IsNested) (source : List UInt8) (mode : Mode) :
    ∃ forest root after result, link source tree = .ok (forest, root) ∧
      Forest.rebuild mode forest root = .ok (after, result) ∧
      (traced source mode tree).map Prod.snd = Query.subtree (⟨after, result⟩ : Forest.Member) ∧
      (traced source mode tree).map (fun pair ↦ some pair.1) =
        ((shown tree).chains.map fun chain ↦
          (mode.origin? chain).map fun place ↦ place.focus.value) ∧
      (∀ pair ∈ (traced source mode tree).values,
        pair.2.span = some pair.1.span ∧ pair.1.span.start ≤ pair.1.span.stop ∧
        (pair.1.start = pair.1.stop → pair.1.span.start = pair.1.span.stop)) ∧
      ∀ outer ∈ (traced source mode tree).preorder, ∀ inner ∈ outer.preorder,
        inner.value.1.start ≠ inner.value.1.stop →
        outer.value.1.span.Encloses inner.value.1.span := by
  obtain ⟨forest, root, after, result, hlink, hrebuild, hsubtree⟩ :=
    exists_link_rebuild source tree mode
  refine ⟨forest, root, after, result, hlink, hrebuild, map_snd_traced.trans hsubtree.symm,
    map_fst_traced, ?_, ?_⟩
  · intro pair hpair
    refine ⟨span_of_mem_traced hpair, ?_, ?_⟩
    · obtain ⟨part, hpart, rfl⟩ := List.mem_map.mp hpair
      obtain ⟨shownPart, hshown, -, -, horigin, -⟩ := exists_origins hpart part.self_mem_preorder
      rw [horigin]
      exact Segment.start_span_le_stop_span (h.ordered_shown hshown)
    · intro hempty
      rw [Segment.span_of_empty hempty]
  · intro outer houter inner hinner hwide
    obtain ⟨part, hpart, below, hbelow, houterEq, hinnerEq⟩ := exists_origins houter hinner
    rw [hinnerEq] at hwide
    rw [houterEq, hinnerEq]
    have horder := h.ordered_shown (Tree.mem_preorder_trans hpart hbelow)
    exact (h.covers_shown hpart hbelow).encloses horder hwide

/-- A statement of a single name, whose end the parser had to invent, in a file that ends with a
line break. -/
def brokenStatement : ConcreteTree :=
  .node ⟨"program", 0, 2, ⟨0, 0⟩, ⟨1, 0⟩, false⟩
    [.node ⟨"statement", 0, 1, ⟨0, 0⟩, ⟨0, 1⟩, false⟩
      [.node ⟨"expression", 0, 1, ⟨0, 0⟩, ⟨0, 1⟩, false⟩
        [.node ⟨"identifier", 0, 1, ⟨0, 0⟩, ⟨0, 1⟩, false⟩ []],
      .node ⟨";", 1, 1, ⟨0, 1⟩, ⟨0, 1⟩, true⟩ []]]

/-- The invented token has no width. Where chains are cut down, its span lies behind the span of the
node above. -/
theorem rebuild_link_nests_spans_brokenStatement :
    brokenStatement.IsNested ∧
      ∀ mode, ∃ forest root after result,
        link [120, 10] brokenStatement = .ok (forest, root) ∧
        Forest.rebuild mode forest root = .ok (after, result) ∧
        ∀ outer ∈ (traced [120, 10] mode brokenStatement).preorder, ∀ inner ∈ outer.preorder,
          inner.value.1.start ≠ inner.value.1.stop →
          outer.value.1.span.Encloses inner.value.1.span := by
  have hnested : brokenStatement.IsNested := ⟨by decide, by decide⟩
  refine ⟨hnested, ?_⟩
  intro mode
  obtain ⟨forest, root, after, result, hlink, hrebuild, -, -, -, hnests⟩ :=
    rebuild_link_nests_spans hnested [120, 10] mode
  exact ⟨forest, root, after, result, hlink, hrebuild, hnests⟩

end ConcreteTree

end SyntaxMining
