import SyntaxMining.Proofs.Forest.Consistency
import SyntaxMining.Proofs.Parse.Conversion
import SyntaxMining.Proofs.Tree.Hull

/-!
# Spans of parse trees

A parser gives each rule node the first and the last token below it. The spans of rule nodes and of
tokens are computed apart from each other, and yet every node of the converted tree spans its
tokens, with empty rules and error nodes anywhere among them. Removing chains keeps this.
-/

namespace SyntaxMining

/-- A token with a text and with all parts of its place. -/
structure Lexeme.IsPlaced (lexeme : Lexeme) : Prop where
  text : lexeme.text.isSome
  line : lexeme.line.isSome
  column : lexeme.column.isSome
  first : lexeme.first.isSome
  last : lexeme.last.isSome

namespace ParseTree

variable {names : ParseNames} {tree : ParseTree} {converted : SyntaxTree}
  {lexeme start stop : Lexeme}

/-! ## Tokens of a parse tree -/

/-- Token of a terminal or error node. -/
def lexeme? : ParseTree → Option Lexeme
  | rule _ _ _ _ => none
  | terminal lexeme => lexeme
  | error lexeme => lexeme

/-- Tokens of the terminal and error nodes at or below a node, in order. -/
def lexemes (tree : ParseTree) : List Lexeme :=
  tree.nodes.values.filterMap lexeme?

theorem lexemes_rule (index : Int) (start stop : Option Lexeme) (children : List ParseTree) :
    (rule index start stop children).lexemes = children.flatMap lexemes := by
  rw [lexemes, nodes_rule, Tree.values_node, List.filterMap_cons_none rfl, List.flatMap_map,
    List.filterMap_flatMap]
  rfl

theorem lexemes_terminal (lexeme : Lexeme) : (terminal (some lexeme)).lexemes = [lexeme] :=
  rfl

theorem lexemes_error (lexeme : Lexeme) : (error (some lexeme)).lexemes = [lexeme] :=
  rfl

/-- What a parser promises: tokens are placed, and a rule starts and stops at its first and last
token. -/
inductive IsBounded : ParseTree → Prop where
  | rule {index : Int} {start stop : Option Lexeme} {children : List ParseTree}
      (starts : start = (children.flatMap lexemes).head?)
      (stops : stop = (children.flatMap lexemes).getLast?)
      (below : ∀ child ∈ children, IsBounded child) : IsBounded (.rule index start stop children)
  | terminal {lexeme : Lexeme} (placed : lexeme.IsPlaced) : IsBounded (.terminal (some lexeme))
  | error {lexeme : Lexeme} (placed : lexeme.IsPlaced) : IsBounded (.error (some lexeme))

theorem IsBounded.isPlaced (h : tree.IsBounded) : ∀ lexeme ∈ tree.lexemes, lexeme.IsPlaced := by
  induction h with
  | rule _ _ _ ih =>
    intro lexeme hlexeme
    rw [lexemes_rule] at hlexeme
    obtain ⟨child, hchild, hin⟩ := List.mem_flatMap.mp hlexeme
    exact ih child hchild lexeme hin
  | terminal placed => simpa [lexemes_terminal] using placed
  | error placed => simpa [lexemes_error] using placed

/-- The span between two placed tokens runs from the start of the one to the end of the other. -/
theorem exists_spanOf (hstart : start.IsPlaced) (hstop : stop.IsPlaced) :
    ∃ first last : Span, spanOf start start = .ok (some first) ∧
      spanOf stop stop = .ok (some last) ∧
      spanOf start stop = .ok (some ⟨first.start, last.stop⟩) := by
  obtain ⟨startLine, hstartLine⟩ := Option.isSome_iff_exists.mp hstart.line
  obtain ⟨startColumn, hstartColumn⟩ := Option.isSome_iff_exists.mp hstart.column
  obtain ⟨startFirst, hstartFirst⟩ := Option.isSome_iff_exists.mp hstart.first
  obtain ⟨startLast, hstartLast⟩ := Option.isSome_iff_exists.mp hstart.last
  obtain ⟨stopLine, hstopLine⟩ := Option.isSome_iff_exists.mp hstop.line
  obtain ⟨stopColumn, hstopColumn⟩ := Option.isSome_iff_exists.mp hstop.column
  obtain ⟨stopFirst, hstopFirst⟩ := Option.isSome_iff_exists.mp hstop.first
  obtain ⟨stopLast, hstopLast⟩ := Option.isSome_iff_exists.mp hstop.last
  simp [spanOf, lastColumn, *]

/-! ## Spans of converted nodes -/

/-- A leaf that has the span of a token. -/
def Carries (lexeme : Lexeme) (leaf : Entry) : Prop :=
  spanOf lexeme lexeme = .ok leaf.span

theorem tokenLeaves_of_rule {entry : Entry} (h : entry.token = none) (children : List SyntaxTree) :
    (Tree.node entry children).tokenLeaves = children.flatMap Tree.tokenLeaves := by
  by_cases hne : children = []
  · rw [hne, Tree.tokenLeaves_leaf_of_none h, List.flatMap_nil]
  · exact Tree.tokenLeaves_node_of_ne_nil entry hne

/-- The leaves with tokens are, in order, those of the terminal and error nodes. -/
theorem Depicts.carries (h : Depicts names tree converted) (hbounded : tree.IsBounded) :
    List.Forall₂ Carries tree.lexemes converted.tokenLeaves := by
  induction hbounded generalizing converted with
  | @rule index start stop children starts stops below ih =>
    cases h with
    | rule named spanned subtrees =>
      rw [lexemes_rule, tokenLeaves_of_rule rfl]
      have hpairs := (List.forall₂_and_left _ _).mpr ⟨fun _ hchild ↦ hchild, subtrees⟩
      exact List.rel_flatMap hpairs fun child subtree hpair ↦ ih child hpair.1 hpair.2
  | terminal placed =>
    cases h with
    | terminal kind_eq labelled spanned =>
      rw [lexemes_terminal, Tree.tokenLeaves_leaf_of_some placed.text]
      exact .cons (spanOf_eq_ok_iff.mpr spanned) .nil
  | error placed =>
    cases h with
    | error spanned =>
      rw [lexemes_error, Tree.tokenLeaves_leaf_of_some placed.text]
      exact .cons (spanOf_eq_ok_iff.mpr spanned) .nil

/-- A span from the first to the last token is the hull of leaves that carry the tokens. -/
theorem isHull_of_ruleSpan {lexemes : List Lexeme} {leaves : List Entry} {span : Option Span}
    (hplaced : ∀ lexeme ∈ lexemes, lexeme.IsPlaced) (hcarries : List.Forall₂ Carries lexemes leaves)
    (hspan : ruleSpan lexemes.head? lexemes.getLast? = .ok span) : IsHull leaves span := by
  cases hhead : lexemes.head? with
  | none =>
    obtain rfl := List.head?_eq_none_iff.mp hhead
    obtain rfl : leaves = [] := List.forall₂_nil_left_iff.mp hcarries
    obtain rfl : none = span := by simpa [ruleSpan] using hspan
    exact .empty
  | some start =>
    obtain ⟨stop, hlast⟩ : ∃ stop, lexemes.getLast? = some stop := by
      rw [← Option.isSome_iff_exists, List.getLast?_isSome]
      exact List.ne_nil_of_mem (List.mem_of_head? hhead)
    obtain ⟨leaf, hleaf, hstart⟩ := exists_of_rel_some (hhead ▸ rel_head? hcarries)
    obtain ⟨final, hfinal, hstop⟩ := exists_of_rel_some (hlast ▸ rel_getLast? hcarries)
    rw [hhead, hlast] at hspan
    have hstartPlaced := hplaced start (List.mem_of_head? hhead)
    have hstopPlaced := hplaced stop (List.mem_of_getLast? hlast)
    obtain ⟨first, last, hfirst, hlast, hboth⟩ := exists_spanOf hstartPlaced hstopPlaced
    obtain rfl : some _ = span := Except.ok.inj (hboth.symm.trans hspan)
    exact .spanned hleaf hfinal (Except.ok.inj (hstart.symm.trans hfirst))
      (Except.ok.inj (hstop.symm.trans hlast))

/-- A token is its own first and last token. -/
theorem isHull_of_spanOf {entry : Entry} (hplaced : lexeme.IsPlaced)
    (hspan : spanOf lexeme lexeme = .ok entry.span) : IsHull [entry] entry.span :=
  have hplaced : ∀ other ∈ [lexeme], other.IsPlaced := by simpa using hplaced
  isHull_of_ruleSpan hplaced (.cons hspan .nil) hspan

/-- Every node of a converted tree spans its tokens. -/
theorem Depicts.spansTokens (h : Depicts names tree converted) (hbounded : tree.IsBounded) :
    converted.SpansTokens := by
  induction hbounded generalizing converted with
  | @rule index start stop children starts stops below ih =>
    have hrule : (ParseTree.rule index start stop children).IsBounded := .rule starts stops below
    have hcarries := h.carries hrule
    have hplaced := hrule.isPlaced
    cases h with
    | @rule _ _ _ _ name span subtrees named spanned related =>
      rw [lexemes_rule] at hcarries hplaced
      rw [starts, stops, ← ruleSpan_eq_ok_iff] at spanned
      rw [Tree.spansTokens_node]
      refine ⟨isHull_of_ruleSpan hplaced hcarries spanned, ?_⟩
      intro subtree hsubtree
      obtain ⟨child, hchild, hdepicts⟩ := exists_partner_of_mem related hsubtree
      exact ih child hchild hdepicts
  | terminal placed =>
    cases h with
    | terminal kind_eq labelled spanned =>
      refine Tree.spansTokens_node.mpr ⟨?_, by simp⟩
      rw [Tree.tokenLeaves_leaf_of_some placed.text]
      exact isHull_of_spanOf placed (spanOf_eq_ok_iff.mpr spanned)
  | error placed =>
    cases h with
    | error spanned =>
      refine Tree.spansTokens_node.mpr ⟨?_, by simp⟩
      rw [Tree.tokenLeaves_leaf_of_some placed.text]
      exact isHull_of_spanOf placed (spanOf_eq_ok_iff.mpr spanned)

/-! ## Linked nodes -/

theorem IsBounded.of_mem_nodes (h : tree.IsBounded) :
    ∀ node ∈ tree.nodes.values, node.IsBounded := by
  induction h with
  | @rule index start stop children starts stops below ih =>
    intro node hnode
    rw [nodes_rule, Tree.values_node, List.flatMap_map] at hnode
    rcases List.mem_cons.mp hnode with rfl | hbelow
    · exact .rule starts stops below
    · obtain ⟨child, hchild, hin⟩ := List.mem_flatMap.mp hbelow
      exact ih child hchild node hin
  | terminal placed =>
    intro node hnode
    obtain rfl := List.mem_singleton.mp hnode
    exact .terminal placed
  | error placed =>
    intro node hnode
    obtain rfl := List.mem_singleton.mp hnode
    exact .error placed

/-- The tables name a node: its rule index lies inside, or its token has a kind. -/
def IsNamed (names : ParseNames) : ParseTree → Prop
  | rule index _ _ _ => -names.rules.length ≤ index ∧ index < names.rules.length
  | terminal lexeme => (lexeme.bind Lexeme.kind).isSome
  | error _ => True

theorem not_spanFault (hstart : start.IsPlaced) (hstop : stop.IsPlaced) (fault : ParseFault) :
    ¬SpanFault start stop fault := by
  intro h
  obtain ⟨_, _, -, -, hspan⟩ := exists_spanOf hstart hstop
  rw [spanOf_eq_error_iff.mpr h] at hspan
  simp at hspan

/-- Of the nodes of a bounded tree, those that the tables do not name cannot be converted. -/
theorem IsBounded.exists_hasFault_iff (h : tree.IsBounded) :
    (∃ fault, HasFault names tree fault) ↔ ¬tree.IsNamed names := by
  constructor
  · rintro ⟨fault, hfault⟩
    cases hfault with
    | ruleIndex outside =>
      simp only [IsNamed]
      omega
    | ruleSpan inside span =>
      have hplaced := h.isPlaced
      rw [lexemes_rule] at hplaced
      cases h with
      | rule starts stops below =>
        have hstart := hplaced _ (List.mem_of_head? starts.symm)
        have hstop := hplaced _ (List.mem_of_getLast? stops.symm)
        exact absurd span (not_spanFault hstart hstop fault)
    | terminalLexeme => simp [IsNamed]
    | terminalKind missing => simp [IsNamed, missing]
    | terminalSpan kind span =>
      cases h with
      | terminal placed => exact absurd span (not_spanFault placed placed fault)
    | errorLexeme => cases h
    | errorSpan span =>
      cases h with
      | error placed => exact absurd span (not_spanFault placed placed fault)
  · intro hnamed
    cases h with
    | @rule index =>
      refine ⟨.ruleIndex, .ruleIndex ?_⟩
      simp only [IsNamed] at hnamed
      omega
    | @terminal lexeme placed =>
      refine ⟨.kindMissing, .terminalKind ?_⟩
      simpa [IsNamed] using hnamed
    | error placed => exact absurd trivial hnamed

/-- Linking a bounded tree succeeds exactly when the tables name all its nodes. -/
theorem IsBounded.exists_link_iff (h : tree.IsBounded) :
    (∃ forest root, link? names tree = .ok (forest, root)) ↔
      ∀ node ∈ tree.nodes.values, node.IsNamed names := by
  constructor
  · rintro ⟨forest, root, hlink⟩ node hnode
    by_contra hnamed
    obtain ⟨fault, hfault⟩ := (h.of_mem_nodes node hnode).exists_hasFault_iff.mpr hnamed
    have hsubtree := (isRooted_of_link hlink).2
    have hentry : entry names node ∈ (tree.nodes.map (entry names)).values := by
      rw [Tree.values_map]
      exact List.mem_map_of_mem hnode
    rw [← hsubtree, Tree.values_map, entry_eq_error_iff.mpr hfault] at hentry
    simp at hentry
  · intro hnamed
    have hsettles := link_settles names tree
    generalize link? names tree = outcome at hsettles ⊢
    cases hsettles with
    | @done linked clean holds => exact ⟨linked.1, linked.2, rfl⟩
    | @failed before after fault clean split =>
      have hmem : .error fault ∈ tree.conversionOrder.map (entry names) := by
        simp [split]
      obtain ⟨node, hnode, hentry⟩ := List.mem_map.mp hmem
      have hvalue := tree.nodes.expansionOrder_perm.mem_iff.mp hnode
      have hfault := (h.of_mem_nodes node hvalue).exists_hasFault_iff.mp
        ⟨fault, entry_eq_error_iff.mp hentry⟩
      exact absurd (hnamed node hvalue) hfault

/-- The linked nodes of a bounded tree come about when the tables name all its nodes. Every one of
them spans its tokens, and so does every node that is left when chains are removed. -/
theorem link_spans_tokens (h : tree.IsBounded) (names : ParseNames) :
    ((∃ forest root, link? names tree = .ok (forest, root)) ↔
      ∀ node ∈ tree.nodes.values, node.IsNamed names) ∧
    ∀ forest root, link? names tree = .ok (forest, root) →
      (Query.subtree (⟨forest, root⟩ : Forest.Member)).SpansTokens ∧
      ∀ mode, ∃ after result, Forest.rebuild mode forest root = .ok (after, result) ∧
        (Query.subtree (⟨after, result⟩ : Forest.Member)).SpansTokens := by
  refine ⟨h.exists_link_iff, ?_⟩
  intro forest root hlink
  obtain ⟨hrooted, hsubtree⟩ := isRooted_of_link hlink
  have hspans := (depicts_of_map_ok hsubtree).spansTokens h
  refine ⟨hspans, ?_⟩
  intro mode
  obtain ⟨after, result, hrebuild, -, hresult⟩ := hrooted.exists_rebuild mode
  refine ⟨after, result, hrebuild, ?_⟩
  rw [hresult]
  exact hspans.normalize mode

/-- A rule without children, a token in a rule of its own and an error, on two lines. -/
def gapped : ParseTree :=
  let name : Lexeme := ⟨some 1, some "name", some 1, some 0, some 0, some 3⟩
  let stray : Lexeme := ⟨none, some "?", some 2, some 4, some 9, some 9⟩
  .rule 0 (some name) (some stray)
    [.rule 1 none none [], .rule 1 (some name) (some name) [.terminal (some name)],
      .error (some stray)]

theorem link_spans_tokens_gapped :
    let names : ParseNames := ⟨["list", "item"], ⟨[none, some "NAME"], []⟩⟩
    gapped.IsBounded ∧ ∃ forest root, link? names gapped = .ok (forest, root) ∧
      ∀ mode, ∃ after result, Forest.rebuild mode forest root = .ok (after, result) ∧
        (Query.subtree (⟨after, result⟩ : Forest.Member)).SpansTokens := by
  intro names
  have hname : Lexeme.IsPlaced ⟨some 1, some "name", some 1, some 0, some 0, some 3⟩ :=
    ⟨rfl, rfl, rfl, rfl, rfl⟩
  have hstray : Lexeme.IsPlaced ⟨none, some "?", some 2, some 4, some 9, some 9⟩ :=
    ⟨rfl, rfl, rfl, rfl, rfl⟩
  have hempty : (ParseTree.rule 1 none none []).IsBounded := .rule rfl rfl (by simp)
  have hitem := IsBounded.terminal hname
  have hbounded : gapped.IsBounded := by
    refine .rule rfl rfl ?_
    simp only [List.forall_mem_cons, List.not_mem_nil, false_imp_iff, forall_true_iff, and_true]
    exact ⟨hempty, .rule rfl rfl (by simpa using hitem), .error hstray⟩
  obtain ⟨hlinks, hspans⟩ := link_spans_tokens hbounded names
  have hnamed : ∀ node ∈ gapped.nodes.values, node.IsNamed names := by
    simp [gapped, names, nodes, nodesAll, Tree.values_node, IsNamed]
  obtain ⟨forest, root, hlink⟩ := hlinks.mpr hnamed
  exact ⟨hbounded, forest, root, hlink, (hspans forest root hlink).2⟩

end ParseTree

end SyntaxMining
