import SyntaxMining.Parse.Tree
import SyntaxMining.Proofs.Forest.Growth

/-!
# Faithful conversion of parse trees

A node that is faulty on its own account is described without the conversion: by its rule index, its
missing token or token kind, or the missing parts of its span. Converting a parse tree fails exactly
when it has a faulty node, and then with the fault of the first one in the order of conversion.
Otherwise the linked nodes read as a syntax tree of the same shape, which names every rule and every
token by entries of the tables, spans from the first token of a rule to its last, and carries the
text of every token.
-/

namespace SyntaxMining.ParseTree

@[elab_as_elim]
theorem inductionOnChildren {motive : ParseTree → Prop}
    (rule : ∀ index start stop children, (∀ child ∈ children, motive child) →
      motive (rule index start stop children))
    (terminal : ∀ lexeme, motive (terminal lexeme)) (error : ∀ lexeme, motive (error lexeme)) :
    ∀ tree, motive tree
  | .rule index start stop children => rule index start stop children fun child _ ↦
      inductionOnChildren rule terminal error child
  | .terminal lexeme => terminal lexeme
  | .error lexeme => error lexeme

theorem nodes_rule (index : Int) (start stop : Option Lexeme) (children : List ParseTree) :
    (rule index start stop children).nodes =
      .node (rule index start stop children) (children.map nodes) := by
  have hall (trees : List ParseTree) : nodesAll trees = trees.map nodes := by
    induction trees with
    | nil => rfl
    | cons tree rest ih => rw [nodesAll, ih, List.map_cons]
  rw [nodes, hall]

/-- The nodes in the order of their conversion: the root first; a rule node's children together,
from left to right; what is below its last child before what is below the others. -/
def conversionOrder (tree : ParseTree) : List ParseTree :=
  tree.nodes.expansionOrder

/-! ## Faults of single nodes -/

/-- The name that an index stands for, counted from the end of the table when negative. -/
def IsRuleName (names : List String) (index : Int) (name : String) : Prop :=
  ∃ place : Nat, names[place]? = some name ∧ (index = place ∨ index = place - names.length)

theorem isRuleName_of_ruleName {names : List String} {index : Int} {name : String}
    (h : ruleName names index = some name) : IsRuleName names index name := by
  unfold ruleName at h
  split at h
  · exact ⟨index.toNat, h, by omega⟩
  · split at h
    · exact ⟨(names.length + index).toNat, h, by omega⟩
    · simp at h

theorem ruleName_eq_none_iff {names : List String} {index : Int} :
    ruleName names index = none ↔ index < -names.length ∨ names.length ≤ index := by
  unfold ruleName
  split
  · rw [List.getElem?_eq_none_iff]
    omega
  · split
    · rw [List.getElem?_eq_none_iff]
      omega
    · simp only [true_iff]
      omega

/-- What is missing from the tokens at the ends of a span whose lines are known. -/
inductive SpanFault (start stop : Lexeme) : ParseFault → Prop where
  | column (startLine : start.line.isSome) (stopLine : stop.line.isSome)
      (missing : start.column = none) : SpanFault start stop .columnMissing
  | extent (startLine : start.line.isSome) (stopLine : stop.line.isSome)
      (column : start.column.isSome)
      (missing : stop.column = none ∨ stop.first = none ∨ stop.last = none) :
      SpanFault start stop .extentMissing

theorem map_eq_error_iff {ε α β : Type} {f : α → β} {outcome : Except ε α} {fault : ε} :
    outcome.map f = .error fault ↔ outcome = .error fault := by
  cases outcome <;> simp [Except.map]

theorem lastColumn_eq_error_iff {lexeme : Lexeme} {fault : ParseFault} :
    lastColumn lexeme = .error fault ↔ fault = .extentMissing ∧
      (lexeme.column = none ∨ lexeme.first = none ∨ lexeme.last = none) := by
  unfold lastColumn
  cases lexeme.column <;> cases lexeme.first <;> cases lexeme.last <;> simp [eq_comm]

theorem spanOf_eq_error_iff {start stop : Lexeme} {fault : ParseFault} :
    spanOf start stop = .error fault ↔ SpanFault start stop fault := by
  constructor
  · intro h
    cases hstart : start.line with
    | none => simp [spanOf, hstart] at h
    | some startLine =>
      cases hstop : stop.line with
      | none => simp [spanOf, hstart, hstop] at h
      | some stopLine =>
        cases hcolumn : start.column with
        | none =>
          obtain rfl : .columnMissing = fault := by simpa [spanOf, hstart, hstop, hcolumn] using h
          exact .column (by simp [hstart]) (by simp [hstop]) hcolumn
        | some column =>
          cases hlast : lastColumn stop with
          | error other =>
            obtain rfl : other = fault := by
              simpa [spanOf, hstart, hstop, hcolumn, hlast] using h
            obtain ⟨rfl, hmissing⟩ := lastColumn_eq_error_iff.mp hlast
            exact .extent (by simp [hstart]) (by simp [hstop]) (by simp [hcolumn]) hmissing
          | ok last => simp [spanOf, hstart, hstop, hcolumn, hlast] at h
  · intro h
    cases h with
    | column startLine stopLine missing =>
      obtain ⟨line, hline⟩ := Option.isSome_iff_exists.mp startLine
      obtain ⟨other, hother⟩ := Option.isSome_iff_exists.mp stopLine
      simp [spanOf, hline, hother, missing]
    | extent startLine stopLine column missing =>
      obtain ⟨line, hline⟩ := Option.isSome_iff_exists.mp startLine
      obtain ⟨other, hother⟩ := Option.isSome_iff_exists.mp stopLine
      obtain ⟨place, hplace⟩ := Option.isSome_iff_exists.mp column
      have hlast := lastColumn_eq_error_iff.mpr ⟨rfl, missing⟩
      simp [spanOf, hline, hother, hplace, hlast]

/-- Why a node cannot be converted on its own. -/
inductive HasFault (names : ParseNames) : ParseTree → ParseFault → Prop where
  | ruleIndex {index : Int} {start stop : Option Lexeme} {children : List ParseTree}
      (outside : index < -names.rules.length ∨ names.rules.length ≤ index) :
      HasFault names (rule index start stop children) .ruleIndex
  | ruleSpan {index : Int} {start stop : Lexeme} {children : List ParseTree} {fault : ParseFault}
      (inside : -names.rules.length ≤ index ∧ index < names.rules.length)
      (span : SpanFault start stop fault) :
      HasFault names (rule index (some start) (some stop) children) fault
  | terminalLexeme : HasFault names (terminal none) .lexemeMissing
  | terminalKind {lexeme : Lexeme} (missing : lexeme.kind = none) :
      HasFault names (terminal (some lexeme)) .kindMissing
  | terminalSpan {lexeme : Lexeme} {fault : ParseFault} (kind : lexeme.kind.isSome)
      (span : SpanFault lexeme lexeme fault) : HasFault names (terminal (some lexeme)) fault
  | errorLexeme : HasFault names (error none) .lexemeMissing
  | errorSpan {lexeme : Lexeme} {fault : ParseFault} (span : SpanFault lexeme lexeme fault) :
      HasFault names (error (some lexeme)) fault

section Faults

variable {names : ParseNames} {fault : ParseFault}

theorem entry_rule_eq_error_iff {index : Int} {start stop : Option Lexeme}
    {children : List ParseTree} :
    entry names (rule index start stop children) = .error fault ↔
      HasFault names (rule index start stop children) fault := by
  constructor
  · intro h
    cases hname : ruleName names.rules index with
    | none =>
      obtain rfl : .ruleIndex = fault := by simpa [entry, hname] using h
      exact .ruleIndex (ruleName_eq_none_iff.mp hname)
    | some name =>
      have hinside : ¬(index < -names.rules.length ∨ names.rules.length ≤ index) := by
        rw [← ruleName_eq_none_iff, hname]
        simp
      have hspan : ruleSpan start stop = .error fault := by
        simpa [entry, hname, map_eq_error_iff] using h
      cases start with
      | none => simp [ruleSpan] at hspan
      | some start =>
        cases stop with
        | none => simp [ruleSpan] at hspan
        | some stop => exact .ruleSpan (by omega) (spanOf_eq_error_iff.mp hspan)
  · intro h
    cases h with
    | ruleIndex outside => simp [entry, ruleName_eq_none_iff.mpr outside]
    | ruleSpan inside span =>
      obtain ⟨name, hname⟩ : ∃ name, ruleName names.rules index = some name := by
        rw [← Option.ne_none_iff_exists', Ne, ruleName_eq_none_iff]
        omega
      simp [entry, hname, ParseTree.ruleSpan, spanOf_eq_error_iff.mpr span, map_eq_error_iff]

theorem entry_terminal_eq_error_iff {lexeme : Option Lexeme} :
    entry names (terminal lexeme) = .error fault ↔ HasFault names (terminal lexeme) fault := by
  constructor
  · intro h
    cases lexeme with
    | none =>
      obtain rfl : .lexemeMissing = fault := by simpa [entry] using h
      exact .terminalLexeme
    | some lexeme =>
      cases hkind : lexeme.kind with
      | none =>
        obtain rfl : .kindMissing = fault := by simpa [entry, hkind] using h
        exact .terminalKind hkind
      | some kind =>
        have hspan : spanOf lexeme lexeme = .error fault := by
          simpa [entry, hkind, map_eq_error_iff] using h
        exact .terminalSpan (by simp [hkind]) (spanOf_eq_error_iff.mp hspan)
  · intro h
    cases h with
    | terminalLexeme => rfl
    | terminalKind missing => simp [entry, missing]
    | terminalSpan kind span =>
      obtain ⟨kind, hkind⟩ := Option.isSome_iff_exists.mp kind
      simp [entry, hkind, spanOf_eq_error_iff.mpr span, map_eq_error_iff]

theorem entry_error_eq_error_iff {lexeme : Option Lexeme} :
    entry names (error lexeme) = .error fault ↔ HasFault names (error lexeme) fault := by
  constructor
  · intro h
    cases lexeme with
    | none =>
      obtain rfl : .lexemeMissing = fault := by simpa [entry] using h
      exact .errorLexeme
    | some lexeme =>
      have hspan : spanOf lexeme lexeme = .error fault := by
        simpa [entry, map_eq_error_iff] using h
      exact .errorSpan (spanOf_eq_error_iff.mp hspan)
  · intro h
    cases h with
    | errorLexeme => rfl
    | errorSpan span => simp [entry, spanOf_eq_error_iff.mpr span, map_eq_error_iff]

/-- The faults described are those of the conversion. -/
theorem entry_eq_error_iff {tree : ParseTree} :
    entry names tree = .error fault ↔ HasFault names tree fault := by
  cases tree with
  | rule index start stop children => exact entry_rule_eq_error_iff
  | terminal lexeme => exact entry_terminal_eq_error_iff
  | error lexeme => exact entry_error_eq_error_iff

theorem not_hasFault_of_isOk {tree : ParseTree} (h : (entry names tree).isOk) :
    ¬HasFault names tree fault := by
  intro hfault
  rw [entry_eq_error_iff.mpr hfault] at h
  simp [Except.isOk, Except.toBool] at h

end Faults

/-! ## Labels and spans of single nodes -/

/-- A name that a table has for a kind: neither an empty entry nor the mark of a kind without a
name. -/
def IsNameOf (names : List (Option String)) (kind : Int) (name : String) : Prop :=
  ∃ place : Nat, kind = place ∧ names[place]? = some (some name) ∧ name ≠ "" ∧ name ≠ "<INVALID>"

/-- What is left of a literal without the apostrophes around it. -/
structure IsStripped (literal label : String) : Prop where
  around : ∃ before after : Nat, literal.toList =
    List.replicate before '\x27' ++ label.toList ++ List.replicate after '\x27'
  first : label.toList.head? ≠ some '\x27'
  last : label.toList.getLast? ≠ some '\x27'

/-- The label of a terminal: the symbolic name of its kind, else the literal one without
apostrophes, else the number of the kind. -/
inductive IsTokenLabel (vocabulary : Vocabulary) (kind : Int) : String → Prop where
  | eof (kind_eq : kind = -1) : IsTokenLabel vocabulary kind "EOF"
  | symbolic {name : String} (named : IsNameOf vocabulary.symbolic kind name) :
      IsTokenLabel vocabulary kind name
  | literal {literal label : String} (unnamed : ∀ name, ¬IsNameOf vocabulary.symbolic kind name)
      (named : IsNameOf vocabulary.literal kind literal) (stripped : IsStripped literal label) :
      IsTokenLabel vocabulary kind label
  | number (kind_ne : kind ≠ -1) (unnamed : ∀ name, ¬IsNameOf vocabulary.symbolic kind name)
      (plain : ∀ name, ¬IsNameOf vocabulary.literal kind name) :
      IsTokenLabel vocabulary kind (toString kind)

section Labels

variable {names : List (Option String)} {kind : Int} {name : String}

theorem lookup_eq_some_iff :
    Vocabulary.lookup names kind = some name ↔ IsNameOf names kind name := by
  constructor
  · intro h
    unfold Vocabulary.lookup at h
    split at h
    · simp at h
    · split at h
      · simp at h
      · rename_i other hother
        split at h
        · simp at h
        · rename_i hvalid
          obtain rfl : other = name := Option.some.inj h
          rw [not_or] at hvalid
          refine ⟨kind.toNat, by omega, ?_, hvalid⟩
          rw [List.getD_eq_getElem?_getD] at hother
          cases hentry : names[kind.toNat]? with
          | none => simp [hentry] at hother
          | some entry => simpa [hentry] using hother
  · intro h
    obtain ⟨place, rfl, hentry, hne, hvalid⟩ := h
    simp [Vocabulary.lookup, Vocabulary.invalidName, List.getD_eq_getElem?_getD, hentry,
      hne, hvalid]

theorem lookup_eq_none_iff :
    Vocabulary.lookup names kind = none ↔ ∀ name, ¬IsNameOf names kind name := by
  simp only [Option.eq_none_iff_forall_ne_some, Ne, lookup_eq_some_iff]

theorem exists_replicate_append_dropWhile (mark : Char) (text : List Char) :
    ∃ count, text = List.replicate count mark ++ text.dropWhile (· == mark) := by
  induction text with
  | nil => exact ⟨0, rfl⟩
  | cons char rest ih =>
    by_cases hchar : char = mark
    · obtain ⟨count, hrest⟩ := ih
      refine ⟨count + 1, ?_⟩
      rw [List.dropWhile_cons_of_pos (by simpa using hchar), List.replicate_succ, List.cons_append,
        ← hrest, hchar]
    · refine ⟨0, ?_⟩
      rw [List.dropWhile_cons_of_neg (by simpa using hchar), List.replicate_zero, List.nil_append]

theorem head?_dropWhile_ne (mark : Char) (text : List Char) :
    (text.dropWhile (· == mark)).head? ≠ some mark := by
  intro h
  have hnot := List.head?_dropWhile_not (· == mark) text
  rw [h] at hnot
  simp at hnot

theorem isStripped_trim (literal : String) :
    IsStripped literal (Text.trim (· == '\x27') literal) := by
  obtain ⟨before, hbefore⟩ := exists_replicate_append_dropWhile '\x27' literal.toList
  let front := literal.toList.dropWhile (· == '\x27')
  obtain ⟨after, hafter⟩ := exists_replicate_append_dropWhile '\x27' front.reverse
  let label := (front.reverse.dropWhile (· == '\x27')).reverse
  have hlabel : (Text.trim (· == '\x27') literal).toList = label := String.toList_ofList
  have hfront : front = label ++ List.replicate after '\x27' := by
    rw [← List.reverse_replicate, ← List.reverse_append, ← hafter, List.reverse_reverse]
  refine ⟨⟨before, after, ?_⟩, ?_, ?_⟩
  · rw [hlabel, List.append_assoc, ← hfront]
    exact hbefore
  · rw [hlabel]
    intro hfirst
    -- a first character of the label is one of what the front was cut off from
    have hhead : front.head? = some '\x27' := by
      rw [hfront, List.head?_append, hfirst, Option.some_or]
    exact head?_dropWhile_ne _ _ hhead
  · rw [hlabel, List.getLast?_reverse]
    exact head?_dropWhile_ne _ _

/-- Tokens are labelled by the entries of the tables. -/
theorem isTokenLabel_tokenLabel (vocabulary : Vocabulary) (kind : Int) :
    IsTokenLabel vocabulary kind (vocabulary.tokenLabel kind) := by
  rw [Vocabulary.tokenLabel, Vocabulary.symbolicName]
  by_cases hend : kind = Vocabulary.endKind
  · rw [if_pos hend, Option.getD_some]
    exact .eof hend
  · rw [if_neg hend]
    cases hsymbolic : Vocabulary.lookup vocabulary.symbolic kind with
    | some name => exact .symbolic (lookup_eq_some_iff.mp hsymbolic)
    | none =>
      have hunnamed := lookup_eq_none_iff.mp hsymbolic
      rw [Option.getD_none, Vocabulary.displayName, Vocabulary.literalName]
      cases hliteral : Vocabulary.lookup vocabulary.literal kind with
      | some literal =>
        exact .literal hunnamed (lookup_eq_some_iff.mp hliteral) (isStripped_trim literal)
      | none =>
        rw [Vocabulary.symbolicName, if_neg hend, hsymbolic, Option.getD_none]
        exact .number hend hunnamed (lookup_eq_none_iff.mp hliteral)

end Labels

/-- The span from one token to another: unknown when a line is, and else from the first character of
the one to the last character of the other. -/
inductive IsSpan (start stop : Lexeme) : Option Span → Prop where
  | unknown (missing : start.line = none ∨ stop.line = none) : IsSpan start stop none
  | known {startLine startColumn stopLine stopColumn first last : Int}
      (start_line : start.line = some startLine) (start_column : start.column = some startColumn)
      (stop_line : stop.line = some stopLine) (stop_column : stop.column = some stopColumn)
      (stop_first : stop.first = some first) (stop_last : stop.last = some last) :
      IsSpan start stop
        (some ⟨⟨startLine, startColumn⟩, ⟨stopLine, stopColumn + last - first⟩⟩)

/-- The span of a rule node: unknown when a token at its ends is, and else from the one to the
other. -/
inductive IsRuleSpan : Option Lexeme → Option Lexeme → Option Span → Prop where
  | unknown {start stop : Option Lexeme} (missing : start = none ∨ stop = none) :
      IsRuleSpan start stop none
  | between {start stop : Lexeme} {span : Option Span} (spans : IsSpan start stop span) :
      IsRuleSpan (some start) (some stop) span

section Spans

variable {start stop : Lexeme} {span : Option Span}

theorem spanOf_eq_ok_iff : spanOf start stop = .ok span ↔ IsSpan start stop span := by
  constructor
  · intro h
    unfold spanOf at h
    cases hstart : start.line with
    | none =>
      obtain rfl : none = span := by simpa [hstart] using h
      exact .unknown (.inl hstart)
    | some startLine =>
      cases hstop : stop.line with
      | none =>
        obtain rfl : none = span := by simpa [hstart, hstop] using h
        exact .unknown (.inr hstop)
      | some stopLine =>
        rw [hstart, hstop] at h
        unfold lastColumn at h
        cases hcolumn : start.column <;> cases hother : stop.column <;>
          cases hfirst : stop.first <;> cases hlast : stop.last <;>
          simp [hcolumn, hother, hfirst, hlast] at h
        subst h
        exact .known hstart hcolumn hstop hother hfirst hlast
  · intro h
    cases h with
    | unknown missing =>
      rcases missing with hmissing | hmissing
      · simp [spanOf, hmissing]
      · cases hstart : start.line <;> simp [spanOf, hstart, hmissing]
    | known start_line start_column stop_line stop_column stop_first stop_last =>
      simp [spanOf, lastColumn, *]

theorem ruleSpan_eq_ok_iff {start stop : Option Lexeme} :
    ruleSpan start stop = .ok span ↔ IsRuleSpan start stop span := by
  constructor
  · intro h
    cases start with
    | none =>
      obtain rfl : none = span := by simpa [ruleSpan] using h
      exact .unknown (.inl rfl)
    | some start =>
      cases stop with
      | none =>
        obtain rfl : none = span := by simpa [ruleSpan] using h
        exact .unknown (.inr rfl)
      | some stop => exact .between (spanOf_eq_ok_iff.mp h)
  · intro h
    cases h with
    | unknown missing =>
      rcases missing with rfl | rfl
      · rfl
      · cases start <;> rfl
    | between spans => exact spanOf_eq_ok_iff.mpr spans

end Spans

/-! ## Converted trees -/

/-- A syntax tree of the parse tree's shape, with the names of its rules, the labels and texts of
its tokens, and their spans. -/
inductive Depicts (names : ParseNames) : ParseTree → SyntaxTree → Prop where
  | rule {index : Int} {start stop : Option Lexeme} {children : List ParseTree} {name : String}
      {span : Option Span} {subtrees : List SyntaxTree} (named : IsRuleName names.rules index name)
      (spanned : IsRuleSpan start stop span)
      (below : List.Forall₂ (Depicts names) children subtrees) :
      Depicts names (.rule index start stop children) (.node ⟨⟨name⟩, none, span⟩ subtrees)
  | terminal {lexeme : Lexeme} {kind : Int} {label : String} {span : Option Span}
      (kind_eq : lexeme.kind = some kind) (labelled : IsTokenLabel names.vocabulary kind label)
      (spanned : IsSpan lexeme lexeme span) :
      Depicts names (.terminal (some lexeme)) (.node ⟨⟨label⟩, lexeme.text, span⟩ [])
  | error {lexeme : Lexeme} {span : Option Span} (spanned : IsSpan lexeme lexeme span) :
      Depicts names (.error (some lexeme)) (.node ⟨⟨"Error"⟩, lexeme.text, span⟩ [])

theorem exists_of_map_eq_ok {ε α β : Type} {f : α → β} {outcome : Except ε α} {result : β}
    (h : outcome.map f = .ok result) : ∃ value, outcome = .ok value ∧ f value = result := by
  cases outcome with
  | error fault => simp [Except.map] at h
  | ok value => exact ⟨value, rfl, by simpa [Except.map] using h⟩

theorem exists_leaf_of_map_ok {names : ParseNames} {tree : ParseTree} {converted : SyntaxTree}
    (h : converted.map .ok = (Tree.node tree []).map (entry names)) :
    ∃ root, converted = .node root [] ∧ entry names tree = .ok root := by
  obtain ⟨root, subtrees⟩ := converted
  rw [Tree.map_node, Tree.map_node, Tree.node.injEq] at h
  obtain ⟨hroot, hsubtrees⟩ := h
  obtain rfl : subtrees = [] := by simpa using hsubtrees
  exact ⟨root, rfl, hroot.symm⟩

theorem depicts_of_map_ok {names : ParseNames} {tree : ParseTree} {converted : SyntaxTree}
    (h : converted.map .ok = tree.nodes.map (entry names)) : Depicts names tree converted := by
  induction tree using inductionOnChildren generalizing converted with
  | rule index start stop children ih =>
    obtain ⟨root, subtrees⟩ := converted
    rw [nodes_rule, Tree.map_node, Tree.map_node, Tree.node.injEq, List.map_map] at h
    obtain ⟨hroot, hsubtrees⟩ := h
    cases hname : ruleName names.rules index with
    | none => simp [entry, hname] at hroot
    | some name =>
      rw [entry, hname] at hroot
      obtain ⟨span, hspan, rfl⟩ := exists_of_map_eq_ok hroot.symm
      refine .rule (isRuleName_of_ruleName hname) (ruleSpan_eq_ok_iff.mp hspan) ?_
      have hpairs := (List.forall₂_and_left children subtrees).mpr
        ⟨fun _ hchild ↦ hchild, forall₂_iff_map_eq.mpr hsubtrees.symm⟩
      exact hpairs.imp fun child subtree hpair ↦ ih child hpair.1 hpair.2.symm
  | terminal lexeme =>
    obtain ⟨root, rfl, hroot⟩ := exists_leaf_of_map_ok h
    cases lexeme with
    | none => simp [entry] at hroot
    | some lexeme =>
      cases hkind : lexeme.kind with
      | none => simp [entry, hkind] at hroot
      | some kind =>
        rw [entry, hkind] at hroot
        obtain ⟨span, hspan, rfl⟩ := exists_of_map_eq_ok hroot
        exact .terminal hkind (isTokenLabel_tokenLabel _ kind) (spanOf_eq_ok_iff.mp hspan)
  | error lexeme =>
    obtain ⟨root, rfl, hroot⟩ := exists_leaf_of_map_ok h
    cases lexeme with
    | none => simp [entry] at hroot
    | some lexeme =>
      rw [entry] at hroot
      obtain ⟨span, hspan, rfl⟩ := exists_of_map_eq_ok hroot
      exact .error (spanOf_eq_ok_iff.mp hspan)

/-! ## Linked nodes -/

/-- Only rule nodes are expanded, and no others have children. -/
theorem sketch_conversion (names : ParseNames) (tree : ParseTree) :
    (conversion names).sketch tree.nodes = tree.nodes.map (entry names) := by
  induction tree using inductionOnChildren with
  | rule index start stop children ih =>
    rw [nodes_rule, Conversion.sketch_of_expands rfl, Tree.map_node, List.map_map, List.map_map]
    congr 1
    exact List.map_congr_left ih
  | terminal lexeme => rfl
  | error lexeme => rfl

/-- Linking attempts the nodes in the order of conversion, and gives their entries if none fails. -/
theorem link_settles (names : ParseNames) (tree : ParseTree) :
    Settles (tree.conversionOrder.map (entry names))
      (fun linked ↦ linked.1.IsRooted linked.2 ∧
        (Query.subtree (⟨linked.1, linked.2⟩ : Forest.Member)).map .ok =
          tree.nodes.map (entry names))
      (link? names tree) := by
  have hsettles := Forest.ofTree_settles (conversion names) tree.nodes
  rwa [sketch_conversion, Tree.expansionOrder_map] at hsettles

theorem isRooted_of_link {names : ParseNames} {tree : ParseTree} {forest : Forest} {root : NodeId}
    (h : link? names tree = .ok (forest, root)) :
    forest.IsRooted root ∧ (Query.subtree (⟨forest, root⟩ : Forest.Member)).map .ok =
      tree.nodes.map (entry names) := by
  have hsettles := link_settles names tree
  rw [h] at hsettles
  exact hsettles.of_ok.2

/-- Converting a parse tree fails with the fault of the first faulty node in the order of
conversion, which meets every node, or gives linked nodes that depict the parse tree. -/
theorem link_depicts_or_first_fault (names : ParseNames) (index : Int) (start stop : Option Lexeme)
    (children : List ParseTree) :
    let tree := rule index start stop children
    tree.conversionOrder.Perm tree.nodes.values ∧
      ((∃ forest root, link? names tree = .ok (forest, root) ∧
          (∀ node ∈ tree.conversionOrder, ∀ fault, ¬HasFault names node fault) ∧
          Depicts names tree (Query.subtree (⟨forest, root⟩ : Forest.Member))) ∨
        ∃ before node after fault, link? names tree = .error fault ∧
          tree.conversionOrder = before ++ node :: after ∧ HasFault names node fault ∧
          ∀ earlier ∈ before, ∀ other, ¬HasFault names earlier other) := by
  intro tree
  refine ⟨tree.nodes.expansionOrder_perm, ?_⟩
  have hsettles := link_settles names tree
  generalize link? names tree = outcome at hsettles ⊢
  cases hsettles with
  | @done linked clean holds =>
    refine Or.inl ⟨linked.1, linked.2, rfl, ?_, depicts_of_map_ok holds.2⟩
    intro node hnode fault
    exact not_hasFault_of_isOk (clean _ (List.mem_map_of_mem hnode))
  | failed before after clean split =>
    obtain ⟨earlier, rest, horder, rfl, hrest⟩ := List.map_eq_append_iff.mp split
    obtain ⟨node, later, rfl, hnode, -⟩ := List.map_eq_cons_iff.mp hrest
    refine Or.inr ⟨earlier, node, later, _, rfl, horder, entry_eq_error_iff.mp hnode, ?_⟩
    intro other hother fault
    exact not_hasFault_of_isOk (clean _ (List.mem_map_of_mem hother))

end SyntaxMining.ParseTree
