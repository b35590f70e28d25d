import SyntaxMining.Function.Php
import SyntaxMining.Proofs.Function.Grammar
import SyntaxMining.Proofs.Function.Mining

/-!
# Functions of PHP

The raw tree of a function holds the keyword, the parameters and the body among children that are
left open. A parameter is a variable with or without default, behind a type hint, the mark of a
reference and the mark of a variadic parameter, each of them there or not. After compression a
variable without default is folded down to its name, a parameter without marks is folded down to
its variable, and a single parameter is the whole parameter list. Extraction reads the same
parameters off all these forms.
-/

namespace SyntaxMining.Php

open Query Grammar Cursor

/-- A type hint whose chain ends in a token. -/
structure Hint extends Phrase "typeHint" where
  token : String
  token_eq : tree.chainEnd.value.token = some token

structure RawParameter where
  details : Details
  hint : Option Hint
  isReference : Bool
  isVariadic : Bool
  name : String
  name_ne_empty : name ≠ ""
  default : Option (Phrase "constantInitializer")

namespace RawParameter

variable (parameter : RawParameter)

/-- The variable with its default. -/
def declaration : SyntaxTree :=
  rule parameter.details "variableInitializer"
    (word parameter.details "VarName" parameter.name ::
      match parameter.default with
      | none => []
      | some value => [terminal parameter.details "Eq", value.tree])

/-- What stands in front of the variable. -/
def marks : List SyntaxTree :=
  (match parameter.hint with
    | none => []
    | some hint => [hint.tree]) ++
  ((if parameter.isReference then [terminal parameter.details "Ampersand"] else []) ++
    (if parameter.isVariadic then [terminal parameter.details "Ellipsis"] else []))

def tree : SyntaxTree :=
  rule parameter.details "formalParameter" (parameter.marks ++ [parameter.declaration])

/-- The comma in front of a parameter that is not the first. -/
def comma : SyntaxTree :=
  terminal parameter.details "Comma"

/-- What extraction has to say about a parameter. -/
def declared : Parameter where
  name := (if parameter.isReference then "&" else "") ++
    (if parameter.isVariadic then "..." else "") ++ parameter.name
  type := parameter.hint.map Hint.token

end RawParameter

/-- The parts of a function that the grammar fixes. -/
structure Parts where
  details : Details
  parameters : List RawParameter
  statements : List SyntaxTree
  /-- The block of a method is wrapped once more. -/
  isMethod : Bool

namespace Parts

variable (parts : Parts)

def keyword : SyntaxTree :=
  terminal parts.details "Function_"

def parameterList : SyntaxTree :=
  rule parts.details "formalParameterList"
    (separated RawParameter.comma (fun parameter ↦ [parameter.tree]) parts.parameters)

def statementList : SyntaxTree :=
  rule parts.details "innerStatementList" parts.statements

def block : SyntaxTree :=
  rule parts.details "blockStatement"
    [terminal parts.details "OpenCurlyBracket", parts.statementList,
      terminal parts.details "CloseCurlyBracket"]

def body : SyntaxTree :=
  if parts.isMethod then rule parts.details "methodBody" [parts.block] else parts.block

end Parts

/-- A function node: the fixed parts in any order, among children that could not be taken for its
parameters or its body. -/
structure RawFunction extends Parts where
  entry : Entry
  others : List SyntaxTree
  others_first : ∀ other ∈ others,
    other.value.label.first ∉ ["formalParameterList", "blockStatement", "methodBody"]
  children : List SyntaxTree
  children_perm : children.Perm
    (toParts.keyword :: toParts.parameterList :: toParts.body :: others)

namespace RawFunction

def tree (function : RawFunction) : SyntaxTree :=
  .node function.entry function.children

end RawFunction

/-! ## One parameter -/

namespace RawParameter

variable (parameter : RawParameter)

theorem marks_eq_nil (h : parameter.marks = []) :
    parameter.hint = none ∧ parameter.isReference = false ∧ parameter.isVariadic = false := by
  rw [marks, List.append_eq_nil_iff, List.append_eq_nil_iff] at h
  obtain ⟨hhint, hreference, hvariadic⟩ := h
  refine ⟨?_, by simpa using hreference, by simpa using hvariadic⟩
  cases hcase : parameter.hint with
  | none => rfl
  | some hint => simp [hcase] at hhint

theorem chainEnd_tree_of_marks (h : parameter.marks ≠ []) :
    parameter.tree.chainEnd = parameter.tree := by
  apply chainEnd_rule
  simpa using h

theorem chainEnd_tree_of_bare (h : parameter.marks = []) :
    parameter.tree.chainEnd = parameter.declaration.chainEnd := by
  rw [tree, h, List.nil_append, chainEnd_rule_singleton]

theorem chainEnd_declaration_of_bare (h : parameter.default = none) :
    parameter.declaration.chainEnd = word parameter.details "VarName" parameter.name := by
  rw [declaration, h, chainEnd_rule_singleton, chainEnd_word]

theorem chainEnd_declaration_of_default {value : Phrase "constantInitializer"}
    (h : parameter.default = some value) :
    parameter.declaration.chainEnd = parameter.declaration := by
  apply chainEnd_rule
  simp [h]

/-- The name is found wherever the chain of the declaration starts. -/
theorem exists_nameNode {start : SyntaxTree} (h : start.chainEnd = parameter.declaration.chainEnd)
    (above : List SyntaxTree) :
    ∃ node rest, selfOrChildrenOfType (compressed start above) "VarName" = node :: rest ∧
      nonEmptyToken node = .ok parameter.name := by
  cases hdefault : parameter.default with
  | none =>
    have hend : start.chainEnd = word parameter.details "VarName" parameter.name :=
      h.trans (parameter.chainEnd_declaration_of_bare hdefault)
    refine ⟨compressed start above, [], ?_, ?_⟩
    · rw [selfOrChildrenOfType, lastIs_compressed, hend, label_word]
      exact if_pos (by decide)
    · simp [nonEmptyToken, hend, parameter.name_ne_empty]
  | some value =>
    have hend : start.chainEnd = parameter.declaration :=
      h.trans (parameter.chainEnd_declaration_of_default hdefault)
    refine ⟨compressed (word parameter.details "VarName" parameter.name)
      (start.compress :: above), [], ?_, ?_⟩
    · rw [selfOrChildrenOfType, lastIs_compressed, childrenOfType_compressed, hend]
      simp +decide [declaration, hdefault]
    · simp [nonEmptyToken, parameter.name_ne_empty]

/-- A name that is found in a declaration gets the marks of the parameter. -/
theorem parameterName_of_declaration {node declaration : Cursor Entry}
    {others : List (Cursor Entry)} (hlast : lastIs node "VarName" = false)
    (hdeclaration : selfOrChildrenOfType node "variableInitializer" = declaration :: others)
    (hname : ∃ nameNode rest, selfOrChildrenOfType declaration "VarName" = nameNode :: rest ∧
      nonEmptyToken nameNode = .ok parameter.name)
    (hreference : (childOfType? node "Ampersand").isSome = parameter.isReference)
    (hvariadic : (childOfType? node "Ellipsis").isSome = parameter.isVariadic) :
    parameterName {} node = .ok parameter.declared.name := by
  obtain ⟨nameNode, rest, hnodes, htoken⟩ := hname
  simp [parameterName, hlast, hdeclaration, hnodes, htoken, hreference, hvariadic, declared]

theorem parameterName_of_bare {start : SyntaxTree} (hmarks : parameter.marks = [])
    (h : start.chainEnd = parameter.declaration.chainEnd) (above : List SyntaxTree) :
    parameterName {} (compressed start above) = .ok parameter.declared.name := by
  obtain ⟨-, hreference, hvariadic⟩ := parameter.marks_eq_nil hmarks
  cases hdefault : parameter.default with
  | none =>
    have hend : start.chainEnd = word parameter.details "VarName" parameter.name :=
      h.trans (parameter.chainEnd_declaration_of_bare hdefault)
    simp +decide [parameterName, nonEmptyToken, hend, parameter.name_ne_empty, declared,
      hreference, hvariadic]
  | some value =>
    have hend : start.chainEnd = parameter.declaration :=
      h.trans (parameter.chainEnd_declaration_of_default hdefault)
    have hlast : lastIs (compressed start above) "VarName" = false := by
      rw [lastIs_compressed, hend]
      simp +decide [declaration]
    have hself : selfOrChildrenOfType (compressed start above) "variableInitializer" =
        [compressed start above] := by
      rw [selfOrChildrenOfType, lastIs_compressed, hend]
      simp +decide [declaration]
    have hampersand : (childOfType? (compressed start above) "Ampersand").isSome =
        parameter.isReference := by
      rw [childOfType?_compressed, hend]
      simp +decide [declaration, hdefault, hreference]
    have hellipsis : (childOfType? (compressed start above) "Ellipsis").isSome =
        parameter.isVariadic := by
      rw [childOfType?_compressed, hend]
      simp +decide [declaration, hdefault, hvariadic]
    exact parameter.parameterName_of_declaration hlast hself (parameter.exists_nameNode h above)
      hampersand hellipsis

/-- Every part of a parameter is found by the label it has as a child. -/
theorem children_tree :
    parameter.tree.children.filter
        (fun child ↦ child.value.label.first == "variableInitializer") = [parameter.declaration] ∧
      (parameter.tree.children.find?
        fun child ↦ child.value.label.first == "Ampersand").isSome = parameter.isReference ∧
      (parameter.tree.children.find?
        fun child ↦ child.value.label.first == "Ellipsis").isSome = parameter.isVariadic ∧
      (parameter.tree.children.find? fun child ↦ child.value.label.first == "typeHint") =
        parameter.hint.map fun hint ↦ hint.tree := by
  cases hhint : parameter.hint <;> cases hreference : parameter.isReference <;>
    cases hvariadic : parameter.isVariadic <;>
      simp +decide [tree, marks, declaration, hhint, hreference, hvariadic]

theorem parameterName_of_marks {start : SyntaxTree} (h : start.chainEnd = parameter.tree)
    (above : List SyntaxTree) :
    parameterName {} (compressed start above) = .ok parameter.declared.name := by
  obtain ⟨hdeclaration, hreference, hvariadic, -⟩ := parameter.children_tree
  have hlast : lastIs (compressed start above) "VarName" = false := by
    rw [lastIs_compressed, h]
    simp +decide [tree]
  have hchildren : selfOrChildrenOfType (compressed start above) "variableInitializer" =
      [compressed parameter.declaration (start.compress :: above)] := by
    have hself : lastIs (compressed start above) "variableInitializer" = false := by
      rw [lastIs_compressed, h]
      simp +decide [tree]
    rw [selfOrChildrenOfType, hself, childrenOfType_compressed, h, hdeclaration]
    rfl
  have hampersand : (childOfType? (compressed start above) "Ampersand").isSome =
      parameter.isReference := by
    rw [childOfType?_compressed, h, Option.isSome_map, hreference]
  have hellipsis : (childOfType? (compressed start above) "Ellipsis").isSome =
      parameter.isVariadic := by
    rw [childOfType?_compressed, h, Option.isSome_map, hvariadic]
  exact parameter.parameterName_of_declaration hlast hchildren
    (parameter.exists_nameNode rfl _) hampersand hellipsis

theorem typeHint_of_bare {start : SyntaxTree} (hmarks : parameter.marks = [])
    (h : start.chainEnd = parameter.declaration.chainEnd) (above : List SyntaxTree) :
    typeHint {} (compressed start above) = parameter.declared.type := by
  obtain ⟨hhint, -, -⟩ := parameter.marks_eq_nil hmarks
  rw [typeHint, childOfType?_compressed, h]
  cases hdefault : parameter.default with
  | none =>
    rw [parameter.chainEnd_declaration_of_bare hdefault, declared, hhint]
    rfl
  | some value =>
    rw [parameter.chainEnd_declaration_of_default hdefault]
    simp +decide [declaration, hdefault, declared, hhint]

theorem typeHint_of_marks {start : SyntaxTree} (h : start.chainEnd = parameter.tree)
    (above : List SyntaxTree) :
    typeHint {} (compressed start above) = parameter.declared.type := by
  obtain ⟨-, -, -, hhint⟩ := parameter.children_tree
  rw [typeHint, childOfType?_compressed, h, hhint, declared]
  cases parameter.hint with
  | none => rfl
  | some hint => simp [hint.token_eq]

end RawParameter

/-- A parameter is read wherever its chain starts. -/
theorem parameter_compressed (parameter : RawParameter) {start : SyntaxTree}
    (h : start.chainEnd = parameter.tree.chainEnd) (above : List SyntaxTree) :
    Php.parameter {} (compressed start above) = .ok parameter.declared := by
  by_cases hmarks : parameter.marks = []
  · have hend := h.trans (parameter.chainEnd_tree_of_bare hmarks)
    rw [Php.parameter, parameter.parameterName_of_bare hmarks hend above]
    simp only [parameter.typeHint_of_bare hmarks hend]
  · have hend := h.trans (parameter.chainEnd_tree_of_marks hmarks)
    rw [Php.parameter, parameter.parameterName_of_marks hend above]
    simp only [parameter.typeHint_of_marks hend]

/-! ## The parameter list -/

/-- Parameters that can all be read are all collected, without a report. -/
theorem parametersOf_eq_pure {α ν : Type} [Navigable ν] {labels : Labels} {node : α → ν}
    {value : α → Parameter} (file : String) (function : Option String) (items : List α)
    (h : ∀ item ∈ items, Php.parameter labels (node item) = .ok (value item)) :
    parametersOf labels file function (items.map node) = pure (items.map value) := by
  induction items with
  | nil => rfl
  | cons item rest ih =>
    have hrest := ih fun next hnext ↦ h next (List.mem_cons_of_mem item hnext)
    rw [List.map_cons, parametersOf, h item (by simp)]
    simp only [hrest]
    rfl

theorem parameters_of_nodes {α : Type} {root list : Cursor Entry} {node : α → Cursor Entry}
    {value : α → Parameter} {items : List α} (file : String) (function : Option String)
    (hlist : childOfType? root "formalParameterList" = some list)
    (hkept : isFoldedParameter {} list = false)
    (hnodes : selfOrChildrenOfType list "formalParameter" = items.map node)
    (hread : ∀ item ∈ items, Php.parameter {} (node item) = .ok (value item)) :
    Php.parameters {} file function root = pure (.found (items.map value)) := by
  rw [Php.parameters, hlist]
  simp only [hkept, hnodes, parametersOf_eq_pure file function items hread]
  rfl

namespace Parts

variable (parts : Parts)

/-- The list of a single parameter is folded down to the parameter, or further down to its
declaration or its name. -/
theorem parameters_of_single {root : Cursor Entry} {above : List SyntaxTree}
    (hlist : childOfType? root "formalParameterList" = some (compressed parts.parameterList above))
    {parameter : RawParameter} (hparameters : parts.parameters = [parameter])
    (file : String) (function : Option String) :
    Php.parameters {} file function root = pure (.found [parameter.declared]) := by
  have hend : parts.parameterList.chainEnd = parameter.tree.chainEnd := by
    rw [parameterList, hparameters]
    exact chainEnd_rule_singleton _ _ _
  have hread := parameter_compressed parameter hend above
  by_cases hmarks : parameter.marks = []
  · have hfolded : isFoldedParameter {} (compressed parts.parameterList above) = true := by
      rw [isFoldedParameter, lastIs_compressed, lastIs_compressed, hend,
        parameter.chainEnd_tree_of_bare hmarks]
      cases hdefault : parameter.default with
      | none =>
        rw [parameter.chainEnd_declaration_of_bare hdefault]
        simp +decide
      | some value =>
        rw [parameter.chainEnd_declaration_of_default hdefault]
        simp +decide [RawParameter.declaration]
    rw [Php.parameters, hlist]
    simp only [hfolded, hread]
    rfl
  · have hlast : parts.parameterList.chainEnd.value.label.last = "formalParameter" := by
      rw [hend, parameter.chainEnd_tree_of_marks hmarks]
      simp +decide [RawParameter.tree]
    have hkept : isFoldedParameter {} (compressed parts.parameterList above) = false := by
      simp [isFoldedParameter, hlast]
    have hself : selfOrChildrenOfType (compressed parts.parameterList above) "formalParameter" =
        [parameter].map fun _ ↦ compressed parts.parameterList above := by
      simp [selfOrChildrenOfType, hlast]
    exact parameters_of_nodes file function hlist hkept hself (by simpa using hread)

/-- Any other list is kept, and its parameters are its children. -/
theorem parameters_of_several {root : Cursor Entry} {above : List SyntaxTree}
    (hlist : childOfType? root "formalParameterList" = some (compressed parts.parameterList above))
    (hlength : parts.parameters.length ≠ 1) (file : String) (function : Option String) :
    Php.parameters {} file function root =
      pure (.found (parts.parameters.map RawParameter.declared)) := by
  have hend : parts.parameterList.chainEnd = parts.parameterList :=
    chainEnd_rule _ _ _ (length_separated_ne_one _ _ (by simp) hlength)
  have hlast : parts.parameterList.chainEnd.value.label.last = "formalParameterList" := by
    rw [hend, parameterList, label_rule]
    decide
  have hkept : isFoldedParameter {} (compressed parts.parameterList above) = false := by
    simp [isFoldedParameter, hlast]
  have hcomma : ∀ parameter : RawParameter,
      ¬ (parameter.comma.value.label.first == "formalParameter") := by
    intro parameter
    rw [RawParameter.comma, label_terminal]
    decide
  have htree : ∀ parameter : RawParameter,
      parameter.tree.value.label.first == "formalParameter" := by
    intro parameter
    rw [RawParameter.tree, label_rule]
    decide
  have hchildren : selfOrChildrenOfType (compressed parts.parameterList above) "formalParameter" =
      parts.parameters.map fun parameter ↦
        compressed parameter.tree (parts.parameterList.compress :: above) := by
    have hother : lastIs (compressed parts.parameterList above) "formalParameter" = false := by
      simp [hlast]
    rw [selfOrChildrenOfType, hother, childrenOfType_compressed, hend, parameterList,
      children_rule, filter_separated_singleton RawParameter.comma RawParameter.tree hcomma htree,
      List.map_map]
    rfl
  apply parameters_of_nodes file function hlist hkept hchildren
  intro parameter _
  exact parameter_compressed parameter rfl _

theorem parameters_of_list {root : Cursor Entry} {above : List SyntaxTree}
    (hlist : childOfType? root "formalParameterList" = some (compressed parts.parameterList above))
    (file : String) (function : Option String) :
    Php.parameters {} file function root =
      pure (.found (parts.parameters.map RawParameter.declared)) := by
  by_cases hone : parts.parameters.length = 1
  · obtain ⟨parameter, hparameters⟩ := List.length_eq_one_iff.mp hone
    rw [parts.parameters_of_single hlist hparameters, hparameters]
    rfl
  · exact parts.parameters_of_several hlist hone file function

/-! ## The body -/

theorem chainEnd_body : parts.body.chainEnd = parts.block := by
  have hblock : parts.block.chainEnd = parts.block := by
    apply chainEnd_rule
    simp
  rw [body]
  split
  · rw [chainEnd_rule_singleton, hblock]
  · exact hblock

/-- A body is blank without statements, and with a single one that is folded down to a token. -/
theorem isBlank_body (above : List SyntaxTree) :
    isBlank {} (some (compressed parts.body above)) ↔
      parts.statements = [] ∨
        ∃ statement, parts.statements = [statement] ∧ statement.chainEnd.children = [] := by
  have hlist : childOfType? (compressed parts.body above) "innerStatementList" =
      some (compressed parts.statementList (parts.body.compress :: above)) := by
    rw [childOfType?_compressed, chainEnd_body]
    simp +decide [block, statementList]
  simp only [isBlank, hlist, isLeaf_compressed, List.isEmpty_iff]
  by_cases hone : parts.statements.length = 1
  · obtain ⟨statement, hstatements⟩ := List.length_eq_one_iff.mp hone
    rw [statementList, hstatements, chainEnd_rule_singleton]
    simp
  · rw [statementList, chainEnd_rule _ _ _ hone, children_rule]
    constructor
    · exact Or.inl
    · rintro (hnone | ⟨statement, hstatements, -⟩)
      · exact hnone
      · simp [hstatements] at hone

/-- A body is a child of one of the two kinds that are searched for. -/
theorem first_body_mem : parts.body.value.label.first ∈ ["blockStatement", "methodBody"] := by
  rw [body]
  split <;> simp +decide [block]

end Parts

namespace RawFunction

variable (function : RawFunction)

/-- The only one of the parts that is accepted is found among the children, in whatever order. -/
theorem find?_children {accept : SyntaxTree → Bool} {part : SyntaxTree}
    (h : (function.keyword :: function.parameterList :: function.body :: function.others).filter
      accept = [part]) : function.children.find? accept = some part := by
  have hperm := function.children_perm.filter accept
  rw [h] at hperm
  have hfilter : function.children.filter accept = [part] := List.perm_singleton.mp hperm
  rw [← List.head?_filter, hfilter, List.head?_cons]

theorem find?_parameterList :
    function.children.find? (fun child ↦ child.value.label.first == "formalParameterList") =
      some function.parameterList := by
  apply function.find?_children
  have hbody : function.body.value.label.first ≠ "formalParameterList" := by
    intro hfirst
    have hmem := function.first_body_mem
    rw [hfirst] at hmem
    exact absurd hmem (by decide)
  have hothers : function.others.filter
      (fun child ↦ child.value.label.first == "formalParameterList") = [] := by
    apply List.filter_eq_nil_iff.mpr
    intro other hother haccept
    have hfirst := function.others_first other hother
    rw [beq_iff_eq.mp haccept] at hfirst
    exact hfirst (by decide)
  simp +decide [Parts.keyword, Parts.parameterList, hbody, hothers]

theorem find?_body :
    function.children.find?
        (fun child ↦ ["blockStatement", "methodBody"].contains child.value.label.first) =
      some function.body := by
  apply function.find?_children
  have hbody : ["blockStatement", "methodBody"].contains function.body.value.label.first := by
    simpa using function.first_body_mem
  have hothers : function.others.filter
      (fun child ↦ ["blockStatement", "methodBody"].contains child.value.label.first) = [] := by
    apply List.filter_eq_nil_iff.mpr
    intro other hother haccept
    apply function.others_first other hother
    exact List.mem_cons_of_mem _ (List.contains_iff_mem.mp haccept)
  rw [List.filter_cons, List.filter_cons, List.filter_cons, if_pos hbody, hothers]
  simp +decide [Parts.keyword, Parts.parameterList]

theorem chainEnd_tree : function.tree.chainEnd = function.tree := by
  apply Tree.chainEnd_stop
  rw [function.children_perm.length_eq]
  simp

theorem isFunction_compressed {start : SyntaxTree} (h : start.chainEnd = function.tree)
    (above : List SyntaxTree) : isFunction {} (compressed start above) := by
  have hmem : function.keyword ∈ function.children :=
    function.children_perm.mem_iff.mpr (by simp)
  have hkeyword : (childOfType? (compressed start above) "Function_").isSome := by
    rw [childOfType?_compressed, h, Option.isSome_map, List.find?_isSome]
    refine ⟨function.keyword, hmem, ?_⟩
    rw [Parts.keyword, label_terminal]
    decide
  simp [isFunction, hkeyword]

theorem body?_compressed {start : SyntaxTree} (h : start.chainEnd = function.tree)
    (above : List SyntaxTree) : body? {} (compressed start above) =
      some (compressed function.body (start.compress :: above)) := by
  rw [body?, find?_children_compressed _ _ fun child above ↦ firstIn_compressed child above _, h,
    RawFunction.tree, Tree.children_node]
  exact congrArg (Option.map _) function.find?_body

/-- A descriptor that says of a function what its raw tree says. -/
structure IsDescribedBy (root : Cursor Entry) (info : FunctionInfo (Cursor Entry)) : Prop where
  root_eq : info.root = root
  parameters_eq : info.parameters = some (function.parameters.map RawParameter.declared)
  body_eq : info.body = some (compressed function.body (root.focus :: root.above))
  isBlank_iff : info.isBlank ↔ function.statements = [] ∨
    ∃ statement, function.statements = [statement] ∧ statement.chainEnd.children = []
  isConstructor_eq : info.isConstructor = false

end RawFunction

/-! ## Extraction -/

/-- Once its parameters are found, a function is described, whatever encloses it. -/
theorem exists_outcome_extract {ν : Type} [Navigable ν] {labels : Labels} {root : ν} {file : String}
    {found : List Parameter} (h : (parameters labels file
      ((childOfType? root labels.functionName).bind token) root).outcome = .ok (.found found)) :
    ∃ enclosing, (extract labels file root).outcome = .ok
      { root := root
        file := file
        nameNode := childOfType? root labels.functionName
        parameters := some found
        returnType := typeHint labels root
        modifiers := none
        annotations := none
        enclosing := enclosing
        isConstructor := false
        body := body? labels root
        isBlank := isBlank labels (body? labels root) } := by
  obtain ⟨enclosing, hcontained⟩ := Task.exists_outcome_contain
    ⟨.php, file, "enclosing element for " ++
      nameShown ((childOfType? root labels.functionName).bind token)⟩
    (Mining.ofExcept (enclosing? labels root))
  refine ⟨enclosing, ?_⟩
  unfold extract
  rw [Mining.outcome_bind h, Mining.outcome_bind rfl, Mining.outcome_bind hcontained]
  rfl

/-- Wherever a function stands in a raw tree, compression leaves one node of it, and extraction
reads the function off that node. -/
theorem extract_image_declaration {tree : SyntaxTree} {place : Cursor Entry}
    {function : RawFunction} (hplace : place ∈ places tree)
    (hfocus : place.focus = function.tree) (file : String) :
    place.image ∈ places tree.compress ∧ isFunction {} place.image ∧
      ∃ info, (extract {} file place.image).outcome = .ok info ∧
        function.IsDescribedBy place.image info := by
  obtain ⟨hmem, start, above, himage, hchain⟩ := exists_image_eq_compressed place hplace
  have hend : start.chainEnd = function.tree := by
    calc
      start.chainEnd = place.focus.chainEnd := hchain
      _ = function.tree.chainEnd := by rw [hfocus]
      _ = function.tree := function.chainEnd_tree
  have hlist : childOfType? (compressed start above) "formalParameterList" =
      some (compressed function.parameterList (start.compress :: above)) := by
    rw [childOfType?_compressed, hend, RawFunction.tree, Tree.children_node,
      function.find?_parameterList, Option.map_some]
  have hbody := function.body?_compressed hend above
  have hparameters := congrArg Mining.outcome (function.parameters_of_list hlist file
    ((childOfType? (compressed start above) "identifier").bind token))
  obtain ⟨enclosing, houtcome⟩ := exists_outcome_extract hparameters
  rw [himage] at hmem ⊢
  refine ⟨hmem, function.isFunction_compressed hend above, _, houtcome, ?_⟩
  exact
    { root_eq := rfl
      parameters_eq := rfl
      body_eq := hbody
      isBlank_iff := by
        change Php.isBlank {} (body? {} (compressed start above)) ↔ _
        rw [hbody]
        exact function.isBlank_body _
      isConstructor_eq := rfl }

/-- `($start = 0, int &...$parts) { ; }`. -/
def sumParts : Parts where
  details := unmarked
  parameters :=
    [{ details := unmarked
       hint := none
       isReference := false
       isVariadic := false
       name := "$start"
       name_ne_empty := by decide
       default := some ⟨word unmarked "constantInitializer" "0", rfl⟩ },
     { details := unmarked
       hint := some ⟨⟨word unmarked "typeHint" "int", rfl⟩, "int", rfl⟩
       isReference := true
       isVariadic := true
       name := "$parts"
       name_ne_empty := by decide
       default := none }]
  statements := [word unmarked "emptyStatement_" ";"]
  isMethod := false

/-- The parts behind the keyword and a name. -/
def sumFunction : RawFunction where
  toParts := sumParts
  entry := ⟨⟨"functionDeclaration"⟩, none, none⟩
  others := [word unmarked "identifier" "sum"]
  others_first := by simp +decide
  children := [sumParts.keyword, word unmarked "identifier" "sum", sumParts.parameterList,
    sumParts.body]
  children_perm := (List.perm_append_singleton (word unmarked "identifier" "sum")
    [sumParts.parameterList, sumParts.body]).symm.cons sumParts.keyword

/-- The function is folded into the statement it is. -/
def sumStatement : SyntaxTree :=
  rule unmarked "topStatement" [sumFunction.tree]

theorem extract_image_declaration_sum :
    (⟨sumFunction.tree, [sumStatement]⟩ : Cursor Entry) ∈ places sumStatement ∧
      ∃ info, (extract {} "sum.php" (image ⟨sumFunction.tree, [sumStatement]⟩)).outcome =
          .ok info ∧
        info.parameters = some [⟨"$start", none⟩, ⟨"&...$parts", some "int"⟩] ∧
        info.isBlank := by
  have hplace : (⟨sumFunction.tree, [sumStatement]⟩ : Cursor Entry) ∈ places sumStatement :=
    child_mem_places (self_mem_placesBelow [] sumStatement) (by simp [sumStatement])
  obtain ⟨-, -, info, houtcome, hinfo⟩ := extract_image_declaration hplace rfl "sum.php"
  exact ⟨hplace, info, houtcome, hinfo.parameters_eq.trans (by decide),
    hinfo.isBlank_iff.mpr (Or.inr ⟨_, rfl, rfl⟩)⟩

end SyntaxMining.Php
