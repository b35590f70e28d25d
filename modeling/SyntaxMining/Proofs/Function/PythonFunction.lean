import SyntaxMining.Function.Python
import SyntaxMining.Proofs.Function.Grammar
import SyntaxMining.Proofs.Function.Mining

/-!
# Functions of Python

The raw tree of a function holds its name, its arguments, the annotation of its result and its
suite. Arguments are parameters and bare stars between commas. A parameter is a name with or
without annotation, behind stars or not, before a default or not. After compression a sole
parameter is the whole argument list when nothing else stands beside it, and a name without
annotation is the whole parameter. Extraction reads the same function off all these forms.
-/

namespace SyntaxMining.Python

open Query Grammar Cursor

/-- Marks in front of a parameter that takes several arguments. -/
inductive Stars where
  | one
  | two

def Stars.label : Stars → String
  | one => "STAR"
  | two => "POWER"

structure RawParameter where
  details : Details
  stars : Option Stars
  name : String
  name_ne_empty : name ≠ ""
  annotation : Option (Phrase "test")
  default : Option (Phrase "test")

namespace RawParameter

variable (parameter : RawParameter)

/-- The name with its annotation. -/
def definition : SyntaxTree :=
  rule parameter.details "tfpdef"
    (word parameter.details "NAME" parameter.name ::
      match parameter.annotation with
      | none => []
      | some annotation => [terminal parameter.details "COLON", annotation.tree])

def starTrees : List SyntaxTree :=
  match parameter.stars with
  | none => []
  | some stars => [terminal parameter.details stars.label]

def defaultTrees : List SyntaxTree :=
  match parameter.default with
  | none => []
  | some value => [terminal parameter.details "ASSIGN", value.tree]

def trees : List SyntaxTree :=
  parameter.starTrees ++ parameter.definition :: parameter.defaultTrees

/-- What extraction has to say about a parameter. -/
def declared : Parameter :=
  ⟨parameter.name, parameter.annotation.map fun annotation ↦ annotation.tree.text⟩

end RawParameter

/-- What stands between two commas of an argument list. -/
inductive Argument where
  | named (parameter : RawParameter)
  | bareStar (details : Details)

namespace Argument

def details : Argument → Details
  | named parameter => parameter.details
  | bareStar details => details

/-- The comma in front of an argument that is not the first. -/
def comma (argument : Argument) : SyntaxTree :=
  terminal argument.details "COMMA"

def trees : Argument → List SyntaxTree
  | named parameter => parameter.trees
  | bareStar details => [terminal details "STAR"]

def parameters : Argument → List RawParameter
  | named parameter => [parameter]
  | bareStar _ => []

end Argument

/-- A function and everything a parser knows of it. -/
structure RawFunction where
  details : Details
  name : String
  arguments : List Argument
  /-- The comma behind the last argument. -/
  trailing : Option Details
  returnType : Option (Phrase "test")
  body : Phrase "suite"

namespace RawFunction

variable (function : RawFunction)

def parameters : List RawParameter :=
  function.arguments.flatMap Argument.parameters

def trailingTrees : List SyntaxTree :=
  match function.trailing with
  | none => []
  | some details => [terminal details "COMMA"]

def argumentTrees : List SyntaxTree :=
  separated Argument.comma Argument.trees function.arguments ++ function.trailingTrees

def argumentList : SyntaxTree :=
  rule function.details "typedargslist" function.argumentTrees

/-- The arguments in parentheses; no arguments leave no list behind. -/
def parentheses : SyntaxTree :=
  rule function.details "parameters"
    (terminal function.details "OPEN_PAREN" ::
      ((if function.arguments = [] then [] else [function.argumentList]) ++
        [terminal function.details "CLOSE_PAREN"]))

def returnTrees : List SyntaxTree :=
  match function.returnType with
  | none => []
  | some annotation => [terminal function.details "ARROW", annotation.tree]

def tree : SyntaxTree :=
  rule function.details "funcdef"
    (terminal function.details "DEF" :: word function.details "NAME" function.name ::
      function.parentheses :: (function.returnTrees ++
        [terminal function.details "COLON", function.body.tree]))

end RawFunction

/-! ## Parameters -/

namespace RawParameter

variable (parameter : RawParameter)

/-- A parameter is folded down to its name or ends in its definition. -/
theorem last_chainEnd_definition :
    ["tfpdef", "NAME"].contains parameter.definition.chainEnd.value.label.last := by
  cases hannotation : parameter.annotation with
  | none =>
    rw [definition, hannotation, chainEnd_rule_singleton, chainEnd_word, label_word]
    decide
  | some annotation =>
    rw [definition, hannotation, chainEnd_rule _ _ _ (by simp), label_rule]
    decide

/-- Only the definition of a parameter counts among the trees it contributes to a list. -/
theorem filter_trees : parameter.trees.filter
    (fun child ↦ child.value.label.first == "tfpdef") = [parameter.definition] := by
  have hstars : parameter.starTrees.filter
      (fun child ↦ child.value.label.first == "tfpdef") = [] := by
    match hstars : parameter.stars with
    | none => simp [starTrees, hstars]
    | some .one => simp +decide [starTrees, hstars, Stars.label]
    | some .two => simp +decide [starTrees, hstars, Stars.label]
  have hdefault : parameter.defaultTrees.filter
      (fun child ↦ child.value.label.first == "tfpdef") = [] := by
    cases hdefault : parameter.default with
    | none => simp [defaultTrees, hdefault]
    | some value => simp +decide [defaultTrees, hdefault]
  have hdefinition : parameter.definition.value.label.first == "tfpdef" := by
    rw [definition, label_rule]
    decide
  rw [trees, List.filter_append, hstars, List.nil_append, List.filter_cons, if_pos hdefinition,
    hdefault]

/-- A parameter that contributes one tree has neither stars nor a default. -/
theorem trees_eq_singleton (h : parameter.trees.length = 1) :
    parameter.trees = [parameter.definition] := by
  rw [trees, List.length_append, List.length_cons] at h
  have hstars : parameter.starTrees = [] := List.length_eq_zero_iff.mp (by omega)
  have hdefault : parameter.defaultTrees = [] := List.length_eq_zero_iff.mp (by omega)
  rw [trees, hstars, hdefault, List.nil_append]

end RawParameter

/-- A parameter is read wherever its chain starts. -/
theorem parameter_compressed (parameter : RawParameter) {start : SyntaxTree}
    (h : start.chainEnd = parameter.definition.chainEnd) (above : List SyntaxTree) :
    Python.parameter {} (compressed start above) = .ok parameter.declared := by
  cases hannotation : parameter.annotation with
  | none =>
    have hend : start.chainEnd = word parameter.details "NAME" parameter.name := by
      rw [h, RawParameter.definition, hannotation, chainEnd_rule_singleton, chainEnd_word]
    have hname : nameNode? {} (compressed start above) = some (compressed start above) := by
      rw [nameNode?, lastIs_compressed, hend, label_word]
      exact if_pos (by decide)
    have htype : childOfType? (compressed start above) "test" = none := by
      rw [childOfType?_compressed, hend]
      rfl
    simp [Python.parameter, hname, htype, hend, parameter.name_ne_empty, RawParameter.declared,
      hannotation]
  | some annotation =>
    have hend : start.chainEnd = parameter.definition := by
      rw [h, RawParameter.definition, hannotation, chainEnd_rule _ _ _ (by simp)]
    have hname : nameNode? {} (compressed start above) = some (compressed
        (word parameter.details "NAME" parameter.name) (start.compress :: above)) := by
      rw [nameNode?, lastIs_compressed, childOfType?_compressed, hend]
      simp +decide [RawParameter.definition]
    have htype : childOfType? (compressed start above) "test" =
        some (compressed annotation.tree (start.compress :: above)) := by
      rw [childOfType?_compressed, hend]
      simp +decide [RawParameter.definition, hannotation]
    simp [Python.parameter, hname, htype, parameter.name_ne_empty, RawParameter.declared,
      hannotation]

theorem Argument.trees_ne_nil (argument : Argument) : argument.trees ≠ [] := by
  cases argument <;> simp [Argument.trees, RawParameter.trees]

theorem Argument.filter_trees (argument : Argument) :
    argument.trees.filter (fun child ↦ child.value.label.first == "tfpdef") =
      argument.parameters.map RawParameter.definition := by
  cases argument with
  | named parameter => exact parameter.filter_trees
  | bareStar details => simp +decide [Argument.trees, Argument.parameters]

namespace RawFunction

variable (function : RawFunction)

theorem filter_argumentTrees :
    function.argumentTrees.filter (fun child ↦ child.value.label.first == "tfpdef") =
      function.parameters.map RawParameter.definition := by
  have hcomma : ∀ argument : Argument, ¬ (argument.comma.value.label.first == "tfpdef") := by
    intro argument
    rw [Argument.comma, label_terminal]
    decide
  have htrailing : function.trailingTrees.filter
      (fun child ↦ child.value.label.first == "tfpdef") = [] := by
    cases htrailing : function.trailing with
    | none => simp [trailingTrees, htrailing]
    | some details => simp +decide [trailingTrees, htrailing]
  rw [argumentTrees, List.filter_append, htrailing, List.append_nil,
    filter_separated _ _ hcomma, parameters, List.map_flatMap]
  apply List.flatMap_congr
  intro argument _
  exact argument.filter_trees

theorem arguments_eq_singleton (h : function.arguments ≠ [])
    (hone : function.argumentTrees.length = 1) :
    ∃ argument, function.arguments = [argument] ∧ function.argumentTrees = argument.trees ∧
      argument.trees.length = 1 := by
  have hlength := two_mul_length_le_separated Argument.comma Argument.trees
    Argument.trees_ne_nil function.arguments
  have hpositive := List.length_pos_iff.mpr h
  rw [argumentTrees, List.length_append] at hone
  obtain ⟨argument, hargument⟩ : ∃ argument, function.arguments = [argument] :=
    List.length_eq_one_iff.mp (by omega)
  have htrees : separated Argument.comma Argument.trees function.arguments = argument.trees := by
    rw [hargument, separated, List.flatMap_nil, List.append_nil]
  have hnonempty := List.length_pos_iff.mpr argument.trees_ne_nil
  rw [htrees] at hone
  have htrailing : function.trailingTrees = [] := List.length_eq_zero_iff.mp (by omega)
  refine ⟨argument, hargument, ?_, by omega⟩
  rw [argumentTrees, htrees, htrailing, List.append_nil]

/-- An argument list is folded down to a sole parameter, or it ends in a node that is no parameter
and whose children are searched. -/
theorem argumentList_cases (h : function.arguments ≠ []) :
    (∃ parameter, function.parameters = [parameter] ∧
      function.argumentList.chainEnd = parameter.definition.chainEnd) ∨
    (["tfpdef", "NAME"].contains function.argumentList.chainEnd.value.label.last = false ∧
      function.argumentList.chainEnd.children.filter
        (fun child ↦ child.value.label.first == "tfpdef") =
          function.parameters.map RawParameter.definition) := by
  by_cases hone : function.argumentTrees.length = 1
  · -- One tree in the list: one argument that is a bare star or a parameter with nothing beside it.
    obtain ⟨argument, hargument, htrees, hsole⟩ := function.arguments_eq_singleton h hone
    cases argument with
    | named parameter =>
      left
      refine ⟨parameter, by rw [parameters, hargument]; rfl, ?_⟩
      rw [argumentList, htrees, Argument.trees, parameter.trees_eq_singleton hsole,
        chainEnd_rule_singleton]
    | bareStar details =>
      right
      have hend : function.argumentList.chainEnd = terminal details "STAR" := by
        rw [argumentList, htrees, Argument.trees, chainEnd_rule_singleton, chainEnd_terminal]
      rw [hend]
      constructor
      · rw [label_terminal]
        decide
      · rw [parameters, hargument]
        rfl
  · right
    have hend : function.argumentList.chainEnd = function.argumentList :=
      chainEnd_rule _ _ _ hone
    rw [hend]
    constructor
    · rw [argumentList, label_rule]
      decide
    · exact function.filter_argumentTrees

theorem mapM_parameterNodes (h : function.arguments ≠ []) (above : List SyntaxTree) :
    (parameterNodes {} (compressed function.argumentList above)).mapM (Python.parameter {}) =
      .ok (function.parameters.map RawParameter.declared) := by
  rcases function.argumentList_cases h with ⟨parameter, hparameters, hend⟩ | ⟨hlast, hchildren⟩
  · have hfolded : lastIn (compressed function.argumentList above) ["tfpdef", "NAME"] := by
      rw [lastIn_compressed, hend]
      exact parameter.last_chainEnd_definition
    rw [parameterNodes, if_pos hfolded, List.mapM_cons, parameter_compressed parameter hend,
      hparameters]
    rfl
  · have hkept : ¬ lastIn (compressed function.argumentList above) ["tfpdef", "NAME"] := by
      rw [lastIn_compressed, hlast]
      decide
    have hnodes : parameterNodes {} (compressed function.argumentList above) =
        function.parameters.map fun parameter ↦
          compressed parameter.definition (function.argumentList.compress :: above) := by
      rw [parameterNodes, if_neg hkept, childrenOfType_compressed, hchildren, List.map_map]
      rfl
    rw [hnodes]
    apply mapM_map_eq_ok
    intro parameter _
    exact parameter_compressed parameter rfl _

theorem chainEnd_parentheses : function.parentheses.chainEnd = function.parentheses := by
  apply chainEnd_rule
  simp

theorem parameters_compressed {start : SyntaxTree} (h : start.chainEnd = function.tree)
    (above : List SyntaxTree) : Python.parameters {} (compressed start above) =
      .ok (.found (function.parameters.map RawParameter.declared)) := by
  have hparentheses : childOfType? (compressed start above) "parameters" =
      some (compressed function.parentheses (start.compress :: above)) := by
    rw [childOfType?_compressed, h]
    simp +decide [tree, parentheses]
  by_cases hempty : function.arguments = []
  · have hlist : parameterList? {} (compressed start above) = none := by
      rw [parameterList?, hparentheses, Option.bind_some, childOfType?_compressed,
        function.chainEnd_parentheses]
      simp +decide [parentheses, hempty]
    rw [Python.parameters, hlist, parameters, hempty]
    rfl
  · have hlist : parameterList? {} (compressed start above) =
        some (compressed function.argumentList
          (function.parentheses.compress :: start.compress :: above)) := by
      rw [parameterList?, hparentheses, Option.bind_some, childOfType?_compressed,
        function.chainEnd_parentheses]
      simp +decide [parentheses, hempty, argumentList]
    rw [Python.parameters, hlist]
    simp only [function.mapM_parameterNodes hempty]

/-! ## The other parts -/

theorem chainEnd_tree : function.tree.chainEnd = function.tree := by
  apply chainEnd_rule
  simp

theorem childOfType?_name {start : SyntaxTree} (h : start.chainEnd = function.tree)
    (above : List SyntaxTree) : childOfType? (compressed start above) "NAME" =
      some (compressed (word function.details "NAME" function.name) (start.compress :: above)) := by
  rw [childOfType?_compressed, h]
  simp +decide [tree]

theorem childOfType?_body {start : SyntaxTree} (h : start.chainEnd = function.tree)
    (above : List SyntaxTree) : childOfType? (compressed start above) "suite" =
      some (compressed function.body.tree (start.compress :: above)) := by
  rw [childOfType?_compressed, h]
  cases hreturn : function.returnType <;>
    simp +decide [tree, parentheses, returnTrees, hreturn]

/-- Of all `test` subtrees below a function only the one behind the arrow is its result type. -/
theorem returnType_compressed {start : SyntaxTree} (h : start.chainEnd = function.tree)
    (above : List SyntaxTree) : Python.returnType {} (compressed start above) =
      function.returnType.map fun annotation ↦ annotation.tree.text := by
  have hlast : function.parentheses.chainEnd.value.label.last = "parameters" := by
    rw [chainEnd_parentheses, parentheses, label_rule]
    decide
  rw [Python.returnType, children_compressed, h]
  cases hreturn : function.returnType <;>
    simp +decide [tree, returnTrees, returnTypeFrom, hreturn, hlast]

/-- A descriptor that says of a function what its raw tree says. -/
structure IsDescribedBy (root : Cursor Entry) (info : FunctionInfo (Cursor Entry)) : Prop where
  root_eq : info.root = root
  name_eq : info.name = some function.name
  parameters_eq : info.parameters = some (function.parameters.map RawParameter.declared)
  returnType_eq : info.returnType = function.returnType.map fun annotation ↦ annotation.tree.text
  body_eq : info.body = some (compressed function.body.tree (root.focus :: root.above))
  isBlank_eq : info.isBlank =
    ["pass", "..."].contains (Text.trim Text.isBlank function.body.tree.text)
  isConstructor_iff : info.isConstructor ↔ function.name = "__init__"

end RawFunction

/-! ## Extraction -/

/-- Once its parameters are found, a function is described, whatever encloses it. -/
theorem exists_outcome_extract {ν : Type} [Navigable ν] {labels : Labels} {root : ν}
    {found : List Parameter} (h : parameters labels root = .ok (.found found)) (file : String) :
    ∃ enclosing, (extract labels file root).outcome = .ok
      { root := root
        file := file
        nameNode := childOfType? root labels.functionName
        parameters := some found
        returnType := returnType labels root
        modifiers := none
        annotations := none
        enclosing := enclosing
        isConstructor :=
          (childOfType? root labels.functionName).bind token == some labels.constructorName
        body := childOfType? root labels.body
        isBlank := isBlank labels (childOfType? root labels.body) } := by
  obtain ⟨enclosing, hcontained⟩ := Task.exists_outcome_contain
    ⟨.python, file, "enclosing element"⟩ (Mining.ofExcept (enclosing? labels root))
  have hfound : (Mining.ofExcept (parameters labels root)).outcome = .ok (.found found) := by
    rw [Mining.outcome_ofExcept, h]
  refine ⟨enclosing, ?_⟩
  unfold extract
  rw [Mining.outcome_bind hfound, Mining.outcome_bind rfl, Mining.outcome_bind hcontained]
  rfl

/-- Wherever a function stands in a raw tree, compression leaves one node of it, and extraction
reads the function off that node. -/
theorem extract_image_funcdef {tree : SyntaxTree} {place : Cursor Entry} {function : RawFunction}
    (hplace : place ∈ places tree) (hfocus : place.focus = function.tree) (file : String) :
    place.image ∈ places tree.compress ∧ isFunction {} place.image ∧
      ∃ info, (extract {} file place.image).outcome = .ok info ∧
        function.IsDescribedBy place.image info := by
  obtain ⟨hmem, start, above, himage, hchain⟩ := exists_image_eq_compressed place hplace
  have hend : start.chainEnd = function.tree := by
    calc
      start.chainEnd = place.focus.chainEnd := hchain
      _ = function.tree.chainEnd := by rw [hfocus]
      _ = function.tree := function.chainEnd_tree
  have hname : (childOfType? (compressed start above) "NAME").bind token =
      some function.name := by
    rw [function.childOfType?_name hend, Option.bind_some, token_compressed]
    rfl
  have hbody := function.childOfType?_body hend above
  obtain ⟨enclosing, houtcome⟩ :=
    exists_outcome_extract (function.parameters_compressed hend above) file
  rw [himage] at hmem ⊢
  refine ⟨hmem, ?_, _, houtcome, ?_⟩
  · rw [isFunction, lastIs_compressed, hend, RawFunction.tree, label_rule]
    decide
  · exact
      { root_eq := rfl
        name_eq := hname
        parameters_eq := rfl
        returnType_eq := function.returnType_compressed hend above
        body_eq := hbody
        isBlank_eq := by
          change Python.isBlank {} (childOfType? (compressed start above) "suite") = _
          rw [hbody, Python.isBlank, text_compressed]
        isConstructor_iff := by
          change (childOfType? (compressed start above) "NAME").bind token == some "__init__" ↔ _
          simp [hname] }

/-- `def __init__(self, *, width: int = 1,) -> None: pass`. -/
def initFunction : RawFunction where
  details := unmarked
  name := "__init__"
  arguments :=
    [.named
      { details := unmarked
        stars := none
        name := "self"
        name_ne_empty := by decide
        annotation := none
        default := none },
      .bareStar unmarked,
      .named
      { details := unmarked
        stars := none
        name := "width"
        name_ne_empty := by decide
        annotation := some ⟨word unmarked "test" "int", rfl⟩
        default := some ⟨word unmarked "test" "1", rfl⟩ }]
  trailing := some unmarked
  returnType := some ⟨word unmarked "test" "None", rfl⟩
  body := ⟨word unmarked "suite" "pass", rfl⟩

/-- The function is folded into the statement it is. -/
def initStatement : SyntaxTree :=
  rule unmarked "compound_stmt" [initFunction.tree]

theorem extract_image_funcdef_init :
    (⟨initFunction.tree, [initStatement]⟩ : Cursor Entry) ∈ places initStatement ∧
      ∃ info, (extract {} "box.py" (image ⟨initFunction.tree, [initStatement]⟩)).outcome =
          .ok info ∧
        info.name = some "__init__" ∧
        info.parameters = some [⟨"self", none⟩, ⟨"width", some "int"⟩] ∧
        info.returnType = some "None" ∧ info.isConstructor ∧ info.isBlank := by
  have hplace : (⟨initFunction.tree, [initStatement]⟩ : Cursor Entry) ∈ places initStatement :=
    child_mem_places (self_mem_placesBelow [] initStatement) (by simp [initStatement])
  obtain ⟨-, -, info, houtcome, hinfo⟩ := extract_image_funcdef hplace rfl "box.py"
  exact ⟨hplace, info, houtcome, hinfo.name_eq, hinfo.parameters_eq.trans (by decide),
    hinfo.returnType_eq.trans (by decide), hinfo.isConstructor_iff.mpr rfl,
    hinfo.isBlank_eq.trans (by decide)⟩

end SyntaxMining.Python
