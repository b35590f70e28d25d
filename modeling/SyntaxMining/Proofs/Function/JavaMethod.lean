import SyntaxMining.Function.Java
import SyntaxMining.Proofs.Function.Grammar
import SyntaxMining.Proofs.Function.Mining

/-!
# Methods of Java

The raw tree of a method holds its result type, its name, its parameters and its statements. After
compression an empty parameter list is absent, a single parameter is the list, and several
parameters are its children; types, names and statements of any shape are folded as well.
Extraction reads the same method off all these forms.
-/

namespace SyntaxMining.Java

open Query Grammar Cursor

/-- A formal parameter, the last one of a method or not. -/
structure RawParameter where
  details : Details
  isLast : Bool
  modifiers : List (Phrase "variableModifier")
  type : Phrase "typeType"
  isVariadic : Bool
  name : Phrase "variableDeclaratorId"
  name_ne_empty : name.tree.text ≠ ""

namespace RawParameter

variable (parameter : RawParameter)

def label : String :=
  if parameter.isLast then "lastFormalParameter" else "formalParameter"

def ellipsis : List SyntaxTree :=
  if parameter.isVariadic then [terminal parameter.details "ELLIPSIS"] else []

def tree : SyntaxTree :=
  rule parameter.details parameter.label
    (parameter.modifiers.map Phrase.tree ++ parameter.type.tree ::
      (parameter.ellipsis ++ [parameter.name.tree]))

/-- The comma in front of a parameter that is not the first. -/
def comma : SyntaxTree :=
  terminal parameter.details "COMMA"

/-- What extraction has to say about a parameter. -/
def declared : Parameter :=
  ⟨parameter.name.tree.text, some parameter.type.tree.text⟩

end RawParameter

/-- A method and everything a parser knows of it. -/
structure RawMethod where
  details : Details
  returnType : Phrase "typeTypeOrVoid"
  name : String
  parameters : List RawParameter
  statements : List SyntaxTree

namespace RawMethod

variable (method : RawMethod)

def parameterList : SyntaxTree :=
  rule method.details "formalParameterList"
    (separated RawParameter.comma (fun parameter ↦ [parameter.tree]) method.parameters)

/-- The parameters in parentheses; no parameters leave no list behind. -/
def formalParameters : SyntaxTree :=
  rule method.details "formalParameters"
    (terminal method.details "LPAREN" ::
      ((if method.parameters = [] then [] else [method.parameterList]) ++
        [terminal method.details "RPAREN"]))

def body : SyntaxTree :=
  rule method.details "methodBody"
    [rule method.details "block"
      (terminal method.details "LBRACE" ::
        (method.statements ++ [terminal method.details "RBRACE"]))]

def tree : SyntaxTree :=
  rule method.details "methodDeclaration"
    [method.returnType.tree, word method.details "IDENTIFIER" method.name, method.formalParameters,
      method.body]

end RawMethod

/-! ## Parameters -/

theorem RawParameter.chainEnd_tree (parameter : RawParameter) :
    parameter.tree.chainEnd = parameter.tree := by
  apply chainEnd_rule
  simp
  omega

theorem RawParameter.first_tree_mem (parameter : RawParameter) :
    ({} : Labels).singleParameters.contains parameter.tree.value.label.first := by
  cases h : parameter.isLast <;> simp +decide [RawParameter.tree, RawParameter.label, h]

theorem RawParameter.last_tree_mem (parameter : RawParameter) :
    ({} : Labels).singleParameters.contains parameter.tree.value.label.last := by
  cases h : parameter.isLast <;> simp +decide [RawParameter.tree, RawParameter.label, h]

/-- A parameter is read wherever its chain starts. -/
theorem parameter_compressed (parameter : RawParameter) {start : SyntaxTree}
    (h : start.chainEnd = parameter.tree) (above : List SyntaxTree) :
    Java.parameter {} (compressed start above) = .ok parameter.declared := by
  have hname : childOfType? (compressed start above) "variableDeclaratorId" =
      some (compressed parameter.name.tree (start.compress :: above)) := by
    rw [childOfType?_compressed, h, RawParameter.tree, children_rule,
      find?_phrases_append (by decide), RawParameter.ellipsis]
    split <;> simp +decide
  have htype : childOfType? (compressed start above) "typeType" =
      some (compressed parameter.type.tree (start.compress :: above)) := by
    rw [childOfType?_compressed, h, RawParameter.tree, children_rule,
      find?_phrases_append (by decide)]
    simp +decide
  simp [Java.parameter, hname, htype, parameter.name_ne_empty, RawParameter.declared]

namespace RawMethod

variable (method : RawMethod)

theorem chainEnd_tree : method.tree.chainEnd = method.tree :=
  chainEnd_rule _ _ _ (by simp)

/-- The list of a single parameter is folded down to that parameter, any other list is kept. -/
theorem mapM_parameterNodes (above : List SyntaxTree) :
    (parameterNodes {} (compressed method.parameterList above)).mapM (Java.parameter {}) =
      .ok (method.parameters.map RawParameter.declared) := by
  by_cases hone : method.parameters.length = 1
  · obtain ⟨parameter, hparameters⟩ := List.length_eq_one_iff.mp hone
    have hend : method.parameterList.chainEnd = parameter.tree := by
      rw [parameterList, hparameters]
      exact (chainEnd_rule_singleton _ _ _).trans parameter.chainEnd_tree
    have hfolded : lastIn (compressed method.parameterList above)
        ({} : Labels).singleParameters := by
      rw [lastIn_compressed, hend]
      exact parameter.last_tree_mem
    rw [parameterNodes, if_pos hfolded, List.mapM_cons, parameter_compressed parameter hend,
      hparameters]
    rfl
  · have hend : method.parameterList.chainEnd = method.parameterList :=
      chainEnd_rule _ _ _ (length_separated_ne_one _ _ (by simp) hone)
    have hkept : ¬ lastIn (compressed method.parameterList above)
        ({} : Labels).singleParameters := by
      rw [lastIn_compressed, hend, parameterList, label_rule]
      decide
    have hcomma : ∀ parameter : RawParameter,
        ¬ ({} : Labels).singleParameters.contains parameter.comma.value.label.first := by
      intro parameter
      rw [RawParameter.comma, label_terminal]
      decide
    have hnodes : parameterNodes {} (compressed method.parameterList above) =
        method.parameters.map fun parameter ↦
          compressed parameter.tree (method.parameterList.compress :: above) := by
      rw [parameterNodes, if_neg hkept, filter_children_compressed _ _
          fun child above ↦ firstIn_compressed child above _, hend, parameterList, children_rule,
        filter_separated_singleton RawParameter.comma RawParameter.tree hcomma
          RawParameter.first_tree_mem, List.map_map]
      rfl
    rw [hnodes]
    apply mapM_map_eq_ok
    intro parameter _
    exact parameter_compressed parameter parameter.chainEnd_tree _

theorem parameters_compressed {start : SyntaxTree} (h : start.chainEnd = method.tree)
    (above : List SyntaxTree) : Java.parameters {} (compressed start above) =
      .ok (.found (method.parameters.map RawParameter.declared)) := by
  have hparentheses : childOfType? (compressed start above) "formalParameters" =
      some (compressed method.formalParameters (start.compress :: above)) := by
    rw [childOfType?_compressed, h]
    simp +decide [tree, formalParameters]
  have hend : method.formalParameters.chainEnd = method.formalParameters := by
    apply chainEnd_rule
    simp
  by_cases hempty : method.parameters = []
  · have hlist : parameterList? {} (compressed start above) = none := by
      rw [parameterList?, hparentheses, Option.bind_some, childOfType?_compressed, hend]
      simp +decide [formalParameters, hempty]
    rw [Java.parameters, hlist, hempty]
    rfl
  · have hlist : parameterList? {} (compressed start above) =
        some (compressed method.parameterList
          (method.formalParameters.compress :: start.compress :: above)) := by
      rw [parameterList?, hparentheses, Option.bind_some, childOfType?_compressed, hend]
      simp +decide [formalParameters, hempty, parameterList]
    rw [Java.parameters, hlist]
    simp only [method.mapM_parameterNodes]

theorem childOfType?_name {start : SyntaxTree} (h : start.chainEnd = method.tree)
    (above : List SyntaxTree) : childOfType? (compressed start above) "IDENTIFIER" =
      some (compressed (word method.details "IDENTIFIER" method.name)
        (start.compress :: above)) := by
  rw [childOfType?_compressed, h]
  simp +decide [tree]

theorem returnType_compressed {start : SyntaxTree} (h : start.chainEnd = method.tree)
    (above : List SyntaxTree) :
    Java.returnType {} (compressed start above) = some method.returnType.tree.text := by
  rw [Java.returnType, childOfType?_compressed, h]
  simp +decide [tree]

theorem body?_compressed {start : SyntaxTree} (h : start.chainEnd = method.tree)
    (above : List SyntaxTree) : body? {} (compressed start above) =
      some (compressed method.body (start.compress :: above)) := by
  rw [body?, childOfType?_compressed, h]
  simp +decide [tree, formalParameters, body]

/-- Two braces are all that is left of an empty block. -/
theorem isBlank_body (above : List SyntaxTree) :
    Java.isBlank {} (some (compressed method.body above)) = method.statements.isEmpty := by
  have hend : method.body.chainEnd.children.length = method.statements.length + 2 := by
    rw [body, chainEnd_rule_singleton, chainEnd_rule _ _ _ (by simp)]
    simp
  have hbraces : ({} : Labels).blankBodyChildren = 2 := rfl
  rw [Java.isBlank, length_children_compressed, hend, hbraces, Bool.eq_iff_iff,
    decide_eq_true_iff, List.isEmpty_iff_length_eq_zero]
  omega

/-- A descriptor that says of a method what its raw tree says. -/
structure IsDescribedBy (root : Cursor Entry) (info : FunctionInfo (Cursor Entry)) : Prop where
  root_eq : info.root = root
  name_eq : info.name = some method.name
  parameters_eq : info.parameters = some (method.parameters.map RawParameter.declared)
  returnType_eq : info.returnType = some method.returnType.tree.text
  body_eq : info.body = some (compressed method.body (root.focus :: root.above))
  isBlank_eq : info.isBlank = method.statements.isEmpty
  isConstructor_eq : info.isConstructor = false

end RawMethod

/-! ## Extraction -/

/-- Once its parameters are found, a method is described, whatever encloses it. -/
theorem exists_outcome_extract {ν : Type} [Navigable ν] {labels : Labels} {root : ν}
    {found : List Parameter} (h : parameters labels root = .ok (.found found)) (file : String) :
    ∃ enclosing, (extract labels file root).outcome = .ok
      { root := root
        file := file
        nameNode := childOfType? root labels.methodName
        parameters := some found
        returnType := returnType labels root
        modifiers := modifiers labels root
        annotations := annotations labels root
        enclosing := enclosing
        isConstructor := false
        body := body? labels root
        isBlank := isBlank labels (body? labels root) } := by
  obtain ⟨enclosing, hcontained⟩ := Task.exists_outcome_contain
    ⟨.java, file, "enclosing class"⟩ (Mining.ofExcept (enclosing? labels root))
  have hfound : (Mining.ofExcept (parameters labels root)).outcome = .ok (.found found) := by
    rw [Mining.outcome_ofExcept, h]
  refine ⟨enclosing, ?_⟩
  unfold extract
  rw [Mining.outcome_bind hfound, Mining.outcome_bind rfl, Mining.outcome_bind hcontained]
  rfl

/-- Wherever a method stands in a raw tree, compression leaves one node of it, and extraction reads
the method off that node. -/
theorem extract_image_method {tree : SyntaxTree} {place : Cursor Entry} {method : RawMethod}
    (hplace : place ∈ places tree) (hfocus : place.focus = method.tree) (file : String) :
    place.image ∈ places tree.compress ∧ isFunction {} place.image ∧
      ∃ info, (extract {} file place.image).outcome = .ok info ∧
        method.IsDescribedBy place.image info := by
  obtain ⟨hmem, start, above, himage, hchain⟩ := exists_image_eq_compressed place hplace
  have hend : start.chainEnd = method.tree := by
    calc
      start.chainEnd = place.focus.chainEnd := hchain
      _ = method.tree.chainEnd := by rw [hfocus]
      _ = method.tree := method.chainEnd_tree
  obtain ⟨enclosing, houtcome⟩ :=
    exists_outcome_extract (method.parameters_compressed hend above) file
  rw [himage] at hmem ⊢
  refine ⟨hmem, ?_, _, houtcome, ?_⟩
  · rw [isFunction, lastIs_compressed, hend, RawMethod.tree, label_rule]
    decide
  · exact
      { root_eq := rfl
        name_eq := by
          change (childOfType? (compressed start above) "IDENTIFIER").bind token = _
          rw [method.childOfType?_name hend, Option.bind_some, token_compressed]
          rfl
        parameters_eq := rfl
        returnType_eq := method.returnType_compressed hend above
        body_eq := method.body?_compressed hend above
        isBlank_eq := by
          change Java.isBlank {} (body? {} (compressed start above)) = _
          rw [method.body?_compressed hend, method.isBlank_body]
        isConstructor_eq := rfl }

/-- `long sum(final int... values) {}`. -/
def sumMethod : RawMethod where
  details := unmarked
  returnType := ⟨word unmarked "typeTypeOrVoid" "long", rfl⟩
  name := "sum"
  parameters :=
    [{ details := unmarked
       isLast := true
       modifiers := [⟨word unmarked "variableModifier" "final", rfl⟩]
       type := ⟨word unmarked "typeType" "int", rfl⟩
       isVariadic := true
       name := ⟨word unmarked "variableDeclaratorId" "values", rfl⟩
       name_ne_empty := by decide }]
  statements := []

/-- The method is folded into the declaration of the member it is. -/
def sumMember : SyntaxTree :=
  rule unmarked "memberDeclaration" [sumMethod.tree]

theorem extract_image_method_sum :
    (⟨sumMethod.tree, [sumMember]⟩ : Cursor Entry) ∈ places sumMember ∧
      ∃ info, (extract {} "Sum.java" (image ⟨sumMethod.tree, [sumMember]⟩)).outcome = .ok info ∧
        info.name = some "sum" ∧ info.parameters = some [⟨"values", some "int"⟩] ∧
        info.returnType = some "long" ∧ info.isBlank = true := by
  have hplace : (⟨sumMethod.tree, [sumMember]⟩ : Cursor Entry) ∈ places sumMember :=
    child_mem_places (self_mem_placesBelow [] sumMember) (by simp [sumMember])
  obtain ⟨-, -, info, houtcome, hinfo⟩ := extract_image_method hplace rfl "Sum.java"
  exact ⟨hplace, info, houtcome, hinfo.name_eq, hinfo.parameters_eq.trans (by decide),
    hinfo.returnType_eq.trans (by decide), hinfo.isBlank_eq.trans (by decide)⟩

end SyntaxMining.Java
