import SyntaxMining.Function.Registry
import SyntaxMining.Proofs.Query.Keeping

/-!
# Descriptors under maps of nodes

What an extractor reads of a function lies below the function, on its way up, or among the children
of its ancestors. A map that keeps all of this takes the descriptor of a function to that of its
counterpart: the same texts, parameters and reports, and nodes that the map takes to one another.
Only annotations of Java are read one level deeper, off the children of a sibling of the function.
-/

namespace SyntaxMining

open Query

variable {α β γ ν μ : Type}

/-! ## Mapped results -/

/-- Applies a function to the result and leaves the reports as they are. -/
def Mining.map (f : α → β) (run : Mining α) : Mining β :=
  ⟨run.outcome.map f, run.reports⟩

namespace Mining

theorem map_bind (f : β → γ) (first : Mining α) (next : α → Mining β) :
    (first >>= next).map f = first >>= fun value ↦ (next value).map f := by
  obtain ⟨outcome, reports⟩ := first
  cases outcome with
  | error failure => rfl
  | ok value => rfl

theorem bind_map (f : α → β) (first : Mining α) (next : β → Mining γ) :
    first.map f >>= next = first >>= fun value ↦ next (f value) := by
  obtain ⟨outcome, reports⟩ := first
  cases outcome with
  | error failure => rfl
  | ok value => rfl

end Mining

theorem Task.contain_map (task : Task) (f : α → β) (result : Except Failure (Option α)) :
    task.contain (.ofExcept (result.map (Option.map f))) =
      (task.contain (.ofExcept result)).map (Option.map f) := by
  cases result with
  | error failure => rfl
  | ok value => rfl

def Enclosing.map (move : ν → μ) (element : Enclosing ν) : Enclosing μ :=
  ⟨element.kind, element.name, move element.root⟩

/-- Takes the nodes of a descriptor to their counterparts. -/
def FunctionInfo.map (move : ν → μ) (info : FunctionInfo ν) : FunctionInfo μ where
  root := move info.root
  file := info.file
  nameNode := info.nameNode.map move
  parameters := info.parameters
  returnType := info.returnType
  modifiers := info.modifiers
  annotations := info.annotations
  enclosing := info.enclosing.map (Enclosing.map move)
  isConstructor := info.isConstructor
  body := info.body.map move
  isBlank := info.isBlank

/-- The last steps of every extractor, taken for a node and for its counterpart. -/
theorem Mining.map_describe (move : ν → μ) (search : Mining (Finding (List Parameter)))
    (task contained : Task) (enclosing : Except Failure (Option (Enclosing ν)))
    {build : Option (List Parameter) → Option (Enclosing ν) → FunctionInfo ν}
    {buildMoved : Option (List Parameter) → Option (Enclosing μ) → FunctionInfo μ}
    (hbuild : ∀ parameters element, buildMoved parameters (element.map (Enclosing.map move)) =
      (build parameters element).map move) :
    (search >>= fun found ↦ task.unwrap found >>= fun parameters ↦
        contained.contain (.ofExcept (enclosing.map (Option.map (Enclosing.map move)))) >>=
          fun element ↦ pure (buildMoved parameters element)) =
      Mining.map (FunctionInfo.map move) (search >>= fun found ↦ task.unwrap found >>=
        fun parameters ↦ contained.contain (.ofExcept enclosing) >>=
          fun element ↦ pure (build parameters element)) := by
  rw [map_bind]
  congr 1
  funext found
  rw [map_bind]
  congr 1
  funext parameters
  rw [Task.contain_map, bind_map, map_bind]
  congr 1
  funext element
  rw [hbuild]
  rfl

variable [Navigable ν] [Navigable μ] {move : ν → μ} {node : ν}

/-! ## Java -/

namespace Java

variable (labels : Labels)

theorem parameter_move (h : KeepsSubtree move node) :
    parameter labels (move node) = parameter labels node := by
  rw [parameter, parameter, h.keepsChildren.childOfType?_eq, h.map_text_childOfType?]
  cases hname : childOfType? node labels.parameterName with
  | none => rfl
  | some nameNode => simp only [Option.map_some, (h.of_childOfType? hname).text_eq]

theorem parameterNodes_move (h : KeepsSubtree move node) :
    parameterNodes labels (move node) = (parameterNodes labels node).map move ∧
      ∀ part ∈ parameterNodes labels node, KeepsSubtree move part := by
  rw [parameterNodes, parameterNodes, h.keeps.lastIn_eq]
  split
  · exact ⟨rfl, fun part hpart ↦ List.mem_singleton.mp hpart ▸ h⟩
  · refine ⟨h.keepsChildren.filter_children fun _ hchild ↦ hchild.firstIn_eq _, ?_⟩
    intro part hpart
    exact h.of_mem_children (List.mem_filter.mp hpart).1

theorem parameters_move (h : KeepsSubtree move node) :
    parameters labels (move node) = parameters labels node := by
  have hlocated : parameterList? labels (move node) = (parameterList? labels node).map move :=
    h.bind_childOfType? _ _
  rw [parameters, parameters, hlocated]
  cases hlist : parameterList? labels node with
  | none => rfl
  | some list =>
    have hkeeps := h.of_bind_childOfType? hlist
    obtain ⟨hnodes, hparts⟩ := parameterNodes_move labels hkeeps
    simp only [Option.map_some]
    rw [hnodes, mapM_map_move fun part hpart ↦ parameter_move labels (hparts part hpart),
      hkeeps.keeps.label_eq]

theorem isBlank_move (h : KeepsSubtree move node) :
    isBlank labels ((body? labels node).map move) = isBlank labels (body? labels node) := by
  cases hbody : body? labels node with
  | none => rfl
  | some body =>
    have hkeeps := (h.of_childOfType? hbody).keepsChildren
    rw [Option.map_some, isBlank, isBlank, hkeeps.length_children_eq]

theorem modifiers_move (h : KeepsAncestors move node) :
    modifiers labels (move node) = modifiers labels node := by
  rw [modifiers, modifiers, h.parent?_eq, Option.map_map]
  apply Option.map_congr
  intro parent hparent
  have hkeeps := h.keepsChildren_parent? hparent
  rw [Function.comp_apply, hkeeps.filter_children fun child hchild ↦ by
    rw [hchild.firstIs_eq, hchild.lastIs_eq]]
  apply filterMap_map_move
  intro child hchild
  exact (hkeeps.keeps_child child (List.mem_filter.mp hchild).1).token_eq

/-- The annotations beside a node are kept with their children. -/
def KeepsAnnotations (move : ν → μ) (node : ν) : Prop :=
  ∀ parent, parent? node = some parent → ∀ child ∈ children parent,
    lastIs child labels.annotation → KeepsChildren move child

theorem annotations_move (h : KeepsAncestors move node)
    (hbeside : KeepsAnnotations labels move node) :
    annotations labels (move node) = annotations labels node := by
  rw [annotations, annotations, h.parent?_eq, Option.map_map]
  apply Option.map_congr
  intro parent hparent
  rw [Function.comp_apply,
    (h.keepsChildren_parent? hparent).filter_children fun child hchild ↦ hchild.lastIs_eq _]
  apply filterMap_map_move
  intro child hchild
  obtain ⟨hmem, hannotation⟩ := List.mem_filter.mp hchild
  exact (hbeside parent hparent child hmem hannotation).bind_token_childOfType? _

theorem enclosing?_move (h : KeepsAncestors move node) :
    enclosing? labels (move node) =
      (enclosing? labels node).map (Option.map (Enclosing.map move)) := by
  rw [enclosing?, enclosing?, h.enclosing?_eq fun above habove ↦ habove.keeps.lastIn_eq _]
  cases hfound : Query.enclosing? node (lastIn · labels.enclosingElements) with
  | none => rfl
  | some above =>
    have hkeeps := h.keepsChildren_enclosing? hfound
    simp only [Option.map_some, hkeeps.keeps.lastIs_eq, hkeeps.bind_token_childOfType?,
      hkeeps.keeps.label_eq]
    split
    · rfl
    · split
      · rfl
      · rfl

theorem extract_move (file : String) (h : KeepsSubtree move node)
    (habove : KeepsAncestors move node) (hbeside : KeepsAnnotations labels move node) :
    extract labels file (move node) = (extract labels file node).map (FunctionInfo.map move) := by
  have hbody : body? labels (move node) = (body? labels node).map move :=
    h.keepsChildren.childOfType?_eq _
  unfold extract
  rw [parameters_move labels h, enclosing?_move labels habove]
  apply Mining.map_describe
  intro parameters element
  rw [FunctionInfo.map, returnType, h.map_text_childOfType?, modifiers_move labels habove,
    annotations_move labels habove hbeside, h.keepsChildren.childOfType?_eq, hbody,
    isBlank_move labels h]
  rfl

end Java

/-! ## Python -/

namespace Python

variable (labels : Labels)

theorem bind_token_nameNode? (h : KeepsChildren move node) :
    (nameNode? labels (move node)).bind token = (nameNode? labels node).bind token := by
  rw [nameNode?, nameNode?, h.keeps.lastIs_eq]
  split
  · exact h.keeps.token_eq
  · exact h.bind_token_childOfType? _

theorem parameter_move (h : KeepsSubtree move node) :
    parameter labels (move node) = parameter labels node := by
  rw [parameter, parameter, bind_token_nameNode? labels h.keepsChildren, h.map_text_childOfType?]

theorem parameterNodes_move (h : KeepsSubtree move node) :
    parameterNodes labels (move node) = (parameterNodes labels node).map move ∧
      ∀ part ∈ parameterNodes labels node, KeepsSubtree move part := by
  rw [parameterNodes, parameterNodes, h.keeps.lastIn_eq]
  split
  · exact ⟨rfl, fun part hpart ↦ List.mem_singleton.mp hpart ▸ h⟩
  · refine ⟨h.keepsChildren.childrenOfType_eq _, ?_⟩
    intro part hpart
    exact h.of_mem_children (List.mem_filter.mp hpart).1

theorem parameters_move (h : KeepsSubtree move node) :
    parameters labels (move node) = parameters labels node := by
  have hlocated : parameterList? labels (move node) = (parameterList? labels node).map move :=
    h.bind_childOfType? _ _
  rw [parameters, parameters, hlocated]
  cases hlist : parameterList? labels node with
  | none => rfl
  | some list =>
    have hkeeps := h.of_bind_childOfType? hlist
    obtain ⟨hnodes, hparts⟩ := parameterNodes_move labels hkeeps
    simp only [Option.map_some]
    rw [hnodes, mapM_map_move fun part hpart ↦ parameter_move labels (hparts part hpart),
      hkeeps.keeps.label_eq]

/-- Whether a result type follows depends on the labels of the children and the text of one. -/
theorem returnTypeFrom_move (afterArrow : Bool) {nodes : List ν}
    (h : ∀ child ∈ nodes, KeepsSubtree move child) :
    returnTypeFrom labels afterArrow (nodes.map move) = returnTypeFrom labels afterArrow nodes := by
  induction nodes generalizing afterArrow with
  | nil => rfl
  | cons child rest ih =>
    have hchild := h child (by simp)
    rw [List.map_cons, returnTypeFrom, returnTypeFrom, hchild.keeps.firstIs_eq,
      hchild.keeps.lastIs_eq, hchild.text_eq,
      ih _ fun other hother ↦ h other (List.mem_cons_of_mem child hother)]

theorem returnType_move (h : KeepsSubtree move node) :
    returnType labels (move node) = returnType labels node := by
  rw [returnType, returnType, h.keepsChildren.children_eq]
  exact returnTypeFrom_move labels false fun child hchild ↦ h.of_mem_children hchild

theorem isBlank_move (h : KeepsSubtree move node) :
    isBlank labels ((childOfType? node labels.body).map move) =
      isBlank labels (childOfType? node labels.body) := by
  cases hbody : childOfType? node labels.body with
  | none => rfl
  | some body => rw [Option.map_some, isBlank, isBlank, (h.of_childOfType? hbody).text_eq]

theorem isMethod_move (h : KeepsAncestors move node) :
    isMethod labels (move node) = isMethod labels node := by
  rw [isMethod, isMethod, h.parent?_eq]
  cases houter : parent? node with
  | none => rfl
  | some outer =>
    have hkeeps := h.of_mem_ancestors outer (List.mem_of_head? houter)
    simp only [Option.map_some, (h.keepsChildren_parent? houter).keeps.label_eq, hkeeps.parent?_eq]
    cases howner : parent? outer with
    | none => rfl
    | some owner =>
      simp only [Option.map_some, (hkeeps.keepsChildren_parent? howner).keeps.lastIs_eq]

theorem enclosing?_move (h : KeepsAncestors move node) :
    enclosing? labels (move node) =
      (enclosing? labels node).map (Option.map (Enclosing.map move)) := by
  rw [enclosing?, enclosing?, h.enclosing?_eq fun above habove ↦ habove.keeps.lastIn_eq _]
  cases hfound : Query.enclosing? node (lastIn · labels.enclosingElements) with
  | none => rfl
  | some above =>
    have hkeeps := h.keepsChildren_enclosing? hfound
    have hmethod : isMethod labels (move above) = isMethod labels above :=
      isMethod_move labels (h.of_mem_ancestors above (List.mem_of_find?_eq_some hfound))
    simp only [Option.map_some, hkeeps.keeps.lastIs_eq, hkeeps.bind_token_childOfType?, hmethod]
    split
    · rfl
    · split
      · cases isMethod labels above with
        | error failure => rfl
        | ok method => rfl
      · rfl

theorem extract_move (file : String) (h : KeepsSubtree move node)
    (habove : KeepsAncestors move node) :
    extract labels file (move node) = (extract labels file node).map (FunctionInfo.map move) := by
  unfold extract
  rw [parameters_move labels h, enclosing?_move labels habove]
  apply Mining.map_describe
  intro parameters element
  rw [FunctionInfo.map, returnType_move labels h, h.keepsChildren.bind_token_childOfType?,
    h.keepsChildren.childOfType?_eq, h.keepsChildren.childOfType?_eq, isBlank_move labels h]

end Python

/-! ## PHP -/

namespace Php

variable (labels : Labels)

theorem nonEmptyToken_move (h : Keeps move node) :
    nonEmptyToken (move node) = nonEmptyToken node := by
  rw [nonEmptyToken, nonEmptyToken, h.token_eq]

theorem typeHint_move (h : KeepsChildren move node) :
    typeHint labels (move node) = typeHint labels node :=
  h.bind_token_childOfType? _

theorem parameterName_move (h : KeepsSubtree move node) :
    parameterName labels (move node) = parameterName labels node := by
  rw [parameterName, parameterName, h.keeps.lastIs_eq, nonEmptyToken_move h.keeps,
    h.keepsChildren.selfOrChildrenOfType_eq, h.keeps.label_eq,
    h.keepsChildren.isSome_childOfType?_eq, h.keepsChildren.isSome_childOfType?_eq]
  cases hdeclarations : selfOrChildrenOfType node labels.varDeclaration with
  | nil => rfl
  | cons declaration _ =>
    have hdeclaration : KeepsSubtree move declaration :=
      h.of_mem_selfOrChildrenOfType (hdeclarations ▸ List.mem_cons_self)
    simp only [List.map_cons, hdeclaration.keepsChildren.selfOrChildrenOfType_eq]
    cases hnames : selfOrChildrenOfType declaration labels.parameterName with
    | nil => rfl
    | cons nameNode _ =>
      have hname : KeepsSubtree move nameNode :=
        hdeclaration.of_mem_selfOrChildrenOfType (hnames ▸ List.mem_cons_self)
      simp only [List.map_cons, nonEmptyToken_move hname.keeps]

theorem parameter_move (h : KeepsSubtree move node) :
    parameter labels (move node) = parameter labels node := by
  rw [parameter, parameter, parameterName_move labels h, typeHint_move labels h.keepsChildren]

theorem parametersOf_move (file : String) (function : Option String) {nodes : List ν}
    (h : ∀ part ∈ nodes, KeepsSubtree move part) :
    parametersOf labels file function (nodes.map move) =
      parametersOf labels file function nodes := by
  induction nodes with
  | nil => rfl
  | cons part rest ih =>
    rw [List.map_cons, parametersOf, parametersOf, parameter_move labels (h part (by simp)),
      ih fun other hother ↦ h other (List.mem_cons_of_mem part hother)]

theorem parameters_move (file : String) (function : Option String) (h : KeepsSubtree move node) :
    parameters labels file function (move node) = parameters labels file function node := by
  rw [parameters, parameters, h.keepsChildren.childOfType?_eq]
  cases hlist : childOfType? node labels.parameterList with
  | none => rfl
  | some list =>
    have hkeeps := h.of_childOfType? hlist
    have hparts : ∀ part ∈ selfOrChildrenOfType list labels.parameter, KeepsSubtree move part :=
      fun part hpart ↦ hkeeps.of_mem_selfOrChildrenOfType hpart
    simp only [Option.map_some]
    rw [isFoldedParameter, isFoldedParameter, hkeeps.keeps.lastIs_eq, hkeeps.keeps.lastIs_eq,
      parameter_move labels hkeeps, hkeeps.keepsChildren.selfOrChildrenOfType_eq,
      parametersOf_move labels file function hparts]

theorem body?_move (h : KeepsChildren move node) :
    body? labels (move node) = (body? labels node).map move :=
  h.find?_children fun _ hchild ↦ hchild.firstIn_eq _

theorem isBlank_move (h : KeepsSubtree move node) :
    isBlank labels ((body? labels node).map move) = isBlank labels (body? labels node) := by
  cases hbody : body? labels node with
  | none => rfl
  | some body =>
    have hkeeps := h.of_mem_children (List.mem_of_find?_eq_some hbody)
    rw [Option.map_some, isBlank, isBlank, hkeeps.keepsChildren.childOfType?_eq]
    cases hstatements : childOfType? body labels.statementList with
    | none => rfl
    | some statements => exact (hkeeps.of_childOfType? hstatements).keepsChildren.isLeaf_eq

theorem isFunction_move (h : KeepsChildren move node) :
    isFunction labels (move node) = isFunction labels node := by
  rw [isFunction, isFunction, h.isSome_childOfType?_eq, h.isSome_childOfType?_eq]

theorem isClass_move (h : Keeps move node) : isClass labels (move node) = isClass labels node :=
  h.lastIs_eq _

theorem isAssignment_move (h : KeepsChildren move node) :
    isAssignment labels (move node) = isAssignment labels node := by
  rw [isAssignment, isAssignment, h.keeps.firstIs_eq, h.isSome_childOfType?_eq]

theorem mayEnclose_move (h : KeepsChildren move node) :
    mayEnclose labels (move node) = mayEnclose labels node := by
  rw [mayEnclose, mayEnclose, isFunction_move labels h, isClass_move labels h.keeps,
    isAssignment_move labels h]

theorem enclosingKind_move (h : KeepsChildren move node) :
    enclosingKind labels (move node) = enclosingKind labels node := by
  rw [enclosingKind, enclosingKind, isMethod, isMethod, h.keeps.firstIs_eq,
    isFunction_move labels h, isClass_move labels h.keeps, isAssignment_move labels h,
    h.keeps.label_eq]

theorem enclosingName_move (h : KeepsChildren move node) :
    enclosingName labels (move node) = enclosingName labels node := by
  have hvariable : (children (move node)).find? (lastIs · labels.parameterName) =
      ((children node).find? (lastIs · labels.parameterName)).map move :=
    h.find?_children fun _ hchild ↦ hchild.lastIs_eq _
  rw [enclosingName, enclosingName, isFunction_move labels h, isClass_move labels h.keeps,
    isAssignment_move labels h, h.bind_token_childOfType?, hvariable, h.bind_token_find?,
    h.keeps.label_eq]

theorem enclosing?_move (h : KeepsAncestors move node) :
    enclosing? labels (move node) =
      (enclosing? labels node).map (Option.map (Enclosing.map move)) := by
  rw [enclosing?, enclosing?, h.enclosing?_eq fun above habove ↦ mayEnclose_move labels habove]
  cases hfound : Query.enclosing? node (mayEnclose labels) with
  | none => rfl
  | some above =>
    have hkeeps := h.keepsChildren_enclosing? hfound
    simp only [Option.map_some, enclosingKind_move labels hkeeps, enclosingName_move labels hkeeps]
    cases enclosingKind labels above with
    | error failure => rfl
    | ok kind =>
      cases enclosingName labels above with
      | error failure => rfl
      | ok name => rfl

theorem extract_move (file : String) (h : KeepsSubtree move node)
    (habove : KeepsAncestors move node) :
    extract labels file (move node) = (extract labels file node).map (FunctionInfo.map move) := by
  simp only [extract]
  rw [h.keepsChildren.bind_token_childOfType?, parameters_move labels _ _ h,
    enclosing?_move labels habove]
  apply Mining.map_describe
  intro parameters element
  rw [FunctionInfo.map, typeHint_move labels h.keepsChildren, h.keepsChildren.childOfType?_eq,
    body?_move labels h.keepsChildren, isBlank_move labels h]

end Php

end SyntaxMining
