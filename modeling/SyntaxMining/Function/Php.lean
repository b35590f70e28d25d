import SyntaxMining.Function.Info
import SyntaxMining.Text.Split

/-!
# PHP functions

Functions, methods and closures are recognised by a `Function_` or `LambdaFn` child.  A closure
that is assigned to a variable is enclosed by the assignment, named after the variable.  A
parameter that cannot be read is reported and left out; only a parameter list that is itself a
single parameter fails as a whole.
-/

namespace SyntaxMining.Php

open Query

/-- Labels of the grammar that extraction looks for. -/
structure Labels where
  parameterList : String := "formalParameterList"
  parameter : String := "formalParameter"
  typeHint : String := "typeHint"
  parameterName : String := "VarName"
  classMember : String := "classStatement"
  functionName : String := "identifier"
  classDeclaration : String := "classDeclaration"
  varDeclaration : String := "variableInitializer"
  ellipsis : String := "Ellipsis"
  expression : String := "expression"
  assignOp : String := "assignmentOperator"
  lambdaToken : String := "LambdaFn"
  functionToken : String := "Function_"
  reference : String := "Ampersand"
  bodies : List String := ["blockStatement", "methodBody"]
  statementList : String := "innerStatementList"
  /-- Characters in front of a variable's name. -/
  variableSigil : String := "$"

def nameNotFound : Failure :=
  ⟨.missing, "No name was found for a parameter"⟩

def noInitializer (label : Label) : Failure :=
  ⟨.missing, "No variable initializer in '" ++ label.text ++ "'"⟩

def noKind (label : Label) : Failure :=
  ⟨.violation, "No kind can be associated with '" ++ label.text ++ "'"⟩

def noName (label : Label) : Failure :=
  ⟨.violation, "No name can be associated with '" ++ label.text ++ "'"⟩

variable {ν : Type} [Navigable ν] (labels : Labels)

/-! ## Classification -/

def isFunction (node : ν) : Bool :=
  (childOfType? node labels.lambdaToken).isSome || (childOfType? node labels.functionToken).isSome

def isMethod (node : ν) : Bool :=
  isFunction labels node && firstIs node labels.classMember

def isClass (node : ν) : Bool :=
  lastIs node labels.classDeclaration

def isAssignment (node : ν) : Bool :=
  firstIs node labels.expression && (childOfType? node labels.assignOp).isSome

/-- Whether a node can enclose a function. -/
def mayEnclose (node : ν) : Bool :=
  isFunction labels node || isClass labels node || isAssignment labels node

def enclosingKind (node : ν) : Except Failure EnclosingKind :=
  if isMethod labels node then .ok .method
  else if isFunction labels node then .ok .function
  else if isClass labels node then .ok .classDeclaration
  else if isAssignment labels node then .ok .assignment
  else .error (noKind (label node))

def withoutSigil (name : String) : String :=
  Text.trimLeft (labels.variableSigil.toList.contains ·) name

def enclosingName (node : ν) : Except Failure (Option String) :=
  if isFunction labels node || isClass labels node then
    .ok ((childOfType? node labels.functionName).bind token)
  else if isAssignment labels node then
    .ok (((children node).find? (lastIs · labels.parameterName)).bind token |>.map
      (withoutSigil labels))
  else .error (noName (label node))

def enclosing? (root : ν) : Except Failure (Option (Enclosing ν)) :=
  match Query.enclosing? root (mayEnclose labels) with
  | none => .ok none
  | some node =>
    match enclosingKind labels node with
    | .error failure => .error failure
    | .ok kind =>
      match enclosingName labels node with
      | .error failure => .error failure
      | .ok name => .ok (some ⟨kind, name, node⟩)

/-! ## Parameters -/

/-- Token of the type hint below a node. -/
def typeHint (node : ν) : Option String :=
  (childOfType? node labels.typeHint).bind token

/-- A token that is there and not empty. -/
def nonEmptyToken (node : ν) : Except Failure String :=
  match token node with
  | none => .error nameNotFound
  | some name => if name = "" then .error nameNotFound else .ok name

/-- Name of a parameter, with the marks of a reference and of a variadic parameter. -/
def parameterName (node : ν) : Except Failure String :=
  if lastIs node labels.parameterName then nonEmptyToken node
  else
    match selfOrChildrenOfType node labels.varDeclaration with
    | [] => .error (noInitializer (label node))
    | declaration :: _ =>
      match selfOrChildrenOfType declaration labels.parameterName with
      | [] => .error nameNotFound
      | nameNode :: _ =>
        match nonEmptyToken nameNode with
        | .error failure => .error failure
        | .ok name =>
          let reference := if (childOfType? node labels.reference).isSome then "&" else ""
          let variadic := if (childOfType? node labels.ellipsis).isSome then "..." else ""
          .ok (reference ++ variadic ++ name)

def parameter (node : ν) : Except Failure Parameter :=
  match parameterName labels node with
  | .error failure => .error failure
  | .ok name => .ok ⟨name, typeHint labels node⟩

/-- A function's name as it stands in reports. -/
def nameShown (name : Option String) : String :=
  name.getD "None"

/-- Report of a parameter that is left out. -/
def parameterReport (file : String) (function : Option String) (failure : Failure) : Report :=
  ⟨.warning, .php,
    "Error during collecting parameters for " ++ nameShown function ++ " in " ++ file ++ ": " ++
      failure.message⟩

/-- Reads parameters one by one; a missing part leaves one out, any other failure goes on. -/
def parametersOf (file : String) (function : Option String) : List ν → Mining (List Parameter)
  | [] => pure []
  | node :: rest =>
    match parameter labels node with
    | .ok parameter => do
      let others ← parametersOf file function rest
      pure (parameter :: others)
    | .error failure =>
      match failure.kind with
      | .missing => do
        Mining.report (parameterReport file function failure)
        parametersOf file function rest
      | _ => Mining.fail failure

/-- Whether a parameter list was folded into one parameter without type, mark or default. -/
def isFoldedParameter (list : ν) : Bool :=
  lastIs list labels.parameterName || lastIs list labels.varDeclaration

def parameters (file : String) (function : Option String) (root : ν) :
    Mining (Finding (List Parameter)) :=
  match childOfType? root labels.parameterList with
  | none => pure (.found [])
  | some list =>
    if isFoldedParameter labels list then
      match parameter labels list with
      | .ok parameter => pure (.found [parameter])
      | .error failure =>
        match failure.kind with
        | .missing => pure (.failed failure.message)
        | _ => Mining.fail failure
    else do
      let found ← parametersOf labels file function (selfOrChildrenOfType list labels.parameter)
      pure (.found found)

/-! ## Extraction -/

def body? (root : ν) : Option ν :=
  (children root).find? (firstIn · labels.bodies)

/-- A body is blank when its statement list is missing or has no children. -/
def isBlank : Option ν → Bool
  | none => true
  | some body =>
    match childOfType? body labels.statementList with
    | none => true
    | some statements => isLeaf statements

def extract (file : String) (root : ν) : Mining (FunctionInfo ν) := do
  let nameNode := childOfType? root labels.functionName
  let name := nameNode.bind token
  let body := body? labels root
  let found ← parameters labels file name root
  let parameters ← Task.unwrap ⟨.php, file, "parameters"⟩ found
  let enclosing ← Task.contain ⟨.php, file, "enclosing element for " ++ nameShown name⟩
    (Mining.ofExcept (enclosing? labels root))
  pure
    { root := root
      file := file
      nameNode := nameNode
      parameters := parameters
      returnType := typeHint labels root
      modifiers := none
      annotations := none
      enclosing := enclosing
      isConstructor := false
      body := body
      isBlank := isBlank labels body }

def extractor : Extractor ν where
  isFunction := isFunction labels
  extract := extract labels

end SyntaxMining.Php
