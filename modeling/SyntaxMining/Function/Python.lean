import SyntaxMining.Function.Info
import SyntaxMining.Text.Blank

/-!
# Python functions

A function is a node folded down to `funcdef`.  Annotations of parameters and results are `test`
subtrees, found by their first atom.  A sole parameter is folded into the argument list, and a bare
name is folded into the parameter.  A function directly in the body of a class is a method.
-/

namespace SyntaxMining.Python

open Query

/-- Labels and words of the grammar that extraction looks for. -/
structure Labels where
  function : String := "funcdef"
  functionName : String := "NAME"
  returnArrow : String := "ARROW"
  returnType : String := "test"
  classDeclaration : String := "classdef"
  className : String := "NAME"
  constructorName : String := "__init__"
  parameters : String := "parameters"
  parameterList : String := "typedargslist"
  singleParameter : String := "tfpdef"
  parameterName : String := "NAME"
  parameterType : String := "test"
  body : String := "suite"
  blankStatements : List String := ["pass", "..."]

namespace Labels

def enclosingElements (labels : Labels) : List String :=
  [labels.classDeclaration, labels.function]

end Labels

def nameNotFound : Failure :=
  ⟨.missing, "Parameter name was not found"⟩

def neitherFunctionNorClass : Failure :=
  ⟨.violation, "Enclosing node can only be function or class"⟩

def bodyOfNothing : Failure :=
  ⟨.violation, "Found body without enclosing element"⟩

variable {ν : Type} [Navigable ν] (labels : Labels)

def isFunction (node : ν) : Bool :=
  lastIs node labels.function

/-- Text of the first result type directly after an arrow. -/
def returnTypeFrom (afterArrow : Bool) : List ν → Option String
  | [] => none
  | child :: rest =>
    if afterArrow && firstIs child labels.returnType then some (text child)
    else returnTypeFrom (lastIs child labels.returnArrow) rest

def returnType (root : ν) : Option String :=
  returnTypeFrom labels false (children root)

def isBlank : Option ν → Bool
  | none => true
  | some body => labels.blankStatements.contains (Text.trim Text.isBlank (text body))

/-! ## Parameters -/

/-- The node that holds a parameter's name: the parameter itself when it is a bare name. -/
def nameNode? (node : ν) : Option ν :=
  if lastIs node labels.parameterName then some node else childOfType? node labels.parameterName

def parameter (node : ν) : Except Failure Parameter :=
  match (nameNode? labels node).bind token with
  | none => .error nameNotFound
  | some name =>
    if name = "" then .error nameNotFound
    else .ok ⟨name, (childOfType? node labels.parameterType).map text⟩

/-- Located parameter list. -/
def parameterList? (root : ν) : Option ν :=
  (childOfType? root labels.parameters).bind (childOfType? · labels.parameterList)

/-- Nodes of a parameter list that stand for one parameter each. -/
def parameterNodes (list : ν) : List ν :=
  if lastIn list [labels.singleParameter, labels.parameterName] then [list]
  else childrenOfType list labels.singleParameter

/-- All parameters; a missing part fails the search, any other failure goes on. -/
def parameters (root : ν) : Except Failure (Finding (List Parameter)) :=
  match parameterList? labels root with
  | none => .ok (.found [])
  | some list =>
    match (parameterNodes labels list).mapM (parameter labels) with
    | .ok found => .ok (.found found)
    | .error failure =>
      match failure.kind with
      | .missing => .ok (.failed (failure.message ++ " (near '" ++ (label list).text ++ "')"))
      | _ => .error failure

/-! ## Enclosing element -/

/-- Whether a function stands directly in the body of a class. -/
def isMethod (function : ν) : Except Failure Bool :=
  match parent? function with
  | none => .ok false
  | some outer =>
    if (label outer).text = labels.body then
      match parent? outer with
      | none => .error bodyOfNothing
      | some owner => .ok (lastIs owner labels.classDeclaration)
    else .ok false

def enclosing? (root : ν) : Except Failure (Option (Enclosing ν)) :=
  match Query.enclosing? root (lastIn · labels.enclosingElements) with
  | none => .ok none
  | some node =>
    if lastIs node labels.classDeclaration then
      let name := (childOfType? node labels.className).bind token
      .ok (some ⟨.classDeclaration, name, node⟩)
    else if lastIs node labels.function then
      match isMethod labels node with
      | .error failure => .error failure
      | .ok method =>
        let name := (childOfType? node labels.functionName).bind token
        .ok (some ⟨if method then .method else .function, name, node⟩)
    else .error neitherFunctionNorClass

/-! ## Extraction -/

def extract (file : String) (root : ν) : Mining (FunctionInfo ν) := do
  let nameNode := childOfType? root labels.functionName
  let body := childOfType? root labels.body
  let found ← Mining.ofExcept (parameters labels root)
  let parameters ← Task.unwrap ⟨.python, file, "parameters"⟩ found
  let enclosing ← Task.contain ⟨.python, file, "enclosing element"⟩
    (Mining.ofExcept (enclosing? labels root))
  pure
    { root := root
      file := file
      nameNode := nameNode
      parameters := parameters
      returnType := returnType labels root
      modifiers := none
      annotations := none
      enclosing := enclosing
      isConstructor := nameNode.bind token == some labels.constructorName
      body := body
      isBlank := isBlank labels body }

def extractor : Extractor ν where
  isFunction := isFunction labels
  extract := extract labels

end SyntaxMining.Python
