import SyntaxMining.Function.Info

/-!
# Java methods

A method is a node folded down to `methodDeclaration`.  Its type, name, parameters and body are its
children.  Without modifiers the method is folded into its declaration; with modifiers they are its
siblings, so both are read off the children of the parent.  A single parameter is folded into the
parameter list.  Failing to read one parameter fails the whole list.
-/

namespace SyntaxMining.Java

open Query

/-- Labels of the grammar that extraction looks for. -/
structure Labels where
  methodDeclaration : String := "methodDeclaration"
  returnType : String := "typeTypeOrVoid"
  methodName : String := "IDENTIFIER"
  modifier : String := "modifier"
  annotation : String := "annotation"
  annotationName : String := "qualifiedName"
  methodBody : String := "methodBody"
  classDeclaration : String := "classDeclaration"
  enumDeclaration : String := "enumDeclaration"
  enclosingName : String := "IDENTIFIER"
  parameters : String := "formalParameters"
  parameterList : String := "formalParameterList"
  singleParameters : List String := ["formalParameter", "lastFormalParameter"]
  parameterType : String := "typeType"
  parameterName : String := "variableDeclaratorId"
  /-- Children of an empty block, which has only its braces. -/
  blankBodyChildren : Int := 2

namespace Labels

def enclosingElements (labels : Labels) : List String :=
  [labels.classDeclaration, labels.enumDeclaration]

end Labels

def nameNotFound : Failure :=
  ⟨.missing, "Parameter name wasn't found"⟩

def nameEmpty : Failure :=
  ⟨.missing, "Parameter name is empty"⟩

def noEnclosingKind (label : Label) : Failure :=
  ⟨.violation, "No enclosing element kind for '" ++ label.text ++ "'"⟩

variable {ν : Type} [Navigable ν] (labels : Labels)

def isFunction (node : ν) : Bool :=
  lastIs node labels.methodDeclaration

def body? (root : ν) : Option ν :=
  childOfType? root labels.methodBody

def isBlank : Option ν → Bool
  | none => true
  | some body => (children body).length ≤ labels.blankBodyChildren

def returnType (root : ν) : Option String :=
  (childOfType? root labels.returnType).map text

/-- Tokens of the modifiers beside a method that are no annotations. -/
def modifiers (root : ν) : Option (List String) :=
  (parent? root).map fun parent ↦
    ((children parent).filter fun child ↦
      firstIs child labels.modifier && !lastIs child labels.annotation).filterMap token

/-- Names of the annotations beside a method. -/
def annotations (root : ν) : Option (List String) :=
  (parent? root).map fun parent ↦
    ((children parent).filter fun child ↦ lastIs child labels.annotation).filterMap fun child ↦
      (childOfType? child labels.annotationName).bind token

/-! ## Parameters -/

def parameter (node : ν) : Except Failure Parameter :=
  match childOfType? node labels.parameterName with
  | none => .error nameNotFound
  | some nameNode =>
    let name := text nameNode
    if name = "" then .error nameEmpty
    else .ok ⟨name, (childOfType? node labels.parameterType).map text⟩

/-- Located parameter list. -/
def parameterList? (root : ν) : Option ν :=
  (childOfType? root labels.parameters).bind (childOfType? · labels.parameterList)

/-- Nodes of a parameter list that stand for one parameter each. -/
def parameterNodes (list : ν) : List ν :=
  if lastIn list labels.singleParameters then [list]
  else (children list).filter (firstIn · labels.singleParameters)

/-- All parameters; a missing part fails the search, any other failure goes on. -/
def parameters (root : ν) : Except Failure (Finding (List Parameter)) :=
  match parameterList? labels root with
  | none => .ok (.found [])
  | some list =>
    match (parameterNodes labels list).mapM (parameter labels) with
    | .ok found => .ok (.found found)
    | .error failure =>
      match failure.kind with
      | .missing => .ok (.failed (failure.message ++ " (near '" ++ (label list).text ++ "')"))
      | _ => .error failure

/-! ## Enclosing element -/

def enclosing? (root : ν) : Except Failure (Option (Enclosing ν)) :=
  match Query.enclosing? root (lastIn · labels.enclosingElements) with
  | none => .ok none
  | some node =>
    let name := (childOfType? node labels.enclosingName).bind token
    if lastIs node labels.classDeclaration then .ok (some ⟨.classDeclaration, name, node⟩)
    else if lastIs node labels.enumDeclaration then .ok (some ⟨.enumeration, name, node⟩)
    else .error (noEnclosingKind (label node))

/-! ## Extraction -/

def extract (file : String) (root : ν) : Mining (FunctionInfo ν) := do
  let body := body? labels root
  let found ← Mining.ofExcept (parameters labels root)
  let parameters ← Task.unwrap ⟨.java, file, "parameters"⟩ found
  let enclosing ← Task.contain ⟨.java, file, "enclosing class"⟩
    (Mining.ofExcept (enclosing? labels root))
  pure
    { root := root
      file := file
      nameNode := childOfType? root labels.methodName
      parameters := parameters
      returnType := returnType labels root
      modifiers := modifiers labels root
      annotations := annotations labels root
      enclosing := enclosing
      isConstructor := false
      body := body
      isBlank := isBlank labels body }

def extractor : Extractor ν where
  isFunction := isFunction labels
  extract := extract labels

end SyntaxMining.Java
