import SyntaxMining.Function.Mining
import SyntaxMining.Function.Parameter
import SyntaxMining.Query.Cursor

/-!
# Function descriptors

What is recovered from one function declaration.  Parameters are absent when they could not be
collected, which is not the same as an empty list.  An extractor recognises the functions of one
grammar and describes them; a survey describes all functions of a tree and skips those whose
description fails.
-/

namespace SyntaxMining

/-- Constructs that can contain a function. -/
inductive EnclosingKind where
  | classDeclaration
  | enumeration
  | method
  | function
  | assignment
deriving DecidableEq, Repr

def EnclosingKind.name : EnclosingKind → String
  | classDeclaration => "Class"
  | enumeration => "Enum"
  | method => "Method"
  | function => "Function"
  | assignment => "VariableDeclaration"

/-- Nearest construct that contains a function. -/
structure Enclosing (ν : Type) where
  kind : EnclosingKind
  name : Option String
  root : ν

structure FunctionInfo (ν : Type) where
  root : ν
  file : String
  nameNode : Option ν
  parameters : Option (List Parameter)
  returnType : Option String
  modifiers : Option (List String)
  annotations : Option (List String)
  enclosing : Option (Enclosing ν)
  isConstructor : Bool
  body : Option ν
  isBlank : Bool

variable {ν : Type} [Navigable ν]

def FunctionInfo.name (info : FunctionInfo ν) : Option String :=
  info.nameNode.bind Query.token

/-- Recognises and describes the functions of one grammar. -/
structure Extractor (ν : Type) where
  isFunction : ν → Bool
  extract : (file : String) → ν → Mining (FunctionInfo ν)

namespace Extractor

/-- Report of a function left out of a survey. -/
def skipReport (file : String) (root : ν) (failure : Failure) : Report :=
  ⟨.warning, .survey,
    "Skipping function at '" ++ (Query.label root).text ++ "' in " ++ file ++ ": " ++
      failure.message⟩

/-- Describes the given functions; one whose description fails is skipped with a report. -/
def extractEach (extractor : Extractor ν) (file : String) :
    List ν → List (FunctionInfo ν) × List Report
  | [] => ([], [])
  | root :: rest =>
    let result := extractor.extract file root
    let others := extractor.extractEach file rest
    match result.outcome with
    | .ok info => (info :: others.1, result.reports ++ others.2)
    | .error failure =>
      (others.1, result.reports ++ skipReport file root failure :: others.2)

/-- Fails for functions that a table names, after describing them. -/
def failingFor (extractor : Extractor ν) (table : List (Option String × Failure)) :
    Extractor ν where
  isFunction := extractor.isFunction
  extract file root := do
    let info ← extractor.extract file root
    match table.find? (fun row ↦ row.1 == info.name) with
    | some row => Mining.fail row.2
    | none => pure info

/-- Places of a tree where functions stand, in pre-order. -/
def functionPlaces {α : Type} [Described α] (extractor : Extractor (Cursor α)) (tree : Tree α) :
    List (Cursor α) :=
  (Cursor.places tree).filter extractor.isFunction

/-- Describes every function of a tree. -/
def extractAll {α : Type} [Described α] (extractor : Extractor (Cursor α)) (file : String)
    (tree : Tree α) : List (FunctionInfo (Cursor α)) × List Report :=
  extractor.extractEach file (extractor.functionPlaces tree)

end Extractor

end SyntaxMining
