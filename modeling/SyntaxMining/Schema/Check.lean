import SyntaxMining.Json.Basic
import SyntaxMining.Text.Split

/-!
# Checking JSON against a shape

A check reads a value of some type out of a JSON value, or lists everything that is wrong with it.
The checks of an object's fields are all made, in the order in which the fields are declared, and
each issue says where it lies.
-/

namespace SyntaxMining.Schema

/-- What can be wrong with a value. -/
inductive Problem where
  | missing
  | intType
  | intParsing
  | intFromFloat
  | intTooLarge
  | notFinite
  | boolType
  | boolParsing
  | stringType
  | stringTooShort
  | listType
  | dictType
  | modelType
  | notAChoice
  | notJson
deriving DecidableEq, Repr

/-- Name of a problem in messages. -/
def Problem.code : Problem → String
  | missing => "missing"
  | intType => "int_type"
  | intParsing => "int_parsing"
  | intFromFloat => "int_from_float"
  | intTooLarge => "int_parsing_size"
  | notFinite => "finite_number"
  | boolType => "bool_type"
  | boolParsing => "bool_parsing"
  | stringType => "string_type"
  | stringTooShort => "string_too_short"
  | listType => "list_type"
  | dictType => "dict_type"
  | modelType => "model_type"
  | notAChoice => "literal_error"
  | notJson => "json_invalid"

/-- A problem and the field names and list indices that lead to it. -/
structure Issue where
  path : List String
  problem : Problem
deriving DecidableEq, Repr

def Issue.location (issue : Issue) : String :=
  Text.joinWith "." issue.path

/-- A value, or everything that is wrong. -/
abbrev Check (α : Type) := Except (List Issue) α

namespace Check

variable {α β : Type}

def fail (problem : Problem) : Check α :=
  .error [⟨[], problem⟩]

/-- Puts a step in front of the place of every issue. -/
def below (step : String) : Check α → Check α
  | .ok value => .ok value
  | .error issues => .error (issues.map fun issue ↦ { issue with path := step :: issue.path })

/-- Applies a checked function to a checked argument; the issues of both are kept. -/
def ap : Check (α → β) → Check α → Check β
  | .ok f, .ok value => .ok (f value)
  | .ok _, .error issues => .error issues
  | .error issues, .ok _ => .error issues
  | .error issues, .error more => .error (issues ++ more)

end Check

/-! ## Composite values -/

variable {α : Type}

/-- Fields of an object that stands for a record. -/
def record : Json → Check (List (String × Json))
  | .obj fields => .ok fields
  | _ => .fail .modelType

/-- A field that has to be there. -/
def required (name : String) (check : Json → Check α) (fields : List (String × Json)) : Check α :=
  match Json.field? name fields with
  | none => .error [⟨[name], .missing⟩]
  | some value => (check value).below name

/-- A field that has a default. -/
def optional (name : String) (default : α) (check : Json → Check α)
    (fields : List (String × Json)) : Check α :=
  match Json.field? name fields with
  | none => .ok default
  | some value => (check value).below name

/-- A value that may be null. -/
def nullable (check : Json → Check α) : Json → Check (Option α)
  | .null => .ok none
  | value => (check value).map some

/-- Items from some index on. -/
def items (check : Json → Check α) : Nat → List Json → Check (List α)
  | _, [] => .ok []
  | index, item :: rest =>
    Check.ap ((((check item).below (toString index))).map List.cons) (items check (index + 1) rest)

def list (check : Json → Check α) : Json → Check (List α)
  | .arr values => items check 0 values
  | _ => .fail .listType

def entries (check : Json → Check α) : List (String × Json) → Check (List (String × α))
  | [] => .ok []
  | (name, value) :: rest =>
    Check.ap (((check value).below name).map fun value ↦ List.cons (name, value))
      (entries check rest)

/-- An object whose field names are data. -/
def dictionary (check : Json → Check α) : Json → Check (List (String × α))
  | .obj fields => entries check fields
  | _ => .fail .dictType

/-- Reads a record's fields when the value is an object. -/
def ofRecord (read : List (String × Json) → Check α) (value : Json) : Check α :=
  match record value with
  | .error issues => .error issues
  | .ok fields => read fields

end SyntaxMining.Schema
