import SyntaxMining.Function.Java
import SyntaxMining.Function.Php
import SyntaxMining.Function.Python
import SyntaxMining.Text.Split

/-!
# Grammars with an extractor

The grammars whose functions can be extracted, by name.
-/

namespace SyntaxMining

/-- A grammar together with the labels to look for. -/
inductive Grammar where
  | java (labels : Java.Labels)
  | python (labels : Python.Labels)
  | php (labels : Php.Labels)

namespace Grammar

def names : List String :=
  ["java", "python", "php"]

/-- Grammar of that name, with its own labels. -/
def ofName? (name : String) : Option Grammar :=
  if name = "java" then some (java {})
  else if name = "python" then some (python {})
  else if name = "php" then some (php {})
  else none

def name : Grammar → String
  | java _ => "java"
  | python _ => "python"
  | php _ => "php"

/-- Message for a name that is no grammar's. -/
def unknownMessage (name : String) : String :=
  "No function-info extractor for '" ++ name ++ "' (supported: " ++ Text.joinWith ", " names ++ ")"

def extractor {ν : Type} [Navigable ν] : Grammar → Extractor ν
  | java labels => Java.extractor labels
  | python labels => Python.extractor labels
  | php labels => Php.extractor labels

end Grammar

end SyntaxMining
