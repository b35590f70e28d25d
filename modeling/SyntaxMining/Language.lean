import SyntaxMining.Text.Case

/-!
# Languages and file extensions

Source files are recognised by the extension of their name, in lower case.  A table of extensions
is made from the extensions of each language; where two languages claim an extension, the later one
gets it.
-/

namespace SyntaxMining

/-- Languages by file extension. -/
abbrev ExtensionTable := List (String × String)

namespace ExtensionTable

/-- Assigns an extension; a known one keeps its place. -/
def assign (table : ExtensionTable) (extension language : String) : ExtensionTable :=
  match table with
  | [] => [(extension, language)]
  | (known, old) :: rest =>
    if known = extension then (known, language) :: rest
    else (known, old) :: assign rest extension language

def language? (table : ExtensionTable) (extension : String) : Option String :=
  (table.find? fun row ↦ row.1 = extension).map Prod.snd

/-- Table in which a repeated extension has its last language. -/
def ofPairs (pairs : List (String × String)) : ExtensionTable :=
  pairs.foldl (fun table pair ↦ assign table pair.1 pair.2) []

/-- Table of the extensions of each language. -/
def ofLanguages (languages : List (String × List String)) : ExtensionTable :=
  ofPairs (languages.flatMap fun row ↦ row.2.map fun extension ↦ (Text.lower extension, row.1))

end ExtensionTable

namespace Language

/-- Languages with a parser, in alphabetical order. -/
def supported : List String :=
  ["cpp", "java", "php", "python", "rust", "typescript"]

/-- Extensions of the supported languages. -/
def extensions : List (String × List String) :=
  [("java", [".java"]), ("python", [".py"]), ("php", [".php"]),
   ("cpp", [".cpp", ".cxx", ".cc", ".c", ".hpp", ".hxx", ".hh", ".h"]),
   ("rust", [".rs"]), ("typescript", [".ts", ".tsx"])]

/-- Sets the extensions of a language; a known one keeps its place. -/
def setExtensions (languages : List (String × List String)) (language : String)
    (extensions : List String) : List (String × List String) :=
  match languages with
  | [] => [(language, extensions)]
  | (known, old) :: rest =>
    if known = language then (known, extensions) :: rest
    else (known, old) :: setExtensions rest language extensions

/-- Languages in which a repeated one has its last extensions. -/
def ofPairs (pairs : List (String × List String)) : List (String × List String) :=
  pairs.foldl (fun languages pair ↦ setExtensions languages pair.1 pair.2) []

end Language

end SyntaxMining
