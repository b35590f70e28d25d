import SyntaxMining.Language
import SyntaxMining.Workspace.Basic

/-!
# Finding source files

All files below a directory whose extension belongs to a language, in the order of their absolute
paths.  Directories that are excluded by name or start with a dot are passed over with everything
in them; the directory where the search starts is never passed over.  A link counts as a file.
-/

namespace SyntaxMining

/-- What a search looks for and what it passes over. -/
structure SearchOptions where
  excluded : List String :=
    [".git", "__pycache__", "node_modules", "target", "build", "dist", ".gradle", ".idea",
     ".vscode"]
  table : ExtensionTable := ExtensionTable.ofLanguages Language.extensions

namespace SearchOptions

def passesOver (options : SearchOptions) (folder : String) : Bool :=
  options.excluded.contains folder || folder.toList.head? == some '.'

/-- Language of a file name, unless its language has an empty name. -/
def languageOf? (options : SearchOptions) (name : String) : Option String :=
  match options.table.language? (Text.lower (Path.suffix name)) with
  | none => none
  | some language => if language = "" then none else some language

end SearchOptions

/-- A file that was found, by what its absolute path starts with, its place and its language. -/
structure FoundFile where
  root : Path.Root
  names : List String
  language : String
deriving DecidableEq, Repr

/-- Absolute path of a found file. -/
def FoundFile.path (file : FoundFile) : String :=
  Path.absolute file.root file.names

namespace Workspace

/-- The file of a folder entry, if it is a source file. -/
def foundFile (options : SearchOptions) (root : Path.Root) (names : List String) (name : String) :
    List FoundFile :=
  match options.languageOf? name with
  | none => []
  | some language => [⟨root, names ++ [name], language⟩]

mutual

/-- Source files of a folder entry. -/
def sourcesOf (options : SearchOptions) (root : Path.Root) (names : List String) (name : String) :
    Item → List FoundFile
  | .file _ => foundFile options root names name
  | .link => foundFile options root names name
  | .folder items =>
    if options.passesOver name then [] else sourcesOfAll options root (names ++ [name]) items

/-- Source files of a folder. -/
def sourcesOfAll (options : SearchOptions) (root : Path.Root) (names : List String) :
    List (String × Item) → List FoundFile
  | [] => []
  | (name, item) :: rest =>
    sourcesOf options root names name item ++ sourcesOfAll options root names rest

end

/-- Source files below a place, sorted by absolute path. -/
def sourcesBelow (workspace : Workspace) (options : SearchOptions) (root : Path.Root)
    (names : List String) : List FoundFile :=
  match workspace.lookup names with
  | .ok (.folder items) =>
    (sourcesOfAll options root names items).mergeSort fun left right ↦ !(right.path < left.path)
  | _ => []

/-- Source files below a path. -/
def sources (workspace : Workspace) (options : SearchOptions) (path : String) : List FoundFile :=
  workspace.sourcesBelow options (Path.root path) (workspace.placeOf path)

end Workspace

end SyntaxMining
