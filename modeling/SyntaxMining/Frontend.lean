import SyntaxMining.Forest.Rebuild
import SyntaxMining.Language
import SyntaxMining.Report
import SyntaxMining.Workspace.Basic

/-!
# Parsing source files

Source files are parsed by the parser of their language and normalised.  A file whose extension
belongs to no language has no tree; neither has a file that cannot be read, which is reported.  A
language without a parser and a parser that breaks down are errors.
-/

namespace SyntaxMining

/-- How trees are normalised and which extension belongs to which language. -/
structure Frontend where
  mode : Mode
  table : ExtensionTable := ExtensionTable.ofLanguages Language.extensions

inductive ParseError where
  | unsupportedLanguage (name : String)
  | crash (message : String)
  /-- The chains of a tree cannot be removed. -/
  | rebuild (error : Forest.RebuildError)
deriving DecidableEq, Repr

def ParseError.message : ParseError → String
  | unsupportedLanguage name => "Unsupported language '" ++ name ++ "'"
  | crash message => message
  | rebuild (.unknownChild id) => toString id
  | rebuild .endless => ""

/-- Report of a file that cannot be read. -/
def unreadableReport (path : String) (error : FileError) : Report :=
  ⟨.error, .frontend, "Cannot read '" ++ path ++ "': " ++ error.message⟩

namespace Frontend

/-- Language of a file by its path. -/
def detect (frontend : Frontend) (path : String) : Option String :=
  frontend.table.language? (Text.lower (Path.suffix (Path.name path)))

/-- Tree of linked nodes after removing chains. -/
def normalize (frontend : Frontend) (linked : Forest × NodeId) : Except ParseError SyntaxTree :=
  match linked.1.rebuild frontend.mode linked.2 with
  | .error e => .error (.rebuild e)
  | .ok (forest, root) => .ok (Query.subtree (⟨forest, root⟩ : Forest.Member))

/-- Normalised tree of a source in some language. -/
def parseSource (frontend : Frontend) (language : String) (file : SourceFile) :
    Except ParseError SyntaxTree :=
  if Language.supported.contains language then
    match file.answer with
    | .crash message => .error (.crash message)
    | .tree tree =>
      match tree.link file.content with
      | .ok linked => frontend.normalize linked
  else .error (.unsupportedLanguage language)

/-- Tree of the file at a path, and the reports made. -/
def parseFile (frontend : Frontend) (workspace : Workspace) (path : String) :
    Except ParseError (Option SyntaxTree) × List Report :=
  match frontend.detect path with
  | none => (.ok none, [])
  | some language =>
    match workspace.openFile path with
    | .error fault => (.ok none, [unreadableReport path ⟨fault, path⟩])
    | .ok file => ((frontend.parseSource language file).map some, [])

end Frontend

end SyntaxMining
