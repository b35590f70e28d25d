import SyntaxMining.Command.Arguments
import SyntaxMining.Config
import SyntaxMining.Display.Outline
import SyntaxMining.Frontend
import SyntaxMining.Workspace.Walk

/-!
# Running commands

`parse` stores the trees of all source files below a path; a file that cannot be read, parsed or
stored is skipped and never affects the others.  `show` prints the tree of one file.
-/

namespace SyntaxMining.Command

/-- What ends a command early. -/
inductive Failure where
  | config (issues : List Schema.Issue)
  | undecodable
  | file (error : FileError)
  | parsing (error : ParseError)

def Failure.message : Failure → String
  | config issues =>
    Text.joinWith "\n" (issues.map fun issue ↦ issue.location ++ ": " ++ issue.problem.code)
  | undecodable => "The configuration is not UTF-8."
  | file error => error.message
  | parsing error => error.message

/-- What a command leaves behind.  Only arguments that are refused give no output. -/
structure Outcome where
  exit : Nat
  output : Option String
  failure : Option Failure
  workspace : Workspace
  reports : List Report

/-! ## Configuration files -/

/-- Place of an existing file or folder. -/
def existing? (workspace : Workspace) (path : String) : Option (List String) :=
  match workspace.walkSteps (workspace.start path) (Path.parts path) with
  | .error _ => none
  | .ok names =>
    match workspace.lookup names with
    | .ok (.file _) => some names
    | .ok (.folder _) => some names
    | _ => none

/-- Configuration in the file at a place. -/
def configAt (workspace : Workspace) (path : String) (names : List String) :
    Except Failure Config :=
  match workspace.fileAt names with
  | .error fault => .error (.file ⟨fault, Path.within path []⟩)
  | .ok file =>
    match Text.Utf8.decode? file.content with
    | none => .error .undecodable
    | some text =>
      match Config.ofText text with
      | .error issues => .error (.config issues)
      | .ok config => .ok config

/-- Configuration named by the user, else the one under the default name, else the defaults. -/
def loadConfig (workspace : Workspace) (defaultName : String) (path : Option String) :
    Except Failure Config :=
  let named := match path with
    | none => none
    | some path =>
      if path = "" then none else (existing? workspace path).map fun names ↦ (path, names)
  match named with
  | some (path, names) => configAt workspace path names
  | none =>
    match existing? workspace defaultName with
    | some names => configAt workspace defaultName names
    | none => .ok {}

/-! ## Parsing everything -/

/-- State of a run over many files. -/
structure Progress where
  workspace : Workspace
  store : Dataset.Store
  stored : Nat
  skipped : Nat
  reports : List Report

namespace Progress

/-- Report of a file that is skipped. -/
def skipReport (path message : String) : Report :=
  ⟨.warning, .command, "Skipping '" ++ path ++ "': " ++ message⟩

def skip (progress : Progress) (reports : List Report) : Progress :=
  { progress with skipped := progress.skipped + 1, reports := progress.reports ++ reports }

/-- Parses and stores one file. -/
def step (frontend : Frontend) (holdout : Dataset.Holdout) (progress : Progress)
    (file : FoundFile) :
    Progress :=
  let parsed := frontend.parseFile progress.workspace file.path
  match parsed.1 with
  | .error e => progress.skip (parsed.2 ++ [skipReport file.path e.message])
  | .ok none => progress.skip parsed.2
  | .ok (some tree) =>
    let label := Path.stem (Path.name file.path)
    match progress.store.store progress.workspace holdout label (some file.path) tree with
    | (workspace, .error e) =>
      { progress with workspace := workspace }.skip (parsed.2 ++ [skipReport file.path e.message])
    | (workspace, .ok store) =>
      { workspace := workspace
        store := store
        stored := progress.stored + 1
        skipped := progress.skipped
        reports := progress.reports ++ parsed.2 }

end Progress

/-- Files that a path stands for: the file itself, or the source files below a folder. -/
def filesAt (workspace : Workspace) (options : SearchOptions) (path : String) : List FoundFile :=
  let names := workspace.placeOf path
  if workspace.isFile names then
    match options.languageOf? (names.getLastD "") with
    | none => []
    | some language => [⟨Path.root path, names, language⟩]
  else workspace.sources options path

/-- A printed line. -/
def printLine (markup : String) : String :=
  Display.Markup.shown markup ++ "\n"

def foundLine (count : Nat) : String :=
  printLine ("Found " ++ Display.Markup.wrap "bold" (toString count) ++ " source files.")

def storedLine (stored skipped : Nat) (directory : String) (holdout : Dataset.Holdout) : String :=
  printLine (Display.Markup.wrap "green" ("Stored " ++ toString stored ++ " trees") ++ " in " ++
    Display.Markup.wrap "bold" (Path.below directory holdout.folder) ++
    (if skipped = 0 then "" else " (" ++ toString skipped ++ " skipped)"))

/-- The output directory: an empty name gives way to the configured one. -/
def outputDirectory (options : ParseOptions) (config : Config) : String :=
  match options.output with
  | none => config.storage.outputDir
  | some name => if name = "" then config.storage.outputDir else name

/-- What a search for the command's files looks for. -/
def searchOptions (config : Config) : SearchOptions :=
  ⟨config.excluded, config.table⟩

def frontend (options : ParseOptions) (config : Config) : Frontend :=
  ⟨if options.simplify then .simplify else config.mode, config.table⟩

/-- What goes into the lines: the command line overrides the configuration. -/
def lineOptions (options : ParseOptions) (config : Config) : Dataset.LineOptions :=
  ⟨options.withPaths.getD config.storage.withPaths, options.withSpans.getD config.storage.withSpans⟩

def runParseWith (workspace : Workspace) (options : ParseOptions) (config : Config) : Outcome :=
  let files := filesAt workspace (searchOptions config) options.path
  let directory := outputDirectory options config
  match Dataset.Store.openAt workspace directory (lineOptions options config) with
  | (workspace, .error e) => ⟨1, some (foundLine files.length), some (.file e), workspace, []⟩
  | (workspace, .ok store) =>
    let final := files.foldl (Progress.step (frontend options config) options.holdout)
      ⟨workspace, store, 0, 0, []⟩
    let closed := final.store.close final.workspace
    let output := foundLine files.length ++
      storedLine final.stored final.skipped directory options.holdout
    ⟨0, some output, none, closed.1, final.reports⟩

def runParse (workspace : Workspace) (defaultConfig : String) (options : ParseOptions) : Outcome :=
  match loadConfig workspace defaultConfig options.config with
  | .error failure => ⟨1, some "", some failure, workspace, []⟩
  | .ok config => runParseWith workspace options config

/-! ## Showing one tree -/

def runShow (workspace : Workspace) (options : ShowOptions) : Outcome :=
  let mode : Mode := if options.simplify then .simplify else .compress
  let frontend : Frontend := { mode := mode }
  let parsed := frontend.parseFile workspace options.file
  match parsed.1 with
  | .error e => ⟨1, some "", some (.parsing e), workspace, parsed.2⟩
  | .ok none =>
    let line := printLine (Display.Markup.wrap "red"
      ("Cannot parse '" ++ options.file ++ "' (unsupported or unreadable)."))
    ⟨1, some line, none, workspace, parsed.2⟩
  | .ok (some tree) => ⟨0, some (Display.printed tree), none, workspace, parsed.2⟩

/-! ## Command lines -/

/-- Runs a command line in a workspace. -/
def run (workspace : Workspace) (defaultConfig : String) (arguments : List String) : Outcome :=
  match read? arguments with
  | none => ⟨2, none, none, workspace, []⟩
  | some .help => ⟨0, some "", none, workspace, []⟩
  | some (.parse options) => runParse workspace defaultConfig options
  | some (.show options) => runShow workspace options

end SyntaxMining.Command
