import SyntaxMining.Concrete.Tree
import SyntaxMining.Text.Quoted
import SyntaxMining.Workspace.Path

/-!
# Workspaces

A workspace is a whole file system with the directory in which commands run.  It holds folders,
files, and links that lead into folders that do not exist.  A source file comes with the answer that
its language's parser gives for it.  Relative paths are followed from the current directory,
absolute ones from the top, and operations fail the way file operations do.
-/

namespace SyntaxMining

/-- What the parser of a file's language answers. -/
inductive ParserAnswer where
  | tree (tree : ConcreteTree)
  | crash (message : String)
deriving Inhabited

structure SourceFile where
  content : List UInt8
  answer : ParserAnswer
deriving Inhabited

inductive Item where
  | file (file : SourceFile)
  /-- A link that leads into a folder that does not exist. -/
  | link
  | folder (items : List (String × Item))
deriving Inhabited

/-- Why a file operation fails. -/
inductive FileFault where
  | notFound
  | fileExists
  | notAFolder
  | isAFolder
deriving DecidableEq, Repr

structure FileError where
  fault : FileFault
  path : String
deriving DecidableEq, Repr

def FileFault.text : FileFault → String
  | notFound => "[Errno 2] No such file or directory"
  | fileExists => "[Errno 17] File exists"
  | notAFolder => "[Errno 20] Not a directory"
  | isAFolder => "[Errno 21] Is a directory"

def FileError.message (error : FileError) : String :=
  error.fault.text ++ ": " ++ Text.quote error.path

namespace Item

/-- Item of that name in a folder. -/
def find? (name : String) : List (String × Item) → Option Item
  | [] => none
  | (known, item) :: rest => if known = name then some item else find? name rest

/-- Sets an item of a folder; a new one goes to the end. -/
def put (name : String) (item : Item) : List (String × Item) → List (String × Item)
  | [] => [(name, item)]
  | (known, old) :: rest =>
    if known = name then (known, item) :: rest else (known, old) :: put name item rest

/-- Item at names below this one. -/
def lookup (item : Item) (names : List String) : Except FileFault Item :=
  match names with
  | [] => .ok item
  | name :: rest =>
    match item with
    | folder items =>
      match find? name items with
      | none => .error .notFound
      | some item => lookup item rest
    | file _ => .error .notAFolder
    | link => .error .notFound

/-- Sets the item at names below this one; folders on the way are made when missing. -/
def set (item : Item) (names : List String) (new : Item) : Item :=
  match names with
  | [] => new
  | name :: rest =>
    match item with
    | folder items => folder (put name (set ((find? name items).getD (folder [])) rest new) items)
    | file old => file old
    | link => link

end Item

/-- A file system: what its top directory holds, and the place of the current directory. -/
structure Workspace where
  current : List String
  items : List (String × Item)
deriving Inhabited

namespace Workspace

def lookup (workspace : Workspace) (names : List String) : Except FileFault Item :=
  (Item.folder workspace.items).lookup names

/-- Sets the item at a place; the top directory itself is never replaced. -/
def set (workspace : Workspace) (names : List String) (item : Item) : Workspace :=
  match names with
  | [] => workspace
  | name :: rest =>
    let old := (Item.find? name workspace.items).getD (.folder [])
    { workspace with items := Item.put name (old.set rest item) workspace.items }

/-- Workspace with nothing but its current directory. -/
def empty (current : List String) : Workspace :=
  set ⟨current, []⟩ current (.folder [])

/-! ## Following paths -/

/-- Where a path starts. -/
def start (workspace : Workspace) (path : String) : List String :=
  if Path.isAbsolute path then [] else workspace.current

/-- Place of a path, without looking at any directory. -/
def placeOf (workspace : Workspace) (path : String) : List String :=
  Path.follow (workspace.start path) (Path.parts path)

/-- Follows steps through existing folders. -/
def walkSteps (workspace : Workspace) : List String → List String → Except FileFault (List String)
  | here, [] => .ok here
  | here, step :: rest =>
    match workspace.lookup here with
    | .error fault => .error fault
    | .ok (.file _) => .error .notAFolder
    | .ok .link => .error .notFound
    | .ok (.folder _) =>
      if step = "" ∨ step = "." then walkSteps workspace here rest
      else if step = ".." then walkSteps workspace here.dropLast rest
      else walkSteps workspace (here ++ [step]) rest

/-- Place of a path, through existing folders only. -/
def resolve (workspace : Workspace) (path : String) : Except FileFault (List String) :=
  if path = "" then .error .notFound
  else workspace.walkSteps (workspace.start path) (Path.steps path)

/-- File at a place. -/
def fileAt (workspace : Workspace) (names : List String) : Except FileFault SourceFile :=
  match workspace.lookup names with
  | .error fault => .error fault
  | .ok (.file file) => .ok file
  | .ok .link => .error .notFound
  | .ok (.folder _) => .error .isAFolder

/-- File at a path. -/
def openFile (workspace : Workspace) (path : String) : Except FileFault SourceFile :=
  match workspace.resolve path with
  | .error fault => .error fault
  | .ok names => workspace.fileAt names

def isFile (workspace : Workspace) (names : List String) : Bool :=
  match workspace.lookup names with
  | .ok (.file _) => true
  | _ => false

/-! ## Changes -/

/-- Makes the folders along parts that start at `here`; `done` holds the parts already taken, and
`missing` says whether a folder had to be made on the way.  Gives the workspace as it is left, also
by a failure, and the place that was reached; a failure comes with the parts it is about. -/
def makeFolders (workspace : Workspace) (missing : Bool) (done here : List String) :
    List String → Workspace × Except (FileFault × List String) (List String)
  | [] => (workspace, .ok here)
  | part :: rest =>
    let done := done ++ [part]
    if part = ".." then makeFolders workspace missing done here.dropLast rest
    else
      let next := here ++ [part]
      match workspace.lookup next with
      | .ok (.folder _) => makeFolders workspace missing done next rest
      | .ok (.file _) =>
        -- all parts are tried at once, and one by one only after something was missing
        if rest.isEmpty || missing then (workspace, .error (.fileExists, done))
        else (workspace, .error (.notAFolder, done ++ rest))
      | .ok .link => (workspace, .error (.fileExists, done))
      | .error _ => makeFolders (workspace.set next (.folder [])) true done next rest

/-- Makes the folder of names below a path, with its parents. -/
def makeFolderWithin (workspace : Workspace) (path : String) (names : List String) :
    Workspace × Except FileError (List String) :=
  let start := workspace.start path
  match workspace.lookup start with
  | .ok (.folder _) =>
    match workspace.makeFolders false [] start (Path.parts path ++ names) with
    | (made, .error (fault, parts)) =>
      (made, .error ⟨fault, Path.ofParts (Path.root? path) parts⟩)
    | (made, .ok place) => (made, .ok place)
  | _ => (workspace, .error ⟨.notFound, "."⟩)

/-- Makes the folder at a path, with its parents. -/
def makeFolder (workspace : Workspace) (path : String) :
    Workspace × Except FileError (List String) :=
  workspace.makeFolderWithin path []

/-- Replaces the content of a file, or makes a new file. -/
def writeFile (workspace : Workspace) (names : List String) (content : List UInt8) : Workspace :=
  match workspace.lookup names with
  | .ok (.file file) => workspace.set names (.file { file with content := content })
  | _ => workspace.set names (.file ⟨content, .crash ""⟩)

/-! ## Listing -/

mutual

/-- Files of an item below some names. -/
def filesOf (names : List String) : Item → List (List String × SourceFile)
  | .file file => [(names, file)]
  | .link => []
  | .folder items => filesOfAll names items

def filesOfAll (names : List String) : List (String × Item) → List (List String × SourceFile)
  | [] => []
  | (name, item) :: rest => filesOf (names ++ [name]) item ++ filesOfAll names rest

end

/-- Paths and contents of all files below the current directory, sorted by path. -/
def files (workspace : Workspace) : List (String × List UInt8) :=
  let found := match workspace.lookup workspace.current with
    | .ok item => filesOf [] item
    | .error _ => []
  (found.map fun item ↦ (Path.relative item.1, item.2.content)).mergeSort
    fun left right ↦ !(right.1 < left.1)

/-- Files that another workspace does not have. -/
def filesBeyond (workspace before : Workspace) : List (String × List UInt8) :=
  let known := before.files.map Prod.fst
  workspace.files.filter fun item ↦ !known.contains item.1

end Workspace

end SyntaxMining
