import SyntaxMining.Dataset.Record
import SyntaxMining.Workspace.Basic

/-!
# Dataset storage

A dataset has four partitions, each a file of lines in its own folder.  A partition's file is
opened, and emptied, when the first line is stored in it, and stays open until the store is closed;
lines reach the file when it is closed.  Every operation gives the workspace as it is left, also by
a failure.
-/

namespace SyntaxMining.Dataset

/-- Partitions of a dataset. -/
inductive Holdout where
  | train
  | validation
  | test
  /-- Data that is not partitioned. -/
  | whole
deriving DecidableEq, Repr

namespace Holdout

/-- Folder of a partition. -/
def folder : Holdout → String
  | train => "train"
  | validation => "val"
  | test => "test"
  | whole => "data"

def ofFolder? (name : String) : Option Holdout :=
  [train, validation, test, whole].find? fun holdout ↦ holdout.folder = name

/-- Message for a name that is no partition's folder. -/
def unknownMessage (name : String) : String :=
  Text.quote name ++ " is not a valid Holdout"

end Holdout

/-- Name of the file of lines in a partition's folder. -/
def fileName : String := "asts.jsonl"

/-- An open file of lines: its place and the text that waits to be written. -/
structure Writer where
  names : List String
  pending : String

/-- A place where labelled trees are stored. -/
structure Store where
  directory : String
  options : LineOptions
  writers : List (Holdout × Writer)

namespace Store

/-- Opens a store in a folder, which is made when missing. -/
def openAt (workspace : Workspace) (directory : String) (options : LineOptions) :
    Workspace × Except FileError Store :=
  match workspace.makeFolder directory with
  | (workspace, .error e) => (workspace, .error e)
  | (workspace, .ok _) => (workspace, .ok ⟨directory, options, []⟩)

def writer? (store : Store) (holdout : Holdout) : Option Writer :=
  (store.writers.find? fun row ↦ row.1 = holdout).map Prod.snd

/-- Empties and opens the file of a partition. -/
def openWriter (store : Store) (workspace : Workspace) (holdout : Holdout) :
    Workspace × Except FileError Writer :=
  match workspace.makeFolderWithin store.directory [holdout.folder] with
  | (made, .error e) => (made, .error e)
  | (made, .ok folder) =>
    let names := folder ++ [fileName]
    let path := Path.within store.directory [holdout.folder, fileName]
    match made.lookup names with
    | .ok (.folder _) => (made, .error ⟨.isAFolder, path⟩)
    | .ok .link => (made, .error ⟨.notFound, path⟩)
    | _ => (made.writeFile names [], .ok ⟨names, ""⟩)

/-- Adds a line to an open partition. -/
def addLine (line : String) (holdout : Holdout) : List (Holdout × Writer) → List (Holdout × Writer)
  | [] => []
  | (known, writer) :: rest =>
    if known = holdout then
      (known, { writer with pending := writer.pending ++ line ++ "\n" }) :: rest
    else (known, writer) :: addLine line holdout rest

/-- Stores a line in a partition. -/
def storeLine (store : Store) (workspace : Workspace) (holdout : Holdout) (line : String) :
    Workspace × Except FileError Store :=
  match store.writer? holdout with
  | some _ => (workspace, .ok { store with writers := addLine line holdout store.writers })
  | none =>
    match store.openWriter workspace holdout with
    | (workspace, .error e) => (workspace, .error e)
    | (workspace, .ok writer) =>
      (workspace,
        .ok { store with writers := addLine line holdout (store.writers ++ [(holdout, writer)]) })

/-- Line of a labelled tree under the store's options. -/
def lineOf (store : Store) (label : String) (path : Option String) (tree : SyntaxTree) : String :=
  (labeled store.options label path tree).line

/-- Stores a labelled tree in a partition. -/
def store (store : Store) (workspace : Workspace) (holdout : Holdout) (label : String)
    (path : Option String) (tree : SyntaxTree) : Workspace × Except FileError Store :=
  store.storeLine workspace holdout (store.lineOf label path tree)

/-- Writes all waiting lines and closes the files. -/
def close (store : Store) (workspace : Workspace) : Workspace × Store :=
  (store.writers.foldl
    (fun workspace row ↦
      workspace.writeFile row.2.names (Text.Utf8.encode row.2.pending)) workspace,
    { store with writers := [] })

end Store

end SyntaxMining.Dataset
