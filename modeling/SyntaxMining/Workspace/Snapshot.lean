import SyntaxMining.Json.Token
import SyntaxMining.Json.Basic
import SyntaxMining.Workspace.Basic

/-!
# Snapshots

A workspace written down as JSON: its folders, its files with their content and the answer of the
parser, and its links.  A concrete tree is written as an array of its kind, its
first and its last byte offset, its two points, whether the parser invented it, and its children.
-/

namespace SyntaxMining

namespace ConcreteTree

def pointOf : Json → Point
  | .arr [.int row, .int column] => ⟨row.toNat, column.toNat⟩
  | _ => ⟨0, 0⟩

mutual

def ofJson : Json → ConcreteTree
  | .arr [.str kind, .int startByte, .int stopByte, start, stop, .int missing, .arr children] =>
    .node
      ⟨kind, startByte.toNat, stopByte.toNat, pointOf start, pointOf stop, missing ≠ 0⟩
      (ofJsonAll children)
  | .arr [.str kind, .int startByte, .int stopByte, start, stop, .int missing] =>
    .node ⟨kind, startByte.toNat, stopByte.toNat, pointOf start, pointOf stop, missing ≠ 0⟩ []
  | _ => default

def ofJsonAll : List Json → List ConcreteTree
  | [] => []
  | child :: rest => ofJson child :: ofJsonAll rest

end

end ConcreteTree

namespace Snapshot

def texts : Option Json → List String
  | some (.arr items) =>
    items.filterMap fun item ↦ match item with
      | .str text => some text
      | _ => none
  | _ => []

/-- Bytes of pairs of hexadecimal digits. -/
def bytesOfHex : List Char → List UInt8
  | high :: low :: rest =>
    let digit (c : Char) : Nat := (Json.Token.hexValue c).getD 0
    UInt8.ofNat (digit high * 16 + digit low) :: bytesOfHex rest
  | _ => []

/-- Content given in hexadecimal digits or as text. -/
def content (entry : Json) : List UInt8 :=
  match entry.get? "hex", entry.get? "source" with
  | some (.str digits), _ => bytesOfHex digits.toList
  | _, some (.str text) => Text.Utf8.encode text
  | _, _ => []

def answer (entry : Json) : ParserAnswer :=
  match entry.get? "raise", entry.get? "tree" with
  | some (.str message), _ => .crash message
  | _, some tree => .tree (ConcreteTree.ofJson tree)
  | _, _ => .crash ""

def addFolder (workspace : Workspace) (path : String) : Workspace :=
  (workspace.makeFolder path).1

/-- Puts an item at a path; folders on the way are made when missing. -/
def addItem (workspace : Workspace) (path : String) (item : Item) : Workspace :=
  workspace.set (workspace.placeOf path) item

def addFile (workspace : Workspace) (entry : Json) : Workspace :=
  match entry.get? "path" with
  | some (.str path) => addItem workspace path (.file ⟨content entry, answer entry⟩)
  | _ => workspace

/-- Workspace of a snapshot, whose paths start at the current directory. -/
def workspace (current : List String) (snapshot : Json) : Workspace :=
  let files := match snapshot.get? "files" with
    | some (.arr files) => files
    | _ => []
  let made := (texts (snapshot.get? "dirs")).foldl addFolder (Workspace.empty current)
  let filled := files.foldl addFile made
  (texts (snapshot.get? "dangling")).foldl
    (fun workspace path ↦ addItem workspace path .link) filled

end Snapshot

end SyntaxMining
