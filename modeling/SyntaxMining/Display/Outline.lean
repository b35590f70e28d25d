import SyntaxMining.Display.Markup
import SyntaxMining.Text.Quoted
import SyntaxMining.Text.Split
import SyntaxMining.Tree.Flatten

/-!
# Printed trees

A node is shown as its label in bold, followed by its quoted token in green when it has one.  The
printed form of a tree has one such line per node in pre-order, and guide lines lead from each node
to its children.
-/

namespace SyntaxMining.Display

/-- Marked-up line of one node, given how texts are escaped. -/
def describe (escape : String → String) (entry : Entry) : String :=
  let label := Markup.wrap "bold" (escape entry.label.text)
  match entry.token with
  | none => label
  | some token => label ++ " " ++ Markup.wrap "green" (escape (Text.quote token))

/-! ## Outlines -/

/-- A tree of lines that grows by adding children: rows hold a line and the rows of its children. -/
structure Outline where
  rows : Array (String × List Nat)

namespace Outline

/-- Outline of a single line, in row zero. -/
def single (line : String) : Outline :=
  ⟨#[(line, [])]⟩

/-- Adds a line as the last child of a row; also gives the new row. -/
def add (outline : Outline) (parent : Nat) (line : String) : Outline × Nat :=
  let row := outline.rows.size
  let rows := outline.rows.modify parent fun entry ↦ (entry.1, entry.2 ++ [row])
  (⟨rows.push (line, [])⟩, row)

/-- Adds the nodes of the trees on a stack, each tree below the row it is paired with. -/
def addAll (describe : Entry → String) (pending : List (Option Nat × SyntaxTree))
    (outline : Outline) : Outline :=
  match pending with
  | [] => outline
  | (parent, .node entry children) :: rest =>
    let grown := outline.add (parent.getD 0) (describe entry)
    addAll describe (Tree.waiting grown.2 children ++ rest) grown.1
termination_by Tree.pendingSize pending
decreasing_by
  exact Tree.pendingSize_waiting_append_lt _ _ _ _ _

/-- Outline of the nodes of a tree, given how each is described. -/
def ofTree (describe : Entry → String) : SyntaxTree → Outline
  | .node entry children => addAll describe (Tree.waiting 0 children) (single (describe entry))

/-- Tree of lines at a row, followed down at most `depth` levels. -/
def treeAt (outline : Outline) : (depth row : Nat) → Tree String
  | 0, _ => .node "" []
  | depth + 1, row =>
    match outline.rows[row]? with
    | none => .node "" []
    | some (line, children) => .node line (children.map (outline.treeAt depth))

/-- Tree of lines.  No path is longer than the number of rows. -/
def toTree (outline : Outline) : Tree String :=
  outline.treeAt outline.rows.size 0

end Outline

/-! ## Guides -/

/-- What stands in front of a node's line, and in front of everything below that line. -/
structure Guide where
  first : String
  below : String

def middleGuide : Guide := ⟨"├── ", "│   "⟩

def lastGuide : Guide := ⟨"└── ", "    "⟩

/-- Lines of a text that may hold line breaks, with guides in front. -/
def guided (indent : String) (guide : Guide) (text : String) : List String :=
  match Text.splitString '\n' text with
  | [] => []
  | head :: tail => (indent ++ guide.first ++ head) :: tail.map (indent ++ guide.below ++ ·)

mutual

/-- Lines of a tree below `indent`. -/
def lines (indent : String) (guide : Guide) : Tree String → List String
  | .node text children =>
    guided indent guide text ++ linesBelow (indent ++ guide.below) children

/-- Lines of siblings, the last of which ends the guide line. -/
def linesBelow (indent : String) : List (Tree String) → List String
  | [] => []
  | [child] => lines indent lastGuide child
  | child :: rest => lines indent middleGuide child ++ linesBelow indent rest

end

/-- Printed form of a tree: what the console shows of its lines, with guides. -/
def printed (tree : SyntaxTree) : String :=
  let outline := Outline.ofTree (describe Markup.escape) tree
  let shown := outline.toTree.map Markup.shown
  String.join ((lines "" ⟨"", ""⟩ shown).map (· ++ "\n"))

end SyntaxMining.Display
