import SyntaxMining.Forest.Growth
import SyntaxMining.Text.Utf8

/-!
# Concrete trees

Trees as an error-tolerant parser hands them over: every node covers a range of source bytes.  Both
source text that no rule accepts and tokens that the parser had to invent become leaves labelled as
errors; whatever stands below them is dropped.  Leaves carry the source text they cover.
-/

namespace SyntaxMining

/-- A point in a source: row and column, both counted from zero. -/
structure Point where
  row : Nat
  column : Nat
deriving DecidableEq, Inhabited, Repr

/-- A node of a concrete tree.  The stop point and byte are the first ones behind the node. -/
structure Segment where
  kind : String
  startByte : Nat
  stopByte : Nat
  start : Point
  stop : Point
  missing : Bool
deriving DecidableEq, Inhabited, Repr

abbrev ConcreteTree := Tree Segment

namespace Segment

/-- Kind of the nodes that cover unparsable source text. -/
def errorKind : String := "ERROR"

def isError (segment : Segment) : Bool :=
  segment.kind == errorKind || segment.missing

/-- Source text of a node. -/
def text (source : List UInt8) (segment : Segment) : String :=
  Text.Utf8.decode ((source.take segment.stopByte).drop segment.startByte)

/-- Span of a node, from its first to its last character.  A node of no width ends where it
starts, and a node that ends at the start of a line ends in that line's first column. -/
def span (segment : Segment) : Span :=
  let start : Position := ⟨segment.start.row + 1, segment.start.column⟩
  if segment.stop = segment.start then ⟨start, start⟩
  else ⟨start, ⟨segment.stop.row + 1, max ((segment.stop.column : Int) - 1) 0⟩⟩

end Segment

namespace ConcreteTree

/-- Converts a node without its children. -/
def entry (source : List UInt8) : ConcreteTree → Entry
  | .node segment children =>
    if segment.isError then ⟨Label.error, some (segment.text source), some segment.span⟩
    else if children.isEmpty then
      ⟨⟨segment.kind⟩, some (segment.text source), some segment.span⟩
    else ⟨⟨segment.kind⟩, none, some segment.span⟩

/-- Whether a node keeps its children. -/
def expands : ConcreteTree → Bool
  | .node segment children => !segment.isError && !children.isEmpty

/-- Conversion over a source; no node fails. -/
def conversion (source : List UInt8) : Conversion Empty Segment :=
  ⟨fun tree ↦ .ok (entry source tree), expands⟩

/-- Linked nodes of a concrete tree over its source. -/
def link (source : List UInt8) (tree : ConcreteTree) : Except Empty (Forest × NodeId) :=
  Forest.ofTree (conversion source) tree

end ConcreteTree

end SyntaxMining
