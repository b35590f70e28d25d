import SyntaxMining.Forest.Growth
import SyntaxMining.Parse.Vocabulary

/-!
# Grammar parse trees

Parse trees as a grammar-driven parser hands them over: rule nodes, terminals and error nodes, with
tokens whose parts may be absent.  `entry` converts one node on its own, and `link?` grows the
linked nodes of a whole parse tree.  The children of a rule node are converted together, from left
to right, and those of its last child before those of the others.  The first node in this order
that cannot be converted decides the fault.
-/

namespace SyntaxMining

/-- A token: its kind and text, its line and column, and the offsets of its first and last
character. -/
structure Lexeme where
  kind : Option Int
  text : Option String
  line : Option Int
  column : Option Int
  first : Option Int
  last : Option Int
deriving DecidableEq, Repr

inductive ParseTree where
  | rule (index : Int) (start stop : Option Lexeme) (children : List ParseTree)
  | terminal (lexeme : Option Lexeme)
  | error (lexeme : Option Lexeme)
deriving Inhabited

/-- Why a node cannot be converted. -/
inductive ParseFault where
  /-- The rule index is outside the table of rule names. -/
  | ruleIndex
  /-- A terminal or error node has no token. -/
  | lexemeMissing
  /-- A terminal's token has no kind. -/
  | kindMissing
  /-- The start of a span has no column. -/
  | columnMissing
  /-- The end of a span has no column or no offsets. -/
  | extentMissing
deriving DecidableEq, Repr

/-- Names of a grammar's rules and tokens. -/
structure ParseNames where
  rules : List String
  vocabulary : Vocabulary
deriving Inhabited

namespace ParseTree

/-- Name at a place in a table, counted from the end when negative. -/
def ruleName (names : List String) (index : Int) : Option String :=
  if 0 ≤ index then names[index.toNat]?
  else if 0 ≤ names.length + index then names[(names.length + index).toNat]?
  else none

/-- Column of a token's last character. -/
def lastColumn (lexeme : Lexeme) : Except ParseFault Int :=
  match lexeme.column, lexeme.last, lexeme.first with
  | some column, some last, some first => .ok (column + last - first)
  | _, _, _ => .error .extentMissing

/-- Span from one token to another; unknown when a line is. -/
def spanOf (start stop : Lexeme) : Except ParseFault (Option Span) :=
  match start.line, stop.line with
  | some startLine, some stopLine =>
    match start.column with
    | none => .error .columnMissing
    | some startColumn =>
      match lastColumn stop with
      | .error fault => .error fault
      | .ok stopColumn => .ok (some ⟨⟨startLine, startColumn⟩, ⟨stopLine, stopColumn⟩⟩)
  | _, _ => .ok none

/-- Span of a rule node; unknown when a boundary token is absent. -/
def ruleSpan : Option Lexeme → Option Lexeme → Except ParseFault (Option Span)
  | some start, some stop => spanOf start stop
  | _, _ => .ok none

/-- Converts a node without its children. -/
def entry (names : ParseNames) : ParseTree → Except ParseFault Entry
  | rule index start stop _ =>
    match ruleName names.rules index with
    | none => .error .ruleIndex
    | some name => (ruleSpan start stop).map fun span ↦ ⟨⟨name⟩, none, span⟩
  | terminal none => .error .lexemeMissing
  | terminal (some lexeme) =>
    match lexeme.kind with
    | none => .error .kindMissing
    | some kind =>
      (spanOf lexeme lexeme).map fun span ↦
        ⟨⟨names.vocabulary.tokenLabel kind⟩, lexeme.text, span⟩
  | error none => .error .lexemeMissing
  | error (some lexeme) =>
    (spanOf lexeme lexeme).map fun span ↦ ⟨Label.error, lexeme.text, span⟩

mutual

/-- All nodes of a parse tree, in its shape. -/
def nodes : ParseTree → Tree ParseTree
  | rule index start stop children => .node (rule index start stop children) (nodesAll children)
  | terminal lexeme => .node (terminal lexeme) []
  | error lexeme => .node (error lexeme) []

def nodesAll : List ParseTree → List (Tree ParseTree)
  | [] => []
  | tree :: rest => nodes tree :: nodesAll rest

end

/-- Whether a node has children to convert. -/
def isRule : ParseTree → Bool
  | rule .. => true
  | terminal _ => false
  | error _ => false

/-- Conversion with the names of a grammar. -/
def conversion (names : ParseNames) : Conversion ParseFault ParseTree :=
  ⟨fun tree ↦ entry names tree.value, fun tree ↦ tree.value.isRule⟩

/-- Linked nodes of a parse tree. -/
def link? (names : ParseNames) (tree : ParseTree) : Except ParseFault (Forest × NodeId) :=
  Forest.ofTree (conversion names) tree.nodes

end ParseTree

end SyntaxMining
