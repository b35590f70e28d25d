import SyntaxMining.Json.Printer
import SyntaxMining.Schema.Scalar
import SyntaxMining.Tree.Flatten

/-!
# Dataset records

One line of a dataset holds a label, possibly the path of a source file, and the nodes of a tree in
flat form.  Absent paths and spans are left out of the line.
-/

namespace SyntaxMining

/-! ## Spans as JSON -/

namespace Position

def toJson (position : Position) : Json :=
  .obj [("line", .int position.line), ("column", .int position.column)]

def ofJson : Json → Schema.Check Position :=
  Schema.ofRecord fun fields ↦
    Schema.Check.ap ((Schema.required "line" Schema.int fields).map Position.mk)
      (Schema.required "column" Schema.int fields)

end Position

namespace Span

def toJson (span : Span) : Json :=
  .obj [("start", span.start.toJson), ("end", span.stop.toJson)]

def ofJson : Json → Schema.Check Span :=
  Schema.ofRecord fun fields ↦
    Schema.Check.ap ((Schema.required "start" Position.ofJson fields).map Span.mk)
      (Schema.required "end" Position.ofJson fields)

end Span

namespace Dataset

/-! ## Nodes -/

/-- A flat node: the empty token stands for an absent one. -/
structure Node where
  token : String
  label : String
  span : Option Span
  children : List Int
deriving DecidableEq, Repr

namespace Node

/-- Flat node of a record, with its span on demand. -/
def ofRecord (withSpan : Bool) (record : Record Entry) : Node where
  token := record.value.token.getD ""
  label := record.value.label.text
  span := if withSpan then record.value.span else none
  children := record.children.map Int.ofNat

/-- All fields, an absent span as null. -/
def toJson (node : Node) : Json :=
  .obj [("token", .str node.token), ("typeLabel", .str node.label),
    ("range", .ofOption Span.toJson node.span), ("children", .arr (node.children.map .int))]

def ofJson : Json → Schema.Check Node :=
  Schema.ofRecord fun fields ↦
    Schema.Check.ap
      (Schema.Check.ap
        (Schema.Check.ap ((Schema.required "token" Schema.string fields).map Node.mk)
          (Schema.required "type_label" Schema.string fields))
        (Schema.optional "range" none (Schema.nullable Span.ofJson) fields))
      (Schema.optional "children" [] (Schema.list Schema.int) fields)

end Node

/-! ## Lines -/

/-- A labelled tree in flat form. -/
structure LabeledTree where
  label : String
  path : Option String
  nodes : List Node
deriving DecidableEq, Repr

/-- A field that is left out when it has no value. -/
def presentField (name : String) : Option Json → List (String × Json)
  | none => []
  | some value => [(name, value)]

namespace Node

/-- The node as it stands in a line. -/
def lineJson (node : Node) : Json :=
  .obj ([("token", .str node.token), ("typeLabel", .str node.label)] ++
    presentField "range" (node.span.map Span.toJson) ++
    [("children", .arr (node.children.map .int))])

end Node

namespace LabeledTree

/-- The labelled tree as it stands in a line. -/
def lineJson (tree : LabeledTree) : Json :=
  .obj ([("label", .str tree.label)] ++ presentField "path" (tree.path.map .str) ++
    [("ast", .arr (tree.nodes.map Node.lineJson))])

/-- Text of a line, without its line break. -/
def line (tree : LabeledTree) : String :=
  tree.lineJson.render

def ofJson : Json → Schema.Check LabeledTree :=
  Schema.ofRecord fun fields ↦
    Schema.Check.ap
      (Schema.Check.ap ((Schema.required "label" Schema.string fields).map LabeledTree.mk)
        (Schema.optional "path" none (Schema.nullable Schema.string) fields))
      (Schema.optional "ast" [] (Schema.list Node.ofJson) fields)

end LabeledTree

/-- Label and path of a tree that is to be stored. -/
def subject (fields : List (String × Json)) : Schema.Check (String × Option String) :=
  Schema.Check.ap ((Schema.required "label" Schema.string fields).map Prod.mk)
    (Schema.optional "file_path" none (Schema.nullable Schema.string) fields)

/-- What of a tree goes into its line. -/
structure LineOptions where
  withPaths : Bool
  withSpans : Bool
deriving DecidableEq, Inhabited, Repr

/-- Labelled tree of a finished syntax tree. -/
def labeled (options : LineOptions) (label : String) (path : Option String) (tree : SyntaxTree) :
    LabeledTree where
  label := label
  path := if options.withPaths then path else none
  nodes := tree.flatten.map (Node.ofRecord options.withSpans)

end Dataset

end SyntaxMining
