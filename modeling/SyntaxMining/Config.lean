import SyntaxMining.Dataset.Record
import SyntaxMining.Json.Parser
import SyntaxMining.Language
import SyntaxMining.Tree.Normalize

/-!
# Configuration

Where and how trees are stored, how they are normalised, which extensions belong to which language,
and which directories are passed over.  Every setting has a default; unknown settings are ignored.
-/

namespace SyntaxMining

namespace Mode

def name : Mode → String
  | compress => "compress"
  | simplify => "simplify"

def ofName? (name : String) : Option Mode :=
  if name = "compress" then some compress
  else if name = "simplify" then some simplify
  else none

/-- Message for a name that is no mode's. -/
def unknownMessage (name : String) : String :=
  "Unknown tree mode '" ++ name ++ "', expected one of ('compress', 'simplify')"

def ofJson : Json → Schema.Check Mode
  | .str text =>
    match ofName? text with
    | some mode => .ok mode
    | none => .fail .notAChoice
  | _ => .fail .notAChoice

end Mode

/-- Where lines go and what they hold. -/
structure StorageConfig where
  outputDir : String := "output"
  withPaths : Bool := false
  withSpans : Bool := false
deriving DecidableEq, Repr

namespace StorageConfig

def ofJson : Json → Schema.Check StorageConfig :=
  Schema.ofRecord fun fields ↦
    let default : StorageConfig := {}
    Schema.Check.ap
      (Schema.Check.ap
        ((Schema.optional "output_dir" default.outputDir Schema.string fields).map StorageConfig.mk)
        (Schema.optional "with_paths" default.withPaths Schema.bool fields))
      (Schema.optional "with_ranges" default.withSpans Schema.bool fields)

def toJson (config : StorageConfig) : Json :=
  .obj [("output_dir", .str config.outputDir), ("with_paths", .bool config.withPaths),
    ("with_ranges", .bool config.withSpans)]

end StorageConfig

structure Config where
  storage : StorageConfig := {}
  mode : Mode := .compress
  languages : List (String × List String) := Language.extensions
  excluded : List String :=
    [".git", "__pycache__", "node_modules", "target", "build", "dist", ".gradle", ".idea",
     ".vscode", "venv", ".venv"]

namespace Config

/-- Deepest nesting of a configuration text. -/
def nestingLimit : Nat := 200

def ofJson : Json → Schema.Check Config :=
  Schema.ofRecord fun fields ↦
    let default : Config := {}
    Schema.Check.ap
      (Schema.Check.ap
        (Schema.Check.ap
          ((Schema.optional "storage" default.storage StorageConfig.ofJson fields).map Config.mk)
          (Schema.optional "tree_mode" default.mode Mode.ofJson fields))
        (Schema.optional "language_extensions" default.languages
          (Schema.dictionary (Schema.list Schema.string)) fields))
      (Schema.optional "exclude_patterns" default.excluded (Schema.list Schema.string) fields)

/-- Configuration of a JSON text. -/
def ofText (text : String) : Schema.Check Config :=
  match Json.parse? nestingLimit text with
  | none => .fail .notJson
  | some value => ofJson value

/-- Languages by extension. -/
def table (config : Config) : ExtensionTable :=
  ExtensionTable.ofLanguages config.languages

end Config

end SyntaxMining
