import SyntaxMining.Dataset.Store

/-!
# Command-line arguments

Arguments are options or plain words.  A long option takes its value after an equals sign or from
the next argument; short options may share one dash, and the last of them takes its value from the
rest of the argument or from the next one.  After two dashes everything is a plain word.  Arguments
that do not fit the command are refused.
-/

namespace SyntaxMining.Command

/-- The options of a command: which need a value. -/
structure OptionTable where
  long : List (String × Bool)
  short : List (Char × String × Bool)

/-- An argument after reading. -/
inductive Argument where
  | plain (text : String)
  | flag (name : String)
  | setting (name value : String)
deriving DecidableEq, Repr

namespace OptionTable

/-- Reads the letters behind one dash.  Gives the arguments read, and the option that still needs
a value from the next argument. -/
def readShort (table : OptionTable) : List Char → Option (List Argument × Option String)
  | [] => some ([], none)
  | letter :: rest =>
    match table.short.find? fun row ↦ row.1 = letter with
    | none => none
    | some (_, name, needsValue) =>
      if needsValue then
        if rest.isEmpty then some ([], some name)
        else some ([.setting name (String.ofList rest)], none)
      else (readShort table rest).map fun result ↦ (.flag name :: result.1, result.2)

/-- Splits a long option at its first equals sign. -/
def splitValue (text : List Char) : String × Option String :=
  let name := String.ofList (text.takeWhile (· ≠ '='))
  match text.dropWhile (· ≠ '=') with
  | [] => (name, none)
  | _ :: value => (name, some (String.ofList value))

/-- Reads one long option, like `readShort`. -/
def readLong (table : OptionTable) (text : List Char) : Option (List Argument × Option String) :=
  let parts := splitValue text
  match table.long.find? fun row ↦ row.1 = parts.1, parts.2 with
  | some (name, true), some value => some ([.setting name value], none)
  | some (name, true), none => some ([], some name)
  | some (name, false), none => some ([.flag name], none)
  | _, _ => none

/-- Reads an argument that may be an option. -/
def readArgument (table : OptionTable) (text : String) : Option (List Argument × Option String) :=
  match text.toList with
  | '-' :: '-' :: rest => readLong table rest
  | '-' :: letter :: rest => readShort table (letter :: rest)
  | _ => some ([.plain text], none)

/-- Reads all arguments; `awaiting` is an option that needs the next argument as its value. -/
def readAll (table : OptionTable) : (awaiting : Option String) → List String →
    Option (List Argument)
  | none, [] => some []
  | some _, [] => none
  | some name, text :: rest => (readAll table none rest).map (.setting name text :: ·)
  | none, text :: rest =>
    if text = "--" then some (rest.map .plain)
    else
      match readArgument table text with
      | none => none
      | some (read, awaiting) => (readAll table awaiting rest).map (read ++ ·)

end OptionTable

/-! ## Commands -/

structure ParseOptions where
  path : String
  output : Option String
  holdout : Dataset.Holdout
  withPaths : Option Bool
  withSpans : Option Bool
  simplify : Bool
  config : Option String
deriving DecidableEq, Repr

structure ShowOptions where
  file : String
  simplify : Bool
deriving DecidableEq, Repr

inductive Invocation where
  | parse (options : ParseOptions)
  | show (options : ShowOptions)
  | help
deriving DecidableEq, Repr

def parseTable : OptionTable where
  long := [("output", true), ("holdout", true), ("with-paths", false), ("no-paths", false),
    ("with-ranges", false), ("no-ranges", false), ("simplify", false), ("config", true),
    ("verbose", false), ("help", false)]
  short := [('o', "output", true), ('c', "config", true), ('v', "verbose", false)]

def showTable : OptionTable where
  long := [("simplify", false), ("verbose", false), ("help", false)]
  short := [('v', "verbose", false)]

def plainWords (arguments : List Argument) : List String :=
  arguments.filterMap fun argument ↦ match argument with
    | .plain text => some text
    | _ => none

def hasFlag (arguments : List Argument) (name : String) : Bool :=
  arguments.contains (.flag name)

/-- Value of an option; the last one counts. -/
def setting? (arguments : List Argument) (name : String) : Option String :=
  (arguments.filterMap fun argument ↦ match argument with
    | .setting known value => if known = name then some value else none
    | _ => none).getLast?

/-- Which of two opposite flags was given last. -/
def choice? (arguments : List Argument) (yes no : String) : Option Bool :=
  (arguments.filterMap fun argument ↦ match argument with
    | .flag name => if name = yes then some true else if name = no then some false else none
    | _ => none).getLast?

/-- Partition named by the arguments. -/
def holdout? (arguments : List Argument) : Option Dataset.Holdout :=
  match setting? arguments "holdout" with
  | none => some .whole
  | some name => Dataset.Holdout.ofFolder? name

def readParse (arguments : List Argument) : Option Invocation :=
  match plainWords arguments, holdout? arguments with
  | [path], some holdout =>
    some (.parse
      { path := path
        output := setting? arguments "output"
        holdout := holdout
        withPaths := choice? arguments "with-paths" "no-paths"
        withSpans := choice? arguments "with-ranges" "no-ranges"
        simplify := hasFlag arguments "simplify"
        config := setting? arguments "config" })
  | _, _ => none

def readShow (arguments : List Argument) : Option Invocation :=
  match plainWords arguments with
  | [file] => some (.show ⟨file, hasFlag arguments "simplify"⟩)
  | _ => none

/-- Reads a command's arguments; asking for help is always understood. -/
def readCommand (table : OptionTable) (read : List Argument → Option Invocation)
    (arguments : List String) : Option Invocation :=
  match table.readAll none arguments with
  | none => none
  | some arguments => if hasFlag arguments "help" then some .help else read arguments

/-- Reads the arguments of the command of some name. -/
def readNamed (command : String) (arguments : List String) : Option Invocation :=
  if command = "parse" then readCommand parseTable readParse arguments
  else if command = "show" then readCommand showTable readShow arguments
  else none

/-- Reads a whole command line. -/
def read? : List String → Option Invocation
  | [] => none
  | "--" :: command :: arguments => readNamed command arguments
  | word :: arguments => if word = "--help" then some .help else readNamed word arguments

end SyntaxMining.Command
