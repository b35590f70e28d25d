/-!
# Console markup

A tag is an opening bracket, one of the letters a to z or `#`, `/`, `@`, and everything up to the
next closing bracket, with no other opening bracket between.  Backslashes in front of a tag are
read in pairs, one backslash each; a tag after an odd one is plain text.  `escape` makes the tags
of a text plain, `scan` cuts a marked-up text into live tags and text.
-/

namespace SyntaxMining.Display.Markup

def isTagStart (c : Char) : Bool :=
  ('a' ≤ c && c ≤ 'z') || c = '#' || c = '/' || c = '@'

/-- Whether a closing bracket comes before any opening one. -/
def closes : List Char → Bool
  | [] => false
  | c :: rest => if c = ']' then true else if c = '[' then false else closes rest

/-- Whether an opening bracket followed by this text starts a tag. -/
def opensTag : List Char → Bool
  | [] => false
  | c :: rest => isTagStart c && closes rest

def backslashes (count : Nat) : List Char :=
  List.replicate count '\\'

/-! ## Escaping -/

/-- Escapes the tags of a text that follows `run` backslashes. -/
def escapeFrom (run : Nat) : List Char → List Char
  | [] => backslashes run
  | c :: rest =>
    if c = '\\' then escapeFrom (run + 1) rest
    else if c = '[' && opensTag rest then backslashes (2 * run + 1) ++ c :: escapeFrom 0 rest
    else backslashes run ++ c :: escapeFrom 0 rest

/-- Doubles a backslash that stands alone at the end of a text. -/
def guardEnd (text : List Char) : List Char :=
  match text.reverse with
  | '\\' :: '\\' :: _ => text
  | '\\' :: _ => text ++ ['\\']
  | _ => text

/-- Markup that shows a text. -/
def escape (text : String) : String :=
  String.ofList (guardEnd (escapeFrom 0 text.toList))

/-! ## Scanning -/

inductive Piece where
  /-- Literal text. -/
  | text (chars : List Char)
  /-- An opening bracket that starts no tag, and the backslashes in front of it. -/
  | bracket (run : Nat)
  /-- A live tag. -/
  | tag (name : List Char)
deriving DecidableEq, Repr

/-- Where a scan stands: after `run` backslashes, or inside a tag whose characters stand backwards
in `name` and which is live or plain text. -/
inductive State where
  | text (run : Nat)
  | tag (live : Bool) (name : List Char)

def closeTag (live : Bool) (name : List Char) : Piece :=
  if live then .tag name.reverse else .text ('[' :: name.reverse ++ [']'])

/-- Cuts a marked-up text into pieces. -/
def scanFrom : State → List Char → List Piece
  | .text run, [] => [.text (backslashes run)]
  | .tag live name, [] => [closeTag live name]
  | .text run, c :: rest =>
    if c = '\\' then scanFrom (.text (run + 1)) rest
    else if c = '[' then
      if opensTag rest then .text (backslashes (run / 2)) :: scanFrom (.tag (run % 2 = 0) []) rest
      else .bracket run :: scanFrom (.text 0) rest
    else .text (backslashes run ++ [c]) :: scanFrom (.text 0) rest
  | .tag live name, c :: rest =>
    if c = ']' then closeTag live name :: scanFrom (.text 0) rest
    else scanFrom (.tag live (c :: name)) rest

def scan (markup : String) : List Piece :=
  scanFrom (.text 0) markup.toList

/-- What a console shows of a piece: tags are invisible, and an opening bracket outside of a tag
swallows one backslash. -/
def Piece.shown : Piece → List Char
  | .text chars => chars
  | .bracket run => backslashes (run - 1) ++ ['[']
  | .tag _ => []

/-- What a console shows of a marked-up text. -/
def shown (markup : String) : String :=
  String.ofList ((scan markup).flatMap Piece.shown)

/-- Text between an opening and a closing tag. -/
def wrap (style : String) (text : String) : String :=
  "[" ++ style ++ "]" ++ text ++ "[/" ++ style ++ "]"

end SyntaxMining.Display.Markup
