import SyntaxMining.Json.Basic
import SyntaxMining.Text.Quoted

/-!
# Writing JSON

Values are written without blanks.  In texts only the quotation mark, the backslash and the
controls below U+0020 are escaped.  Every writer takes the characters that follow, so a value is
written in one pass from its end.
-/

namespace SyntaxMining.Json

/-- How one character is written inside a text. -/
def escapeChar (c : Char) : List Char :=
  if c = '"' then ['\\', '"']
  else if c = '\\' then ['\\', '\\']
  else if c = '\n' then ['\\', 'n']
  else if c = '\r' then ['\\', 'r']
  else if c = '\t' then ['\\', 't']
  else if c.toNat = 0x08 then ['\\', 'b']
  else if c.toNat = 0x0C then ['\\', 'f']
  else if c.toNat < 0x20 then '\\' :: 'u' :: Text.hexDigits 4 c.toNat
  else [c]

/-- Characters of a text and its closing mark. -/
def writeChars : List Char → List Char → List Char
  | [], after => '"' :: after
  | c :: rest, after => escapeChar c ++ writeChars rest after

def writeString (text : String) (after : List Char) : List Char :=
  '"' :: writeChars text.toList after

def writeInt (value : Int) (after : List Char) : List Char :=
  match value with
  | .ofNat n => Nat.toDigits 10 n ++ after
  | .negSucc n => '-' :: (Nat.toDigits 10 (n + 1) ++ after)

def writeBool : Bool → List Char → List Char
  | true, after => 't' :: 'r' :: 'u' :: 'e' :: after
  | false, after => 'f' :: 'a' :: 'l' :: 's' :: 'e' :: after

mutual

/-- Characters of a value, followed by `after`. -/
def write : Json → List Char → List Char
  | null, after => 'n' :: 'u' :: 'l' :: 'l' :: after
  | bool value, after => writeBool value after
  | int value, after => writeInt value after
  | real mantissa exponent, after => writeInt mantissa ('e' :: writeInt exponent after)
  | nonfinite, after => 'N' :: 'a' :: 'N' :: after
  | str value, after => writeString value after
  | arr [], after => '[' :: ']' :: after
  | arr (item :: rest), after => '[' :: write item (writeItems rest after)
  | obj [], after => '\x7b' :: '\x7d' :: after
  | obj ((name, value) :: rest), after =>
    '\x7b' :: writeString name (':' :: write value (writeFields rest after))

/-- Further items of an array and its closing bracket. -/
def writeItems : List Json → List Char → List Char
  | [], after => ']' :: after
  | item :: rest, after => ',' :: write item (writeItems rest after)

/-- Further fields of an object and its closing brace. -/
def writeFields : List (String × Json) → List Char → List Char
  | [], after => '\x7d' :: after
  | (name, value) :: rest, after =>
    ',' :: writeString name (':' :: write value (writeFields rest after))

end

/-- Text of a value. -/
def render (value : Json) : String :=
  String.ofList (write value [])

end SyntaxMining.Json
