import SyntaxMining.Json.Basic
import SyntaxMining.Json.Token

/-!
# Reading JSON

The tokens of a text are assembled into one value by a stack of open arrays and objects.  A text
that is no value, or holds more than one, or nests deeper than allowed, is refused.
-/

namespace SyntaxMining.Json

/-- An array or object that is still open; its finished parts stand backwards. -/
inductive Frame where
  | array (items : List Json)
  | object (fields : List (String × Json)) (name : String)

/-- What the next token has to be. -/
inductive Expectation where
  | value
  | itemOrEnd
  | nameOrEnd
  | name (fields : List (String × Json))
  | colon (fields : List (String × Json)) (name : String)
  | separator (value : Json)

/-- Closes an array with its last item, or an object with its last field. -/
def Frame.close (last : Json) : Frame → Token → Option Json
  | .array items, .closeBracket => some (arr (last :: items).reverse)
  | .object fields name, .closeBrace => some (ofFields ((name, last) :: fields).reverse)
  | _, _ => none

/-- A value that consists of one token. -/
def scalar : Token → Option Json
  | .null => some null
  | .bool value => some (bool value)
  | .int value => some (int value)
  | .real mantissa exponent => some (real mantissa exponent)
  | .nonfinite => some nonfinite
  | .str value => some (str value)
  | _ => none

/-- Reads the first token of a value.  An array or object may be opened while fewer than `limit` are
open. -/
def begin? (limit : Nat) (frames : List Frame) : Token → Option (Expectation × List Frame)
  | .openBracket => if frames.length < limit then some (.itemOrEnd, frames) else none
  | .openBrace => if frames.length < limit then some (.nameOrEnd, frames) else none
  | token => (scalar token).map fun value ↦ (.separator value, frames)

/-- Reads one token. -/
def advance (limit : Nat) :
    Expectation → List Frame → Token → Option (Expectation × List Frame)
  | .value, frames, token => begin? limit frames token
  | .itemOrEnd, frames, token =>
    match token with
    | .closeBracket => some (.separator (arr []), frames)
    | token => begin? limit (.array [] :: frames) token
  | .nameOrEnd, frames, token =>
    match token with
    | .closeBrace => some (.separator (obj []), frames)
    | .str name => some (.colon [] name, frames)
    | _ => none
  | .name fields, frames, token =>
    match token with
    | .str name => some (.colon fields name, frames)
    | _ => none
  | .colon fields name, frames, token =>
    match token with
    | .colon => some (.value, .object fields name :: frames)
    | _ => none
  | .separator value, frames, token =>
    match frames, token with
    | .array items :: frames, .comma => some (.value, .array (value :: items) :: frames)
    | .object fields name :: frames, .comma => some (.name ((name, value) :: fields), frames)
    | frame :: frames, token => (frame.close value token).map fun whole ↦ (.separator whole, frames)
    | [], _ => none

/-- Reads the remaining tokens to a single value. -/
def assemble (limit : Nat) : Expectation → List Frame → List Token → Option Json
  | .separator value, [], [] => some value
  | _, _, [] => none
  | expectation, frames, token :: rest =>
    match advance limit expectation frames token with
    | none => none
    | some (expectation, frames) => assemble limit expectation frames rest

/-- Value of a text that nests at most `limit` arrays and objects. -/
def parse? (limit : Nat) (text : String) : Option Json :=
  match Token.scan text.toList with
  | none => none
  | some tokens => assemble limit .value [] tokens

end SyntaxMining.Json
