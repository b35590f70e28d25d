import SyntaxMining.Json.Token
import SyntaxMining.Schema.Check
import SyntaxMining.Text.Blank

/-!
# Checking scalars

Integers and booleans are read leniently.  An integer may be written as a number without fraction,
as a boolean or as a decimal text; a boolean as zero or one or as one of a few words.  Texts are
only texts.
-/

namespace SyntaxMining.Schema

/-! ## Integers -/

/-- Whether digits stand at both ends and no two underscores meet. -/
def underscoresInside : List Char → Bool
  | [] => false
  | [c] => c.isDigit
  | c :: '_' :: rest => c.isDigit && underscoresInside rest
  | c :: rest => c.isDigit && underscoresInside rest

/-- Value of decimal digits that single underscores may group, with an empty fraction allowed. -/
def unsignedOfText (text : List Char) : Option Nat :=
  let whole := text.takeWhile (· ≠ '.')
  let fraction := (text.dropWhile (· ≠ '.')).drop 1
  if underscoresInside whole && fraction.all (· == '0') then
    some (Json.Token.decimal (whole.filter Char.isDigit))
  else none

/-- Value of a decimal text: blanks around it are ignored, a sign may stand in front. -/
def intOfText (text : String) : Option Int :=
  match (Text.trim Text.isBlank text).toList with
  | '-' :: rest => (unsignedOfText rest).map fun n ↦ -(n : Int)
  | '+' :: rest => (unsignedOfText rest).map Int.ofNat
  | rest => (unsignedOfText rest).map Int.ofNat

/-- Longest text that is read as an integer. -/
def maxDigits : Nat := 4300

/-- Floating-point value of a decimal number. -/
def floatOf (mantissa exponent : Int) : Float :=
  let scale : Int := (Nat.toDigits 10 mantissa.natAbs).length + exponent
  let size : Float :=
    if mantissa = 0 ∨ scale < -400 then 0
    else if scale > 400 then 1 / 0
    else Float.ofScientific mantissa.natAbs (decide (exponent < 0)) exponent.natAbs
  if mantissa < 0 then -size else size

/-- Whole number that a decimal number is in floating point. -/
def wholeOf (mantissa exponent : Int) : Check Int :=
  let value := floatOf mantissa exponent
  if value.isNaN || value.isInf then .fail .notFinite
  else if value.floor != value then .fail .intFromFloat
  else if -9223372036854775808.0 < value && value < 9223372036854775808.0 then
    .ok value.toInt64.toInt
  else .fail .intTooLarge

def int : Json → Check Int
  | .int value => .ok value
  | .bool value => .ok (if value then 1 else 0)
  | .real mantissa exponent => wholeOf mantissa exponent
  | .nonfinite => .fail .notFinite
  | .str text =>
    if text.length > maxDigits then .fail .intTooLarge
    else
      match intOfText text with
      | some value => .ok value
      | none => .fail .intParsing
  | _ => .fail .intType

/-! ## Booleans -/

def trueWords : List String := ["1", "on", "t", "true", "y", "yes"]

def falseWords : List String := ["0", "off", "f", "false", "n", "no"]

/-- Zero and one are truth values; other numbers of machine size are not, and larger ones are no
candidates at all. -/
def boolOfInt (value : Int) : Check Bool :=
  if value = 0 then .ok false
  else if value = 1 then .ok true
  else if -9223372036854775808 ≤ value ∧ value ≤ 9223372036854775807 then .fail .boolParsing
  else .fail .boolType

def bool : Json → Check Bool
  | .bool value => .ok value
  | .int value => boolOfInt value
  | .real mantissa exponent =>
    match wholeOf mantissa exponent with
    | .ok value => boolOfInt value
    | .error _ => .fail .boolType
  | .str text =>
    if trueWords.contains text.toLower then .ok true
    else if falseWords.contains text.toLower then .ok false
    else .fail .boolParsing
  | _ => .fail .boolType

/-! ## Texts -/

def string : Json → Check String
  | .str text => .ok text
  | _ => .fail .stringType

def nonEmptyString (value : Json) : Check String :=
  match string value with
  | .ok text => if text = "" then .fail .stringTooShort else .ok text
  | .error issues => .error issues

end SyntaxMining.Schema
