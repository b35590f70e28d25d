/-!
# JSON tokens

`scan` cuts a text into tokens, one character at a time: a state says what token is under
construction, and a character either extends it, ends it, or is refused.
-/

namespace SyntaxMining.Json

inductive Token where
  | openBrace
  | closeBrace
  | openBracket
  | closeBracket
  | comma
  | colon
  | null
  | bool (value : Bool)
  | int (value : Int)
  | real (mantissa : Int) (exponent : Int)
  | nonfinite
  | str (value : String)
deriving DecidableEq, Repr

namespace Token

/-! ## Numbers -/

def digitValue (c : Char) : Nat :=
  c.toNat - 48

/-- Value of a run of decimal digits. -/
def decimal (digits : List Char) : Nat :=
  digits.foldl (fun value c ↦ value * 10 + digitValue c) 0

/-- An exponent: a mark, an optional sign and digits. -/
def readExponent : List Char → Option Int
  | [] => some 0
  | mark :: rest =>
    if mark = 'e' || mark = 'E' then
      let digits := match rest with
        | '+' :: digits => digits
        | '-' :: digits => digits
        | digits => digits
      if digits.isEmpty || !digits.all Char.isDigit then none
      else if rest.head? = some '-' then some (-(decimal digits : Int))
      else some (decimal digits)
    else none

/-- An unsigned number, negated on demand. -/
def readUnsigned (negative : Bool) (text : List Char) : Option Token :=
  let whole := text.takeWhile Char.isDigit
  let rest := text.dropWhile Char.isDigit
  let sign : Int := if negative then -1 else 1
  if whole.isEmpty || (whole.head? = some '0' && whole.length ≠ 1) then none
  else
    match rest with
    | [] => some (int (sign * decimal whole))
    | '.' :: rest =>
      let places := rest.takeWhile Char.isDigit
      if places.isEmpty then none
      else
        (readExponent (rest.dropWhile Char.isDigit)).map fun exponent ↦
          real (sign * decimal (whole ++ places)) (exponent - places.length)
    | rest => (readExponent rest).map (real (sign * decimal whole))

/-- A number: no sign but minus, no leading zeros, digits on both sides of a point. -/
def readNumber : List Char → Option Token
  | '-' :: text => readUnsigned true text
  | text => readUnsigned false text

/-! ## Words -/

/-- Words for numbers that have no decimal form. -/
def nonfiniteWords : List (List Char) :=
  ["NaN".toList, "Infinity".toList, "-Infinity".toList]

def readWord (text : List Char) : Option Token :=
  if text = ['n', 'u', 'l', 'l'] then some null
  else if text = ['t', 'r', 'u', 'e'] then some (bool true)
  else if text = ['f', 'a', 'l', 's', 'e'] then some (bool false)
  else if nonfiniteWords.contains text then some nonfinite
  else none

/-! ## Characters -/

def hexValue (c : Char) : Option Nat :=
  if c.isDigit then some (c.toNat - 48)
  else if 'a' ≤ c && c ≤ 'f' then some (c.toNat - 87)
  else if 'A' ≤ c && c ≤ 'F' then some (c.toNat - 55)
  else none

/-- What a letter after a backslash stands for. -/
def unescape (c : Char) : Option Char :=
  if c = '"' || c = '\\' || c = '/' then some c
  else if c = 'b' then some (Char.ofNat 0x08)
  else if c = 'f' then some (Char.ofNat 0x0C)
  else if c = 'n' then some '\n'
  else if c = 'r' then some '\r'
  else if c = 't' then some '\t'
  else none

def isHighSurrogate (unit : Nat) : Bool :=
  0xD800 ≤ unit && unit ≤ 0xDBFF

def isLowSurrogate (unit : Nat) : Bool :=
  0xDC00 ≤ unit && unit ≤ 0xDFFF

/-! ## The scanner -/

/-- The token under construction.  Texts, numbers and words hold their characters backwards; a
text may also be inside an escape, and after the first half of a surrogate pair. -/
inductive State where
  | between
  | text (done : List Char)
  | escape (done : List Char) (high : Option Nat)
  | hex (done : List Char) (high : Option Nat) (missing : Nat) (unit : Nat)
  | half (done : List Char) (high : Nat)
  | number (done : List Char)
  | word (done : List Char)

def isSpace (c : Char) : Bool :=
  c = ' ' || c = '\n' || c = '\r' || c = '\t'

/-- A character between tokens. -/
def start (c : Char) : Option (List Token × State) :=
  if isSpace c then some ([], .between)
  else if c = '\x7b' then some ([openBrace], .between)
  else if c = '\x7d' then some ([closeBrace], .between)
  else if c = '[' then some ([openBracket], .between)
  else if c = ']' then some ([closeBracket], .between)
  else if c = ',' then some ([comma], .between)
  else if c = ':' then some ([colon], .between)
  else if c = '"' then some ([], .text [])
  else if c = '-' || c.isDigit then some ([], .number [c])
  else if c.isAlpha then some ([], .word [c])
  else none

def isNumberPart (c : Char) : Bool :=
  c.isDigit || c = '.' || c = '+' || c = '-' || c = 'e' || c = 'E'

/-- Ends a token and starts the next one with `c`. -/
def endThen (token : Option Token) (c : Char) : Option (List Token × State) :=
  match token, start c with
  | some token, some (tokens, state) => some (token :: tokens, state)
  | _, _ => none

/-- State after a complete escape of one code unit. -/
def closeUnit (done : List Char) (high : Option Nat) (unit : Nat) : Option State :=
  match high with
  | none =>
    if isHighSurrogate unit then some (.half done unit)
    else if isLowSurrogate unit then none
    else some (.text (Char.ofNat unit :: done))
  | some high =>
    if isLowSurrogate unit then
      some (.text (Char.ofNat (0x10000 + (high - 0xD800) * 0x400 + (unit - 0xDC00)) :: done))
    else none

/-- Reads one character. -/
def step : State → Char → Option (List Token × State)
  | .between, c => start c
  | .text done, c =>
    if c = '"' then some ([str (String.ofList done.reverse)], .between)
    else if c = '\\' then some ([], .escape done none)
    else if c.toNat < 0x20 then none
    else some ([], .text (c :: done))
  | .escape done high, c =>
    if c = 'u' then some ([], .hex done high 4 0)
    else
      match high, unescape c with
      | none, some meaning => some ([], .text (meaning :: done))
      | _, _ => none
  | .hex done high missing unit, c =>
    match hexValue c with
    | none => none
    | some value =>
      let unit := unit * 16 + value
      if missing ≤ 1 then (closeUnit done high unit).map fun state ↦ ([], state)
      else some ([], .hex done high (missing - 1) unit)
  | .half done high, c => if c = '\\' then some ([], .escape done (some high)) else none
  | .number done, c =>
    if isNumberPart c then some ([], .number (c :: done))
    else if done = ['-'] && c.isAlpha then some ([], .word (c :: done))
    else endThen (readNumber done.reverse) c
  | .word done, c =>
    if c.isAlpha then some ([], .word (c :: done)) else endThen (readWord done.reverse) c

/-- Tokens at the end of the text. -/
def finish : State → Option (List Token)
  | .between => some []
  | .number done => (readNumber done.reverse).map ([·])
  | .word done => (readWord done.reverse).map ([·])
  | _ => none

/-- Tokens of the rest of a text; `done` holds those already read, backwards. -/
def scanFrom : State → List Token → List Char → Option (List Token)
  | state, done, [] => (finish state).map fun tokens ↦ done.reverse ++ tokens
  | state, done, c :: rest =>
    match step state c with
    | none => none
    | some (tokens, state) => scanFrom state (tokens.reverse ++ done) rest

/-- Tokens of a text, or nothing when it has a character no token can hold. -/
def scan (text : List Char) : Option (List Token) :=
  scanFrom .between [] text

end Token

end SyntaxMining.Json
