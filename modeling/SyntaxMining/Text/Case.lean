import SyntaxMining.Text.Unicode

/-!
# Lower case

A text is put into lower case character by character.  The capital sigma alone looks around itself:
behind a letter with case and not before one, it becomes the sigma that ends words.  Marks and
modifiers between do not count.
-/

namespace SyntaxMining.Text

/-- Whether a letter with case stands here for the end of a word. -/
def isCased (c : Char) : Bool :=
  if c.toNat < 0x80 then c.isAlpha else inRanges casedRanges c.toNat

/-- Whether the end of a word is looked for beyond a character. -/
def isCaseIgnorable (c : Char) : Bool :=
  if c.toNat < 0x80 then [0x27, 0x2E, 0x3A, 0x5E, 0x60].contains c.toNat
  else inRanges ignorableRanges c.toNat

def capitalSigma : Char := Char.ofNat 0x3A3

/-- Lower-case form of a capital sigma between what stands before it, backwards, and after it. -/
def lowerSigma (before after : List Char) : Char :=
  let cased (text : List Char) : Bool := (text.dropWhile isCaseIgnorable).head?.any isCased
  if cased before && !cased after then Char.ofNat 0x3C2 else Char.ofNat 0x3C3

/-- Lower-case form of any other character. -/
def lowerChar (c : Char) : List Char :=
  let code := c.toNat
  if code < 0x80 then [c.toLower]
  -- the capital i with a dot keeps its dot as a mark
  else if code = 0x130 then ['i', Char.ofNat 0x307]
  else
    match caseRanges.find? fun range ↦
        range.first ≤ code && code ≤ range.last && (code - range.first) % range.step = 0 with
    | none => [c]
    | some range => [Char.ofNat (code + range.shift).toNat]

/-- Lower-case form of a text that follows another one, given backwards. -/
def lowerFrom (before : List Char) : List Char → List Char
  | [] => []
  | c :: rest =>
    let lowered := if c = capitalSigma then [lowerSigma before rest] else lowerChar c
    lowered ++ lowerFrom (c :: before) rest

/-- Text in lower case. -/
def lower (text : String) : String :=
  String.ofList (lowerFrom [] text.toList)

end SyntaxMining.Text
