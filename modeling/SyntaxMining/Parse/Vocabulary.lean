import SyntaxMining.Text.Split

/-!
# Names of token kinds

A grammar numbers its kinds of token and gives each a symbolic name, a literal form, or neither.
A kind is displayed by its literal form without apostrophes, else by its symbolic name, else by its
number.
-/

namespace SyntaxMining

/-- Symbolic and literal names by token kind. -/
structure Vocabulary where
  symbolic : List (Option String)
  literal : List (Option String)
deriving Inhabited

namespace Vocabulary

/-- Kind of the token at the end of the input. -/
def endKind : Int := -1

/-- Symbolic name of the end of the input. -/
def endName : String := "EOF"

/-- Entry of tables at kinds that have no name. -/
def invalidName : String := "<INVALID>"

/-- Name at a place in a table. -/
def lookup (names : List (Option String)) (kind : Int) : Option String :=
  if kind < 0 then none
  else
    match names.getD kind.toNat none with
    | none => none
    | some name => if name = "" ∨ name = invalidName then none else some name

def symbolicName (vocabulary : Vocabulary) (kind : Int) : Option String :=
  if kind = endKind then some endName else lookup vocabulary.symbolic kind

def literalName (vocabulary : Vocabulary) (kind : Int) : Option String :=
  lookup vocabulary.literal kind

def displayName (vocabulary : Vocabulary) (kind : Int) : String :=
  match vocabulary.literalName kind with
  | some literal => Text.trim (· == '\x27') literal
  | none => (vocabulary.symbolicName kind).getD (toString kind)

/-- Label of a token of some kind. -/
def tokenLabel (vocabulary : Vocabulary) (kind : Int) : String :=
  (vocabulary.symbolicName kind).getD (vocabulary.displayName kind)

end Vocabulary

end SyntaxMining
