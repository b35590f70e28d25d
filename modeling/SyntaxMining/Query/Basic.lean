import SyntaxMining.Tree.Tokens

/-!
# Structural queries

Questions about a node and its surroundings, for every carrier that knows a node's entry, children,
subtree and ancestors.  A child is recognised by the first atom of its label, because folding keeps
what the child was to its parent; a node itself is recognised by the last atom, which is what it
was folded down to.  Absence is an answer, never an error.
-/

namespace SyntaxMining

/-- Nodes that can be navigated.  Ancestors are listed from the parent upwards. -/
class Navigable (ν : Type) where
  entry : ν → Entry
  children : ν → List ν
  ancestors : ν → List ν
  subtree : ν → SyntaxTree

namespace Query

export Navigable (entry children ancestors subtree)

variable {ν : Type} [Navigable ν]

def label (node : ν) : Label :=
  (entry node).label

def token (node : ν) : Option String :=
  (entry node).token

def parent? (node : ν) : Option ν :=
  (ancestors node).head?

def isLeaf (node : ν) : Bool :=
  (children node).isEmpty

def firstIs (node : ν) (atom : String) : Bool :=
  (label node).first == atom

def lastIs (node : ν) (atom : String) : Bool :=
  (label node).last == atom

def firstIn (node : ν) (atoms : List String) : Bool :=
  atoms.contains (label node).first

def lastIn (node : ν) (atoms : List String) : Bool :=
  atoms.contains (label node).last

/-- Children whose label chain starts with an atom. -/
def childrenOfType (node : ν) (atom : String) : List ν :=
  (children node).filter (firstIs · atom)

/-- First child whose label chain starts with an atom. -/
def childOfType? (node : ν) (atom : String) : Option ν :=
  (children node).find? (firstIs · atom)

/-- The node itself when it was folded down to an atom, else its children of that type. -/
def selfOrChildrenOfType (node : ν) (atom : String) : List ν :=
  if lastIs node atom then [node] else childrenOfType node atom

/-- Tokens of the leaves below a node, joined. -/
def text (node : ν) : String :=
  (subtree node).text

/-- Nearest proper ancestor that satisfies a predicate. -/
def enclosing? (node : ν) (accept : ν → Bool) : Option ν :=
  (ancestors node).find? accept

end Query

/-- Tests of a label that name a predicate on nodes. -/
inductive LabelTest where
  | firstIs (atom : String)
  | lastIs (atom : String)
  | firstIn (atoms : List String)
  | lastIn (atoms : List String)
  | labelIs (text : String)
  | always

def LabelTest.holds {ν : Type} [Navigable ν] (node : ν) : LabelTest → Bool
  | firstIs atom => Query.firstIs node atom
  | lastIs atom => Query.lastIs node atom
  | firstIn atoms => Query.firstIn node atoms
  | lastIn atoms => Query.lastIn node atoms
  | labelIs text => (Query.label node).text == text
  | always => true

end SyntaxMining
