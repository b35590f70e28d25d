import SyntaxMining.Tree.Syntax

/-!
# Removing single-child chains

A chain is a node with exactly one child, followed downwards as far as possible.  `compress` folds
each chain into one node that keeps the outer span, takes the inner token and children, and joins
all labels.  `simplify` keeps only the innermost node of each chain.
-/

namespace SyntaxMining

/-- How single-child chains are removed. -/
inductive Mode where
  | compress
  | simplify
deriving DecidableEq, Repr

namespace Tree

/-- Node over finished children, folded with an only child. -/
def foldChain (outer : Entry) : List SyntaxTree → SyntaxTree
  | [node inner children] => node ⟨outer.label.fold inner.label, inner.token, outer.span⟩ children
  | children => node outer children

/-- Node over finished children, replaced by an only child. -/
def dropChain (outer : Entry) : List SyntaxTree → SyntaxTree
  | [inner] => inner
  | children => node outer children

mutual

/-- Folds every chain into one node with a compound label. -/
def compress : SyntaxTree → SyntaxTree
  | node entry children => foldChain entry (compressAll children)

def compressAll : List SyntaxTree → List SyntaxTree
  | [] => []
  | child :: rest => compress child :: compressAll rest

end

mutual

/-- Replaces every chain by its innermost node. -/
def simplify : SyntaxTree → SyntaxTree
  | node entry children => dropChain entry (simplifyAll children)

def simplifyAll : List SyntaxTree → List SyntaxTree
  | [] => []
  | child :: rest => simplify child :: simplifyAll rest

end

def normalize : Mode → SyntaxTree → SyntaxTree
  | .compress => compress
  | .simplify => simplify

/-- Applies several modes, the first one first. -/
def normalizeAll (modes : List Mode) (tree : SyntaxTree) : SyntaxTree :=
  modes.foldl (fun result mode ↦ result.normalize mode) tree

end Tree

end SyntaxMining
