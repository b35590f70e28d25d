/-!
# Source positions

A position counts lines from one and columns from zero.  A span runs from its first to its last
character, both included.
-/

namespace SyntaxMining

structure Position where
  line : Int
  column : Int
deriving DecidableEq, Inhabited, Repr

structure Span where
  start : Position
  stop : Position
deriving DecidableEq, Inhabited, Repr

end SyntaxMining
