import SyntaxMining.Label
import SyntaxMining.Span
import SyntaxMining.Tree.Basic

/-!
# Syntax trees

The tree form shared by all front ends.  A node has a label, a token when it stands for source
text, and the span it covers when that is known.  Inner nodes may carry a token and leaves may lack
one.
-/

namespace SyntaxMining

/-- What is known of one node. -/
structure Entry where
  label : Label
  token : Option String
  span : Option Span
deriving DecidableEq, Inhabited, Repr

abbrev SyntaxTree := Tree Entry

/-- Values that describe a node, possibly together with more. -/
class Described (α : Type) where
  entry : α → Entry

instance : Described Entry where
  entry := id

instance : Described (Nat × Entry) where
  entry := Prod.snd

end SyntaxMining
