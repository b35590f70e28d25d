import SyntaxMining.Query.Basic
import SyntaxMining.Text.Quoted

/-!
# Short form of a node

A node with a token is shown by its label and token, any other by its label and the number of its
children.
-/

namespace SyntaxMining.Query

variable {ν : Type} [Navigable ν]

def shown (node : ν) : String :=
  let label := Text.quote (label node).text
  match token node with
  | some token => "Node(" ++ label ++ ", token=" ++ Text.quote token ++ ")"
  | none => "Node(" ++ label ++ ", children=" ++ toString (children node).length ++ ")"

end SyntaxMining.Query
