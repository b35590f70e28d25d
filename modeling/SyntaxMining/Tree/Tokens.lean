import SyntaxMining.Tree.Syntax

/-!
# Tokens of the leaves

The text below a node is what its leaves hold, in order and without separators.  Tokens of inner
nodes do not count, and a leaf without a token contributes nothing.  `text_eq_joinTokens` says that
the text, which is written in one pass, is made of the leaf tokens alone.
-/

namespace SyntaxMining.Tree

mutual

/-- Tokens of the leaves in order, absent ones included. -/
def leafTokens : SyntaxTree → List (Option String)
  | node entry [] => [entry.token]
  | node _ (child :: rest) => child.leafTokens ++ leafTokensAll rest

def leafTokensAll : List SyntaxTree → List (Option String)
  | [] => []
  | child :: rest => child.leafTokens ++ leafTokensAll rest

end

mutual

/-- Writes the tokens of the leaves after a text. -/
def writeText (written : String) : SyntaxTree → String
  | node entry [] => written ++ entry.token.getD ""
  | node _ (child :: rest) => writeTextAll (child.writeText written) rest

def writeTextAll (written : String) : List SyntaxTree → String
  | [] => written
  | child :: rest => writeTextAll (child.writeText written) rest

end

/-- Tokens of the leaves, joined. -/
def text (tree : SyntaxTree) : String :=
  tree.writeText ""

/-- A text followed by the tokens that are there. -/
def joinTokens (written : String) (tokens : List (Option String)) : String :=
  tokens.foldl (fun text token ↦ text ++ token.getD "") written

mutual

theorem writeText_eq_joinTokens (written : String) (tree : SyntaxTree) :
    tree.writeText written = joinTokens written tree.leafTokens := by
  match tree with
  | node entry [] => simp [writeText, leafTokens, joinTokens]
  | node entry (child :: rest) =>
    rw [writeText, leafTokens, writeText_eq_joinTokens written child, writeTextAll_eq_joinTokens]
    simp [joinTokens, List.foldl_append]

theorem writeTextAll_eq_joinTokens (written : String) (trees : List SyntaxTree) :
    writeTextAll written trees = joinTokens written (leafTokensAll trees) := by
  match trees with
  | [] => simp [writeTextAll, leafTokensAll, joinTokens]
  | child :: rest =>
    rw [writeTextAll, leafTokensAll, writeText_eq_joinTokens written child,
      writeTextAll_eq_joinTokens]
    simp [joinTokens, List.foldl_append]

end

theorem text_eq_joinTokens (tree : SyntaxTree) : tree.text = joinTokens "" tree.leafTokens :=
  writeText_eq_joinTokens "" tree

end SyntaxMining.Tree
