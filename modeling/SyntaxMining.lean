import SyntaxMining.Forest.Session
import SyntaxMining.Function.Registry
import SyntaxMining.Main
import SyntaxMining.Parse.Tree
import SyntaxMining.Query.Shown
import SyntaxMining.Proofs.Tree.Basic
import SyntaxMining.Proofs.Tree.Chain
import SyntaxMining.Proofs.Forest.Links
import SyntaxMining.Proofs.Forest.Rebuild
import SyntaxMining.Proofs.Forest.Quotient
import SyntaxMining.Proofs.Query.Compressed
import SyntaxMining.Proofs.Function.Grammar
import SyntaxMining.Proofs.Function.JavaMethod
import SyntaxMining.Proofs.Function.PythonFunction
import SyntaxMining.Proofs.Function.PhpFunction
import SyntaxMining.Proofs.Forest.Agreement
import SyntaxMining.Proofs.Function.Containment
import SyntaxMining.Proofs.Query.Quotient
import SyntaxMining.Proofs.Forest.Image
import SyntaxMining.Proofs.Function.Nesting
import SyntaxMining.Proofs.Json.RoundTrip
import SyntaxMining.Proofs.Dataset.Lossless
import SyntaxMining.Proofs.Forest.Consistency
import SyntaxMining.Proofs.Dataset.Storing
import SyntaxMining.Proofs.Parse.Conversion
import SyntaxMining.Proofs.Dataset.Runs
import SyntaxMining.Proofs.Workspace.Walk
import SyntaxMining.Proofs.Command.Parse
import SyntaxMining.Proofs.Label
import SyntaxMining.Proofs.Tree.Leaves
import SyntaxMining.Proofs.Concrete.LeafText
import SyntaxMining.Proofs.Forest.Atoms
import SyntaxMining.Proofs.Forest.ChainStart
import SyntaxMining.Proofs.Function.PhpNesting
import SyntaxMining.Proofs.Function.Transport
import SyntaxMining.Proofs.Forest.Regrow
import SyntaxMining.Proofs.Function.Isolation
import SyntaxMining.Proofs.Forest.Copy
import SyntaxMining.Proofs.Forest.LeafTokens
import SyntaxMining.Proofs.Tree.Enumeration
import SyntaxMining.Proofs.Forest.Rest
import SyntaxMining.Proofs.Function.ParameterSearch
import SyntaxMining.Proofs.Function.Violations
import SyntaxMining.Proofs.Function.ParameterReports
import SyntaxMining.Proofs.Function.PythonMethods
import SyntaxMining.Proofs.Function.JavaModifiers
import SyntaxMining.Proofs.Workspace.Eligible
import SyntaxMining.Proofs.Concrete.Spans
import SyntaxMining.Proofs.Parse.Hull
import SyntaxMining.Proofs.Display.Markup
import SyntaxMining.Proofs.Display.Outline
import SyntaxMining.Proofs.Forest.Climb
