/-!
# Reports

What the program tells its user beside its results: records with a severity, the part of the
program that speaks, and a message.
-/

namespace SyntaxMining

inductive Severity where
  | warning
  | error
deriving DecidableEq, Repr

def Severity.name : Severity → String
  | warning => "WARNING"
  | error => "ERROR"

/-- The part of the program a report comes from. -/
inductive Source where
  /-- Function extraction from Java trees. -/
  | java
  /-- Function extraction from Python trees. -/
  | python
  /-- Function extraction from PHP trees. -/
  | php
  /-- Extraction of all functions of a tree. -/
  | survey
  /-- Reading and parsing of source files. -/
  | frontend
  /-- The command line. -/
  | command
  /-- Code that uses the containment functions directly. -/
  | caller
deriving DecidableEq, Repr

structure Report where
  severity : Severity
  source : Source
  message : String
deriving DecidableEq, Repr

end SyntaxMining
