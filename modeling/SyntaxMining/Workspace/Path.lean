import SyntaxMining.Text.Quoted
import SyntaxMining.Text.Split

/-!
# File names and paths

A path is a text cut at slashes; it is absolute when it starts with one.  The stem and suffix of a
file name part at its last dot, provided the dot is neither its first nor its last character.
-/

namespace SyntaxMining.Path

/-! ## Names -/

/-- Stem and suffix of a file name, the suffix with its dot. -/
def splitName (name : String) : String × String :=
  let chars := name.toList
  let tail := (chars.reverse.takeWhile (· ≠ '.')).reverse
  let head := chars.take (chars.length - tail.length)
  if tail.isEmpty || head.length ≤ 1 then (name, "")
  else (String.ofList head.dropLast, String.ofList ('.' :: tail))

def stem (name : String) : String :=
  (splitName name).1

def suffix (name : String) : String :=
  (splitName name).2

/-! ## Paths -/

/-- Steps of a path, empty ones and those that stay in place included. -/
def steps (path : String) : List String :=
  Text.splitString '/' path

/-- Steps that lead somewhere. -/
def parts (path : String) : List String :=
  (steps path).filter fun step ↦ step ≠ "" && step ≠ "."

/-- Last part of a path. -/
def name (path : String) : String :=
  (parts path).getLastD ""

/-- What an absolute path starts with: two slashes differ from one, and more do not. -/
inductive Root where
  | single
  | double
deriving DecidableEq, Repr

def Root.text : Root → String
  | single => "/"
  | double => "//"

/-- What a path starts with, if it is absolute. -/
def root? (path : String) : Option Root :=
  match path.toList with
  | '/' :: '/' :: '/' :: _ => some .single
  | '/' :: '/' :: _ => some .double
  | '/' :: _ => some .single
  | _ => none

/-- What the absolute form of a path starts with. -/
def root (path : String) : Root :=
  (root? path).getD .single

def isAbsolute (path : String) : Bool :=
  (root? path).isSome

/-- Absolute path of names. -/
def absolute (root : Root) (names : List String) : String :=
  root.text ++ Text.joinWith "/" names

/-- Relative path of parts; no parts at all stay in place. -/
def relative : List String → String
  | [] => "."
  | parts => Text.joinWith "/" parts

/-- Path of parts, behind a root if there is one. -/
def ofParts : Option Root → List String → String
  | none, parts => relative parts
  | some root, parts => absolute root parts

/-- Path of names below a path, without steps that lead nowhere. -/
def within (path : String) (names : List String) : String :=
  ofParts (root? path) (parts path ++ names)

/-- A name below a directory. -/
def below (directory name : String) : String :=
  match directory.toList.getLast? with
  | none => name
  | some '/' => directory ++ name
  | some _ => directory ++ "/" ++ name

/-- Follows parts from a place, without looking at any directory; above the top is the top. -/
def follow : List String → List String → List String
  | here, [] => here
  | here, part :: rest =>
    if part = ".." then follow here.dropLast rest else follow (here ++ [part]) rest

end SyntaxMining.Path
