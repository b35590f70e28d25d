import SyntaxMining.Text.Split

/-!
# Node labels

A label names the grammar rule or terminal that a node stands for.  When a chain of nodes is folded
into one, their labels are joined by a bar, outermost first; `atoms` cuts a label back into the
atomic labels.  Every label has at least one atom, and folding concatenates the atoms.
-/

namespace SyntaxMining

/-- Name of a node, possibly a chain of atomic labels joined by bars. -/
structure Label where
  text : String
deriving DecidableEq, Inhabited, Repr

namespace Label

def bar : Char := '|'

/-- Atomic labels, outermost first. -/
def atoms (label : Label) : List String :=
  Text.splitString bar label.text

/-- Outermost atomic label. -/
def first (label : Label) : String :=
  label.atoms.headD ""

/-- Innermost atomic label. -/
def last (label : Label) : String :=
  label.atoms.getLastD ""

/-- Label of a node that was folded with its only child. -/
def fold (outer inner : Label) : Label :=
  ⟨outer.text ++ String.singleton bar ++ inner.text⟩

/-- Label of the leaves that stand for source text no grammar rule accepts. -/
def error : Label := ⟨"Error"⟩

theorem atoms_ne_nil (label : Label) : label.atoms ≠ [] := by
  simp [atoms, Text.splitString, Text.split_ne_nil]

@[simp]
theorem atoms_fold (outer inner : Label) :
    (fold outer inner).atoms = outer.atoms ++ inner.atoms := by
  simp [atoms, fold, Text.splitString, Text.split_append, String.toList_append]

@[simp]
theorem first_fold (outer inner : Label) : (fold outer inner).first = outer.first := by
  rw [first, first, atoms_fold]
  cases h : outer.atoms with
  | nil => exact absurd h outer.atoms_ne_nil
  | cons atom rest => rfl

@[simp]
theorem last_fold (outer inner : Label) : (fold outer inner).last = inner.last := by
  rw [last, last, atoms_fold]
  cases h : inner.atoms with
  | nil => exact absurd h inner.atoms_ne_nil
  | cons atom rest => simp [List.getLastD_eq_getLast?, List.getLast?_cons]

end Label

end SyntaxMining
