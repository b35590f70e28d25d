/-!
# Cutting text at a separator

`split` cuts a character list at every occurrence of one separator character.  The result is never
empty: a text without the separator is its own single piece.  Cutting two texts that are joined by
the separator gives the pieces of the first followed by the pieces of the second.
-/

namespace SyntaxMining.Text

/-- Pieces between the occurrences of `sep`. -/
def split (sep : Char) : List Char → List (List Char)
  | [] => [[]]
  | c :: rest =>
    if c = sep then [] :: split sep rest
    else
      match split sep rest with
      | [] => [[c]]
      | piece :: pieces => (c :: piece) :: pieces

/-- Pieces of a string between the occurrences of `sep`. -/
def splitString (sep : Char) (text : String) : List String :=
  (split sep text.toList).map String.ofList

/-- Text without the leading characters that satisfy `drop`. -/
def trimLeft (drop : Char → Bool) (text : String) : String :=
  String.ofList (text.toList.dropWhile drop)

/-- Text without the leading and trailing characters that satisfy `drop`. -/
def trim (drop : Char → Bool) (text : String) : String :=
  String.ofList (((text.toList.dropWhile drop).reverse.dropWhile drop).reverse)

/-- Texts joined by a separator text. -/
def joinWith (sep : String) : List String → String
  | [] => ""
  | [text] => text
  | text :: texts => text ++ sep ++ joinWith sep texts

theorem split_ne_nil (sep : Char) (text : List Char) : split sep text ≠ [] := by
  cases text with
  | nil => simp [split]
  | cons c rest =>
    rw [split]
    split
    · simp
    · split <;> simp

/-- A text without the separator stays whole. -/
theorem split_of_notMem {sep : Char} {text : List Char} (h : sep ∉ text) :
    split sep text = [text] := by
  induction text with
  | nil => rfl
  | cons c rest ih =>
    have hc : c ≠ sep := by
      rintro rfl
      simp at h
    have hrest : sep ∉ rest := fun hmem ↦ h (List.mem_cons_of_mem c hmem)
    rw [split, if_neg hc, ih hrest]

/-- Cutting at a separator between two texts separates their pieces. -/
theorem split_append (sep : Char) (left right : List Char) :
    split sep (left ++ sep :: right) = split sep left ++ split sep right := by
  induction left with
  | nil => simp [split]
  | cons c rest ih =>
    by_cases h : c = sep
    · simp [split, h, ih]
    · rw [List.cons_append, split, if_neg h, ih, split, if_neg h]
      cases hs : split sep rest with
      | nil => exact absurd hs (split_ne_nil sep rest)
      | cons piece pieces => simp

end SyntaxMining.Text
