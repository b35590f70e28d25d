import Mathlib.Data.List.Basic
import SyntaxMining.Label

/-!
# Labels of chains

A label has one atom more than it has bars, so a label without a bar is its own only atom. The
labels of a chain are joined by bars. The atoms of joined labels are the atoms of each label in
turn, and they are the labels themselves exactly when no label has a bar of its own.
-/

namespace SyntaxMining

theorem Text.length_split (sep : Char) (text : List Char) :
    (split sep text).length = text.count sep + 1 := by
  induction text with
  | nil => rfl
  | cons c rest ih =>
    by_cases h : c = sep
    · rw [split, if_pos h, List.length_cons, ih, h, List.count_cons_self]
    · rw [split, if_neg h, List.count_cons_of_ne h, ← ih]
      cases hs : split sep rest with
      | nil => exact absurd hs (split_ne_nil sep rest)
      | cons piece pieces => rfl

namespace Label

theorem length_atoms (label : Label) : label.atoms.length = label.text.toList.count bar + 1 := by
  rw [atoms, Text.splitString, List.length_map, Text.length_split]

theorem atoms_of_notMem {text : String} (h : bar ∉ text.toList) : atoms ⟨text⟩ = [text] := by
  rw [atoms, Text.splitString, Text.split_of_notMem h, List.map_singleton, String.ofList_toList]

@[simp]
theorem first_of_notMem {text : String} (h : bar ∉ text.toList) : first ⟨text⟩ = text := by
  rw [first, atoms_of_notMem h, List.headD_cons]

@[simp]
theorem last_of_notMem {text : String} (h : bar ∉ text.toList) : last ⟨text⟩ = text := by
  rw [last, atoms_of_notMem h]
  rfl

/-! ## Joined labels -/

/-- All labels of a chain, joined by bars. -/
def joined (labels : List Label) : Label :=
  ⟨Text.joinWith (String.singleton bar) (labels.map text)⟩

theorem joined_cons (label : Label) {labels : List Label} (h : labels ≠ []) :
    joined (label :: labels) = label.fold (joined labels) := by
  cases labels with
  | nil => exact absurd rfl h
  | cons next rest => rfl

theorem atoms_joined {labels : List Label} (h : labels ≠ []) :
    (joined labels).atoms = labels.flatMap atoms := by
  induction labels with
  | nil => exact absurd rfl h
  | cons label rest ih =>
    cases rest with
    | nil => rw [List.flatMap_singleton]; rfl
    | cons next others =>
      rw [joined_cons label (List.cons_ne_nil next others), atoms_fold,
        ih (List.cons_ne_nil next others), ← List.flatMap_cons]

/-- Each label has an atom, so there are as many atoms as labels only when no label has two. -/
theorem notMem_of_length_flatMap_atoms {labels : List Label}
    (h : (labels.flatMap atoms).length ≤ labels.length) :
    ∀ label ∈ labels, bar ∉ label.text.toList := by
  have hmany (others : List Label) : others.length ≤ (others.flatMap atoms).length := by
    induction others with
    | nil => exact Nat.le_refl _
    | cons other rest ih =>
      rw [List.flatMap_cons, List.length_append, List.length_cons, length_atoms]
      omega
  induction labels with
  | nil => simp
  | cons label rest ih =>
    have hrest := hmany rest
    rw [List.flatMap_cons, List.length_append, List.length_cons, length_atoms] at h
    rw [List.forall_mem_cons]
    exact ⟨List.count_eq_zero.mp (by omega), ih (by omega)⟩

/-- Cutting at bars gives the labels of a chain back exactly when none of them has a bar. -/
theorem atoms_joined_eq_map_text_iff {labels : List Label} (h : labels ≠ []) :
    (joined labels).atoms = labels.map text ↔ ∀ label ∈ labels, bar ∉ label.text.toList := by
  rw [atoms_joined h]
  constructor
  · intro hatoms
    exact notMem_of_length_flatMap_atoms (by simp [hatoms])
  · intro hbars
    rw [List.map_eq_flatMap]
    exact List.flatMap_congr fun label hlabel ↦ atoms_of_notMem (hbars label hlabel)

/-- Joined labels start as the outermost one does. -/
theorem first_joined {labels : List Label} {outer : Label} (h : labels.head? = some outer) :
    (joined labels).first = outer.first := by
  obtain ⟨rest, rfl⟩ := List.head?_eq_some_iff.mp h
  cases rest with
  | nil => rfl
  | cons next others =>
    rw [joined_cons outer (List.cons_ne_nil next others), first_fold]

/-- Joined labels are the innermost one, or end with a bar and the innermost one. -/
theorem joined_cases {labels : List Label} {last : Label} (h : labels.getLast? = some last) :
    joined labels = last ∨ ∃ outer, (joined labels).text = outer ++ "|" ++ last.text := by
  induction labels with
  | nil => simp at h
  | cons label rest ih =>
    cases rest with
    | nil =>
      obtain rfl : label = last := by simpa using h
      exact Or.inl rfl
    | cons next others =>
      rw [List.getLast?_cons_cons] at h
      rw [joined_cons label (List.cons_ne_nil next others)]
      refine Or.inr ?_
      rcases ih h with hlast | ⟨outer, houter⟩
      · exact ⟨label.text, by rw [hlast]; rfl⟩
      · refine ⟨label.text ++ "|" ++ outer, ?_⟩
        change label.text ++ "|" ++ (joined (next :: others)).text = _
        simp only [houter, String.append_assoc]

/-- Joined labels are folded down to the innermost one. -/
theorem last_joined {labels : List Label} {last : Label} (h : labels.getLast? = some last) :
    (joined labels).last = last.last := by
  induction labels with
  | nil => simp at h
  | cons label rest ih =>
    cases rest with
    | nil =>
      obtain rfl : label = last := by simpa using h
      rfl
    | cons next others =>
      rw [List.getLast?_cons_cons] at h
      rw [joined_cons label (List.cons_ne_nil next others), last_fold, ih h]

end Label

end SyntaxMining
