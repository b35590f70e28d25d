import SyntaxMining.Proofs.Query.Compressed

/-!
# Phrases of a grammar

Raw trees the way a parser builds them for one rule: nodes with fixed labels around subtrees of
any shape. Nothing is assumed of the tokens and spans of the fixed nodes. Labels of a grammar are
atomic, so the first and the last atom of a fixed node are its label.
-/

namespace SyntaxMining

namespace Grammar

/-- Tokens and spans of the fixed nodes of one phrase, by their labels. -/
abbrev Details := String → Option String × Option Span

/-- Neither tokens nor spans. -/
def unmarked : Details :=
  fun _ ↦ (none, none)

def rule (details : Details) (label : String) (children : List SyntaxTree) : SyntaxTree :=
  .node ⟨⟨label⟩, (details label).1, (details label).2⟩ children

def terminal (details : Details) (label : String) : SyntaxTree :=
  rule details label []

/-- A terminal whose token is known. -/
def word (details : Details) (label token : String) : SyntaxTree :=
  .node ⟨⟨label⟩, some token, (details label).2⟩ []

/-- Subtrees of any shape that are rooted at one rule. -/
structure Phrase (label : String) where
  tree : SyntaxTree
  label_eq : tree.value.label = ⟨label⟩

section Values

variable (details : Details) (label token : String) (children : List SyntaxTree)

@[simp]
theorem label_rule : (rule details label children).value.label = ⟨label⟩ :=
  rfl

@[simp]
theorem children_rule : (rule details label children).children = children :=
  rfl

@[simp]
theorem label_terminal : (terminal details label).value.label = ⟨label⟩ :=
  rfl

@[simp]
theorem chainEnd_terminal : (terminal details label).chainEnd = terminal details label :=
  rfl

@[simp]
theorem label_word : (word details label token).value.label = ⟨label⟩ :=
  rfl

@[simp]
theorem chainEnd_word : (word details label token).chainEnd = word details label token :=
  rfl

@[simp]
theorem token_word : (word details label token).value.token = some token :=
  rfl

theorem chainEnd_rule (h : children.length ≠ 1) :
    (rule details label children).chainEnd = rule details label children :=
  Tree.chainEnd_stop _ h

theorem chainEnd_rule_singleton (child : SyntaxTree) :
    (rule details label [child]).chainEnd = child.chainEnd :=
  Tree.chainEnd_only _ child

end Values

attribute [simp] Phrase.label_eq

/-- Phrases of another rule are passed over when a child is looked up. -/
theorem find?_phrases_append {label atom : String} (h : (⟨label⟩ : Label).first ≠ atom)
    (phrases : List (Phrase label)) (rest : List SyntaxTree) :
    (phrases.map Phrase.tree ++ rest).find? (fun child ↦ child.value.label.first == atom) =
      rest.find? fun child ↦ child.value.label.first == atom := by
  induction phrases with
  | nil => rfl
  | cons phrase others ih => simpa [h] using ih

/-! ## Separated lists -/

section Separated

variable {α : Type} (separator : α → SyntaxTree) (write : α → List SyntaxTree)

/-- The trees of several items, with a separator in front of every item but the first. -/
def separated : List α → List SyntaxTree
  | [] => []
  | first :: rest => write first ++ rest.flatMap fun next ↦ separator next :: write next

theorem filter_separated {accept : SyntaxTree → Bool}
    (hseparator : ∀ item, ¬ accept (separator item)) (items : List α) :
    (separated separator write items).filter accept =
      items.flatMap fun item ↦ (write item).filter accept := by
  cases items with
  | nil => rfl
  | cons first rest => simp [separated, List.filter_append, List.filter_flatMap, hseparator]

theorem filter_separated_singleton {accept : SyntaxTree → Bool} (tree : α → SyntaxTree)
    (hseparator : ∀ item, ¬ accept (separator item)) (htree : ∀ item, accept (tree item))
    (items : List α) :
    (separated separator (fun item ↦ [tree item]) items).filter accept = items.map tree := by
  rw [filter_separated separator _ hseparator, List.map_eq_flatMap]
  apply List.flatMap_congr
  intro item _
  simp [htree item]

theorem two_mul_length_le_separated (hwrite : ∀ item, write item ≠ []) (items : List α) :
    2 * items.length ≤ (separated separator write items).length + 1 := by
  have hpositive : ∀ item, 0 < (write item).length :=
    fun item ↦ List.length_pos_iff.mpr (hwrite item)
  cases items with
  | nil => simp
  | cons first rest =>
    have hrest : 2 * rest.length ≤
        (rest.flatMap fun next ↦ separator next :: write next).length := by
      induction rest with
      | nil => simp
      | cons next others ih =>
        have hnext := hpositive next
        rw [List.flatMap_cons, List.length_append, List.length_cons, List.length_cons]
        omega
    have hfirst := hpositive first
    rw [separated, List.length_append, List.length_cons]
    omega

theorem length_separated_ne_one (hwrite : ∀ item, write item ≠ []) {items : List α}
    (h : items.length ≠ 1) : (separated separator write items).length ≠ 1 := by
  have hlength := two_mul_length_le_separated separator write hwrite items
  cases items with
  | nil => simp [separated]
  | cons first rest =>
    rw [List.length_cons] at h hlength
    omega

end Separated

/-- Reading succeeds item by item. -/
theorem mapM_map_eq_ok {α β ν ε : Type} {node : α → ν} {read : ν → Except ε β} {value : α → β}
    (items : List α) (h : ∀ item ∈ items, read (node item) = .ok (value item)) :
    (items.map node).mapM read = .ok (items.map value) := by
  induction items with
  | nil => rfl
  | cons item rest ih =>
    have hrest := ih fun next hnext ↦ h next (List.mem_cons_of_mem item hnext)
    rw [List.map_cons, List.mapM_cons, h item (by simp), hrest]
    rfl

end Grammar

end SyntaxMining
