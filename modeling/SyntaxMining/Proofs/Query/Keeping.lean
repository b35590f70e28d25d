import Mathlib.Data.List.Basic
import Mathlib.Data.List.Find
import SyntaxMining.Query.Basic

/-!
# Maps that keep what queries read

A map takes the nodes of one carrier to nodes of another. Where it keeps what a node carries, tests
of the label answer alike. Where it also keeps the children, a search among them finds the node that
the map takes the found child to. Where it keeps everything below a node, any text read there stays
the same, and where it keeps the way up, so does the search for an enclosing element.
-/

namespace SyntaxMining.Query

/-! ## Lists of nodes -/

section Lists

variable {ν μ : Type} {move : ν → μ} {nodes : List ν} {accept : ν → Bool} {acceptMoved : μ → Bool}

theorem find?_map_move (h : ∀ node ∈ nodes, acceptMoved (move node) = accept node) :
    (nodes.map move).find? acceptMoved = (nodes.find? accept).map move := by
  rw [List.find?_map]
  congr 1
  exact List.find?_congr h

theorem filter_map_move (h : ∀ node ∈ nodes, acceptMoved (move node) = accept node) :
    (nodes.map move).filter acceptMoved = (nodes.filter accept).map move := by
  rw [List.filter_map]
  congr 1
  exact List.filter_congr h

theorem filterMap_map_move {β : Type} {read : ν → Option β} {readMoved : μ → Option β}
    (h : ∀ node ∈ nodes, readMoved (move node) = read node) :
    (nodes.map move).filterMap readMoved = nodes.filterMap read := by
  rw [List.filterMap_map]
  exact List.filterMap_congr h

theorem mapM_map_move {ε β : Type} {read : ν → Except ε β} {readMoved : μ → Except ε β}
    (h : ∀ node ∈ nodes, readMoved (move node) = read node) :
    (nodes.map move).mapM readMoved = nodes.mapM read := by
  induction nodes with
  | nil => rfl
  | cons node rest ih =>
    rw [List.map_cons, List.mapM_cons, List.mapM_cons, h node (by simp),
      ih fun other hother ↦ h other (List.mem_cons_of_mem node hother)]

end Lists

/-! ## Degrees of keeping -/

variable {ν μ : Type} [Navigable ν] [Navigable μ]

/-- A map keeps what a node carries. -/
def Keeps (move : ν → μ) (node : ν) : Prop :=
  entry (move node) = entry node

/-- A map keeps what a node and its children carry. -/
structure KeepsChildren (move : ν → μ) (node : ν) : Prop where
  keeps : Keeps move node
  children_eq : children (move node) = (children node).map move
  keeps_child : ∀ child ∈ children node, Keeps move child

/-- A map keeps everything below a node. -/
inductive KeepsSubtree (move : ν → μ) : ν → Prop where
  | node {node : ν} (here : KeepsChildren move node)
      (subtree_eq : subtree (move node) = subtree node)
      (below : ∀ child ∈ children node, KeepsSubtree move child) : KeepsSubtree move node

/-- A map keeps the way up from a node and from each ancestor, with the children of each. -/
inductive KeepsAncestors (move : ν → μ) : ν → Prop where
  | node {node : ν} (ancestors_eq : ancestors (move node) = (ancestors node).map move)
      (beside : ∀ above ∈ ancestors node, KeepsChildren move above)
      (above : ∀ above ∈ ancestors node, KeepsAncestors move above) : KeepsAncestors move node

variable {move : ν → μ} {node : ν}

/-! ## A node -/

namespace Keeps

variable (h : Keeps move node)

include h

theorem label_eq : label (move node) = label node :=
  congrArg Entry.label h

theorem token_eq : token (move node) = token node :=
  congrArg Entry.token h

theorem firstIs_eq (atom : String) : firstIs (move node) atom = firstIs node atom := by
  rw [firstIs, firstIs, h.label_eq]

theorem lastIs_eq (atom : String) : lastIs (move node) atom = lastIs node atom := by
  rw [lastIs, lastIs, h.label_eq]

theorem firstIn_eq (atoms : List String) : firstIn (move node) atoms = firstIn node atoms := by
  rw [firstIn, firstIn, h.label_eq]

theorem lastIn_eq (atoms : List String) : lastIn (move node) atoms = lastIn node atoms := by
  rw [lastIn, lastIn, h.label_eq]

end Keeps

/-! ## Its children -/

namespace KeepsChildren

variable (h : KeepsChildren move node)

include h

theorem find?_children {accept : ν → Bool} {acceptMoved : μ → Bool}
    (haccept : ∀ child, Keeps move child → acceptMoved (move child) = accept child) :
    (children (move node)).find? acceptMoved = ((children node).find? accept).map move := by
  rw [h.children_eq]
  exact find?_map_move fun child hchild ↦ haccept child (h.keeps_child child hchild)

theorem filter_children {accept : ν → Bool} {acceptMoved : μ → Bool}
    (haccept : ∀ child, Keeps move child → acceptMoved (move child) = accept child) :
    (children (move node)).filter acceptMoved = ((children node).filter accept).map move := by
  rw [h.children_eq]
  exact filter_map_move fun child hchild ↦ haccept child (h.keeps_child child hchild)

theorem childOfType?_eq (atom : String) :
    childOfType? (move node) atom = (childOfType? node atom).map move :=
  h.find?_children fun _ hchild ↦ hchild.firstIs_eq atom

theorem childrenOfType_eq (atom : String) :
    childrenOfType (move node) atom = (childrenOfType node atom).map move :=
  h.filter_children fun _ hchild ↦ hchild.firstIs_eq atom

theorem isSome_childOfType?_eq (atom : String) :
    (childOfType? (move node) atom).isSome = (childOfType? node atom).isSome := by
  rw [h.childOfType?_eq, Option.isSome_map]

/-- A child that is found carries the same token. -/
theorem bind_token_find? {accept : ν → Bool} :
    (((children node).find? accept).map move).bind token =
      ((children node).find? accept).bind token := by
  cases hfound : (children node).find? accept with
  | none => rfl
  | some child => exact (h.keeps_child child (List.mem_of_find?_eq_some hfound)).token_eq

theorem bind_token_childOfType? (atom : String) :
    (childOfType? (move node) atom).bind token = (childOfType? node atom).bind token := by
  rw [h.childOfType?_eq]
  exact h.bind_token_find?

theorem length_children_eq : (children (move node)).length = (children node).length := by
  rw [h.children_eq, List.length_map]

theorem isLeaf_eq : isLeaf (move node) = isLeaf node := by
  rw [isLeaf, isLeaf, h.children_eq, List.isEmpty_map]

theorem selfOrChildrenOfType_eq (atom : String) :
    selfOrChildrenOfType (move node) atom = (selfOrChildrenOfType node atom).map move := by
  rw [selfOrChildrenOfType, selfOrChildrenOfType, h.keeps.lastIs_eq, h.childrenOfType_eq]
  split <;> rfl

end KeepsChildren

/-! ## Everything below it -/

namespace KeepsSubtree

variable (h : KeepsSubtree move node)

include h

theorem keepsChildren : KeepsChildren move node := by
  cases h with
  | node here _ _ => exact here

theorem keeps : Keeps move node :=
  h.keepsChildren.keeps

theorem subtree_eq : subtree (move node) = subtree node := by
  cases h with
  | node _ subtree_eq _ => exact subtree_eq

theorem text_eq : text (move node) = text node := by
  rw [text, text, h.subtree_eq]

theorem of_mem_children {child : ν} (hchild : child ∈ children node) : KeepsSubtree move child := by
  cases h with
  | node _ _ below => exact below child hchild

theorem of_childOfType? {atom : String} {child : ν} (hchild : childOfType? node atom = some child) :
    KeepsSubtree move child :=
  h.of_mem_children (List.mem_of_find?_eq_some hchild)

theorem map_text_childOfType? (atom : String) :
    (childOfType? (move node) atom).map text = (childOfType? node atom).map text := by
  rw [h.keepsChildren.childOfType?_eq, Option.map_map]
  apply Option.map_congr
  intro child hchild
  exact (h.of_childOfType? hchild).text_eq

/-- Two searches in a row, one below the other. -/
theorem bind_childOfType? (outer inner : String) :
    (childOfType? (move node) outer).bind (childOfType? · inner) =
      ((childOfType? node outer).bind (childOfType? · inner)).map move := by
  rw [h.keepsChildren.childOfType?_eq]
  cases hchild : childOfType? node outer with
  | none => rfl
  | some child => exact (h.of_childOfType? hchild).keepsChildren.childOfType?_eq inner

theorem of_bind_childOfType? {outer inner : String} {below : ν}
    (hbelow : (childOfType? node outer).bind (childOfType? · inner) = some below) :
    KeepsSubtree move below := by
  obtain ⟨child, hchild, hin⟩ := Option.bind_eq_some_iff.mp hbelow
  exact (h.of_childOfType? hchild).of_childOfType? hin

theorem of_mem_selfOrChildrenOfType {atom : String} {part : ν}
    (hpart : part ∈ selfOrChildrenOfType node atom) : KeepsSubtree move part := by
  unfold selfOrChildrenOfType at hpart
  split at hpart
  · rwa [List.mem_singleton.mp hpart]
  · exact h.of_mem_children (List.mem_filter.mp hpart).1

end KeepsSubtree

/-! ## The way up -/

namespace KeepsAncestors

variable (h : KeepsAncestors move node)

include h

theorem ancestors_eq : ancestors (move node) = (ancestors node).map move := by
  cases h with
  | node ancestors_eq _ _ => exact ancestors_eq

theorem keepsChildren : ∀ above ∈ ancestors node, KeepsChildren move above := by
  cases h with
  | node _ beside _ => exact beside

theorem of_mem_ancestors : ∀ above ∈ ancestors node, KeepsAncestors move above := by
  cases h with
  | node _ _ above => exact above

theorem parent?_eq : parent? (move node) = (parent? node).map move := by
  rw [parent?, parent?, h.ancestors_eq, List.head?_map]

theorem keepsChildren_parent? {parent : ν} (hparent : parent? node = some parent) :
    KeepsChildren move parent :=
  h.keepsChildren parent (List.mem_of_head? hparent)

theorem enclosing?_eq {accept : ν → Bool} {acceptMoved : μ → Bool}
    (haccept : ∀ above, KeepsChildren move above → acceptMoved (move above) = accept above) :
    enclosing? (move node) acceptMoved = (enclosing? node accept).map move := by
  rw [enclosing?, enclosing?, h.ancestors_eq]
  exact find?_map_move fun above habove ↦ haccept above (h.keepsChildren above habove)

theorem keepsChildren_enclosing? {accept : ν → Bool} {above : ν}
    (habove : enclosing? node accept = some above) : KeepsChildren move above :=
  h.keepsChildren above (List.mem_of_find?_eq_some habove)

end KeepsAncestors

end SyntaxMining.Query
