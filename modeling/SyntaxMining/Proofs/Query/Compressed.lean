import SyntaxMining.Proofs.Query.Places
import SyntaxMining.Proofs.Tree.Leaves

/-!
# Questions asked of compressed trees

Every place of a tree has an image in the compressed tree, the node its chain is folded into. An
image answers like the two ends of a chain: by the start of the chain when it is asked what it is
to its parent, and by the end when it is asked what it was folded down to, for its token and for
its children. The text below it is the text below any node of its chain.
-/

namespace SyntaxMining

open Query

namespace Cursor

/-- The place of a compressed tree below some ancestors. -/
def compressed (tree : SyntaxTree) (above : List SyntaxTree) : Cursor Entry :=
  ⟨tree.compress, above⟩

section Compressed

variable (tree : SyntaxTree) (above : List SyntaxTree)

theorem label_compressed : label (compressed tree above) = tree.compress.value.label :=
  rfl

@[simp]
theorem firstIs_compressed (atom : String) :
    firstIs (compressed tree above) atom = (tree.value.label.first == atom) := by
  rw [firstIs, label_compressed, Tree.first_compress]

@[simp]
theorem firstIn_compressed (atoms : List String) :
    firstIn (compressed tree above) atoms = atoms.contains tree.value.label.first := by
  rw [firstIn, label_compressed, Tree.first_compress]

@[simp]
theorem lastIs_compressed (atom : String) :
    lastIs (compressed tree above) atom = (tree.chainEnd.value.label.last == atom) := by
  rw [lastIs, label_compressed, Tree.last_compress]

@[simp]
theorem lastIn_compressed (atoms : List String) :
    lastIn (compressed tree above) atoms = atoms.contains tree.chainEnd.value.label.last := by
  rw [lastIn, label_compressed, Tree.last_compress]

@[simp]
theorem token_compressed : token (compressed tree above) = tree.chainEnd.value.token :=
  tree.token_compress

@[simp]
theorem text_compressed : text (compressed tree above) = tree.text := by
  have hsubtree : subtree (compressed tree above) = tree.compress := Tree.map_id _
  rw [text, hsubtree]
  exact tree.text_normalize .compress

theorem children_compressed : Query.children (compressed tree above) =
    tree.chainEnd.children.map (compressed · (tree.compress :: above)) := by
  change tree.compress.children.map _ = _
  rw [Tree.children_compress, List.map_map]
  rfl

@[simp]
theorem isLeaf_compressed :
    Query.isLeaf (compressed tree above) = tree.chainEnd.children.isEmpty := by
  rw [Query.isLeaf, children_compressed, List.isEmpty_map]

@[simp]
theorem length_children_compressed :
    (Query.children (compressed tree above)).length = tree.chainEnd.children.length := by
  rw [children_compressed, List.length_map]

/-- What is accepted by its first atom is found among the children of the end of the chain. -/
theorem find?_children_compressed {accept : Cursor Entry → Bool} {acceptTree : SyntaxTree → Bool}
    (h : ∀ child above, accept (compressed child above) = acceptTree child) :
    (Query.children (compressed tree above)).find? accept =
      (tree.chainEnd.children.find? acceptTree).map (compressed · (tree.compress :: above)) := by
  rw [children_compressed, List.find?_map]
  congr 2
  funext child
  exact h child _

theorem filter_children_compressed {accept : Cursor Entry → Bool} {acceptTree : SyntaxTree → Bool}
    (h : ∀ child above, accept (compressed child above) = acceptTree child) :
    (Query.children (compressed tree above)).filter accept =
      (tree.chainEnd.children.filter acceptTree).map (compressed · (tree.compress :: above)) := by
  rw [children_compressed, List.filter_map]
  congr 2
  funext child
  exact h child _

theorem childOfType?_compressed (atom : String) : childOfType? (compressed tree above) atom =
    (tree.chainEnd.children.find? fun child ↦ child.value.label.first == atom).map
      (compressed · (tree.compress :: above)) :=
  find?_children_compressed tree above fun child above ↦ firstIs_compressed child above atom

theorem childrenOfType_compressed (atom : String) : childrenOfType (compressed tree above) atom =
    (tree.chainEnd.children.filter fun child ↦ child.value.label.first == atom).map
      (compressed · (tree.compress :: above)) :=
  filter_children_compressed tree above fun child above ↦ firstIs_compressed child above atom

end Compressed

/-! ## Images of places -/

/-- Where a tree below some ancestors ends up: an only child is folded into its parent. -/
def imageBelow (focus : SyntaxTree) : List SyntaxTree → Cursor Entry
  | [] => compressed focus []
  | parent :: above =>
    let outer := imageBelow parent above
    if parent.children.length = 1 then outer
    else compressed focus (outer.focus :: outer.above)

/-- The place of the compressed tree that a place of a tree is folded into. -/
def image (place : Cursor Entry) : Cursor Entry :=
  imageBelow place.focus place.above

theorem image_top (tree : SyntaxTree) : image (top tree) = compressed tree [] :=
  rfl

theorem image_of_only {place : Cursor Entry} (child : SyntaxTree)
    (h : place.focus.children.length = 1) :
    image ⟨child, place.focus :: place.above⟩ = place.image :=
  if_pos h

theorem image_of_branch {place : Cursor Entry} (child : SyntaxTree)
    (h : place.focus.children.length ≠ 1) :
    image ⟨child, place.focus :: place.above⟩ =
      compressed child (place.image.focus :: place.image.above) :=
  if_neg h

/-- The image of a place belongs to the compressed tree, and its chain ends where the chain of the
place does. -/
theorem exists_image_eq_compressed {tree : SyntaxTree} :
    ∀ place ∈ places tree, place.image ∈ places tree.compress ∧
      ∃ start above, place.image = compressed start above ∧
        start.chainEnd = place.focus.chainEnd := by
  refine inductionOnPlaces ?_ ?_
  · exact ⟨self_mem_placesBelow [] _, tree, [], image_top tree, rfl⟩
  · rintro place hplace ⟨hmem, start, above, himage, hchain⟩ child hchild
    by_cases honly : place.focus.children.length = 1
    · have hends : place.focus.chainEnd = child.chainEnd := by
        obtain ⟨sole, hsole⟩ := List.length_eq_one_iff.mp honly
        rw [hsole, List.mem_singleton] at hchild
        rw [← Tree.node_value_children place.focus, hsole, Tree.chainEnd_only, hchild]
      rw [image_of_only child honly]
      exact ⟨hmem, start, above, himage, hchain.trans hends⟩
    · have hbelow : child.compress ∈ place.image.focus.children := by
        rw [himage, compressed, Tree.children_compress, hchain, Tree.chainEnd_eq_self honly]
        exact List.mem_map_of_mem hchild
      rw [image_of_branch child honly]
      exact ⟨child_mem_places hmem hbelow, child, _, rfl, rfl⟩

end Cursor

end SyntaxMining
