import Mathlib.Data.List.Find
import SyntaxMining.Function.Registry
import SyntaxMining.Proofs.Forest.Image
import SyntaxMining.Proofs.Function.Grammar

/-!
# Functions and what encloses them

Functions of Java and of Python are recognised by the last atom of a label, and so are the elements
that can enclose them. Compression in place therefore neither hides nor invents a function: the
functions of the result are, in order, the images of those nodes of the tree that are folded down to
a function, and the element found above an image is the image of the nearest one above the node.
-/

namespace SyntaxMining.Forest

/-- The nodes of a linked tree that an extractor takes for functions, in pre-order. -/
def functionNodes (extractor : Extractor Member) (forest : Forest) (root : NodeId) : List Member :=
  ((forest.preorder root).map (Member.mk forest)).filter extractor.isFunction

/-- A compressed tree that has the functions of a tree, each inside what enclosed it. -/
structure KeepsFunctions (extractor : Extractor Member) (elements : List String) (forest : Forest)
    (root : NodeId) (after : Forest) (result : NodeId) (image : NodeId → NodeId) : Prop where
  functions_eq : functionNodes extractor after result =
    ((functionNodes extractor forest root).filter fun node ↦ forest.branches node.id).map
      fun node ↦ ⟨after, image node.id⟩
  enclosing_eq : ∀ node ∈ functionNodes extractor forest root, forest.branches node.id →
    Query.enclosing? (⟨after, image node.id⟩ : Member) (Query.lastIn · elements) =
      (Query.enclosing? node fun above ↦
        forest.branches above.id && Query.lastIn above elements).map fun above ↦
          ⟨after, image above.id⟩

variable {forest after : Forest} {root result : NodeId} {image : NodeId → NodeId}

/-- Functions and enclosing elements that are recognised by a last atom survive compression. -/
theorem IsImage.keepsFunctions (himage : forest.IsImage root after result image)
    (h : forest.IsRooted root) {extractor : Extractor Member} {atom : String}
    (hfunction : ∀ node, extractor.isFunction node = Query.lastIs node atom)
    (elements : List String) :
    KeepsFunctions extractor elements forest root after result image where
  functions_eq := by
    have hsame : ∀ id ∈ forest.preorder root, forest.branches id →
        extractor.isFunction ⟨after, image id⟩ = extractor.isFunction ⟨forest, id⟩ := by
      intro id hid hends
      rw [hfunction, hfunction, Query.lastIs, Query.lastIs, himage.last_label h hid hends]
    rw [functionNodes, functionNodes, himage.preorder_eq, List.filter_filter, List.filter_map,
      List.filter_map, List.filter_map, List.filter_filter, List.map_map, List.map_map]
    congr 1
    apply List.filter_congr
    intro id hid
    cases hends : forest.branches id with
    | false => simp [hends]
    | true => simp [hends, hsame id hid hends]
  enclosing_eq := by
    intro node hnode hends
    obtain ⟨id, hid, rfl⟩ := List.mem_map.mp (List.mem_filter.mp hnode).1
    rw [Query.enclosing?, Query.enclosing?, himage.ancestors_eq id hid hends, List.find?_map,
      List.find?_filter]
    congr 1
    apply List.find?_congr
    intro above habove
    obtain ⟨outer, houter, rfl⟩ := h.ancestors_mem hid above habove
    cases hbranches : forest.branches outer with
    | false => simp
    | true => simp [Query.lastIn, himage.last_label h houter hbranches]

/-- Compression in place neither hides nor invents functions, and keeps what encloses them, whatever
the labels of the two grammars are. -/
theorem rebuild_compress_keeps_functions (h : forest.IsRooted root) (java : Java.Labels)
    (python : Python.Labels) :
    ∃ after result image, rebuild .compress forest root = .ok (after, result) ∧
      forest.IsImage root after result image ∧
      KeepsFunctions (Java.extractor java) java.enclosingElements forest root after result image ∧
      KeepsFunctions (Python.extractor python) python.enclosingElements forest root after result
        image := by
  obtain ⟨after, result, image, hrebuild, himage⟩ := exists_isImage h
  exact ⟨after, result, image, hrebuild, himage, himage.keepsFunctions h (fun _ ↦ rfl) _,
    himage.keepsFunctions h (fun _ ↦ rfl) _⟩

open Grammar in
/-- A method that is folded into the body of its class, and a class that is folded into its type. -/
def nestedMethod : SyntaxTree :=
  rule unmarked "typeDeclaration" [rule unmarked "classDeclaration" [
    word unmarked "IDENTIFIER" "A",
    rule unmarked "classBodyDeclaration" [rule unmarked "methodDeclaration" [
      word unmarked "IDENTIFIER" "m", terminal unmarked "formalParameters"]]]]

/-- The method is the fifth node of the tree, and the class that encloses it the second. -/
theorem rebuild_compress_keeps_functions_nested :
    let planted := empty.plant none nestedMethod
    planted.1.IsRooted planted.2 ∧
      ∃ (after : Forest) (result : NodeId) (image : NodeId → NodeId),
        rebuild .compress planted.1 planted.2 = .ok (after, result) ∧
        (functionNodes (Java.extractor {}) after result).map Member.id = [image 4] ∧
        (Query.enclosing? (⟨after, image 4⟩ : Member)
          (Query.lastIn · ({} : Java.Labels).enclosingElements)).map Member.id =
          some (image 1) := by
  intro planted
  have hrooted : planted.1.IsRooted planted.2 := isRooted_plant empty nestedMethod
  refine ⟨hrooted, ?_⟩
  obtain ⟨after, result, image, hrebuild, -, hjava, -⟩ :=
    rebuild_compress_keeps_functions hrooted {} {}
  have hfunctions : ((functionNodes (Java.extractor {}) planted.1 planted.2).filter
      fun node ↦ planted.1.branches node.id).map Member.id = [4] := by decide +kernel
  have hmethod : (⟨planted.1, 4⟩ : Member) ∈
      functionNodes (Java.extractor {}) planted.1 planted.2 :=
    List.mem_filter.mpr ⟨List.mem_map_of_mem (by decide +kernel), by decide +kernel⟩
  have hclass : (Query.enclosing? (⟨planted.1, 4⟩ : Member) fun above ↦
      planted.1.branches above.id &&
        Query.lastIn above ({} : Java.Labels).enclosingElements).map Member.id = some 1 := by
    decide +kernel
  refine ⟨after, result, image, hrebuild, ?_, ?_⟩
  · have himages := congrArg (List.map image) hfunctions
    rw [List.map_map] at himages
    rw [hjava.functions_eq, List.map_map]
    exact himages
  · have himages := congrArg (Option.map image) hclass
    rw [Option.map_map] at himages
    rw [hjava.enclosing_eq _ hmethod (by decide +kernel), Option.map_map]
    exact himages

end SyntaxMining.Forest
