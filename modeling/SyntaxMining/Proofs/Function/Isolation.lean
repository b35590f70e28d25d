import SyntaxMining.Proofs.Forest.Regrow
import SyntaxMining.Proofs.Function.Containment
import SyntaxMining.Proofs.Function.Grammar
import SyntaxMining.Proofs.Function.Nesting
import SyntaxMining.Proofs.Function.Transport

/-!
# Functions do not depend on each other's inside

Extraction looks at the subtree of a function, at its ancestors and at what the children of these
carry. Of another function that stands apart it can see the node itself, as such a child, but
nothing below it. The one search that opens a sibling, for the annotations of a Java method, opens
nodes that are folded down to an annotation, and no such node is a method. So whatever grows below
one function, the others are described as before.
-/

namespace SyntaxMining

open Query Forest

variable {forest after : Forest} {root site : NodeId}

/-- The annotations beside a method are none of the other methods. -/
theorem Java.keepsAnnotations (labels : Labels)
    (hlabels : labels.methodDeclaration ≠ labels.annotation) (h : DiffersAt forest after site)
    (hrooted : forest.IsRooted root)
    (hsite : isFunction labels (⟨forest, site⟩ : Member)) {id : NodeId}
    (hid : id ∈ forest.preorder root) :
    KeepsAnnotations labels (Member.into after) (⟨forest, id⟩ : Member) := by
  intro parent hparent child hchild hannotation
  obtain ⟨outer, houter, rfl⟩ := hrooted.ancestors_mem hid parent (List.mem_of_head? hparent)
  obtain ⟨below, hbelow, rfl⟩ := List.mem_map.mp hchild
  apply h.keepsChildren hrooted (hrooted.linksAgree.closed outer houter below hbelow)
  rintro rfl
  apply hlabels
  calc
    labels.methodDeclaration = (label (⟨forest, below⟩ : Member)).last := (beq_iff_eq.mp hsite).symm
    _ = labels.annotation := beq_iff_eq.mp hannotation

namespace Grammar

/-- A function that stands apart from the changed one is described alike. -/
theorem extract_into {name : String} {grammar : Grammar} (hgrammar : ofName? name = some grammar)
    (h : DiffersAt forest after site) (hrooted : forest.IsRooted root)
    (hsite : grammar.extractor.isFunction (⟨forest, site⟩ : Member)) {id : NodeId}
    (hid : id ∈ forest.preorder root) (hbelow : id ∉ forest.preorder site)
    (habove : site ∉ forest.preorder id) (file : String) :
    grammar.extractor.extract file (⟨after, id⟩ : Member) =
      (grammar.extractor.extract file (⟨forest, id⟩ : Member)).map
        (FunctionInfo.map (Member.into after)) := by
  obtain ⟨hsubtree, hancestors⟩ := h.keeps_of_apart hrooted hid hbelow habove
  unfold ofName? at hgrammar
  split at hgrammar
  · cases hgrammar
    -- a sibling that is opened for its annotations is not the changed method
    exact Java.extract_move {} file hsubtree hancestors
      (Java.keepsAnnotations {} (by decide) h hrooted hsite hid)
  · split at hgrammar
    · cases hgrammar
      exact Python.extract_move {} file hsubtree hancestors
    · split at hgrammar
      · cases hgrammar
        exact Php.extract_move {} file hsubtree hancestors
      · cases hgrammar

/-- Whatever is grown below one function of a tree, every other node that stands apart from it is
described as before, by the same texts, nodes and reports. -/
theorem extract_regrow {name : String} {grammar : Grammar} (hgrammar : ofName? name = some grammar)
    (h : forest.IsRooted root) {changed other : NodeId}
    (hchanged : (⟨forest, changed⟩ : Member) ∈ functionNodes grammar.extractor forest root)
    (hother : other ∈ forest.preorder root) (hbelow : other ∉ forest.preorder changed)
    (habove : changed ∉ forest.preorder other) (trees : List SyntaxTree) (file : String) :
    let after := forest.regrow changed trees
    subtree (⟨after, changed⟩ : Member) = .node (forest.node changed).entry trees ∧
      subtree (⟨after, other⟩ : Member) = subtree (⟨forest, other⟩ : Member) ∧
      ∃ info reports,
        grammar.extractor.extract file (⟨forest, other⟩ : Member) = ⟨.ok info, reports⟩ ∧
        grammar.extractor.extract file (⟨after, other⟩ : Member) =
          ⟨.ok (info.map (Member.into after)), reports⟩ := by
  intro after
  obtain ⟨hmem, hfunction⟩ := List.mem_filter.mp hchanged
  obtain ⟨id, hid, heq⟩ := List.mem_map.mp hmem
  cases heq
  obtain ⟨hdiffers, hgrown⟩ :=
    regrow_differsAt_and_subtree (h.linksAgree.lt_size changed hid) trees
  have hkept := (hdiffers.keeps_of_apart h hother hbelow habove).1.subtree_eq
  have hmoved := extract_into hgrammar hdiffers h hfunction hother hbelow habove file
  obtain ⟨info, hinfo, -⟩ := (grammar.yields_extract file (⟨forest, other⟩ : Member)).outcome
  refine ⟨hgrown, hkept, info,
    (grammar.extractor.extract file (⟨forest, other⟩ : Member)).reports, ?_, ?_⟩
  · rw [← hinfo]
  · rw [hmoved, Mining.map, hinfo]
    rfl

/-- A class with two methods beside each other, the second of them public. -/
def twoMethods : SyntaxTree :=
  rule unmarked "classDeclaration" [word unmarked "IDENTIFIER" "A", rule unmarked "classBody" [
    rule unmarked "methodDeclaration" [
      word unmarked "IDENTIFIER" "a", terminal unmarked "formalParameters"],
    word unmarked "modifier" "public",
    rule unmarked "methodDeclaration" [
      word unmarked "IDENTIFIER" "b", terminal unmarked "formalParameters"]]]

/-- The first method, the fourth node, gets the inside of an annotation; the second one, the eighth
node, is still public, without annotations, and enclosed by the class. -/
theorem extract_regrow_twoMethods :
    let planted := empty.plant none twoMethods
    let after := planted.1.regrow 3 [word unmarked "qualifiedName" "Override"]
    planted.1.IsRooted planted.2 ∧
      (⟨planted.1, 3⟩ : Member) ∈ functionNodes (java {}).extractor planted.1 planted.2 ∧
      7 ∈ planted.1.preorder planted.2 ∧ 7 ∉ planted.1.preorder 3 ∧ 3 ∉ planted.1.preorder 7 ∧
      ∃ info reports, (java {}).extractor.extract "A.java" (⟨after, 7⟩ : Member) =
          ⟨.ok info, reports⟩ ∧
        info.modifiers = some ["public"] ∧ info.annotations = some [] ∧
        info.enclosing.map (fun element ↦ (element.name, element.root.id)) =
          some (some "A", 0) := by
  intro planted after
  have hrooted : planted.1.IsRooted planted.2 := isRooted_plant empty twoMethods
  have hchanged : (⟨planted.1, 3⟩ : Member) ∈
      functionNodes (java {}).extractor planted.1 planted.2 :=
    List.mem_filter.mpr ⟨List.mem_map_of_mem (by decide +kernel), by decide +kernel⟩
  have hother : 7 ∈ planted.1.preorder planted.2 := by decide +kernel
  have hbelow : 7 ∉ planted.1.preorder 3 := by decide +kernel
  have habove : 3 ∉ planted.1.preorder 7 := by decide +kernel
  obtain ⟨-, -, info, reports, hbefore, hafter⟩ := extract_regrow (rfl : ofName? "java" = _)
    hrooted hchanged hother hbelow habove [word unmarked "qualifiedName" "Override"] "A.java"
  have hread : ((java {}).extractor.extract "A.java" (⟨planted.1, 7⟩ : Member)).outcome.toOption.map
      (fun info ↦ (info.modifiers, info.annotations,
        info.enclosing.map fun element ↦ (element.name, element.root.id))) =
      some (some ["public"], some [], some (some "A", 0)) := by decide +kernel
  rw [hbefore] at hread
  obtain ⟨hmodifiers, hannotations, henclosing⟩ :
      info.modifiers = some ["public"] ∧ info.annotations = some [] ∧
        info.enclosing.map (fun element ↦ (element.name, element.root.id)) =
          some (some "A", 0) := by
    simpa [Except.toOption] using hread
  refine ⟨hrooted, hchanged, hother, hbelow, habove, _, reports, hafter, hmodifiers, hannotations,
    ?_⟩
  rw [← henclosing]
  exact Option.map_map _ _ _

end Grammar

end SyntaxMining
