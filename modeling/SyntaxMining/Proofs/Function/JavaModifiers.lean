import SyntaxMining.Proofs.Forest.ChainStart
import SyntaxMining.Proofs.Function.Nesting
import SyntaxMining.Proofs.Function.Violations

/-!
# Modifiers and annotations of Java

A method stands in a declaration of a class, behind its modifiers and annotations. After compression
they are its siblings. A method without any is folded into its declaration, and its siblings are the
other declarations of the class and the braces around them, none of which starts as a modifier or
ends as an annotation. So the scan of the siblings gives every method what stands in front of it,
and nothing else.
-/

namespace SyntaxMining.Java

open Query Grammar Forest

/-! ## Declarations of methods -/

/-- A modifier, folded down to a terminal. -/
structure RawModifier where
  chain : Phrase "modifier"
  label : Label
  token : String
  span : Option Span
  last_ne : label.last ≠ "annotation"
  chainEnd_eq : chain.tree.chainEnd = .node ⟨label, some token, span⟩ []

/-- An annotation in the place of a modifier. -/
structure RawAnnotation where
  details : Details
  chain : Phrase "modifier"
  name : String
  arguments : List SyntaxTree
  chainEnd_eq : chain.tree.chainEnd = rule details "annotation"
    (terminal details "AT" ::
      rule details "qualifiedName" [word details "IDENTIFIER" name] :: arguments)

/-- What stands in front of a method. -/
inductive Mark where
  | keyword (written : RawModifier)
  | annotate (written : RawAnnotation)

namespace Mark

def tree : Mark → SyntaxTree
  | keyword written => written.chain.tree
  | annotate written => written.chain.tree

def modifier? : Mark → Option String
  | keyword written => some written.token
  | annotate _ => none

def annotationName? : Mark → Option String
  | keyword _ => none
  | annotate written => some written.name

end Mark

/-- A method with what stands in front of it. -/
structure RawDeclaration where
  details : Details
  marks : List Mark
  method : Phrase "methodDeclaration"
  two_le : 2 ≤ method.tree.children.length

namespace RawDeclaration

variable (declaration : RawDeclaration)

def member : SyntaxTree :=
  rule declaration.details "memberDeclaration" [declaration.method.tree]

def tree : SyntaxTree :=
  rule declaration.details "classBodyDeclaration"
    (declaration.marks.map Mark.tree ++ [declaration.member])

def modifiers : List String :=
  declaration.marks.filterMap Mark.modifier?

def annotations : List String :=
  declaration.marks.filterMap Mark.annotationName?

end RawDeclaration

/-- Methods in the braces of a class. -/
structure RawClassBody where
  details : Details
  declarations : List RawDeclaration

def RawClassBody.tree (body : RawClassBody) : SyntaxTree :=
  rule body.details "classBody" (terminal body.details "LBRACE" ::
    (body.declarations.map RawDeclaration.tree ++ [terminal body.details "RBRACE"]))

/-! ## The scan of the siblings -/

section Siblings

variable (labels : Labels)

/-- The modifier that a sibling stands for. -/
def modifierIn? (sibling : SyntaxTree) : Option String :=
  if sibling.value.label.first == labels.modifier &&
      !(sibling.value.label.last == labels.annotation) then sibling.value.token
  else none

/-- The name of the annotation that a sibling stands for. -/
def annotationIn? (sibling : SyntaxTree) : Option String :=
  if sibling.value.label.last == labels.annotation then
    (sibling.children.find? fun part ↦ part.value.label.first == labels.annotationName).bind
      fun part ↦ part.value.token
  else none

variable {forest : Forest} {root id : NodeId} {node : Member}

theorem modifiers_eq (hparent : parent? node = some ⟨forest, id⟩) : modifiers labels node =
    some (((children (⟨forest, id⟩ : Member)).map subtree).filterMap (modifierIn? labels)) := by
  have hread (child : Member) : modifierIn? labels (subtree child) =
      if firstIs child labels.modifier && !lastIs child labels.annotation then token child
      else none := by
    rw [modifierIn?, value_subtree]
    rfl
  rw [modifiers, hparent, Option.map_some, List.filterMap_filter, List.filterMap_map]
  simp only [Function.comp_def, hread]

theorem annotations_eq (h : forest.IsRooted root) (hid : id ∈ forest.preorder root)
    (hparent : parent? node = some ⟨forest, id⟩) : annotations labels node =
      some (((children (⟨forest, id⟩ : Member)).map subtree).filterMap
        (annotationIn? labels)) := by
  rw [annotations, hparent, Option.map_some, List.filterMap_filter, List.filterMap_map]
  refine congrArg some (List.filterMap_congr ?_)
  intro child hchild
  obtain ⟨below, hbelow, rfl⟩ := List.mem_map.mp hchild
  have htree := h.isTree.of_mem_preorder (h.linksAgree.closed id hid below hbelow)
  have hname : (childOfType? (⟨forest, below⟩ : Member) labels.annotationName).bind token =
      ((subtree (⟨forest, below⟩ : Member)).children.find? fun part ↦
        part.value.label.first == labels.annotationName).bind fun part ↦ part.value.token := by
    rw [← htree.map_subtree_children, List.find?_map, Option.bind_map]
    simp only [Function.comp_def, value_subtree]
    rfl
  rw [hname, Function.comp_apply, annotationIn?, value_subtree]
  rfl

end Siblings

/-! ## What the siblings of a method say -/

theorem Mark.modifierIn?_compress (mark : Mark) :
    modifierIn? {} mark.tree.compress = mark.modifier? := by
  rw [modifierIn?, Tree.first_compress, Tree.last_compress, Tree.token_compress]
  cases mark with
  | keyword written => simp +decide [tree, modifier?, written.chainEnd_eq, written.last_ne]
  | annotate written => simp +decide [tree, modifier?, written.chainEnd_eq]

theorem Mark.annotationIn?_compress (mark : Mark) :
    annotationIn? {} mark.tree.compress = mark.annotationName? := by
  rw [annotationIn?, Tree.last_compress, Tree.children_compress]
  cases mark with
  | keyword written => simp +decide [tree, annotationName?, written.chainEnd_eq, written.last_ne]
  | annotate written =>
    simp +decide [tree, annotationName?, written.chainEnd_eq, Tree.first_compress,
      Tree.token_compress, chainEnd_rule_singleton]

/-- A tree that starts as no modifier and ends as no annotation says nothing. -/
theorem reads_none {sibling : SyntaxTree} (hfirst : sibling.value.label.first ≠ "modifier")
    (hlast : sibling.chainEnd.value.label.last ≠ "annotation") :
    modifierIn? {} sibling.compress = none ∧ annotationIn? {} sibling.compress = none := by
  rw [modifierIn?, annotationIn?, Tree.first_compress, Tree.last_compress]
  simp [hfirst, hlast]

namespace RawDeclaration

variable (declaration : RawDeclaration)

theorem chainEnd_method : declaration.method.tree.chainEnd = declaration.method.tree := by
  apply Tree.chainEnd_eq_self
  have htwo := declaration.two_le
  omega

theorem chainEnd_member : declaration.member.chainEnd = declaration.method.tree := by
  rw [member, chainEnd_rule_singleton, chainEnd_method]

theorem member_reads_none : modifierIn? {} declaration.member.compress = none ∧
    annotationIn? {} declaration.member.compress = none := by
  apply reads_none
  · rw [member, label_rule]
    decide
  · rw [chainEnd_member, declaration.method.label_eq]
    decide

/-- Whether it is folded or not, a declaration says nothing to the methods beside it. -/
theorem tree_reads_none : modifierIn? {} declaration.tree.compress = none ∧
    annotationIn? {} declaration.tree.compress = none := by
  apply reads_none
  · rw [tree, label_rule]
    decide
  · by_cases hmarks : declaration.marks = []
    · rw [tree, hmarks, List.map_nil, List.nil_append, chainEnd_rule_singleton, chainEnd_member,
        declaration.method.label_eq]
      decide
    · rw [tree, chainEnd_rule _ _ _ (by simpa using hmarks), label_rule]
      decide

/-- Among its own modifiers and annotations a method finds all of them, in order. -/
theorem filterMap_siblings :
    (declaration.tree.children.map Tree.compress).filterMap (modifierIn? {}) =
        declaration.modifiers ∧
      (declaration.tree.children.map Tree.compress).filterMap (annotationIn? {}) =
        declaration.annotations := by
  obtain ⟨hmodifier, hname⟩ := declaration.member_reads_none
  constructor
  · simp [tree, modifiers, List.filterMap_map, Function.comp_def, Mark.modifierIn?_compress,
      hmodifier]
  · simp [tree, annotations, List.filterMap_map, Function.comp_def, Mark.annotationIn?_compress,
      hname]

end RawDeclaration

/-- Among the declarations of a class a method finds nothing. -/
theorem RawClassBody.filterMap_siblings (body : RawClassBody) :
    (body.tree.children.map Tree.compress).filterMap (modifierIn? {}) = [] ∧
      (body.tree.children.map Tree.compress).filterMap (annotationIn? {}) = [] := by
  have hnone : ∀ sibling ∈ body.tree.children,
      modifierIn? {} sibling.compress = none ∧ annotationIn? {} sibling.compress = none := by
    intro sibling hsibling
    rw [tree, children_rule, List.mem_cons, List.mem_append, List.mem_map,
      List.mem_singleton] at hsibling
    rcases hsibling with rfl | ⟨declaration, -, rfl⟩ | rfl
    · exact reads_none (by simp +decide) (by simp +decide)
    · exact declaration.tree_reads_none
    · exact reads_none (by simp +decide) (by simp +decide)
  constructor
  · rw [List.filterMap_map, List.filterMap_eq_nil_iff]
    exact fun sibling hsibling ↦ (hnone sibling hsibling).1
  · rw [List.filterMap_map, List.filterMap_eq_nil_iff]
    exact fun sibling hsibling ↦ (hnone sibling hsibling).2

/-- What a method finds beside it is what stands in front of it. -/
theorem filterMap_siblings (body : RawClassBody) (declaration : RawDeclaration) :
    let parent := if declaration.marks = [] then body.tree else declaration.tree
    (parent.children.map Tree.compress).filterMap (modifierIn? {}) = declaration.modifiers ∧
      (parent.children.map Tree.compress).filterMap (annotationIn? {}) =
        declaration.annotations := by
  intro parent
  by_cases hmarks : declaration.marks = []
  · have hparent : parent = body.tree := if_pos hmarks
    rw [hparent, RawDeclaration.modifiers, RawDeclaration.annotations, hmarks]
    exact body.filterMap_siblings
  · have hparent : parent = declaration.tree := if_neg hmarks
    rw [hparent]
    exact declaration.filterMap_siblings

/-! ## Methods of linked trees -/

/-- The method of one declaration in a class body, whose first child is a brace. -/
def methodAt? {ν : Type} [Navigable ν] (site : ν) (index : Nat) : Option ν := do
  let declaration ← (children site)[index + 1]?
  let member ← (children declaration).getLast?
  (children member).head?

variable {forest after : Forest} {root result site : NodeId} {image : NodeId → NodeId}
  {body : RawClassBody} {declaration : RawDeclaration}

/-- The way down to a method, through the declaration and the member it is. -/
structure Leads (forest : Forest) (site : NodeId) (declaration : RawDeclaration)
    (outer member method : NodeId) : Prop where
  outer_mem : outer ∈ (forest.node site).children
  outer_eq : subtree (⟨forest, outer⟩ : Member) = declaration.tree
  member_mem : member ∈ (forest.node outer).children
  member_eq : subtree (⟨forest, member⟩ : Member) = declaration.member
  method_mem : method ∈ (forest.node member).children
  method_eq : subtree (⟨forest, method⟩ : Member) = declaration.method.tree

theorem exists_leads (h : forest.IsRooted root) (hsite : site ∈ forest.preorder root)
    (hbody : subtree (⟨forest, site⟩ : Member) = body.tree) {index : Nat}
    (hindex : body.declarations[index]? = some declaration) :
    ∃ outer member method, methodAt? (⟨forest, site⟩ : Member) index = some ⟨forest, method⟩ ∧
      Leads forest site declaration outer member method := by
  have htree : ∀ id ∈ forest.preorder root, forest.IsTree id :=
    fun id hid ↦ h.isTree.of_mem_preorder hid
  have hdeclaration :
      (subtree (⟨forest, site⟩ : Member)).children[index + 1]? = some declaration.tree := by
    have hlt := (List.getElem?_eq_some_iff.mp hindex).1
    rw [hbody, RawClassBody.tree, children_rule, List.getElem?_cons_succ,
      List.getElem?_append_left (by simpa using hlt), List.getElem?_map, hindex, Option.map_some]
  obtain ⟨outer, houter, houterAt, houterTree⟩ := (htree site hsite).exists_child hdeclaration
  have houterMem := h.linksAgree.closed site hsite outer houter
  have hlength : (children (⟨forest, outer⟩ : Member)).length = declaration.marks.length + 1 := by
    rw [← List.length_map subtree, (htree outer houterMem).map_subtree_children, houterTree]
    simp [RawDeclaration.tree]
  have hlast : (subtree (⟨forest, outer⟩ : Member)).children[declaration.marks.length]? =
      some declaration.member := by
    rw [houterTree]
    simp [RawDeclaration.tree]
  obtain ⟨member, hmember, hmemberAt, hmemberTree⟩ := (htree outer houterMem).exists_child hlast
  have hmemberMem := h.linksAgree.closed outer houterMem member hmember
  have honly : (subtree (⟨forest, member⟩ : Member)).children[0]? =
      some declaration.method.tree := by
    rw [hmemberTree]
    rfl
  obtain ⟨method, hmethod, hmethodAt, hmethodTree⟩ := (htree member hmemberMem).exists_child honly
  have hlastAt : (children (⟨forest, outer⟩ : Member)).getLast? = some ⟨forest, member⟩ := by
    rw [List.getLast?_eq_getElem?, hlength, Nat.add_sub_cancel, hmemberAt]
  have honlyAt : (children (⟨forest, member⟩ : Member)).head? = some ⟨forest, method⟩ := by
    rw [List.head?_eq_getElem?, hmethodAt]
  refine ⟨outer, member, method, ?_, houter, houterTree, hmember, hmemberTree, hmethod, hmethodTree⟩
  simp [methodAt?, houterAt, hlastAt, honlyAt]

namespace Leads

variable {outer member method : NodeId}

theorem outer_mem_preorder (hleads : Leads forest site declaration outer member method)
    (h : forest.IsRooted root) (hsite : site ∈ forest.preorder root) :
    outer ∈ forest.preorder root :=
  h.linksAgree.closed site hsite outer hleads.outer_mem

theorem member_mem_preorder (hleads : Leads forest site declaration outer member method)
    (h : forest.IsRooted root) (hsite : site ∈ forest.preorder root) :
    member ∈ forest.preorder root :=
  h.linksAgree.closed outer (hleads.outer_mem_preorder h hsite) member hleads.member_mem

theorem method_mem_preorder (hleads : Leads forest site declaration outer member method)
    (h : forest.IsRooted root) (hsite : site ∈ forest.preorder root) :
    method ∈ forest.preorder root :=
  h.linksAgree.closed member (hleads.member_mem_preorder h hsite) method hleads.method_mem

theorem branches_method (hleads : Leads forest site declaration outer member method)
    (h : forest.IsRooted root) (hsite : site ∈ forest.preorder root) : forest.branches method := by
  have htwo := declaration.two_le
  rw [(h.isTree.of_mem_preorder (hleads.method_mem_preorder h hsite)).branches_eq,
    hleads.method_eq, Tree.branches_iff]
  omega

theorem isFunction_method (hleads : Leads forest site declaration outer member method) :
    isFunction {} (⟨forest, method⟩ : Member) := by
  have hlabel : label (⟨forest, method⟩ : Member) = ⟨"methodDeclaration"⟩ := by
    rw [label, ← value_subtree, hleads.method_eq, declaration.method.label_eq]
  rw [isFunction, lastIs, hlabel]
  decide

/-- The member is folded into the method. The declaration is folded as well when nothing stands in
front of the method, and then the next node above is the class body. -/
theorem parent?_image (hleads : Leads forest site declaration outer member method)
    (h : forest.IsRooted root) (hsite : site ∈ forest.preorder root)
    (hbody : subtree (⟨forest, site⟩ : Member) = body.tree)
    (himage : forest.IsImage root after result image) :
    ∃ above ∈ forest.preorder root, forest.branches above ∧
      parent? (⟨after, image method⟩ : Member) = some ⟨after, image above⟩ ∧
      subtree (⟨forest, above⟩ : Member) =
        if declaration.marks = [] then body.tree else declaration.tree := by
  have houter := hleads.outer_mem_preorder h hsite
  have hmember := hleads.member_mem_preorder h hsite
  have hmethod := hleads.method_mem_preorder h hsite
  have hfolded : forest.branches member = false := by
    rw [(h.isTree.of_mem_preorder hmember).branches_eq, hleads.member_eq]
    rfl
  have hkept : forest.branches site := by
    rw [(h.isTree.of_mem_preorder hsite).branches_eq, hbody, Tree.branches_iff]
    simp [RawClassBody.tree]
  have hdeclaration : forest.branches outer ↔ declaration.marks ≠ [] := by
    rw [(h.isTree.of_mem_preorder houter).branches_eq, hleads.outer_eq, Tree.branches_iff]
    simp [RawDeclaration.tree]
  -- the way up from the image passes the nodes that are folded
  have hancestors := himage.ancestors_eq method hmethod (hleads.branches_method h hsite)
  rw [h.ancestors_child hmember hleads.method_mem, h.ancestors_child houter hleads.member_mem,
    h.ancestors_child hsite hleads.outer_mem] at hancestors
  by_cases hmarks : declaration.marks = []
  · have hpassed : ¬ forest.branches outer := fun hends ↦ hdeclaration.mp hends hmarks
    refine ⟨site, hsite, hkept, ?_, by rw [if_pos hmarks, hbody]⟩
    rw [parent?, hancestors]
    simp [hfolded, hpassed, hkept]
  · have hends := hdeclaration.mpr hmarks
    refine ⟨outer, houter, hends, ?_, by rw [if_neg hmarks, hleads.outer_eq]⟩
    rw [parent?, hancestors]
    simp [hfolded, hends]

end Leads

/-- Wherever a class body stands in a linked tree, each of its methods is a function of the
compressed tree, with the modifiers and the annotations of its own declaration, in order. -/
theorem extract_image_own_marks (h : forest.IsRooted root) (hsite : site ∈ forest.preorder root)
    (hbody : subtree (⟨forest, site⟩ : Member) = body.tree) (file : String) :
    ∃ after result image, rebuild .compress forest root = .ok (after, result) ∧
      forest.IsImage root after result image ∧
      ∀ index declaration, body.declarations[index]? = some declaration →
        ∃ method, methodAt? (⟨forest, site⟩ : Member) index = some ⟨forest, method⟩ ∧
          subtree (⟨forest, method⟩ : Member) = declaration.method.tree ∧
          (⟨after, image method⟩ : Member) ∈ functionNodes (extractor {}) after result ∧
          ∃ info, (extract {} file (⟨after, image method⟩ : Member)).outcome = .ok info ∧
            info.modifiers = some declaration.modifiers ∧
            info.annotations = some declaration.annotations := by
  obtain ⟨after, result, image, hrebuild, hafter, himage, hchildren⟩ := exists_isImage_children h
  refine ⟨after, result, image, hrebuild, himage, ?_⟩
  intro index declaration hindex
  obtain ⟨outer, member, method, hmethodAt, hleads⟩ := exists_leads h hsite hbody hindex
  have hmethod := hleads.method_mem_preorder h hsite
  have hends := hleads.branches_method h hsite
  obtain ⟨above, habove, haboveEnds, hparent, haboveTree⟩ :=
    hleads.parent?_image h hsite hbody himage
  have hsiblings : (children (⟨after, image above⟩ : Member)).map subtree =
      (subtree (⟨forest, above⟩ : Member)).children.map Tree.compress := by
    rw [hchildren above habove haboveEnds,
      ← (h.isTree.of_mem_preorder habove).map_subtree_children, List.map_map]
    rfl
  -- the parent is the class body or the declaration; either way the scan gives the same lists
  obtain ⟨hmodifiers, hannotations⟩ := filterMap_siblings body declaration
  rw [← haboveTree, ← hsiblings] at hmodifiers hannotations
  have hfunction : (⟨forest, method⟩ : Member) ∈ functionNodes (extractor {}) forest root :=
    List.mem_filter.mpr ⟨List.mem_map_of_mem hmethod, hleads.isFunction_method⟩
  obtain ⟨finding, info, -, hextract, -, hinfoModifiers, hinfoAnnotations⟩ :=
    exists_extract_eq {} file (⟨after, image method⟩ : Member)
  refine ⟨method, hmethodAt, hleads.method_eq, ?_, info, by rw [hextract], ?_, ?_⟩
  · rw [(himage.keepsFunctions h (fun _ ↦ rfl) ({} : Labels).enclosingElements).functions_eq]
    exact List.mem_map_of_mem (List.mem_filter.mpr ⟨hfunction, hends⟩)
  · rw [hinfoModifiers, modifiers_eq {} hparent, hmodifiers]
  · rw [hinfoAnnotations,
      annotations_eq {} hafter (himage.mem_preorder habove haboveEnds) hparent, hannotations]

/-! ## A class with two methods -/

def simpleModifier (label token : String) (h : (⟨label⟩ : Label).last ≠ "annotation") :
    RawModifier where
  chain := ⟨rule unmarked "modifier" [rule unmarked "classOrInterfaceModifier" [
    word unmarked label token]], rfl⟩
  label := ⟨label⟩
  token := token
  span := none
  last_ne := h
  chainEnd_eq := rfl

def overrides : RawAnnotation where
  details := unmarked
  chain := ⟨rule unmarked "modifier" [rule unmarked "classOrInterfaceModifier" [
    rule unmarked "annotation" [terminal unmarked "AT",
      rule unmarked "qualifiedName" [word unmarked "IDENTIFIER" "Override"]]]], rfl⟩
  name := "Override"
  arguments := []
  chainEnd_eq := rfl

def intMethod (name : String) : Phrase "methodDeclaration" where
  tree := rule unmarked "methodDeclaration" [word unmarked "typeTypeOrVoid" "int",
    word unmarked "IDENTIFIER" name, terminal unmarked "formalParameters"]
  label_eq := rfl

/-- `public @Override final int size()` and `int count()`. -/
def sizeAndCount : RawClassBody where
  details := unmarked
  declarations :=
    [{ details := unmarked
       marks := [.keyword (simpleModifier "PUBLIC" "public" (by decide)), .annotate overrides,
         .keyword (simpleModifier "FINAL" "final" (by decide))]
       method := intMethod "size"
       two_le := by decide },
      { details := unmarked
        marks := []
        method := intMethod "count"
        two_le := by decide }]

def countingClass : SyntaxTree :=
  rule unmarked "typeDeclaration" [rule unmarked "classDeclaration" [
    word unmarked "IDENTIFIER" "A", sizeAndCount.tree]]

/-- The class body is the fourth node of the tree. -/
theorem extract_image_own_marks_counting :
    let planted := empty.plant none countingClass
    planted.1.IsRooted planted.2 ∧ 3 ∈ planted.1.preorder planted.2 ∧
      subtree (⟨planted.1, 3⟩ : Member) = sizeAndCount.tree ∧
      ∃ (after : Forest) (result : NodeId) (image : NodeId → NodeId),
        rebuild .compress planted.1 planted.2 = .ok (after, result) ∧
        ∃ size count, methodAt? (⟨planted.1, 3⟩ : Member) 0 = some ⟨planted.1, size⟩ ∧
          methodAt? (⟨planted.1, 3⟩ : Member) 1 = some ⟨planted.1, count⟩ ∧
          (∃ info, (extract {} "A.java" (⟨after, image size⟩ : Member)).outcome = .ok info ∧
            info.modifiers = some ["public", "final"] ∧ info.annotations = some ["Override"]) ∧
          ∃ info, (extract {} "A.java" (⟨after, image count⟩ : Member)).outcome = .ok info ∧
            info.modifiers = some [] ∧ info.annotations = some [] := by
  intro planted
  have hrooted : planted.1.IsRooted planted.2 := isRooted_plant empty countingClass
  have hsite : 3 ∈ planted.1.preorder planted.2 := by decide +kernel
  have hbody : subtree (⟨planted.1, 3⟩ : Member) = sizeAndCount.tree := by rfl
  obtain ⟨after, result, image, hrebuild, -, hall⟩ :=
    extract_image_own_marks hrooted hsite hbody "A.java"
  obtain ⟨size, hsize, -, -, hsizeInfo⟩ := hall 0 _ rfl
  obtain ⟨count, hcount, -, -, hcountInfo⟩ := hall 1 _ rfl
  exact ⟨hrooted, hsite, hbody, after, result, image, hrebuild, size, count, hsize, hcount,
    hsizeInfo, hcountInfo⟩

end SyntaxMining.Java
