import SyntaxMining.Proofs.Forest.ChainStart
import SyntaxMining.Proofs.Function.Containment
import SyntaxMining.Proofs.Function.Nesting

/-!
# What encloses a PHP function

A function can be enclosed by another function, by a class or by an assignment. Compression keeps
the types of a node's children, by which functions are recognised, and the last atom, by which
classes are. An assignment is recognised by the first atom, which belongs to the node where its
chain starts. So the element found above an image is the image of the nearest ancestor that
branches and is a function, a class, or has an assignment operator and a chain that starts with an
expression; an assignment that is the only child of another rule is not found.
-/

namespace SyntaxMining.Php

open Query Forest

section Classification

variable {ν : Type} [Navigable ν] (labels : Labels)

/-- Kind of a node that can enclose a function. -/
def kind (node : ν) : EnclosingKind :=
  if isMethod labels node then .method
  else if isFunction labels node then .function
  else if isClass labels node then .classDeclaration
  else .assignment

theorem enclosingKind_of_mayEnclose {node : ν} (h : mayEnclose labels node) :
    enclosingKind labels node = .ok (kind labels node) := by
  unfold enclosingKind kind
  split
  · rfl
  · split
    · rfl
    · split
      · rfl
      · rename_i hfunction hclass
        have hassignment : isAssignment labels node := by
          simpa [mayEnclose, hfunction, hclass] using h
        rw [if_pos hassignment]

theorem exists_enclosingName {node : ν} (h : mayEnclose labels node) :
    ∃ name, enclosingName labels node = .ok name := by
  unfold enclosingName
  split
  · exact ⟨_, rfl⟩
  · rename_i hother
    have hassignment : isAssignment labels node := by simpa [mayEnclose, hother] using h
    rw [if_pos hassignment]
    exact ⟨_, rfl⟩

/-- The nearest ancestor that can enclose a function does, and it has a kind. -/
theorem exists_enclosing?_eq (node : ν) :
    ∃ element, enclosing? labels node = .ok element ∧
      element.map (fun found ↦ (found.kind, found.root)) =
        (Query.enclosing? node (mayEnclose labels)).map fun above ↦ (kind labels above, above) := by
  unfold enclosing?
  cases hfound : Query.enclosing? node (mayEnclose labels) with
  | none => exact ⟨none, rfl, rfl⟩
  | some above =>
    have hencloses : mayEnclose labels above := List.find?_some hfound
    obtain ⟨name, hname⟩ := exists_enclosingName labels hencloses
    simp only [enclosingKind_of_mayEnclose labels hencloses, hname]
    exact ⟨_, rfl, rfl⟩

/-- The descriptor of a function has the element that encloses it. -/
theorem exists_extract_enclosing {node : ν} {element : Option (Enclosing ν)}
    (h : enclosing? labels node = .ok element) (file : String) :
    ∃ info, (extract labels file node).outcome = .ok info ∧ info.enclosing = element := by
  let name := (childOfType? node labels.functionName).bind token
  obtain ⟨finding, hfinding, hnamed⟩ := (yields_parameters labels file name node).outcome
  obtain ⟨parameters, hparameters, -⟩ :=
    (Task.yields_unwrap ⟨.php, file, "parameters"⟩ hnamed).outcome
  unfold extract
  rw [Mining.outcome_bind hfinding, Mining.outcome_bind hparameters, h, Mining.outcome_bind rfl]
  exact ⟨_, rfl, rfl⟩

end Classification

/-! ## Elements of a tree before compression -/

section Folding

variable (labels : Labels)

/-- The node where the chain starts that ends at a node. -/
def outermost (node : Member) : Member :=
  ⟨node.forest, node.forest.chainStart node.id⟩

/-- Whether the image of a node can enclose a function. -/
def enclosesWhenFolded (node : Member) : Bool :=
  isFunction labels node || isClass labels node ||
    (firstIs (outermost node) labels.expression && (childOfType? node labels.assignOp).isSome)

/-- Kind of the image of a node that can enclose a function. -/
def kindWhenFolded (node : Member) : EnclosingKind :=
  if isFunction labels node then
    if firstIs (outermost node) labels.classMember then .method else .function
  else if isClass labels node then .classDeclaration
  else .assignment

/-- Nearest ancestor that branches and whose image can enclose a function. -/
def enclosingWhenFolded? (node : Member) : Option Member :=
  Query.enclosing? node fun above ↦
    above.forest.branches above.id && enclosesWhenFolded labels above

/-- Where the chain of an assignment starts as the assignment does, folding makes no difference. -/
theorem enclosesWhenFolded_eq_mayEnclose {node : Member}
    (h : (childOfType? node labels.assignOp).isSome →
      firstIs (outermost node) labels.expression = firstIs node labels.expression) :
    enclosesWhenFolded labels node = mayEnclose labels node := by
  rw [enclosesWhenFolded, mayEnclose, isAssignment]
  cases hoperator : (childOfType? node labels.assignOp).isSome with
  | false => rw [Bool.and_false, Bool.and_false]
  | true => rw [h hoperator]

/-- A node and its image are told apart by the first atom only, which is that of the node where the
chain starts. -/
structure Resembles (node image : Member) : Prop where
  childTypes_eq : childTypes image = childTypes node
  last_eq : (label image).last = (label node).last
  first_eq : (label image).first = (label (outermost node)).first

variable {node image : Member}

namespace Resembles

theorem isSome_childOfType? (h : Resembles node image) (atom : String) :
    (childOfType? image atom).isSome = (childOfType? node atom).isSome := by
  rw [Query.isSome_childOfType?, Query.isSome_childOfType?, h.childTypes_eq]

theorem isFunction_eq (h : Resembles node image) :
    isFunction labels image = isFunction labels node := by
  rw [isFunction, isFunction, h.isSome_childOfType?, h.isSome_childOfType?]

theorem isClass_eq (h : Resembles node image) : isClass labels image = isClass labels node := by
  rw [isClass, isClass, lastIs, lastIs, h.last_eq]

theorem firstIs_eq (h : Resembles node image) (atom : String) :
    firstIs image atom = firstIs (outermost node) atom := by
  rw [firstIs, firstIs, h.first_eq]

theorem mayEnclose_eq (h : Resembles node image) :
    mayEnclose labels image = enclosesWhenFolded labels node := by
  rw [mayEnclose, enclosesWhenFolded, h.isFunction_eq, h.isClass_eq, isAssignment, h.firstIs_eq,
    h.isSome_childOfType?]

theorem kind_eq (h : Resembles node image) : kind labels image = kindWhenFolded labels node := by
  rw [kind, kindWhenFolded, isMethod, h.isFunction_eq, h.isClass_eq, h.firstIs_eq]
  cases isFunction labels node with
  | true => rfl
  | false => rfl

end Resembles

variable {forest after : Forest} {root result : NodeId} {image : NodeId → NodeId}

/-- The element that encloses an image is the image of the nearest ancestor whose image can. -/
theorem exists_enclosing?_image (himage : forest.IsImage root after result image)
    (h : forest.IsRooted root)
    (hresembles : ∀ id ∈ forest.preorder root, forest.branches id →
      Resembles ⟨forest, id⟩ ⟨after, image id⟩)
    {id : NodeId} (hid : id ∈ forest.preorder root) (hends : forest.branches id) :
    ∃ element, enclosing? labels (⟨after, image id⟩ : Member) = .ok element ∧
      element.map (fun found ↦ (found.kind, found.root)) =
        (enclosingWhenFolded? labels ⟨forest, id⟩).map fun above ↦
          (kindWhenFolded labels above, ⟨after, image above.id⟩) := by
  obtain ⟨element, helement, hfound⟩ :=
    exists_enclosing?_eq labels (⟨after, image id⟩ : Member)
  have hnearest : Query.enclosing? (⟨after, image id⟩ : Member) (mayEnclose labels) =
      (enclosingWhenFolded? labels ⟨forest, id⟩).map fun above ↦ ⟨after, image above.id⟩ := by
    rw [Query.enclosing?, himage.ancestors_eq id hid hends, List.find?_map, List.find?_filter,
      enclosingWhenFolded?, Query.enclosing?]
    congr 1
    apply List.find?_congr
    intro above habove
    -- only ancestors that branch have an image to compare with
    obtain ⟨outer, houter, rfl⟩ := h.ancestors_mem hid above habove
    cases hbranches : forest.branches outer with
    | false => simp
    | true => simp [(hresembles outer houter hbranches).mayEnclose_eq labels]
  refine ⟨element, helement, ?_⟩
  rw [hfound, hnearest, Option.map_map]
  cases habove : enclosingWhenFolded? labels (⟨forest, id⟩ : Member) with
  | none => rfl
  | some above =>
    obtain ⟨outer, houter, rfl⟩ := h.ancestors_mem hid above (List.mem_of_find?_eq_some habove)
    have haccepted := List.find?_some habove
    have hbranches : forest.branches outer := (Bool.and_eq_true_iff.mp haccepted).1
    simp [(hresembles outer houter hbranches).kind_eq labels]

theorem exists_resembles (h : forest.IsRooted root) :
    ∃ after result image, rebuild .compress forest root = .ok (after, result) ∧
      forest.IsImage root after result image ∧
      ∀ id ∈ forest.preorder root, forest.branches id →
        Resembles ⟨forest, id⟩ ⟨after, image id⟩ := by
  obtain ⟨after, result, image, hrebuild, himage, htypes⟩ := exists_isImage_childTypes h
  refine ⟨after, result, image, hrebuild, himage, ?_⟩
  intro id hid hends
  exact ⟨htypes id hid hends, himage.last_label h hid hends, himage.first_label h hid hends⟩

/-- What encloses the image of a function is the image of the nearest ancestor that branches and is
a function, a class, or an assignment whose chain starts with an expression. Where the chains of
assignments start as the assignments do, this is the nearest ancestor that branches and can enclose
a function by itself. -/
theorem extract_image_enclosing (h : forest.IsRooted root) (file : String) :
    ∃ after result image, rebuild .compress forest root = .ok (after, result) ∧
      forest.IsImage root after result image ∧
      ∀ node ∈ functionNodes (extractor labels) forest root, forest.branches node.id →
        (∃ info, (extract labels file (⟨after, image node.id⟩ : Member)).outcome = .ok info ∧
          info.enclosing.map (fun element ↦ (element.kind, element.root)) =
            (enclosingWhenFolded? labels node).map fun above ↦
              (kindWhenFolded labels above, ⟨after, image above.id⟩)) ∧
        ((∀ above ∈ ancestors node, (childOfType? above labels.assignOp).isSome →
            firstIs (outermost above) labels.expression = firstIs above labels.expression) →
          enclosingWhenFolded? labels node = Query.enclosing? node fun above ↦
            forest.branches above.id && mayEnclose labels above) := by
  obtain ⟨after, result, image, hrebuild, himage, hresembles⟩ := exists_resembles h
  refine ⟨after, result, image, hrebuild, himage, ?_⟩
  intro node hnode hends
  obtain ⟨id, hid, rfl⟩ := List.mem_map.mp (List.mem_filter.mp hnode).1
  constructor
  · obtain ⟨element, helement, hfound⟩ :=
      exists_enclosing?_image labels himage h hresembles hid hends
    obtain ⟨info, hinfo, henclosing⟩ := exists_extract_enclosing labels helement file
    exact ⟨info, hinfo, henclosing ▸ hfound⟩
  · intro hunwrapped
    apply List.find?_congr
    intro above habove
    obtain ⟨outer, -, rfl⟩ := h.ancestors_mem hid above habove
    rw [enclosesWhenFolded_eq_mayEnclose labels (hunwrapped _ habove)]

end Folding

/-! ## Assigned closures -/

open Grammar in
/-- `$x = function () { }`, an expression that assigns a closure. -/
def assignedClosure : SyntaxTree :=
  rule unmarked "expression" [
    rule unmarked "assignable" [word unmarked "VarName" "$x"],
    rule unmarked "assignmentOperator" [word unmarked "Eq" "="],
    rule unmarked "expression" [rule unmarked "lambdaFunctionExpr" [
      word unmarked "Function_" "function", terminal unmarked "formalParameterList",
      terminal unmarked "blockStatement"]]]

open Grammar in
/-- The assignment as a statement, with a semicolon beside it. -/
def closureStatement : SyntaxTree :=
  rule unmarked "expressionStatement" [assignedClosure, word unmarked "SemiColon" ";"]

/-- The closure is the eighth node of the statement, and the assignment that encloses it the
second. -/
theorem extract_image_enclosing_statement :
    let planted := empty.plant none closureStatement
    planted.1.IsRooted planted.2 ∧
      (⟨planted.1, 7⟩ : Member) ∈ functionNodes (extractor {}) planted.1 planted.2 ∧
      planted.1.branches 7 ∧
      ∃ (after : Forest) (result : NodeId) (image : NodeId → NodeId),
        rebuild .compress planted.1 planted.2 = .ok (after, result) ∧
        ∃ info, (extract {} "a.php" (⟨after, image 7⟩ : Member)).outcome = .ok info ∧
          info.enclosing.map (fun element ↦ (element.kind, element.root.id)) =
            some (.assignment, image 1) := by
  intro planted
  have hrooted : planted.1.IsRooted planted.2 := isRooted_plant empty closureStatement
  have hclosure : (⟨planted.1, 7⟩ : Member) ∈ functionNodes (extractor {}) planted.1 planted.2 :=
    List.mem_filter.mpr ⟨List.mem_map_of_mem (by decide +kernel), by decide +kernel⟩
  have hends : planted.1.branches 7 := by decide +kernel
  have hassignment : (enclosingWhenFolded? {} ⟨planted.1, 7⟩).map (fun above ↦
      (kindWhenFolded {} above, above.id)) = some (.assignment, 1) := by decide +kernel
  obtain ⟨after, result, image, hrebuild, -, hall⟩ := extract_image_enclosing {} hrooted "a.php"
  obtain ⟨⟨info, hinfo, henclosing⟩, -⟩ := hall _ hclosure hends
  refine ⟨hrooted, hclosure, hends, after, result, image, hrebuild, info, hinfo, ?_⟩
  have hkind := congrArg (Option.map (Prod.map id Member.id)) henclosing
  have himage := congrArg (Option.map (Prod.map id image)) hassignment
  simp only [Option.map_map] at hkind himage
  exact hkind.trans himage

open Grammar in
/-- The assignment as an argument, the only child of a rule. -/
def closureArgument : SyntaxTree :=
  rule unmarked "arguments" [word unmarked "OpenRoundBracket" "(",
    rule unmarked "actualArgument" [assignedClosure], word unmarked "CloseRoundBracket" ")"]

/-- The closure is assigned by the fourth node of the arguments, an expression with an operator, and
yet nothing encloses its image: the expression is folded into the argument. -/
theorem extract_image_misses_argument :
    let planted := empty.plant none closureArgument
    (∀ id ∈ planted.1.preorder planted.2,
        Label.bar ∉ (planted.1.node id).entry.label.text.toList) ∧
      (⟨planted.1, 9⟩ : Member) ∈ functionNodes (extractor {}) planted.1 planted.2 ∧
      planted.1.branches 9 ∧
      (Query.enclosing? (⟨planted.1, 9⟩ : Member) fun above ↦
        planted.1.branches above.id && mayEnclose {} above).map Member.id = some 3 ∧
      ∃ (after : Forest) (result : NodeId) (image : NodeId → NodeId),
        rebuild .compress planted.1 planted.2 = .ok (after, result) ∧
        planted.1.IsImage planted.2 after result image ∧
        ∃ info, (extract {} "a.php" (⟨after, image 9⟩ : Member)).outcome = .ok info ∧
          info.enclosing.isNone := by
  intro planted
  have hclosure : 9 ∈ planted.1.preorder planted.2 := by decide +kernel
  have hends : planted.1.branches 9 := by decide +kernel
  have hrooted : planted.1.IsRooted planted.2 := isRooted_plant empty closureArgument
  obtain ⟨after, result, image, hrebuild, himage, hresembles⟩ := exists_resembles hrooted
  obtain ⟨element, helement, hfound⟩ :=
    exists_enclosing?_image {} himage hrooted hresembles hclosure hends
  obtain ⟨info, hinfo, henclosing⟩ := exists_extract_enclosing {} helement "a.php"
  refine ⟨by decide +kernel, List.mem_filter.mpr ⟨List.mem_map_of_mem hclosure, by decide +kernel⟩,
    hends, by decide +kernel, after, result, image, hrebuild, himage, info, hinfo, ?_⟩
  have hnone : (enclosingWhenFolded? {} ⟨planted.1, 9⟩).isNone := by decide +kernel
  rw [henclosing, ← Option.isNone_map, hfound, Option.isNone_map, hnone]

end SyntaxMining.Php
