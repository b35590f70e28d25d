import SyntaxMining.Proofs.Function.Violations

/-!
# Methods of Python

A function is called a method when it stands directly in the body of a class: the body is its parent
and the class is the parent of the body. What encloses the function is asked by another search,
which walks up to the nearest class or function. A method is therefore enclosed by its class, but
not every function that is enclosed by a class is called a method: a decorated one stands in the
decoration, not in the body.
-/

namespace SyntaxMining.Python

open Query Forest

variable {labels : Labels}

/-- Functions, classes and bodies are told apart by their labels. -/
structure Labels.AreApart (labels : Labels) : Prop where
  function_ne_class : labels.function ≠ labels.classDeclaration
  body_notMem : (⟨labels.body⟩ : Label).last ∉ labels.enclosingElements

section Classification

variable {ν : Type} [Navigable ν]

/-- A function stands directly in the body of its owner. -/
def StandsInBodyOf (labels : Labels) (function owner : ν) : Prop :=
  ∃ outer, parent? function = some outer ∧ (label outer).text = labels.body ∧
    parent? outer = some owner

theorem isMethod_eq_true_iff {function : ν} : isMethod labels function = .ok true ↔
    ∃ owner, StandsInBodyOf labels function owner ∧ lastIs owner labels.classDeclaration := by
  constructor
  · intro h
    unfold isMethod at h
    split at h
    · simp at h
    · rename_i outer houter
      split at h
      · rename_i hbody
        split at h
        · cases h
        · rename_i owner howner
          exact ⟨owner, ⟨outer, houter, hbody, howner⟩, by simpa using h⟩
      · simp at h
  · rintro ⟨owner, ⟨outer, houter, hbody, howner⟩, hclass⟩
    simp [isMethod, houter, hbody, howner, hclass]

/-- What the search for an enclosing element can find. -/
theorem enclosing?_eq_some {node : ν} {element : Enclosing ν}
    (h : enclosing? labels node = .ok (some element)) :
    Query.enclosing? node (lastIn · labels.enclosingElements) = some element.root ∧
      (lastIs element.root labels.classDeclaration ∧ element.kind = .classDeclaration ∨
        ¬ lastIs element.root labels.classDeclaration ∧
          ∃ method, isMethod labels element.root = .ok method ∧
            element.kind = if method then .method else .function) := by
  unfold enclosing? at h
  split at h
  · cases h
  · rename_i above hfound
    split at h
    · rename_i hclass
      cases h
      exact ⟨hfound, Or.inl ⟨hclass, rfl⟩⟩
    · rename_i hclass
      split at h
      · split at h
        · cases h
        · rename_i method hmethod
          cases h
          exact ⟨hfound, Or.inr ⟨hclass, method, hmethod, rfl⟩⟩
      · cases h

/-- A class that is found encloses the node. -/
theorem exists_enclosing?_eq_class {node owner : ν}
    (hfound : Query.enclosing? node (lastIn · labels.enclosingElements) = some owner)
    (hclass : lastIs owner labels.classDeclaration) :
    ∃ element, enclosing? labels node = .ok (some element) ∧ element.kind = .classDeclaration ∧
      element.root = owner := by
  simp only [enclosing?, hfound, if_pos hclass]
  exact ⟨_, rfl, rfl, rfl⟩

end Classification

variable {forest : Forest} {root id : NodeId}

/-- The search for what encloses a function passes over the body in which the function stands. -/
theorem enclosing?_of_standsInBodyOf (hlabels : labels.AreApart) (h : forest.IsRooted root)
    (hid : id ∈ forest.preorder root) {owner : Member}
    (hbody : StandsInBodyOf labels (⟨forest, id⟩ : Member) owner)
    (hclass : lastIs owner labels.classDeclaration) :
    Query.enclosing? (⟨forest, id⟩ : Member) (lastIn · labels.enclosingElements) = some owner := by
  obtain ⟨outer, houter, hlabel, howner⟩ := hbody
  obtain ⟨⟨body, hmem, rfl⟩, hancestors⟩ := h.ancestors_of_parent? hid houter
  obtain ⟨-, habove⟩ := h.ancestors_of_parent? hmem howner
  have hpassed : lastIn (⟨forest, body⟩ : Member) labels.enclosingElements = false := by
    have hlast : (label (⟨forest, body⟩ : Member)) = ⟨labels.body⟩ := by rw [← hlabel]
    rw [lastIn, hlast]
    simpa using hlabels.body_notMem
  have hfound : lastIn owner labels.enclosingElements := by
    have hlast : (label owner).last = labels.classDeclaration := beq_iff_eq.mp hclass
    simp [lastIn, hlast, Labels.enclosingElements]
  rw [Query.enclosing?, hancestors, habove, List.find?_cons_of_neg (by simp [hpassed]),
    List.find?_cons_of_pos (by simpa using hfound)]

/-- The two ways to ask whether a function is a method agree where it stands in a body. -/
theorem isMethod_iff_enclosing? (hlabels : labels.AreApart) (h : forest.IsRooted root)
    (hid : id ∈ forest.preorder root) :
    isMethod labels (⟨forest, id⟩ : Member) = .ok true ↔
      ∃ owner, enclosing? labels (⟨forest, id⟩ : Member) = .ok (some owner) ∧
        owner.kind = .classDeclaration ∧
        StandsInBodyOf labels (⟨forest, id⟩ : Member) owner.root := by
  rw [isMethod_eq_true_iff]
  constructor
  · rintro ⟨owner, hbody, hclass⟩
    obtain ⟨element, helement, hkind, rfl⟩ :=
      exists_enclosing?_eq_class (enclosing?_of_standsInBodyOf hlabels h hid hbody hclass) hclass
    exact ⟨element, helement, hkind, hbody⟩
  · rintro ⟨element, helement, hkind, hbody⟩
    rcases (enclosing?_eq_some helement).2 with ⟨hclass, -⟩ | ⟨-, method, -, hother⟩
    · exact ⟨element.root, hbody, hclass⟩
    · cases method <;> simp [hother] at hkind

/-- The descriptor has the enclosing element that the search finds. -/
theorem exists_extract_enclosing (labels : Labels) (file : String) (node : Member) :
    ∃ info, (extract labels file node).outcome = .ok info ∧
      ∀ element, info.enclosing = some element ↔ enclosing? labels node = .ok (some element) := by
  obtain ⟨finding, info, late, -, hextract, -, henclosing, -⟩ := exists_extract_eq labels file node
  refine ⟨info, by rw [hextract], ?_⟩
  intro element
  rw [henclosing]
  cases enclosing? labels node with
  | error failure => simp [Except.toOption]
  | ok found => simp [Except.toOption]

/-- A function around a node is called a method exactly when its own enclosing element is a class
and it stands directly in the body of that class; otherwise it is called a function. -/
theorem extract_method_iff_in_class_body (hlabels : labels.AreApart) (h : forest.IsRooted root)
    (hid : id ∈ forest.preorder root) (file : String) :
    ∃ info, (extract labels file (⟨forest, id⟩ : Member)).outcome = .ok info ∧
      ∀ element, info.enclosing = some element → isFunction labels element.root →
        ∃ own, (extract labels file element.root).outcome = .ok own ∧
          (element.kind = .method ↔ ∃ owner, own.enclosing = some owner ∧
            owner.kind = .classDeclaration ∧
            StandsInBodyOf labels element.root owner.root) ∧
          (element.kind ≠ .method → element.kind = .function) := by
  obtain ⟨info, hinfo, hfinds⟩ := exists_extract_enclosing labels file (⟨forest, id⟩ : Member)
  refine ⟨info, hinfo, ?_⟩
  intro element helement hfunction
  obtain ⟨own, hown, hownFinds⟩ := exists_extract_enclosing labels file element.root
  refine ⟨own, hown, ?_⟩
  obtain ⟨hfound, hkind⟩ := enclosing?_eq_some ((hfinds element).mp helement)
  obtain ⟨outer, houter, hroot⟩ := h.ancestors_mem hid _ (List.mem_of_find?_eq_some hfound)
  -- a function is no class, so its kind is decided by where it stands
  have hclass : ¬ lastIs element.root labels.classDeclaration := by
    intro hclass
    apply hlabels.function_ne_class
    calc
      labels.function = (label element.root).last := (beq_iff_eq.mp hfunction).symm
      _ = labels.classDeclaration := beq_iff_eq.mp hclass
  obtain ⟨method, hmethod, hkind⟩ := (hkind.resolve_left fun hother ↦ hclass hother.1).2
  have hcalled : element.kind = .method ↔ isMethod labels element.root = .ok true := by
    cases method <;> simp [hkind, hmethod]
  constructor
  · rw [hcalled]
    simp only [hownFinds]
    rw [hroot]
    exact isMethod_iff_enclosing? hlabels h houter
  · intro hother
    cases method with
    | true => exact absurd hkind hother
    | false => exact hkind

/-! ## A method, plain and decorated -/

section Examples

open Grammar

def functionStatement (function : SyntaxTree) : SyntaxTree :=
  rule unmarked "stmt" [rule unmarked "compound_stmt" [function]]

def namedFunction (name : String) (statement : SyntaxTree) : SyntaxTree :=
  rule unmarked "funcdef" [word unmarked "DEF" "def", word unmarked "NAME" name,
    terminal unmarked "parameters", word unmarked "COLON" ":",
    rule unmarked "suite" [terminal unmarked "NEWLINE", statement]]

/-- A function with another one inside. -/
def outerWithInner : SyntaxTree :=
  namedFunction "outer"
    (functionStatement (namedFunction "inner" (word unmarked "stmt" "pass")))

def classWith (member : SyntaxTree) : SyntaxTree :=
  rule unmarked "classdef" [word unmarked "CLASS" "class", word unmarked "NAME" "A",
    word unmarked "COLON" ":",
    rule unmarked "suite" [terminal unmarked "NEWLINE", functionStatement member]]

/-- A decorator in front of a function; the two stand side by side. -/
def decorated (function : SyntaxTree) : SyntaxTree :=
  rule unmarked "decorated" [rule unmarked "decorator" [word unmarked "AT" "@",
    word unmarked "dotted_name" "cached", terminal unmarked "NEWLINE"], function]

/-- The outer function of a class, the seventh node of the compressed tree, is a method around the
inner one, the fourteenth. -/
theorem extract_method_iff_in_class_body_plain :
    let planted := empty.plant none (classWith outerWithInner).compress
    ({} : Labels).AreApart ∧ planted.1.IsRooted planted.2 ∧ 13 ∈ planted.1.preorder planted.2 ∧
      ∃ info element own owner,
        (extract {} "a.py" (⟨planted.1, 13⟩ : Member)).outcome = .ok info ∧
        info.enclosing = some element ∧ isFunction {} element.root ∧ element.kind = .method ∧
        (extract {} "a.py" element.root).outcome = .ok own ∧ own.enclosing = some owner ∧
        owner.kind = .classDeclaration := by
  intro planted
  have hlabels : ({} : Labels).AreApart := ⟨by decide, by decide⟩
  have hrooted : planted.1.IsRooted planted.2 := isRooted_plant empty _
  have hinner : 13 ∈ planted.1.preorder planted.2 := by decide +kernel
  have hread : ((extract {} "a.py" (⟨planted.1, 13⟩ : Member)).outcome.toOption.bind
      FunctionInfo.enclosing).map (fun element ↦ (element.kind, isFunction {} element.root)) =
        some (.method, true) := by decide +kernel
  obtain ⟨info, hinfo, hall⟩ := extract_method_iff_in_class_body hlabels hrooted hinner "a.py"
  rw [hinfo, Except.toOption, Option.bind_some, Option.map_eq_some_iff] at hread
  obtain ⟨element, helement, hpair⟩ := hread
  obtain ⟨hkind, hfunction⟩ := Prod.mk.inj hpair
  obtain ⟨own, hown, hmethod, -⟩ := hall element helement hfunction
  obtain ⟨owner, howner, hclass, -⟩ := hmethod.mp hkind
  exact ⟨hlabels, hrooted, hinner, info, element, own, owner, hinfo, helement, hfunction, hkind,
    hown, howner, hclass⟩

/-- With a decorator the outer function, now the twelfth node, is still enclosed by the class, but
around the inner one it is not called a method. -/
theorem extract_misses_decorated_method :
    let planted := empty.plant none (classWith (decorated outerWithInner)).compress
    let enclosing (id : NodeId) :=
      ((extract {} "a.py" (⟨planted.1, id⟩ : Member)).outcome.toOption.bind
        FunctionInfo.enclosing).map fun element ↦ (element.kind, element.root.id)
    (functionNodes (extractor {}) planted.1 planted.2).map Member.id = [11, 18] ∧
      enclosing 18 = some (.function, 11) ∧ enclosing 11 = some (.classDeclaration, 0) := by
  decide +kernel

end Examples

end SyntaxMining.Python
