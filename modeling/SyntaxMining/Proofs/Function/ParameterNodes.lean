import SyntaxMining.Function.Registry

/-!
# Parameter nodes

The nodes of a function that stand for one parameter each, and the parameter that a node stands for,
are described here by labels, children and tokens alone. A parameter list is reached through first
children of a type. It stands for a parameter itself when its label ends in the right atom, and
otherwise its children do whose labels start with one. The searches of the extractors find just
these nodes, and they read off a node what it stands for.
-/

namespace SyntaxMining

open Query

variable {ν : Type} [Navigable ν]

/-! ## Nodes of a type -/

/-- The first child of a node whose label starts with an atom. -/
structure IsFirstOfType (node : ν) (atom : String) (child : ν) : Prop where
  first_eq : (label child).first = atom
  earlier : ∃ before after, children node = before ++ child :: after ∧
    ∀ other ∈ before, (label other).first ≠ atom

/-- The node itself when its label ends in an atom, and else its first child of that type. -/
inductive IsSelfOrFirst (node : ν) (atom : String) : ν → Prop where
  | self (ends : (label node).last = atom) : IsSelfOrFirst node atom node
  | child {child : ν} (ends : (label node).last ≠ atom) (first : IsFirstOfType node atom child) :
      IsSelfOrFirst node atom child

/-- What the first child of a type gives, if there is one. -/
inductive FirstGives (node : ν) (atom : String) (read : ν → Option String) :
    Option String → Prop where
  | present {child : ν} (first : IsFirstOfType node atom child) :
      FirstGives node atom read (read child)
  | absent (missing : ∀ child ∈ children node, (label child).first ≠ atom) :
      FirstGives node atom read none

/-- A sign that is there when a child of a type is. -/
inductive IsMark (node : ν) (atom sign : String) : String → Prop where
  | present {child : ν} (mem : child ∈ children node) (first_eq : (label child).first = atom) :
      IsMark node atom sign sign
  | absent (missing : ∀ child ∈ children node, (label child).first ≠ atom) :
      IsMark node atom sign ""

section Types

variable {node child found : ν} {atom : String}

theorem childOfType?_eq_some_iff :
    childOfType? node atom = some child ↔ IsFirstOfType node atom child := by
  rw [childOfType?, List.find?_eq_some_iff_append]
  simp only [firstIs, beq_iff_eq, Bool.not_eq_true', beq_eq_false_iff_ne]
  constructor
  · intro h
    exact ⟨h.1, h.2⟩
  · intro h
    exact ⟨h.first_eq, h.earlier⟩

theorem childOfType?_eq_none_iff :
    childOfType? node atom = none ↔ ∀ child ∈ children node, (label child).first ≠ atom := by
  simp [childOfType?, firstIs]

theorem isSelfOrFirst_iff :
    IsSelfOrFirst node atom found ↔
      (if lastIs node atom then some node else childOfType? node atom) = some found := by
  by_cases hends : (label node).last = atom
  · have hlast : lastIs node atom := by simpa [lastIs] using hends
    rw [if_pos hlast, Option.some.injEq]
    constructor
    · intro h
      cases h with
      | self => rfl
      | child hother => exact absurd hends hother
    · rintro rfl
      exact .self hends
  · have hlast : ¬lastIs node atom := by simpa [lastIs] using hends
    rw [if_neg hlast, childOfType?_eq_some_iff]
    constructor
    · intro h
      cases h with
      | self hother => exact absurd hother hends
      | child _ first => exact first
    · intro h
      exact .child hends h

theorem isSelfOrFirst_iff_head? :
    IsSelfOrFirst node atom found ↔ (selfOrChildrenOfType node atom).head? = some found := by
  rw [isSelfOrFirst_iff, selfOrChildrenOfType]
  split
  · rw [List.head?_singleton]
  · rw [childrenOfType, List.head?_filter, childOfType?]

theorem firstGives_iff {read : ν → Option String} {value : Option String} :
    FirstGives node atom read value ↔ value = (childOfType? node atom).bind read := by
  constructor
  · intro h
    cases h with
    | present first => rw [childOfType?_eq_some_iff.mpr first, Option.bind_some]
    | absent missing => rw [childOfType?_eq_none_iff.mpr missing, Option.bind_none]
  · rintro rfl
    cases hchild : childOfType? node atom with
    | none => exact .absent (childOfType?_eq_none_iff.mp hchild)
    | some child => exact .present (childOfType?_eq_some_iff.mp hchild)

theorem isMark_iff {sign mark : String} :
    IsMark node atom sign mark ↔ mark = if (childOfType? node atom).isSome then sign else "" := by
  constructor
  · intro h
    cases h with
    | present mem first_eq =>
      have hsome : (childOfType? node atom).isSome := by
        rw [Option.isSome_iff_ne_none, Ne, childOfType?_eq_none_iff]
        exact fun hmissing ↦ hmissing _ mem first_eq
      rw [if_pos hsome]
    | absent missing => rw [childOfType?_eq_none_iff.mpr missing, if_neg (by simp)]
  · rintro rfl
    cases hchild : childOfType? node atom with
    | none => exact .absent (childOfType?_eq_none_iff.mp hchild)
    | some child =>
      have hmem : child ∈ children node := List.mem_of_find?_eq_some hchild
      exact .present hmem (childOfType?_eq_some_iff.mp hchild).first_eq

end Types

namespace Grammar

/-! ## The nodes of a parameter list -/

/-- The parameter list of a function. -/
def IsParameterList : Grammar → ν → ν → Prop
  | java labels, root, list => ∃ holder, IsFirstOfType root labels.parameters holder ∧
      IsFirstOfType holder labels.parameterList list
  | python labels, root, list => ∃ holder, IsFirstOfType root labels.parameters holder ∧
      IsFirstOfType holder labels.parameterList list
  | php labels, root, list => IsFirstOfType root labels.parameterList list

/-- What the label of a parameter list ends in when it is folded down to one parameter. -/
def soleNames : Grammar → List String
  | java labels => labels.singleParameters
  | python labels => [labels.singleParameter, labels.parameterName]
  | php labels => [labels.parameterName, labels.varDeclaration, labels.parameter]

/-- What the labels of parameters start with in a list of several. -/
def partNames : Grammar → List String
  | java labels => labels.singleParameters
  | python labels => [labels.singleParameter]
  | php labels => [labels.parameter]

/-- The nodes of a function that stand for one parameter each, in order. -/
inductive HasParameterNodes (grammar : Grammar) (root : ν) : List ν → Prop where
  | missing (unlisted : ∀ list, ¬grammar.IsParameterList root list) :
      HasParameterNodes grammar root []
  | sole {list : ν} (lists : grammar.IsParameterList root list)
      (folded : (label list).last ∈ grammar.soleNames) : HasParameterNodes grammar root [list]
  | several {list : ν} (lists : grammar.IsParameterList root list)
      (unfolded : (label list).last ∉ grammar.soleNames) :
      HasParameterNodes grammar root
        ((children list).filter fun child ↦ grammar.partNames.contains (label child).first)

/-- The nodes that the extractor of a grammar reads parameters off. -/
def parameterNodes (grammar : Grammar) (root : ν) : List ν :=
  match grammar with
  | java labels => ((Java.parameterList? labels root).map (Java.parameterNodes labels)).getD []
  | python labels =>
    ((Python.parameterList? labels root).map (Python.parameterNodes labels)).getD []
  | php labels =>
    ((childOfType? root labels.parameterList).map fun list ↦
      if Php.isFoldedParameter labels list then [list]
      else selfOrChildrenOfType list labels.parameter).getD []

section Nodes

variable {root list : ν}

theorem bind_childOfType?_eq_some_iff {outer inner : String} :
    (childOfType? root outer).bind (childOfType? · inner) = some list ↔
      ∃ holder, IsFirstOfType root outer holder ∧ IsFirstOfType holder inner list := by
  simp only [Option.bind_eq_some_iff, childOfType?_eq_some_iff]

theorem childrenOfType_eq_filter (node : ν) (atom : String) :
    childrenOfType node atom =
      (children node).filter fun child ↦ [atom].contains (label child).first := by
  apply List.filter_congr
  intro child _
  rw [firstIs, List.contains_cons, List.contains_nil, Bool.or_false]

/-- It is enough to find the list, and to tell a folded one from its label. -/
theorem HasParameterNodes.of_list? {grammar : Grammar} {list? : Option ν} {nodes : ν → List ν}
    (hlist : ∀ list, list? = some list ↔ grammar.IsParameterList root list)
    (hnodes : ∀ list, nodes list =
      if (label list).last ∈ grammar.soleNames then [list]
      else (children list).filter fun child ↦ grammar.partNames.contains (label child).first) :
    grammar.HasParameterNodes root ((list?.map nodes).getD []) := by
  cases hfound : list? with
  | none =>
    refine .missing fun list hlists ↦ ?_
    rw [(hlist list).mpr hlists] at hfound
    exact nomatch hfound
  | some list =>
    have hlists := (hlist list).mp hfound
    rw [Option.map_some, Option.getD_some, hnodes]
    split
    · next hfolded => exact .sole hlists hfolded
    · next hunfolded => exact .several hlists hunfolded

theorem java_parameterNodes {labels : Java.Labels} :
    (java labels).HasParameterNodes root ((java labels).parameterNodes root) := by
  refine .of_list? (fun list ↦ bind_childOfType?_eq_some_iff) fun list ↦ ?_
  simp [Java.parameterNodes, lastIn, firstIn, soleNames, partNames]

theorem python_parameterNodes {labels : Python.Labels} :
    (python labels).HasParameterNodes root ((python labels).parameterNodes root) := by
  refine .of_list? (fun list ↦ bind_childOfType?_eq_some_iff) fun list ↦ ?_
  rw [Python.parameterNodes, childrenOfType_eq_filter]
  simp [lastIn, soleNames, partNames]

theorem php_parameterNodes {labels : Php.Labels} :
    (php labels).HasParameterNodes root ((php labels).parameterNodes root) := by
  refine .of_list? (fun list ↦ childOfType?_eq_some_iff) fun list ↦ ?_
  rw [selfOrChildrenOfType, childrenOfType_eq_filter]
  -- a list of one parameter is told by the tests for its name and its declaration, or by its own
  by_cases hparameter : (label list).last = labels.parameter
  · simp [lastIs, soleNames, hparameter]
  · simp [Php.isFoldedParameter, lastIs, soleNames, partNames, hparameter]

/-- The extractors read parameters off the nodes that stand for one each. -/
theorem hasParameterNodes (grammar : Grammar) (root : ν) :
    grammar.HasParameterNodes root (grammar.parameterNodes root) := by
  cases grammar with
  | java labels => exact java_parameterNodes
  | python labels => exact python_parameterNodes
  | php labels => exact php_parameterNodes

end Nodes

/-! ## The parameter of a node -/

/-- The parameter that a node stands for. Its name must not be empty; in PHP, a name that is not the
node itself comes with the signs of a reference and of a variadic parameter. -/
inductive StandsFor : Grammar → ν → Parameter → Prop where
  | java {labels : Java.Labels} {node nameNode : ν} {type : Option String}
      (named : IsFirstOfType node labels.parameterName nameNode) (name_ne : text nameNode ≠ "")
      (typed : FirstGives node labels.parameterType (fun child ↦ some (text child)) type) :
      StandsFor (java labels) node ⟨text nameNode, type⟩
  | python {labels : Python.Labels} {node nameNode : ν} {name : String} {type : Option String}
      (named : IsSelfOrFirst node labels.parameterName nameNode)
      (token_eq : token nameNode = some name) (name_ne : name ≠ "")
      (typed : FirstGives node labels.parameterType (fun child ↦ some (text child)) type) :
      StandsFor (python labels) node ⟨name, type⟩
  | phpName {labels : Php.Labels} {node : ν} {name : String} {type : Option String}
      (ends : (label node).last = labels.parameterName) (token_eq : token node = some name)
      (name_ne : name ≠ "") (typed : FirstGives node labels.typeHint token type) :
      StandsFor (php labels) node ⟨name, type⟩
  | phpDeclaration {labels : Php.Labels} {node declaration nameNode : ν}
      {reference variadic name : String} {type : Option String}
      (ends : (label node).last ≠ labels.parameterName)
      (declared : IsSelfOrFirst node labels.varDeclaration declaration)
      (named : IsSelfOrFirst declaration labels.parameterName nameNode)
      (token_eq : token nameNode = some name) (name_ne : name ≠ "")
      (referenced : IsMark node labels.reference "&" reference)
      (repeated : IsMark node labels.ellipsis "..." variadic)
      (typed : FirstGives node labels.typeHint token type) :
      StandsFor (php labels) node ⟨reference ++ variadic ++ name, type⟩

/-- The parameter that is read off a node. -/
def readParameter : Grammar → ν → Except Failure Parameter
  | java labels => Java.parameter labels
  | python labels => Python.parameter labels
  | php labels => Php.parameter labels

section Read

variable {node : ν} {parameter : Parameter}

theorem map_text_childOfType? (node : ν) (atom : String) :
    (childOfType? node atom).map text =
      (childOfType? node atom).bind fun child ↦ some (text child) := by
  cases childOfType? node atom <;> rfl

theorem java_readParameter_iff {labels : Java.Labels} :
    (java labels).readParameter node = .ok parameter ↔ (java labels).StandsFor node parameter := by
  rw [readParameter, Java.parameter, map_text_childOfType?]
  constructor
  · intro h
    split at h
    · simp at h
    · next nameNode hname =>
      dsimp only at h
      split at h
      · simp at h
      · next hne =>
        obtain rfl := Except.ok.inj h
        exact .java (childOfType?_eq_some_iff.mp hname) hne (firstGives_iff.mpr rfl)
  · intro h
    cases h with
    | java named name_ne typed =>
      rw [childOfType?_eq_some_iff.mpr named, firstGives_iff.mp typed]
      simp [name_ne]

theorem nameNode?_eq_some_iff {labels : Python.Labels} {nameNode : ν} :
    Python.nameNode? labels node = some nameNode ↔
      IsSelfOrFirst node labels.parameterName nameNode := by
  rw [isSelfOrFirst_iff, Python.nameNode?]

theorem python_readParameter_iff {labels : Python.Labels} :
    (python labels).readParameter node = .ok parameter ↔
      (python labels).StandsFor node parameter := by
  rw [readParameter, Python.parameter, map_text_childOfType?]
  constructor
  · intro h
    split at h
    · simp at h
    · next name hname =>
      obtain ⟨nameNode, hnode, htoken⟩ := Option.bind_eq_some_iff.mp hname
      split at h
      · simp at h
      · next hne =>
        obtain rfl := Except.ok.inj h
        exact .python (nameNode?_eq_some_iff.mp hnode) htoken hne (firstGives_iff.mpr rfl)
  · intro h
    cases h with
    | python named token_eq name_ne typed =>
      rw [nameNode?_eq_some_iff.mpr named, firstGives_iff.mp typed, Option.bind_some, token_eq]
      simp [name_ne]

theorem nonEmptyToken_eq_ok_iff {name : String} :
    Php.nonEmptyToken node = .ok name ↔ token node = some name ∧ name ≠ "" := by
  unfold Php.nonEmptyToken
  cases htoken : token node with
  | none => simp
  | some other =>
    by_cases hempty : other = ""
    · simp [hempty, eq_comm]
    · simp only [if_neg hempty, Except.ok.injEq, Option.some.injEq]
      constructor
      · rintro rfl
        exact ⟨rfl, hempty⟩
      · intro h
        exact h.1

/-- A name is the token of the node itself, or the signs and the token of a declared name. -/
theorem parameterName_eq_ok_iff {labels : Php.Labels} {name : String} :
    Php.parameterName labels node = .ok name ↔
      ((label node).last = labels.parameterName ∧ token node = some name ∧ name ≠ "") ∨
      ((label node).last ≠ labels.parameterName ∧ ∃ declaration nameNode bare,
        IsSelfOrFirst node labels.varDeclaration declaration ∧
        IsSelfOrFirst declaration labels.parameterName nameNode ∧
        (token nameNode = some bare ∧ bare ≠ "") ∧
        name = (if (childOfType? node labels.reference).isSome then "&" else "") ++
          (if (childOfType? node labels.ellipsis).isSome then "..." else "") ++ bare) := by
  unfold Php.parameterName
  by_cases hends : (label node).last = labels.parameterName
  · have hlast : lastIs node labels.parameterName := by simpa [lastIs] using hends
    rw [if_pos hlast, nonEmptyToken_eq_ok_iff]
    simp [hends]
  · have hlast : ¬lastIs node labels.parameterName := by simpa [lastIs] using hends
    rw [if_neg hlast]
    simp only [hends, false_and, false_or, not_false_eq_true, true_and, ne_eq,
      isSelfOrFirst_iff_head?]
    cases selfOrChildrenOfType node labels.varDeclaration with
    | nil => simp
    | cons declaration rest =>
      constructor
      · intro h
        cases hnames : selfOrChildrenOfType declaration labels.parameterName with
        | nil => simp [hnames] at h
        | cons nameNode others =>
          simp only [hnames] at h
          split at h
          · simp at h
          · next bare hbare =>
            exact ⟨declaration, nameNode, bare, rfl, by rw [hnames, List.head?_cons],
              nonEmptyToken_eq_ok_iff.mp hbare, (Except.ok.inj h).symm⟩
      · rintro ⟨other, nameNode, bare, hdeclared, hnamed, hbare, rfl⟩
        obtain rfl : declaration = other := by simpa using hdeclared
        cases hnames : selfOrChildrenOfType declaration labels.parameterName with
        | nil => simp [hnames] at hnamed
        | cons first others =>
          obtain rfl : first = nameNode := by simpa [hnames] using hnamed
          simp only [hnames, nonEmptyToken_eq_ok_iff.mpr hbare]

theorem php_readParameter_iff {labels : Php.Labels} :
    (php labels).readParameter node = .ok parameter ↔
      (php labels).StandsFor node parameter := by
  rw [readParameter, Php.parameter, Php.typeHint]
  constructor
  · intro h
    split at h
    · simp at h
    · next name hname =>
      obtain rfl := Except.ok.inj h
      obtain ⟨hends, htoken, hne⟩ | ⟨hends, declaration, nameNode, bare, hdeclared, hnamed,
        ⟨htoken, hne⟩, rfl⟩ := parameterName_eq_ok_iff.mp hname
      · exact .phpName hends htoken hne (firstGives_iff.mpr rfl)
      · exact .phpDeclaration hends hdeclared hnamed htoken hne (isMark_iff.mpr rfl)
          (isMark_iff.mpr rfl) (firstGives_iff.mpr rfl)
  · intro h
    cases h with
    | phpName ends token_eq name_ne typed =>
      have hname := parameterName_eq_ok_iff.mpr (.inl ⟨ends, token_eq, name_ne⟩)
      rw [hname, firstGives_iff.mp typed]
    | phpDeclaration ends declared named token_eq name_ne referenced repeated typed =>
      have hname := parameterName_eq_ok_iff.mpr
        (.inr ⟨ends, _, _, _, declared, named, ⟨token_eq, name_ne⟩, rfl⟩)
      rw [hname, firstGives_iff.mp typed, isMark_iff.mp referenced, isMark_iff.mp repeated]

/-- What is read off a node is the parameter that it stands for. -/
theorem readParameter_eq_ok_iff (grammar : Grammar) :
    grammar.readParameter node = .ok parameter ↔ grammar.StandsFor node parameter := by
  cases grammar with
  | java labels => exact java_readParameter_iff
  | python labels => exact python_readParameter_iff
  | php labels => exact php_readParameter_iff

end Read

end Grammar

end SyntaxMining
