import SyntaxMining.Proofs.Function.ParameterSearch
import SyntaxMining.Proofs.Function.PhpNesting

/-!
# Broken case distinctions

An extractor reports an error only when a case distinction it takes for exhaustive is not. What may
enclose a function of Java or PHP always has a kind and a name, so there is nothing to report. For
Python one case is left: the nearest function around a node stands directly in a body, and this body
is the root of the tree, so that nothing owns it. Then there is one error and no enclosing element.
-/

namespace SyntaxMining

open Query

variable {α ν : Type}

/-! ## The run of an extractor -/

/-- What a search has found. -/
def Finding.value? : Finding α → Option α
  | found value => some value
  | _ => none

/-- The last steps of every extractor never fail. The reports of the search come first, then those
about missing parameters, then those about the enclosing element. -/
theorem Mining.describe_eq {search : Mining (Finding (List Parameter))}
    {finding : Finding (List Parameter)} (hsearch : search.outcome = .ok finding)
    (task contained : Task) (enclosing : Except Failure (Option (Enclosing ν)))
    {build : Option (List Parameter) → Option (Enclosing ν) → FunctionInfo ν} :
    (search >>= fun found ↦ task.unwrap found >>= fun parameters ↦
        contained.contain (.ofExcept enclosing) >>= fun element ↦
          pure (build parameters element)) =
      ⟨.ok (build finding.value? enclosing.toOption.join),
        search.reports ++ ((task.unwrap finding).reports ++
          (contained.contain (.ofExcept enclosing)).reports)⟩ := by
  have hunwrap : task.unwrap finding = ⟨.ok finding.value?, (task.unwrap finding).reports⟩ := by
    cases finding <;> rfl
  have hcontain : contained.contain (.ofExcept enclosing) =
      ⟨.ok enclosing.toOption.join, (contained.contain (.ofExcept enclosing)).reports⟩ := by
    cases enclosing <;> rfl
  obtain ⟨outcome, early⟩ := search
  cases hsearch
  rw [bind_ok, hunwrap, bind_ok, hcontain, bind_ok]
  simp [pure, succeed]

/-- A search that failed is reported by a warning. -/
theorem Task.severity_unwrap (task : Task) (finding : Finding α) :
    ∀ report ∈ (task.unwrap finding).reports, report.severity = .warning := by
  cases finding with
  | found value => simp [unwrap]
  | absent => simp [unwrap]
  | failed reason => simp [unwrap, failedReport]

/-- The reports of broken case distinctions. -/
def violations (reports : List Report) : List Report :=
  reports.filter (·.severity == .error)

theorem violations_append (early late : List Report) :
    violations (early ++ late) = violations early ++ violations late :=
  List.filter_append early late

theorem violations_of_warnings {reports : List Report}
    (h : ∀ report ∈ reports, report.severity = .warning) : violations reports = [] := by
  apply List.filter_eq_nil_iff.mpr
  intro report hreport
  simp [h report hreport]

variable [Navigable ν]

/-- Nearest ancestor that is recognised by one of two last atoms, and by which of them. -/
theorem lastIs_of_enclosing? {node above : ν} {first second : String}
    (h : Query.enclosing? node (lastIn · [first, second]) = some above) :
    lastIs above first ∨ lastIs above second := by
  have haccepted : [first, second].contains (label above).last :=
    List.find?_some (p := (lastIn · [first, second])) h
  simpa [lastIs] using haccepted

/-! ## Java and PHP -/

/-- The labels by which an enclosing element of Java is recognised are those that give it its
kind. -/
theorem Java.exists_enclosing?_eq (labels : Labels) (node : ν) :
    ∃ element, enclosing? labels node = .ok element := by
  unfold enclosing?
  cases hfound : Query.enclosing? node (lastIn · labels.enclosingElements) with
  | none => exact ⟨none, rfl⟩
  | some above =>
    rcases lastIs_of_enclosing? hfound with hclass | henum
    · simp only [if_pos hclass]
      exact ⟨_, rfl⟩
    · simp only [if_pos henum]
      split
      · exact ⟨_, rfl⟩
      · exact ⟨_, rfl⟩

/-- The whole run of the Java extractor: all it can report is that parameters are missing. -/
theorem Java.exists_extract_eq (labels : Labels) (file : String) (node : ν) :
    ∃ finding info, parameters labels node = .ok finding ∧
      extract labels file node =
        ⟨.ok info, (Task.unwrap ⟨.java, file, "parameters"⟩ finding).reports⟩ ∧
      info.parameters = finding.value? ∧ info.modifiers = modifiers labels node ∧
      info.annotations = annotations labels node := by
  obtain ⟨finding, hfinding, -⟩ := exists_parameters labels node
  obtain ⟨element, helement⟩ := exists_enclosing?_eq labels node
  have hsearch : (Mining.ofExcept (parameters labels node)).outcome = .ok finding := by
    rw [Mining.outcome_ofExcept, hfinding]
  have hrun : extract labels file node = _ :=
    Mining.describe_eq hsearch ⟨.java, file, "parameters"⟩ ⟨.java, file, "enclosing class"⟩
      (enclosing? labels node)
  rw [hfinding, helement] at hrun
  exact ⟨finding, _, hfinding, hrun.trans (congrArg (Mining.mk _) (List.append_nil _)), rfl, rfl,
    rfl⟩

namespace Php

variable (labels : Labels)

theorem mayEnclose_eq_false_iff {node : ν} : mayEnclose labels node = false ↔
    isFunction labels node = false ∧ isClass labels node = false ∧
      isAssignment labels node = false := by
  rw [mayEnclose, Bool.or_eq_false_iff, Bool.or_eq_false_iff, and_assoc]

/-- What may not enclose a function has no kind, and only that. -/
theorem exists_enclosingKind_error_iff (node : ν) :
    (∃ failure, enclosingKind labels node = .error failure) ↔ mayEnclose labels node = false := by
  constructor
  · rintro ⟨failure, hfailure⟩
    by_contra hencloses
    rw [enclosingKind_of_mayEnclose labels (Bool.not_eq_false _ ▸ hencloses)] at hfailure
    cases hfailure
  · intro hnone
    obtain ⟨hfunction, hclass, hassignment⟩ := (mayEnclose_eq_false_iff labels).mp hnone
    refine ⟨noKind (label node), ?_⟩
    simp [enclosingKind, isMethod, hfunction, hclass, hassignment]

theorem exists_enclosingName_error_iff (node : ν) :
    (∃ failure, enclosingName labels node = .error failure) ↔ mayEnclose labels node = false := by
  constructor
  · rintro ⟨failure, hfailure⟩
    by_contra hencloses
    obtain ⟨name, hname⟩ := exists_enclosingName labels (Bool.not_eq_false _ ▸ hencloses)
    rw [hname] at hfailure
    cases hfailure
  · intro hnone
    obtain ⟨hfunction, hclass, hassignment⟩ := (mayEnclose_eq_false_iff labels).mp hnone
    refine ⟨noName (label node), ?_⟩
    simp [enclosingName, hfunction, hclass, hassignment]

/-- The whole run of the PHP extractor: what the search for parameters reports comes first. -/
theorem exists_extract_eq (file : String) (node : ν) :
    let search := parameters labels file ((childOfType? node labels.functionName).bind token) node
    ∃ finding info, search.outcome = .ok finding ∧
      extract labels file node = ⟨.ok info,
        search.reports ++ (Task.unwrap ⟨.php, file, "parameters"⟩ finding).reports⟩ ∧
      info.parameters = finding.value? := by
  intro search
  obtain ⟨finding, hsearch, -⟩ := (yields_parameters labels file
    ((childOfType? node labels.functionName).bind token) node).outcome
  obtain ⟨element, helement, -⟩ := exists_enclosing?_eq labels node
  have hrun : extract labels file node = _ :=
    Mining.describe_eq hsearch ⟨.php, file, "parameters"⟩
      ⟨.php, file, "enclosing element for " ++ nameShown _⟩ (enclosing? labels node)
  rw [helement] at hrun
  refine ⟨finding, _, hsearch, hrun.trans (congrArg (Mining.mk _) ?_), rfl⟩
  exact congrArg (search.reports ++ ·) (List.append_nil _)

end Php

/-! ## Python -/

namespace Python

variable (labels : Labels)

/-- A function that stands directly in a body, where the body is the root. -/
def StandsInRootBody (function : ν) : Prop :=
  ∃ outer, parent? function = some outer ∧ (label outer).text = labels.body ∧ parent? outer = none

/-- The nearest class or function around a node is no class but a function in a body that nothing
owns. -/
def IsInRootBody (node : ν) : Prop :=
  ∃ function, Query.enclosing? node (lastIn · labels.enclosingElements) = some function ∧
    ¬ lastIs function labels.classDeclaration ∧ StandsInRootBody labels function

theorem isMethod_of_standsInRootBody {function : ν} (h : StandsInRootBody labels function) :
    isMethod labels function = .error bodyOfNothing := by
  obtain ⟨outer, houter, hbody, hroot⟩ := h
  simp [isMethod, houter, hbody, hroot]

theorem exists_isMethod_eq {function : ν} (h : ¬ StandsInRootBody labels function) :
    ∃ method, isMethod labels function = .ok method := by
  unfold isMethod
  split
  · exact ⟨false, rfl⟩
  · rename_i outer houter
    split
    · rename_i hbody
      split
      · rename_i hroot
        exact absurd ⟨outer, houter, hbody, hroot⟩ h
      · exact ⟨_, rfl⟩
    · exact ⟨false, rfl⟩

theorem enclosing?_of_isInRootBody {node : ν} (h : IsInRootBody labels node) :
    enclosing? labels node = .error bodyOfNothing := by
  obtain ⟨function, hfound, hclass, hbody⟩ := h
  have hfunction : lastIs function labels.function :=
    (lastIs_of_enclosing? hfound).resolve_left hclass
  simp only [enclosing?, hfound, if_neg hclass, if_pos hfunction,
    isMethod_of_standsInRootBody labels hbody]

theorem exists_enclosing?_eq {node : ν} (h : ¬ IsInRootBody labels node) :
    ∃ element, enclosing? labels node = .ok element := by
  unfold enclosing?
  cases hfound : Query.enclosing? node (lastIn · labels.enclosingElements) with
  | none => exact ⟨none, rfl⟩
  | some above =>
    by_cases hclass : lastIs above labels.classDeclaration
    · simp only [if_pos hclass]
      exact ⟨_, rfl⟩
    · have hfunction : lastIs above labels.function :=
        (lastIs_of_enclosing? hfound).resolve_left hclass
      obtain ⟨method, hmethod⟩ :=
        exists_isMethod_eq labels fun hbody ↦ h ⟨above, hfound, hclass, hbody⟩
      simp only [if_neg hclass, if_pos hfunction, hmethod]
      exact ⟨_, rfl⟩

/-- The report of a function in a body that nothing owns. -/
def rootBodyReport (file : String) : Report :=
  Task.violationReport ⟨.python, file, "enclosing element"⟩ bodyOfNothing.message

/-- The whole run of the Python extractor: a report that parameters are missing, then one that the
nearest function stands in a body that nothing owns. -/
theorem exists_extract_eq (file : String) (node : ν) :
    ∃ finding info late, parameters labels node = .ok finding ∧
      extract labels file node =
        ⟨.ok info, (Task.unwrap ⟨.python, file, "parameters"⟩ finding).reports ++ late⟩ ∧
      info.parameters = finding.value? ∧
      info.enclosing = (enclosing? labels node).toOption.join ∧
      (IsInRootBody labels node ∧ late = [rootBodyReport file] ∨
        ¬ IsInRootBody labels node ∧ late = []) := by
  obtain ⟨finding, hfinding, -⟩ := exists_parameters labels node
  have hsearch : (Mining.ofExcept (parameters labels node)).outcome = .ok finding := by
    rw [Mining.outcome_ofExcept, hfinding]
  have hrun : extract labels file node = _ :=
    Mining.describe_eq hsearch ⟨.python, file, "parameters"⟩
      ⟨.python, file, "enclosing element"⟩ (enclosing? labels node)
  rw [hfinding] at hrun
  by_cases hbody : IsInRootBody labels node
  · rw [enclosing?_of_isInRootBody labels hbody] at hrun ⊢
    exact ⟨finding, _, [rootBodyReport file], hfinding, hrun, rfl, rfl, Or.inl ⟨hbody, rfl⟩⟩
  · obtain ⟨element, helement⟩ := exists_enclosing?_eq labels hbody
    rw [helement] at hrun ⊢
    exact ⟨finding, _, [], hfinding, hrun, rfl, rfl, Or.inr ⟨hbody, rfl⟩⟩

theorem violations_extract (file : String) (node : ν) :
    (IsInRootBody labels node ∧
        violations (extract labels file node).reports = [rootBodyReport file] ∧
        ∃ info, (extract labels file node).outcome = .ok info ∧ info.enclosing = none) ∨
      ¬ IsInRootBody labels node ∧ violations (extract labels file node).reports = [] := by
  obtain ⟨finding, info, late, -, hextract, -, henclosing, hlate⟩ :=
    exists_extract_eq labels file node
  -- what is said about parameters is only ever a warning
  have hearly := violations_of_warnings
    (Task.severity_unwrap ⟨.python, file, "parameters"⟩ finding)
  rw [hextract, violations_append, hearly, List.nil_append]
  rcases hlate with ⟨hbody, rfl⟩ | ⟨hbody, rfl⟩
  · rw [enclosing?_of_isInRootBody labels hbody] at henclosing
    exact Or.inl ⟨hbody, rfl, info, rfl, henclosing⟩
  · exact Or.inr ⟨hbody, rfl⟩

end Python

/-- Whatever the labels, the extractors of Java and PHP never meet a case they do not expect, since
every node of PHP has a kind and a name exactly when it may enclose a function. The extractor of
Python meets one when the nearest function around a node stands in a body that is the root; it
reports it once and gives no enclosing element. -/
theorem extract_violates_only_in_root_body (file : String) (node : ν) :
    (∀ labels : Java.Labels, violations (Java.extract labels file node).reports = []) ∧
    (∀ labels : Php.Labels, violations (Php.extract labels file node).reports = [] ∧
      ((∃ failure, Php.enclosingKind labels node = .error failure) ↔
        ∃ failure, Php.enclosingName labels node = .error failure) ∧
      ((∃ failure, Php.enclosingKind labels node = .error failure) ↔
        Php.mayEnclose labels node = false)) ∧
    ∀ labels : Python.Labels,
      (violations (Python.extract labels file node).reports ≠ [] ↔
        Python.IsInRootBody labels node) ∧
      (Python.IsInRootBody labels node →
        violations (Python.extract labels file node).reports = [Python.rootBodyReport file] ∧
        ∃ info, (Python.extract labels file node).outcome = .ok info ∧ info.enclosing = none) := by
  refine ⟨?_, ?_, ?_⟩
  · intro labels
    obtain ⟨finding, info, -, hextract, -⟩ := Java.exists_extract_eq labels file node
    rw [hextract]
    exact violations_of_warnings (Task.severity_unwrap _ finding)
  · intro labels
    have hkind := Php.exists_enclosingKind_error_iff labels node
    obtain ⟨finding, info, -, hextract, -⟩ := Php.exists_extract_eq labels file node
    refine ⟨?_, hkind.trans (Php.exists_enclosingName_error_iff labels node).symm, hkind⟩
    rw [hextract, violations_append,
      violations_of_warnings (Php.severity_parameters labels file _ node),
      violations_of_warnings (Task.severity_unwrap _ finding)]
    rfl
  · intro labels
    rcases Python.violations_extract labels file node with
      ⟨hbody, hreports, hnone⟩ | ⟨hbody, hreports⟩
    · exact ⟨by simp [hreports, hbody], fun _ ↦ ⟨hreports, hnone⟩⟩
    · exact ⟨by simp [hreports, hbody], fun h ↦ absurd h hbody⟩

namespace Python

open Grammar Cursor

/-- `def f(): ...` inside of some body. -/
def innerFunction : SyntaxTree :=
  rule unmarked "funcdef" [word unmarked "NAME" "f", terminal unmarked "parameters"]

def innerBody : SyntaxTree :=
  rule unmarked "suite" [word unmarked "NEWLINE" "", innerFunction]

def outerFunction : SyntaxTree :=
  rule unmarked "funcdef" [word unmarked "NAME" "g", terminal unmarked "parameters", innerBody]

/-- A body on its own, with a function in which another one is defined. -/
def rootBody : SyntaxTree :=
  rule unmarked "suite" [word unmarked "NEWLINE" "", outerFunction]

end Python

open Python Cursor in
/-- The function `f` is defined in `g`, and `g` in a body that is the root. -/
theorem extract_violates_only_in_root_body_nested :
    let node : Cursor Entry := ⟨innerFunction, [innerBody, outerFunction, rootBody]⟩
    node ∈ places rootBody ∧ IsInRootBody {} node ∧
      violations (extract {} "a.py" node).reports =
        [⟨.error, .python, "Internal error while collecting enclosing element in a.py: " ++
          "Found body without enclosing element"⟩] := by
  intro node
  have houter : (⟨outerFunction, [rootBody]⟩ : Cursor Entry) ∈ places rootBody :=
    child_mem_places (self_mem_placesBelow [] rootBody) (.tail _ (.head _))
  have hinner : (⟨innerBody, [outerFunction, rootBody]⟩ : Cursor Entry) ∈ places rootBody :=
    child_mem_places houter (.tail _ (.tail _ (.head _)))
  have hplace : node ∈ places rootBody := child_mem_places hinner (.tail _ (.head _))
  have hbody : IsInRootBody {} node :=
    ⟨⟨outerFunction, [rootBody]⟩, rfl, by decide, ⟨rootBody, []⟩, rfl, rfl, rfl⟩
  have hall := (extract_violates_only_in_root_body "a.py" node).2.2 {}
  exact ⟨hplace, hbody, (hall.2 hbody).1⟩

end SyntaxMining
