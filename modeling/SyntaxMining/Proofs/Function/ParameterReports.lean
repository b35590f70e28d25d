import SyntaxMining.Proofs.Function.Violations

/-!
# Parameters are not lost silently

The parameters of a function are read off the nodes of its parameter list, one off each. Where one
of them cannot be read, Java and Python give up the whole list and say so in one warning. PHP leaves
the parameter out and says so in a warning of its own; it gives up the list only when the list is
itself the parameter. So a list that is there holds what was read off the nodes, in order, and each
node that is not in it has its warning.
-/

namespace SyntaxMining

open Query

variable {ν : Type}

/-! ## Warnings by their opening words -/

/-- A warning whose message opens with a text. -/
def Report.warns (opening : String) (report : Report) : Bool :=
  report.severity == .warning && opening.toList.isPrefixOf report.message.toList

/-- How the warning starts that parameters are given up. -/
def lossOpening : String :=
  "Failed to collect parameters"

/-- How the warning starts that one parameter is left out. -/
def skipOpening : String :=
  "Error during collecting parameters"

theorem Task.warns_failedReport (source : Source) (file reason : String) :
    (Task.failedReport ⟨source, file, "parameters"⟩ reason).warns lossOpening := by
  have hopening : lossOpening.toList = "Failed to collect ".toList ++ "parameters".toList := by
    decide
  simp [Report.warns, failedReport, hopening]

theorem Php.warns_skip_parameterReport (file : String) (function : Option String)
    (failure : Failure) : (parameterReport file function failure).warns skipOpening := by
  have hopening : "Error during collecting parameters for ".toList =
      skipOpening.toList ++ " for ".toList := by
    decide
  simp [Report.warns, parameterReport, hopening]

theorem Php.not_warns_loss_parameterReport (file : String) (function : Option String)
    (failure : Failure) : (parameterReport file function failure).warns lossOpening = false := by
  simp [Report.warns, parameterReport, lossOpening, List.isPrefixOf]

/-! ## Extraction -/

theorem warns_loss_unwrap (source : Source) (file : String) :
    ∀ finding : Finding (List Parameter),
      (Task.unwrap ⟨source, file, "parameters"⟩ finding).reports.filter
          (Report.warns lossOpening) =
        (Task.unwrap ⟨source, file, "parameters"⟩ finding).reports
  | .found _ => rfl
  | .absent => rfl
  | .failed reason => by simp [Task.unwrap, Task.warns_failedReport]

/-- One loss is reported when a list is given up, and none otherwise. -/
theorem warns_loss_of_isAllOrNothing {read : ν → Except Failure Parameter} {nodes : List ν}
    {finding : Finding (List Parameter)} (h : finding.IsAllOrNothing read nodes) (source : Source)
    (file : String) {late reports : List Report}
    (hlate : ∀ report ∈ late, report.severity = .error)
    (hreports : reports = (Task.unwrap ⟨source, file, "parameters"⟩ finding).reports ++ late) :
    (finding.value? = none ∧ (reports.filter (Report.warns lossOpening)).length = 1 ∧
        ∃ node ∈ nodes, ∃ failure, read node = .error failure) ∨
      ∃ found, finding.value? = some found ∧ reports.filter (Report.warns lossOpening) = [] ∧
        List.Forall₂ (fun node parameter ↦ read node = .ok parameter) nodes found ∧
        ∀ report ∈ reports, report.severity ≠ .warning := by
  have hquiet : late.filter (Report.warns lossOpening) = [] := by
    apply List.filter_eq_nil_iff.mpr
    intro report hreport
    simp [Report.warns, hlate report hreport]
  have hwarns : reports.filter (Report.warns lossOpening) =
      (Task.unwrap ⟨source, file, "parameters"⟩ finding).reports := by
    rw [hreports, List.filter_append, hquiet, List.append_nil, warns_loss_unwrap]
  rw [hwarns]
  cases finding with
  | found values =>
    refine Or.inr ⟨values, rfl, rfl, h, ?_⟩
    intro report hreport
    have hmem : report ∈ late := by simpa [hreports, Task.unwrap] using hreport
    simp [hlate report hmem]
  | absent => exact h.elim
  | failed reason => exact Or.inl ⟨rfl, rfl, h⟩

variable [Navigable ν]

namespace Php

variable (labels : Labels) (file : String) (function : Option String) (nodes : List ν)

theorem filter_loss_skipped :
    (nodes.filterMap (skipReport? labels file function)).filter (Report.warns lossOpening) =
      [] := by
  apply List.filter_eq_nil_iff.mpr
  intro report hreport
  obtain ⟨failure, rfl⟩ := exists_of_mem_skipped labels file function hreport
  simp [not_warns_loss_parameterReport]

theorem filter_skip_skipped :
    (nodes.filterMap (skipReport? labels file function)).filter (Report.warns skipOpening) =
      nodes.filterMap (skipReport? labels file function) := by
  apply List.filter_eq_self.mpr
  intro report hreport
  obtain ⟨failure, rfl⟩ := exists_of_mem_skipped labels file function hreport
  exact warns_skip_parameterReport file function failure

end Php

/-- Every node that stands for one parameter is accounted for by a list of parameters and the
reports that come with it. -/
def Grammar.Accounts (grammar : Grammar) (nodes : List ν) (found : List Parameter)
    (reports : List Report) : Prop :=
  match grammar with
  | php _ =>
    found = nodes.filterMap (fun node ↦ (grammar.readParameter node).toOption) ∧
      found.length + (reports.filter (Report.warns skipOpening)).length = nodes.length
  | _ =>
    List.Forall₂ (fun node parameter ↦ grammar.readParameter node = .ok parameter) nodes found ∧
      ∀ report ∈ reports, report.severity ≠ .warning

/-- Whatever the labels and the node, extraction gives no parameters and warns of it once, because
some parameter node cannot be read; or it gives a list without such a warning, by which every
parameter node is accounted for. What is read off a node is the parameter that it stands for. -/
theorem Grammar.extract_accounts_for_parameters (grammar : Grammar) (file : String) (root : ν) :
    (∀ (node : ν) parameter,
      grammar.readParameter node = .ok parameter ↔ grammar.StandsFor node parameter) ∧
    ∃ nodes info reports, grammar.HasParameterNodes root nodes ∧
      grammar.extractor.extract file root = ⟨.ok info, reports⟩ ∧
      ((info.parameters = none ∧ (reports.filter (Report.warns lossOpening)).length = 1 ∧
          ∃ node ∈ nodes, ∃ failure, grammar.readParameter node = .error failure) ∨
        ∃ found, info.parameters = some found ∧
          reports.filter (Report.warns lossOpening) = [] ∧
          grammar.Accounts nodes found reports) := by
  refine ⟨fun _ _ ↦ grammar.readParameter_eq_ok_iff, grammar.parameterNodes root, ?_⟩
  cases grammar with
  | java labels =>
    obtain ⟨finding, info, hfinding, hextract, hparameters, -⟩ :=
      Java.exists_extract_eq labels file root
    obtain ⟨other, hother, hall⟩ := Java.exists_isAllOrNothing labels root
    obtain rfl : finding = other := Except.ok.inj (hfinding.symm.trans hother)
    refine ⟨info, _, hasParameterNodes _ root, hextract, ?_⟩
    rw [hparameters]
    exact warns_loss_of_isAllOrNothing hall .java file (List.forall_mem_nil _)
      (List.append_nil _).symm
  | python labels =>
    obtain ⟨finding, info, late, hfinding, hextract, hparameters, -, hlate⟩ :=
      Python.exists_extract_eq labels file root
    obtain ⟨other, hother, hall⟩ := Python.exists_isAllOrNothing labels root
    obtain rfl : finding = other := Except.ok.inj (hfinding.symm.trans hother)
    refine ⟨info, _, hasParameterNodes _ root, hextract, ?_⟩
    rw [hparameters]
    refine warns_loss_of_isAllOrNothing hall .python file ?_ rfl
    rcases hlate with ⟨-, rfl⟩ | ⟨-, rfl⟩
    · simp [Python.rootBodyReport, Task.violationReport]
    · simp
  | php labels =>
    obtain ⟨finding, info, hfinding, hextract, hparameters⟩ :=
      Php.exists_extract_eq labels file root
    refine ⟨info, _, hasParameterNodes _ root, hextract, ?_⟩
    rw [hparameters]
    -- bad parameters are skipped one by one, except a bad one that is the whole list
    rcases Php.parameters_cases labels file ((childOfType? root labels.functionName).bind token)
      root with hfound | ⟨⟨reason, hfailed⟩, hnode⟩
    · rw [hfound] at hfinding ⊢
      obtain rfl := Except.ok.inj hfinding
      refine Or.inr ⟨_, rfl, ?_, rfl, ?_⟩
      · simp [Task.unwrap, Php.filter_loss_skipped]
      · simp only [Task.unwrap, List.append_nil, Php.filter_skip_skipped]
        exact Php.length_read_add_length_skipped labels file _ _
    · rw [hfailed] at hfinding ⊢
      obtain rfl := Except.ok.inj hfinding
      refine Or.inl ⟨rfl, ?_, hnode⟩
      simp [Task.unwrap, Task.warns_failedReport]

end SyntaxMining
