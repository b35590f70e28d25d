import Mathlib.Data.List.Forall2
import SyntaxMining.Proofs.Function.Containment
import SyntaxMining.Proofs.Function.ParameterNodes

/-!
# The search for parameters

The parameters of a function are read off the nodes of its parameter list, one off each. Java and
Python read all of them or give up the list. PHP goes on after a node that cannot be read, with a
report about it, and gives up the list only where the list is itself the parameter.
-/

namespace SyntaxMining

open Query

variable {ν : Type}

/-! ## All or nothing -/

/-- Reading a list succeeds node by node, or fails as some node does. -/
theorem mapM_cases {ε β : Type} (read : ν → Except ε β) (nodes : List ν) :
    (∃ found, nodes.mapM read = .ok found ∧
        List.Forall₂ (fun node value ↦ read node = .ok value) nodes found) ∨
      ∃ failure, nodes.mapM read = .error failure ∧ ∃ node ∈ nodes, read node = .error failure := by
  induction nodes with
  | nil => exact Or.inl ⟨[], rfl, .nil⟩
  | cons node rest ih =>
    rw [List.mapM_cons]
    cases hread : read node with
    | error failure => exact Or.inr ⟨failure, rfl, node, by simp, hread⟩
    | ok value =>
      rcases ih with ⟨found, hfound, hall⟩ | ⟨failure, hfailure, other, hother, hfails⟩
      · rw [hfound]
        exact Or.inl ⟨value :: found, rfl, .cons hread hall⟩
      · rw [hfailure]
        exact Or.inr ⟨failure, rfl, other, List.mem_cons_of_mem node hother, hfails⟩

/-- A search that reads all nodes, or is given up because of one of them. -/
def Finding.IsAllOrNothing (read : ν → Except Failure Parameter) (nodes : List ν) :
    Finding (List Parameter) → Prop
  | found values => List.Forall₂ (fun node value ↦ read node = .ok value) nodes values
  | absent => False
  | failed _ => ∃ node ∈ nodes, ∃ failure, read node = .error failure

theorem Parameter.IsReader.exists_isAllOrNothing {read : ν → Except Failure Parameter}
    (h : IsReader read) (nodes : List ν) (reason : Failure → String) :
    ∃ finding, (match nodes.mapM read with
      | .ok found => .ok (.found found)
      | .error failure =>
        match failure.kind with
        | .missing => .ok (.failed (reason failure))
        | _ => .error failure : Except Failure (Finding (List Parameter))) = .ok finding ∧
      finding.IsAllOrNothing read nodes := by
  rcases mapM_cases read nodes with ⟨found, hfound, hall⟩ | ⟨failure, hfailure, node, hnode, hfails⟩
  · rw [hfound]
    exact ⟨.found found, rfl, hall⟩
  · have hkind : failure.kind = .missing := by
      rcases h node with ⟨parameter, hread, -⟩ | ⟨other, hread, hkind⟩
      · simp [hread] at hfails
      · obtain rfl : other = failure := by simpa [hread] using hfails
        exact hkind
    simp only [hfailure, hkind]
    exact ⟨.failed (reason failure), rfl, node, hnode, failure, hfails⟩

variable [Navigable ν]

theorem Java.exists_isAllOrNothing (labels : Labels) (root : ν) :
    ∃ finding, parameters labels root = .ok finding ∧
      finding.IsAllOrNothing (parameter labels) ((Grammar.java labels).parameterNodes root) := by
  unfold parameters
  rw [Grammar.parameterNodes]
  cases parameterList? labels root with
  | none => exact ⟨.found [], rfl, .nil⟩
  | some list => exact (isReader_parameter labels).exists_isAllOrNothing _ _

theorem Python.exists_isAllOrNothing (labels : Labels) (root : ν) :
    ∃ finding, parameters labels root = .ok finding ∧
      finding.IsAllOrNothing (parameter labels) ((Grammar.python labels).parameterNodes root) := by
  unfold parameters
  rw [Grammar.parameterNodes]
  cases parameterList? labels root with
  | none => exact ⟨.found [], rfl, .nil⟩
  | some list => exact (isReader_parameter labels).exists_isAllOrNothing _ _

/-! ## One by one -/

namespace Php

variable (labels : Labels)

/-- The report about a node that no parameter can be read off. -/
def skipReport? (file : String) (function : Option String) (node : ν) : Option Report :=
  match parameter labels node with
  | .ok _ => none
  | .error failure => some (parameterReport file function failure)

variable (file : String) (function : Option String)

theorem skipReport?_of_ok {node : ν} {parameter : Parameter}
    (h : Php.parameter labels node = .ok parameter) :
    skipReport? labels file function node = none := by
  simp only [skipReport?, h]

theorem skipReport?_of_error {node : ν} {failure : Failure}
    (h : parameter labels node = .error failure) :
    skipReport? labels file function node = some (parameterReport file function failure) := by
  simp only [skipReport?, h]

/-- Each node gives a parameter or a report. -/
theorem parametersOf_eq (nodes : List ν) :
    parametersOf labels file function nodes =
      ⟨.ok (nodes.filterMap fun node ↦ (parameter labels node).toOption),
        nodes.filterMap (skipReport? labels file function)⟩ := by
  induction nodes with
  | nil => rfl
  | cons node rest ih =>
    rw [parametersOf, ih]
    rcases isReader_parameter labels node with ⟨parameter, hread, -⟩ | ⟨failure, hread, hkind⟩
    · simp only [hread]
      rw [List.filterMap_cons_some (by rw [hread]; rfl),
        List.filterMap_cons_none (skipReport?_of_ok labels file function hread), Mining.bind_ok]
      simp [pure, Mining.succeed]
    · simp only [hread, hkind]
      rw [List.filterMap_cons_none (by rw [hread]; rfl),
        List.filterMap_cons_some (skipReport?_of_error labels file function hread),
        Mining.report, Mining.bind_ok]
      rfl

/-- The search goes through all nodes, or is given up where the list is the parameter. -/
theorem parameters_cases (root : ν) :
    let nodes := (Grammar.php labels).parameterNodes root
    parameters labels file function root =
        ⟨.ok (.found (nodes.filterMap fun node ↦ (parameter labels node).toOption)),
          nodes.filterMap (skipReport? labels file function)⟩ ∨
      (∃ reason, parameters labels file function root = ⟨.ok (.failed reason), []⟩) ∧
        ∃ node ∈ nodes, ∃ failure, parameter labels node = .error failure := by
  unfold parameters
  rw [Grammar.parameterNodes]
  cases childOfType? root labels.parameterList with
  | none => exact Or.inl rfl
  | some list =>
    simp only [Option.map_some, Option.getD_some]
    by_cases hfolded : isFoldedParameter labels list
    · rw [if_pos hfolded, if_pos hfolded]
      rcases isReader_parameter labels list with ⟨parameter, hread, -⟩ | ⟨failure, hread, hkind⟩
      · have hskip := skipReport?_of_ok labels file function hread
        exact Or.inl (by simp [hread, hskip, Except.toOption, pure, Mining.succeed])
      · refine Or.inr ⟨⟨failure.message, ?_⟩, list, by simp, failure, hread⟩
        simp only [hread, hkind]
        rfl
    · rw [if_neg hfolded, if_neg hfolded, parametersOf_eq, Mining.bind_ok]
      exact Or.inl (by simp [pure, Mining.succeed])

/-- Each node is read or reported. -/
theorem length_read_add_length_skipped (nodes : List ν) :
    (nodes.filterMap fun node ↦ (parameter labels node).toOption).length +
      (nodes.filterMap (skipReport? labels file function)).length = nodes.length := by
  induction nodes with
  | nil => rfl
  | cons node rest ih =>
    cases hread : parameter labels node with
    | ok parameter =>
      rw [List.filterMap_cons_some (by rw [hread]; rfl),
        List.filterMap_cons_none (skipReport?_of_ok labels file function hread),
        List.length_cons, List.length_cons]
      omega
    | error failure =>
      rw [List.filterMap_cons_none (by rw [hread]; rfl),
        List.filterMap_cons_some (skipReport?_of_error labels file function hread),
        List.length_cons, List.length_cons]
      omega

theorem exists_of_mem_skipped {nodes : List ν} {report : Report}
    (h : report ∈ nodes.filterMap (skipReport? labels file function)) :
    ∃ failure, report = parameterReport file function failure := by
  obtain ⟨node, -, hskip⟩ := List.mem_filterMap.mp h
  unfold skipReport? at hskip
  split at hskip
  · cases hskip
  · rename_i failure _
    exact ⟨failure, (Option.some.inj hskip).symm⟩

/-- A parameter that is left out is reported by a warning. -/
theorem severity_parameters (root : ν) :
    ∀ report ∈ (parameters labels file function root).reports, report.severity = .warning := by
  intro report hreport
  rcases parameters_cases labels file function root with hfound | ⟨⟨reason, hfailed⟩, -⟩
  · rw [hfound] at hreport
    obtain ⟨failure, rfl⟩ := exists_of_mem_skipped labels file function hreport
    rfl
  · simp [hfailed] at hreport

end Php

end SyntaxMining
