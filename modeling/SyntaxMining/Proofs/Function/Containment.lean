import SyntaxMining.Function.Registry
import SyntaxMining.Proofs.Function.Mining

/-!
# Failures stay inside an extractor

A failure can arise while a parameter is read or while the enclosing element is classified. A
parameter fails only when a part of it is missing, and every extractor turns that into an absent
list or leaves the parameter out; all that can go wrong about the enclosing element is contained.
Extraction therefore describes every node it is given, whatever the tree and the labels, and a
survey skips no function. The parameters it lists all have a name.
-/

namespace SyntaxMining

variable {α β ν : Type}

/-! ## Computations that succeed -/

/-- A computation that gives a value of some kind, all its reports coming from one part of the
program. -/
structure Mining.Yields (source : Source) (good : α → Prop) (run : Mining α) : Prop where
  outcome : ∃ value, run.outcome = .ok value ∧ good value
  reports : ∀ report ∈ run.reports, report.source = source

namespace Mining.Yields

variable {source : Source} {good : α → Prop} {fine : β → Prop}

theorem pure {value : α} (h : good value) : Yields source good (pure value) where
  outcome := ⟨value, rfl, h⟩
  reports _ hreport := by simp [Pure.pure, succeed] at hreport

theorem bind {first : Mining α} {next : α → Mining β} (hfirst : Yields source good first)
    (hnext : ∀ value, good value → Yields source fine (next value)) :
    Yields source fine (first >>= next) := by
  obtain ⟨value, hvalue, hgood⟩ := hfirst.outcome
  obtain ⟨outcome, reports⟩ := first
  cases hvalue
  have hrest := hnext value hgood
  rw [bind_ok]
  refine ⟨hrest.outcome, ?_⟩
  intro report hreport
  rcases List.mem_append.mp hreport with hearly | hlate
  · exact hfirst.reports report hearly
  · exact hrest.reports report hlate

theorem report {report : Report} (h : report.source = source) :
    Yields source (fun _ ↦ True) (Mining.report report) := by
  refine ⟨⟨(), rfl, trivial⟩, ?_⟩
  intro other hother
  rwa [List.mem_singleton.mp hother]

theorem ofExcept {result : Except Failure α} (h : ∃ value, result = .ok value ∧ good value) :
    Yields source good (ofExcept result) := by
  obtain ⟨value, rfl, hgood⟩ := h
  exact .pure hgood

end Mining.Yields

namespace Task

variable (task : Task)

theorem source_failureReport (failure : Failure) :
    (task.failureReport failure).source = task.source := by
  unfold failureReport
  split <;> rfl

/-- A contained computation may fail in any way. -/
theorem yields_contain (result : Except Failure (Option α)) :
    (task.contain (Mining.ofExcept result)).Yields task.source fun _ ↦ True := by
  cases result with
  | ok value => exact .pure trivial
  | error failure =>
    refine ⟨⟨none, rfl, trivial⟩, ?_⟩
    intro report hreport
    obtain rfl : report = task.failureReport failure := List.mem_singleton.mp hreport
    exact task.source_failureReport failure

theorem yields_unwrap {good : α → Prop} {finding : Finding α}
    (h : ∀ value, finding = .found value → good value) :
    (task.unwrap finding).Yields task.source fun result ↦
      ∀ value, result = some value → good value := by
  cases finding with
  | found value => exact .pure fun other hother ↦ Option.some.inj hother ▸ h value rfl
  | absent => exact .pure fun _ hother ↦ by cases hother
  | failed reason =>
    refine ⟨⟨none, rfl, fun _ hother ↦ by cases hother⟩, ?_⟩
    intro report hreport
    obtain rfl : report = task.failedReport reason := List.mem_singleton.mp hreport
    rfl

end Task

/-! ## Parameters -/

namespace Parameter

def Named (parameter : Parameter) : Prop :=
  parameter.name ≠ ""

/-- A name is all that the check of a parameter asks for. -/
theorem ofJson_toJson {parameter : Parameter} (h : parameter.Named) :
    ofJson parameter.toJson = .ok parameter := by
  obtain ⟨name, type⟩ := parameter
  have hname : Schema.nonEmptyString (.str name) = .ok name := if_neg h
  cases type with
  | none =>
    simp [toJson, ofJson, Schema.ofRecord, Schema.record, Schema.required, Schema.optional,
      Json.field?, Json.ofOption, hname, Schema.nullable, Schema.Check.below, Schema.Check.ap,
      Except.map]
  | some type =>
    simp [toJson, ofJson, Schema.ofRecord, Schema.record, Schema.required, Schema.optional,
      Json.field?, Json.ofOption, hname, Schema.nullable, Schema.Check.below, Schema.Check.ap,
      Except.map, Schema.string]

/-- A reader of parameters that gives each a name or fails because a part is missing. -/
def IsReader (read : ν → Except Failure Parameter) : Prop :=
  ∀ node, (∃ parameter, read node = .ok parameter ∧ parameter.Named) ∨
    ∃ failure, read node = .error failure ∧ failure.kind = .missing

/-- The whole list has names, or some parameter misses a part. -/
theorem IsReader.mapM {read : ν → Except Failure Parameter} (h : IsReader read) (nodes : List ν) :
    (∃ found, nodes.mapM read = .ok found ∧ ∀ parameter ∈ found, parameter.Named) ∨
      ∃ failure, nodes.mapM read = .error failure ∧ failure.kind = .missing := by
  induction nodes with
  | nil => exact Or.inl ⟨[], rfl, by simp⟩
  | cons node rest ih =>
    rw [List.mapM_cons]
    rcases h node with ⟨parameter, hread, hname⟩ | ⟨failure, hread, hkind⟩
    · rw [hread]
      rcases ih with ⟨found, hfound, hnamed⟩ | ⟨failure, hfailure, hkind⟩
      · rw [hfound]
        exact Or.inl ⟨parameter :: found, rfl, by simpa using ⟨hname, hnamed⟩⟩
      · rw [hfailure]
        exact Or.inr ⟨failure, rfl, hkind⟩
    · rw [hread]
      exact Or.inr ⟨failure, rfl, hkind⟩

/-- What a search for parameters finds has names. -/
def AllNamed (finding : Finding (List Parameter)) : Prop :=
  ∀ found, finding = .found found → ∀ parameter ∈ found, parameter.Named

theorem allNamed_found {found : List Parameter} (h : ∀ parameter ∈ found, parameter.Named) :
    AllNamed (.found found) := by
  rintro other ⟨⟩
  exact h

theorem allNamed_failed (reason : String) : AllNamed (.failed reason) := by
  rintro other ⟨⟩

/-- A search that reads all parameters succeeds, or says what is missing. -/
theorem IsReader.exists_finding {read : ν → Except Failure Parameter} (h : IsReader read)
    (nodes : List ν) (reason : Failure → String) :
    ∃ finding, (match nodes.mapM read with
      | .ok found => .ok (.found found)
      | .error failure =>
        match failure.kind with
        | .missing => .ok (.failed (reason failure))
        | _ => .error failure : Except Failure (Finding (List Parameter))) = .ok finding ∧
      AllNamed finding := by
  rcases h.mapM nodes with ⟨found, hfound, hnamed⟩ | ⟨failure, hfailure, hkind⟩
  · rw [hfound]
    exact ⟨_, rfl, allNamed_found hnamed⟩
  · simp only [hfailure, hkind]
    exact ⟨_, rfl, allNamed_failed _⟩

end Parameter

open Parameter

/-- A descriptor of the node itself, whose parameters have names when they are there. -/
structure FunctionInfo.Describes (root : ν) (info : FunctionInfo ν) : Prop where
  root_eq : info.root = root
  named : ∀ parameters, info.parameters = some parameters →
    ∀ parameter ∈ parameters, parameter.Named

/-- What every extractor does once it has searched for parameters: a failed search is reported, the
enclosing element is contained, and the rest cannot fail. -/
theorem Mining.Yields.describe {source : Source} {root : ν}
    {search : Mining (Finding (List Parameter))}
    (hsearch : search.Yields source AllNamed) (file what : String)
    (enclosing : Except Failure (Option (Enclosing ν)))
    (build : Option (List Parameter) → Option (Enclosing ν) → FunctionInfo ν)
    (hroot : ∀ parameters element, (build parameters element).root = root)
    (hparameters : ∀ parameters element, (build parameters element).parameters = parameters) :
    Mining.Yields source (FunctionInfo.Describes root)
      (search >>= fun found ↦
        Task.unwrap ⟨source, file, "parameters"⟩ found >>= fun parameters ↦
          Task.contain ⟨source, file, what⟩ (Mining.ofExcept enclosing) >>= fun element ↦
            Pure.pure (build parameters element)) := by
  refine .bind hsearch fun finding hnamed ↦ ?_
  refine .bind (Task.yields_unwrap ⟨source, file, "parameters"⟩ hnamed) fun parameters hall ↦ ?_
  refine .bind (Task.yields_contain ⟨source, file, what⟩ enclosing) fun element _ ↦ ?_
  refine .pure ⟨hroot parameters element, ?_⟩
  rwa [hparameters parameters element]

variable [Navigable ν]

/-! ## The three extractors -/

namespace Java

variable (labels : Labels)

theorem isReader_parameter : IsReader (parameter labels : ν → Except Failure Parameter) := by
  intro node
  unfold parameter
  split
  · exact Or.inr ⟨nameNotFound, rfl, rfl⟩
  · dsimp only
    split
    · exact Or.inr ⟨nameEmpty, rfl, rfl⟩
    · rename_i hname
      exact Or.inl ⟨_, rfl, hname⟩

theorem exists_parameters (root : ν) :
    ∃ finding, parameters labels root = .ok finding ∧ AllNamed finding := by
  unfold parameters
  split
  · exact ⟨_, rfl, allNamed_found (by simp)⟩
  · exact (isReader_parameter labels).exists_finding _ _

theorem yields_extract (file : String) (root : ν) :
    (extract labels file root).Yields .java (FunctionInfo.Describes root) := by
  unfold extract
  apply Mining.Yields.describe (.ofExcept (exists_parameters labels root))
  · intro parameters element
    rfl
  · intro parameters element
    rfl

end Java

namespace Python

variable (labels : Labels)

theorem isReader_parameter : IsReader (parameter labels : ν → Except Failure Parameter) := by
  intro node
  unfold parameter
  split
  · exact Or.inr ⟨nameNotFound, rfl, rfl⟩
  · split
    · exact Or.inr ⟨nameNotFound, rfl, rfl⟩
    · rename_i hname
      exact Or.inl ⟨_, rfl, hname⟩

theorem exists_parameters (root : ν) :
    ∃ finding, parameters labels root = .ok finding ∧ AllNamed finding := by
  unfold parameters
  split
  · exact ⟨_, rfl, allNamed_found (by simp)⟩
  · exact (isReader_parameter labels).exists_finding _ _

theorem yields_extract (file : String) (root : ν) :
    (extract labels file root).Yields .python (FunctionInfo.Describes root) := by
  unfold extract
  apply Mining.Yields.describe (.ofExcept (exists_parameters labels root))
  · intro parameters element
    rfl
  · intro parameters element
    rfl

end Python

namespace Php

variable (labels : Labels)

theorem nonEmptyToken_cases (node : ν) :
    (∃ name, nonEmptyToken node = .ok name ∧ name ≠ "") ∨
      nonEmptyToken node = .error nameNotFound := by
  unfold nonEmptyToken
  split
  · exact Or.inr rfl
  · split
    · exact Or.inr rfl
    · rename_i hname
      exact Or.inl ⟨_, rfl, hname⟩

theorem isReader_parameter : IsReader (parameter labels : ν → Except Failure Parameter) := by
  intro node
  have hname : (∃ name, parameterName labels node = .ok name ∧ name ≠ "") ∨
      ∃ failure, parameterName labels node = .error failure ∧ failure.kind = .missing := by
    unfold parameterName
    split
    · rcases nonEmptyToken_cases node with hname | hmissing
      · exact Or.inl hname
      · exact Or.inr ⟨nameNotFound, hmissing, rfl⟩
    · split
      · exact Or.inr ⟨noInitializer (Query.label node), rfl, rfl⟩
      · split
        · exact Or.inr ⟨nameNotFound, rfl, rfl⟩
        · rename_i nameNode _ _
          rcases nonEmptyToken_cases nameNode with ⟨name, hname, hne⟩ | hmissing
          · rw [hname]
            exact Or.inl ⟨_, rfl, by simp [hne]⟩
          · rw [hmissing]
            exact Or.inr ⟨nameNotFound, rfl, rfl⟩
  unfold parameter
  rcases hname with ⟨name, hname, hne⟩ | ⟨failure, hfailure, hkind⟩
  · rw [hname]
    exact Or.inl ⟨_, rfl, hne⟩
  · rw [hfailure]
    exact Or.inr ⟨failure, rfl, hkind⟩

/-- A parameter that misses a part is left out of the list, with a report. -/
theorem yields_parametersOf (file : String) (function : Option String) (nodes : List ν) :
    (parametersOf labels file function nodes).Yields .php
      fun found ↦ ∀ parameter ∈ found, parameter.Named := by
  induction nodes with
  | nil => exact .pure (by simp)
  | cons node rest ih =>
    rw [parametersOf]
    rcases isReader_parameter labels node with ⟨parameter, hread, hname⟩ | ⟨failure, hread, hkind⟩
    · simp only [hread]
      exact .bind ih fun others hothers ↦ .pure (by simpa using ⟨hname, hothers⟩)
    · simp only [hread, hkind]
      exact .bind (.report rfl) fun _ _ ↦ ih

theorem yields_parameters (file : String) (function : Option String) (root : ν) :
    (parameters labels file function root).Yields .php AllNamed := by
  unfold parameters
  split
  · exact .pure (allNamed_found (by simp))
  · rename_i list _
    split
    · rcases isReader_parameter labels list with ⟨parameter, hread, hname⟩ | ⟨failure, hread, hkind⟩
      · simp only [hread]
        exact .pure (allNamed_found (by simpa using hname))
      · simp only [hread, hkind]
        exact .pure (allNamed_failed _)
    · exact .bind (yields_parametersOf labels file function _) fun found hfound ↦
        .pure (allNamed_found hfound)

theorem yields_extract (file : String) (root : ν) :
    (extract labels file root).Yields .php (FunctionInfo.Describes root) := by
  unfold extract
  apply Mining.Yields.describe (yields_parameters labels file _ root)
  · intro parameters element
    rfl
  · intro parameters element
    rfl

end Php

/-! ## Surveys -/

/-- The part of the program that speaks for a grammar. -/
def Grammar.source : Grammar → Source
  | java _ => .java
  | python _ => .python
  | php _ => .php

theorem Grammar.yields_extract (grammar : Grammar) (file : String) (root : ν) :
    (grammar.extractor.extract file root).Yields grammar.source (FunctionInfo.Describes root) := by
  cases grammar with
  | java labels => exact Java.yields_extract labels file root
  | python labels => exact Python.yields_extract labels file root
  | php labels => exact Php.yields_extract labels file root

/-- An extractor that always succeeds describes each of the given nodes, in order. -/
theorem Extractor.extractEach_of_yields {extractor : Extractor ν} {source : Source} {file : String}
    (h : ∀ root, (extractor.extract file root).Yields source (FunctionInfo.Describes root))
    (roots : List ν) :
    (extractor.extractEach file roots).1.map FunctionInfo.root = roots ∧
      ∀ report ∈ (extractor.extractEach file roots).2, report.source = source := by
  induction roots with
  | nil => simp [extractEach]
  | cons root rest ih =>
    obtain ⟨info, hinfo, hdescribes⟩ := (h root).outcome
    have hreports := (h root).reports
    simp only [extractEach, hinfo]
    refine ⟨by rw [List.map_cons, hdescribes.root_eq, ih.1], ?_⟩
    intro report hreport
    rcases List.mem_append.mp hreport with hown | hothers
    · exact hreports report hown
    · exact ih.2 report hothers

/-- No failure leaves an extractor, whatever the node and the labels: every node is described, by
parameters that pass their own check when they are there, and a survey skips no function. -/
theorem Grammar.extract_contained (grammar : Grammar) (file : String) :
    (∀ {ν : Type} [Navigable ν] (node : ν), ∃ info,
      (grammar.extractor.extract file node).outcome = .ok info ∧ info.root = node ∧
        ∀ parameters, info.parameters = some parameters → ∀ parameter ∈ parameters,
          parameter.name ≠ "" ∧ Parameter.ofJson parameter.toJson = .ok parameter) ∧
    ∀ {α : Type} [Described α] (tree : Tree α),
      (grammar.extractor.extractAll file tree).1.map FunctionInfo.root =
          grammar.extractor.functionPlaces tree ∧
        ∀ report ∈ (grammar.extractor.extractAll file tree).2, report.source ≠ .survey := by
  refine ⟨?_, ?_⟩
  · intro ν _ node
    obtain ⟨info, hinfo, hdescribes⟩ := (grammar.yields_extract file node).outcome
    refine ⟨info, hinfo, hdescribes.root_eq, ?_⟩
    intro parameters hparameters parameter hmem
    have hnamed := hdescribes.named parameters hparameters parameter hmem
    exact ⟨hnamed, Parameter.ofJson_toJson hnamed⟩
  · intro α _ tree
    obtain ⟨hroots, hsources⟩ :=
      Extractor.extractEach_of_yields (grammar.yields_extract file)
        (grammar.extractor.functionPlaces tree)
    refine ⟨hroots, ?_⟩
    intro report hreport hsurvey
    have hsource := hsources report hreport
    cases grammar <;> simp [hsurvey, source] at hsource

end SyntaxMining
