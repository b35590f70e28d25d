import SyntaxMining.Report

/-!
# Computations that may fail and report

Three outcomes of a search are kept apart: something was found, nothing was there, or something
the grammar promises was missing.  A computation of type `Mining` yields a value or a failure and
the reports made on the way; `contain` turns a failure into absence and one report.
-/

namespace SyntaxMining

/-- Kinds of failure. -/
inductive FailureKind where
  /-- A part that the grammar guarantees is not where it belongs. -/
  | missing
  /-- A case distinction that should be exhaustive is not. -/
  | violation
  /-- Any other failure. -/
  | other
deriving DecidableEq, Repr

structure Failure where
  kind : FailureKind
  message : String
deriving DecidableEq, Repr

/-- A result, or a failure, and the reports made before. -/
structure Mining (α : Type) where
  outcome : Except Failure α
  reports : List Report

namespace Mining

variable {α β : Type}

def succeed (value : α) : Mining α :=
  ⟨.ok value, []⟩

def fail (failure : Failure) : Mining α :=
  ⟨.error failure, []⟩

def report (report : Report) : Mining Unit :=
  ⟨.ok (), [report]⟩

def andThen (first : Mining α) (next : α → Mining β) : Mining β :=
  match first.outcome with
  | .error failure => ⟨.error failure, first.reports⟩
  | .ok value =>
    let second := next value
    ⟨second.outcome, first.reports ++ second.reports⟩

instance : Monad Mining where
  pure := succeed
  bind := andThen

/-- A computation without reports. -/
def ofExcept : Except Failure α → Mining α
  | .ok value => succeed value
  | .error failure => fail failure

theorem bind_ok {value : α} {reports : List Report} {next : α → Mining β} :
    ((⟨.ok value, reports⟩ : Mining α) >>= next) =
      ⟨(next value).outcome, reports ++ (next value).reports⟩ :=
  rfl

end Mining

/-- Result of a search that can succeed, find nothing, or fail. -/
inductive Finding (α : Type) where
  | found (value : α)
  | absent
  | failed (reason : String)

def Finding.isFound {α : Type} : Finding α → Bool
  | found _ => true
  | _ => false

def Finding.isFailed {α : Type} : Finding α → Bool
  | failed _ => true
  | _ => false

def Finding.reason? {α : Type} : Finding α → Option String
  | failed reason => some reason
  | _ => none

/-- What is being collected, for which file, by whom. -/
structure Task where
  source : Source
  file : String
  what : String

namespace Task

/-- Report of a part that could not be collected. -/
def failedReport (task : Task) (reason : String) : Report :=
  ⟨.warning, task.source,
    "Failed to collect " ++ task.what ++ " in " ++ task.file ++ ": " ++ reason⟩

/-- Report of a broken case distinction. -/
def violationReport (task : Task) (reason : String) : Report :=
  ⟨.error, task.source,
    "Internal error while collecting " ++ task.what ++ " in " ++ task.file ++ ": " ++ reason⟩

/-- The one report about a failure. -/
def failureReport (task : Task) (failure : Failure) : Report :=
  match failure.kind with
  | .violation => task.violationReport failure.message
  | _ => task.failedReport failure.message

/-- Runs a computation and turns its failure into absence and a report. -/
def contain {α : Type} (task : Task) (collect : Mining (Option α)) : Mining (Option α) :=
  match collect.outcome with
  | .ok value => ⟨.ok value, collect.reports⟩
  | .error failure => ⟨.ok none, collect.reports ++ [task.failureReport failure]⟩

/-- Value of a successful search; a failed one is reported. -/
def unwrap {α : Type} (task : Task) : Finding α → Mining (Option α)
  | .found value => ⟨.ok (some value), []⟩
  | .absent => ⟨.ok none, []⟩
  | .failed reason => ⟨.ok none, [task.failedReport reason]⟩

end Task

end SyntaxMining
