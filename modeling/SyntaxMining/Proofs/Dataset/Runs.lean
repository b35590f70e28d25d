import SyntaxMining.Proofs.Dataset.Storing

/-!
# Runs over a store

A run performs operations on one store in any order. Closing cuts it into segments, and a
partition's file ends up with the lines of the last segment that stored any in it: opening a
partition again starts its file afresh. An operation that fails leaves no trace in any of this.
-/

namespace SyntaxMining.Dataset

/-! ## Runs -/

/-- What can be asked of a store. -/
inductive Operation where
  | store (holdout : Holdout) (label : String) (path : Option String) (tree : SyntaxTree)
  | close

/-- An operation with the error in which it ended, if it failed. -/
abbrev Event := Operation × Option FileError

/-- Performs an operation; a failure leaves the store as it was. -/
def Operation.perform : Operation → Workspace × Store → (Workspace × Store) × Option FileError
  | store holdout label path tree, (workspace, opened) =>
    match opened.store workspace holdout label path tree with
    | (workspace, .error e) => ((workspace, opened), some e)
    | (workspace, .ok opened) => ((workspace, opened), none)
  | close, (workspace, opened) => (opened.close workspace, none)

/-- Performs operations in order. -/
def performAll : List Operation → Workspace × Store → (Workspace × Store) × List Event
  | [], state => (state, [])
  | operation :: rest, state =>
    let done := operation.perform state
    let run := performAll rest done.1
    (run.1, (operation, done.2) :: run.2)

theorem performAll_append (before after : List Operation) (state : Workspace × Store) :
    performAll (before ++ after) state =
      ((performAll after (performAll before state).1).1,
        (performAll before state).2 ++ (performAll after (performAll before state).1).2) := by
  induction before generalizing state with
  | nil => rfl
  | cons operation before ih => simp [performAll, ih]

/-! ## The lines that count -/

namespace Event

def isClose : Event → Bool
  | (.close, _) => true
  | (.store .., _) => false

/-- Line that an event adds to a partition. -/
def line? (options : LineOptions) (holdout : Holdout) : Event → Option String
  | (.store target label path tree, none) =>
    if target = holdout then some (labeled options label path tree).line else none
  | _ => none

end Event

/-- The lines that reach a partition, for each segment of a run. -/
def segments (options : LineOptions) (holdout : Holdout) (events : List Event) :
    List (List String) :=
  (events.splitOnP Event.isClose).map (List.filterMap (Event.line? options holdout))

/-- The lines of the last segment that has any. -/
def lastLines (segments : List (List String)) : Option (List String) :=
  (segments.filter (· ≠ [])).getLast?

/-- The segments of a run at whose start some lines are waiting. -/
def withWaiting (lines : List String) (segments : List (List String)) : List (List String) :=
  segments.modifyHead (lines ++ ·)

/-- What a run leaves at the place of a file: what was there, or the lines that count. -/
def Leaves (before after : Workspace) (place : List String) : Option (List String) → Prop
  | none => after.lookup place = before.lookup place
  | some lines => ∃ file, after.lookup place = .ok (.file file) ∧
      file.content = Text.Utf8.encode (textOf lines)

variable {options : LineOptions} {holdout : Holdout}

@[simp]
theorem withWaiting_nil (segments : List (List String)) : withWaiting [] segments = segments := by
  cases segments <;> simp [withWaiting]

theorem withWaiting_append (first second : List String) (segments : List (List String)) :
    withWaiting (first ++ second) segments = withWaiting first (withWaiting second segments) := by
  cases segments <;> simp [withWaiting]

theorem segments_ne_nil (events : List Event) : segments options holdout events ≠ [] := by
  simp [segments, List.splitOnP_ne_nil]

theorem segments_cons_of_isClose {event : Event} (h : event.isClose) (events : List Event) :
    segments options holdout (event :: events) = [] :: segments options holdout events := by
  simp [segments, List.splitOnP_cons_eq_if_modifyHead, h]

theorem segments_cons_of_not_isClose {event : Event} (h : event.isClose = false)
    (events : List Event) :
    segments options holdout (event :: events) =
      withWaiting (event.line? options holdout).toList (segments options holdout events) := by
  simp only [segments, List.splitOnP_cons_eq_if_modifyHead, h, withWaiting]
  cases hsplit : events.splitOnP Event.isClose with
  | nil => exact absurd hsplit (List.splitOnP_ne_nil _ _)
  | cons first rest => cases hline : event.line? options holdout <;> simp [hline]

theorem lastLines_cons (lines : List String) (segments : List (List String)) :
    lastLines (lines :: segments) =
      (lastLines segments).or (if lines = [] then none else some lines) := by
  unfold lastLines
  by_cases h : lines = []
  · simp [h]
  · rw [List.filter_cons_of_pos (by simpa using h), List.getLast?_cons]
    cases (segments.filter (· ≠ [])).getLast? <;> simp [h]

theorem lastLines_withWaiting_ne_none {lines : List String} (h : lines ≠ [])
    {segments : List (List String)} (hsegments : segments ≠ []) :
    lastLines (withWaiting lines segments) ≠ none := by
  cases segments with
  | nil => exact absurd rfl hsegments
  | cons first rest => simp [withWaiting, lastLines_cons, h]

section Leaves

variable {before between after : Workspace} {place : List String}
  {lines later : Option (List String)}

/-- Where a run starts matters only to the files it does not write. -/
theorem Leaves.of_start (h : Leaves between after place lines)
    (hstart : lines = none → between.lookup place = before.lookup place) :
    Leaves before after place lines := by
  cases lines with
  | none => exact Eq.trans h (hstart rfl)
  | some lines => exact h

/-- Of two runs, the later one counts where it writes at all. -/
theorem Leaves.trans (h : Leaves before between place lines)
    (h' : Leaves between after place later) :
    Leaves before after place (later.or lines) := by
  cases later with
  | some later => exact h'
  | none =>
    rw [Option.none_or]
    cases lines with
    | none => exact Eq.trans h' h
    | some lines =>
      obtain ⟨file, hfile, hcontent⟩ := h
      exact ⟨file, Eq.trans h' hfile, hcontent⟩

end Leaves

namespace Store

variable {store : Store} {workspace : Workspace} {home : List String}
  {lines : Holdout → List String}

/-! ## One operation -/

/-- An operation to store fails exactly when its partition is blocked, and then changes nothing; it
never touches another partition's file. -/
theorem Serves.perform_store_confined (h : store.Serves workspace home lines) (holdout : Holdout)
    (label : String) (path : Option String) (tree : SyntaxTree) :
    let done := (Operation.store holdout label path tree).perform (workspace, store)
    (∀ other, other ≠ holdout →
      done.1.1.lookup (other.place home) = workspace.lookup (other.place home)) ∧
    (∀ error, done.2 = some error ↔ Blocks workspace store.directory home holdout error) ∧
    (done.2 ≠ none → done.1 = (workspace, store)) := by
  have hattempt := h.store_attempt holdout label path tree
  simp only [Operation.perform]
  generalize store.store workspace holdout label path tree = outcome at hattempt ⊢
  cases hattempt with
  | blocked hblocks =>
    refine ⟨fun _ _ ↦ rfl, fun other ↦ ⟨?_, fun hother ↦ ?_⟩, fun _ ↦ rfl⟩
    · rintro ⟨rfl⟩
      exact hblocks
    · exact congrArg some (hblocks.unique hother)
  | opened hfree hopens hstored =>
    exact ⟨hopens.other, fun error ↦ by simp [hfree error], by simp⟩

/-! ## Whole runs -/

/-- A store stays in use through a run. -/
theorem Serves.performAll (h : store.Serves workspace home lines) (operations : List Operation) :
    let reached := (performAll operations (workspace, store)).1
    reached.2.directory = store.directory ∧ ∃ lines', reached.2.Serves reached.1 home lines' := by
  induction operations generalizing workspace store lines with
  | nil => exact ⟨rfl, lines, h⟩
  | cons operation rest ih =>
    cases operation with
    | store holdout label path tree =>
      have hattempt := h.store_attempt holdout label path tree
      simp only [Dataset.performAll, Operation.perform]
      generalize store.store workspace holdout label path tree = outcome at hattempt ⊢
      cases hattempt with
      | blocked => exact ih h
      | opened _ _ hstored =>
        obtain ⟨hdirectory, -, hserves⟩ := hstored
        rw [← hdirectory]
        exact ih hserves
    | close =>
      obtain ⟨closed, hclose, hserves, -⟩ := h.close
      simp only [Dataset.performAll, Operation.perform, hclose]
      exact ih hserves

theorem Serves.lines_eq_nil (h : store.Serves workspace home lines) (hclosed : store.writers = [])
    (holdout : Holdout) : lines holdout = [] := by
  obtain ⟨opened, -, hmem, hwriters⟩ := h.writers
  obtain rfl : opened = [] := by simpa [hclosed] using hwriters.symm
  simpa using hmem holdout

theorem Writes.leaves {after : Workspace}
    (h : Writes {holdout | lines holdout ≠ []} workspace after home lines) (holdout : Holdout) :
    Leaves workspace after (holdout.place home)
      (if lines holdout = [] then none else some (lines holdout)) := by
  split
  · next hlines => exact h.other holdout (by simpa using hlines)
  · next hlines => exact h.file holdout hlines

/-- A run that leaves nothing open writes, for each partition, the lines that count: those waiting
at its start belong to the first segment. -/
theorem Serves.leaves_performAll (h : store.Serves workspace home lines)
    (operations : List Operation)
    (hclosed : (Dataset.performAll operations (workspace, store)).1.2.writers = [])
    (holdout : Holdout) :
    Leaves workspace (Dataset.performAll operations (workspace, store)).1.1 (holdout.place home)
      (lastLines (withWaiting (lines holdout) (segments store.options holdout
        (Dataset.performAll operations (workspace, store)).2))) := by
  induction operations generalizing workspace store lines with
  | nil =>
    rw [h.lines_eq_nil hclosed holdout]
    rfl
  | cons operation rest ih =>
    cases operation with
    | store target label path tree =>
      have hattempt := h.store_attempt target label path tree
      simp only [Dataset.performAll, Operation.perform] at hclosed ⊢
      generalize store.store workspace target label path tree = outcome at hattempt hclosed ⊢
      rw [segments_cons_of_not_isClose rfl]
      cases hattempt with
      | blocked => simpa [Event.line?] using ih h hclosed
      | opened _ hopens hstored =>
        obtain ⟨-, hoptions, hserves⟩ := hstored
        have hrest := ih hserves hclosed
        rw [hoptions] at hrest
        rw [← withWaiting_append]
        by_cases htarget : target = holdout
        · -- The partition is written later on, since a line waits for it.
          subst htarget
          simp only [withLine, Function.update_self] at hrest
          simp only [Event.line?, if_true, Option.toList_some]
          apply hrest.of_start
          intro hnone
          exact absurd hnone (lastLines_withWaiting_ne_none (by simp) (segments_ne_nil _))
        · simp only [withLine, Function.update_of_ne (Ne.symm htarget)] at hrest
          simp only [Event.line?, htarget, if_false, Option.toList_none, List.append_nil]
          exact hrest.of_start fun _ ↦ hopens.other holdout (Ne.symm htarget)
    | close =>
      obtain ⟨closed, hclose, hserves, hwrites⟩ := h.close
      simp only [Dataset.performAll, Operation.perform, hclose] at hclosed ⊢
      rw [segments_cons_of_isClose rfl]
      have hrest := ih hserves hclosed
      rw [withWaiting_nil] at hrest
      simpa [withWaiting, lastLines_cons] using (hwrites.leaves holdout).trans hrest

end Store

/-- A run goes the same way without an operation that changes nothing. -/
theorem performAll_without {before after : List Operation} {operation : Operation}
    {state : Workspace × Store} {outcome : Option FileError}
    (h : operation.perform (performAll before state).1 = ((performAll before state).1, outcome)) :
    ∃ final future,
      performAll (before ++ operation :: after) state =
        (final, (performAll before state).2 ++ (operation, outcome) :: future) ∧
      performAll (before ++ after) state = (final, (performAll before state).2 ++ future) := by
  refine ⟨_, _, ?_, performAll_append before after state⟩
  rw [performAll_append, performAll]
  simp only [h]

/-- Over any run that ends with a close, a partition's file ends up with the lines of the last
segment that stored any, and stays as it was when none did. No operation touches the file of another
partition. One that fails does so because its partition is blocked; it changes nothing, and all
others go as if it had not been there. -/
theorem performAll_leaves_last_segment {workspace made : Workspace} {directory : String}
    {options : LineOptions} {store : Store}
    (hopen : Store.openAt workspace directory options = (made, .ok store))
    (operations : List Operation) :
    ∃ home, made.makeFolder directory = (made, .ok home) ∧
      (∀ names file, made.lookup names = .ok (.file file) ↔
        workspace.lookup names = .ok (.file file)) ∧
      (∀ holdout, Leaves made (performAll (operations ++ [.close]) (made, store)).1.1
        (holdout.place home) (lastLines (segments options holdout
          (performAll (operations ++ [.close]) (made, store)).2))) ∧
      ∀ before after holdout label path tree,
        operations = before ++ .store holdout label path tree :: after →
        let reached := (performAll before (made, store)).1
        let done := (Operation.store holdout label path tree).perform reached
        (∀ other, other ≠ holdout →
          done.1.1.lookup (other.place home) = reached.1.lookup (other.place home)) ∧
        (∀ error, done.2 = some error ↔ Blocks reached.1 directory home holdout error) ∧
        ∀ error, done.2 = some error →
          (error.fault = .fileExists ∨ error.fault = .isAFolder ∨
            error.fault = .notFound ∧ reached.1.lookup (holdout.place home) = .ok .link) ∧
          done.1 = reached ∧
          ∃ final future,
            performAll (operations ++ [.close]) (made, store) =
              (final, (performAll before (made, store)).2 ++
                (.store holdout label path tree, some error) :: future) ∧
            performAll (before ++ after ++ [.close]) (made, store) =
              (final, (performAll before (made, store)).2 ++ future) := by
  obtain ⟨rfl, rfl, hkeeps, home, hserves⟩ := Store.openAt_serves hopen
  refine ⟨home, hserves.found, ?_, ?_, ?_⟩
  · intro names file
    exact hkeeps.leaf names (Set.notMem_empty names) (.file file) (by simp)
  · intro holdout
    have hclosed : (performAll (operations ++ [.close]) (made, store)).1.2.writers = [] := by
      rw [performAll_append]
      rfl
    simpa using hserves.leaves_performAll (operations ++ [.close]) hclosed holdout
  · rintro before after holdout label path tree rfl
    obtain ⟨hdirectory, lines, hserves⟩ := hserves.performAll before
    obtain ⟨hother, hblocks, hsame⟩ := hserves.perform_store_confined holdout label path tree
    rw [hdirectory] at hblocks
    refine ⟨hother, hblocks, fun error herror ↦ ?_⟩
    have hunchanged := hsame (by simp [herror])
    refine ⟨((hblocks error).mp herror).fault, hunchanged, ?_⟩
    rw [List.append_assoc, List.append_assoc, List.cons_append]
    exact performAll_without (Prod.ext hunchanged herror)

/-- An older file in one partition, and a file that has the name of another one's folder. -/
def occupied : Workspace where
  current := []
  items := [("out", .folder
    [("val", .file ⟨[], .crash ""⟩), ("train", .folder [("asts.jsonl", .file ⟨[7], .crash ""⟩)])])]

/-- Stores in one partition before and after a close, and in a blocked partition between. -/
def reopening : List Operation :=
  let tree : SyntaxTree := .node ⟨⟨"a"⟩, none, none⟩ []
  [.store .train "a" none tree, .store .validation "b" none tree, .close,
    .store .train "c" none tree, .store .whole "d" none tree]

theorem performAll_leaves_last_segment_reopened :
    Store.openAt occupied "out" ⟨false, false⟩ = (occupied, .ok ⟨"out", ⟨false, false⟩, []⟩) ∧
      Leaves occupied
        (performAll (reopening ++ [.close]) (occupied, ⟨"out", ⟨false, false⟩, []⟩)).1.1
        ["out", "train", "asts.jsonl"]
        (some [(labeled ⟨false, false⟩ "c" none (.node ⟨⟨"a"⟩, none, none⟩ [])).line]) ∧
      Leaves occupied
        (performAll (reopening ++ [.close]) (occupied, ⟨"out", ⟨false, false⟩, []⟩)).1.1
        ["out", "val", "asts.jsonl"] none := by
  have hopen : Store.openAt occupied "out" ⟨false, false⟩ =
      (occupied, .ok ⟨"out", ⟨false, false⟩, []⟩) := rfl
  have hfound : occupied.makeFolder "out" = (occupied, .ok ["out"]) := rfl
  have htrain : lastLines (segments ⟨false, false⟩ .train
      (performAll (reopening ++ [.close]) (occupied, ⟨"out", ⟨false, false⟩, []⟩)).2) =
      some [(labeled ⟨false, false⟩ "c" none (.node ⟨⟨"a"⟩, none, none⟩ [])).line] := by rfl
  have hvalidation : lastLines (segments ⟨false, false⟩ .validation
      (performAll (reopening ++ [.close]) (occupied, ⟨"out", ⟨false, false⟩, []⟩)).2) =
        none := by rfl
  obtain ⟨home, hhome, -, hleaves, -⟩ := performAll_leaves_last_segment hopen reopening
  obtain rfl : ["out"] = home := by simpa [hfound] using hhome
  exact ⟨hopen, htrain ▸ hleaves .train, hvalidation ▸ hleaves .validation⟩

end SyntaxMining.Dataset
