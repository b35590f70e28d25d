import Mathlib.Data.List.Forall2
import SyntaxMining.Command.Run
import SyntaxMining.Proofs.Concrete.LeafText
import SyntaxMining.Proofs.Dataset.Storing
import SyntaxMining.Proofs.Json.RoundTrip
import SyntaxMining.Proofs.Workspace.Eligible

/-!
# Failures stay with their files

Parsing everything below a path comes to one verdict for each file that the command has to look at:
the file at the path itself, or the eligible ones below it. A verdict rests on what stands at the
file's own place, its content and the answer of its parser, on the options, and on whether the
partition can be opened; no file has a part in the verdict on another. Counters, reports and stored
lines follow from the verdicts.
-/

namespace SyntaxMining

/-- The tree of a source is the normal form of its conversion: no language with a parser fails but
by its parser. -/
theorem Frontend.parseSource_eq (frontend : Frontend) (language : String) (file : SourceFile) :
    frontend.parseSource language file =
      if Language.supported.contains language then
        match file.answer with
        | .crash message => .error (.crash message)
        | .tree tree => .ok ((tree.toSyntax file.content).normalize frontend.mode)
      else .error (.unsupportedLanguage language) := by
  rw [parseSource]
  split
  · cases file.answer with
    | crash message => rfl
    | tree tree =>
      obtain ⟨forest, root, after, result, hlink, hrebuild, hsubtree⟩ :=
        tree.exists_link_rebuild file.content frontend.mode
      simp only [hlink, normalize, hrebuild, hsubtree]
  · rfl

namespace Command

open Dataset (Holdout Store LineOptions Blocks textOf)
open Workspace (Keeps)

/-! ## Verdicts -/

/-- What becomes of a source file. -/
inductive Verdict where
  | stored (line : String)
  | skipped (report : Report)

namespace Verdict

def line? : Verdict → Option String
  | stored line => some line
  | skipped _ => none

def report? : Verdict → Option Report
  | stored _ => none
  | skipped report => some report

end Verdict

/-- Lines that verdicts store. -/
def linesOf (verdicts : List Verdict) : List String :=
  verdicts.filterMap Verdict.line?

/-- Reports on the files that verdicts skip. -/
def reportsOf (verdicts : List Verdict) : List Report :=
  verdicts.filterMap Verdict.report?

/-- The verdict on a file, from what stands at its place. -/
inductive Judged (workspace : Workspace) (mode : Mode) (options : LineOptions)
    (blocks : FileError → Prop) (file : FoundFile) : Verdict → Prop where
  | unreadable (here : workspace.lookup file.names = .ok .link) :
      Judged workspace mode options blocks file (.skipped ⟨.error, .frontend,
        "Cannot read '" ++ file.path ++ "': " ++ FileError.message ⟨.notFound, file.path⟩⟩)
  | unsupported {source : SourceFile} (here : workspace.lookup file.names = .ok (.file source))
      (unknown : file.language ∉ Language.supported) :
      Judged workspace mode options blocks file (.skipped ⟨.warning, .command,
        "Skipping '" ++ file.path ++ "': " ++ ("Unsupported language '" ++ file.language ++ "'")⟩)
  | crashed {content : List UInt8} {message : String}
      (here : workspace.lookup file.names = .ok (.file ⟨content, .crash message⟩))
      (known : file.language ∈ Language.supported) :
      Judged workspace mode options blocks file (.skipped ⟨.warning, .command,
        "Skipping '" ++ file.path ++ "': " ++ message⟩)
  | unstored {content : List UInt8} {tree : ConcreteTree} {error : FileError}
      (here : workspace.lookup file.names = .ok (.file ⟨content, .tree tree⟩))
      (known : file.language ∈ Language.supported) (blocked : blocks error) :
      Judged workspace mode options blocks file (.skipped ⟨.warning, .command,
        "Skipping '" ++ file.path ++ "': " ++ error.message⟩)
  | stored {content : List UInt8} {tree : ConcreteTree}
      (here : workspace.lookup file.names = .ok (.file ⟨content, .tree tree⟩))
      (known : file.language ∈ Language.supported) (free : ∀ error, ¬blocks error) :
      Judged workspace mode options blocks file (.stored (Dataset.labeled options
        (Path.stem (file.names.getLastD "")) (some file.path)
        ((tree.toSyntax content).normalize mode)).line)

/-- A line is one line, and a report says that its file cannot be read or is skipped. -/
def Verdict.Proper : Verdict → Prop
  | .stored line => '\n' ∉ line.toList
  | .skipped report =>
    (report.severity = .error ∧ ∃ rest, report.message = "Cannot read '" ++ rest) ∨
    (report.severity = .warning ∧ ∃ rest, report.message = "Skipping '" ++ rest)

section Judged

variable {workspace other : Workspace} {mode : Mode} {options : LineOptions}
  {blocks : FileError → Prop} {file : FoundFile} {verdict : Verdict}

theorem Judged.proper (h : Judged workspace mode options blocks file verdict) : verdict.Proper := by
  have hskip (message : String) : (Verdict.skipped ⟨.warning, .command,
      "Skipping '" ++ file.path ++ "': " ++ message⟩).Proper :=
    .inr ⟨rfl, file.path ++ ("': " ++ message), by simp [String.append_assoc]⟩
  cases h with
  | unreadable =>
    exact .inl ⟨rfl, file.path ++ ("': " ++ FileError.message ⟨.notFound, file.path⟩), by
      simp [String.append_assoc]⟩
  | unsupported => exact hskip _
  | crashed => exact hskip _
  | unstored => exact hskip _
  | stored =>
    intro hmem
    have hvisible := Json.allVisible_render _ _ hmem
    simp at hvisible

/-- Verdicts rest on files and links, so they agree where these do. -/
theorem Judged.of_keeps (h : Judged other mode options blocks file verdict)
    (hkeeps : Keeps ∅ workspace other) : Judged workspace mode options blocks file verdict := by
  have hleaf (item : Item) (hitem : ∀ items, item ≠ .folder items) :
      other.lookup file.names = .ok item → workspace.lookup file.names = .ok item :=
    (hkeeps.leaf file.names (Set.notMem_empty _) item hitem).mp
  cases h with
  | unreadable here => exact .unreadable (hleaf _ (by simp) here)
  | unsupported here unknown => exact .unsupported (hleaf _ (by simp) here) unknown
  | crashed here known => exact .crashed (hleaf _ (by simp) here) known
  | unstored here known blocked => exact .unstored (hleaf _ (by simp) here) known blocked
  | stored here known free => exact .stored (hleaf _ (by simp) here) known free

/-- A file has one verdict, since at most one error blocks the partition. -/
theorem Judged.unique {later : Verdict} (h : Judged workspace mode options blocks file verdict)
    (h' : Judged workspace mode options blocks file later)
    (hblocks : ∀ error other, blocks error → blocks other → error = other) : verdict = later := by
  cases h with
  | unreadable here => cases h' <;> simp_all
  | unsupported here unknown => cases h' <;> simp_all
  | crashed here known => cases h' <;> simp_all
  | unstored here known blocked =>
    cases h' with
    | unstored _ _ blocked' => rw [hblocks _ _ blocked blocked']
    | stored _ _ free => exact absurd blocked (free _)
    | _ => simp_all
  | stored here known free =>
    cases h' with
    | unstored _ _ blocked => exact absurd blocked (free _)
    | _ => simp_all

end Judged

@[simp] theorem linesOf_concat_stored (verdicts : List Verdict) (line : String) :
    linesOf (verdicts ++ [.stored line]) = linesOf verdicts ++ [line] := by
  simp [linesOf, Verdict.line?]

@[simp] theorem linesOf_concat_skipped (verdicts : List Verdict) (report : Report) :
    linesOf (verdicts ++ [.skipped report]) = linesOf verdicts := by
  simp [linesOf, Verdict.line?]

@[simp] theorem reportsOf_concat_stored (verdicts : List Verdict) (line : String) :
    reportsOf (verdicts ++ [.stored line]) = reportsOf verdicts := by
  simp [reportsOf, Verdict.report?]

@[simp] theorem reportsOf_concat_skipped (verdicts : List Verdict) (report : Report) :
    reportsOf (verdicts ++ [.skipped report]) = reportsOf verdicts ++ [report] := by
  simp [reportsOf, Verdict.report?]

theorem length_linesOf_add_length_reportsOf (verdicts : List Verdict) :
    (linesOf verdicts).length + (reportsOf verdicts).length = verdicts.length := by
  induction verdicts with
  | nil => rfl
  | cons verdict rest ih =>
    cases verdict with
    | stored line =>
      simp only [linesOf, reportsOf, List.filterMap_cons, Verdict.line?, Verdict.report?,
        List.length_cons] at ih ⊢
      omega
    | skipped report =>
      simp only [linesOf, reportsOf, List.filterMap_cons, Verdict.line?, Verdict.report?,
        List.length_cons] at ih ⊢
      omega

/-! ## Progress -/

/-- Lines wait for one partition only. -/
def waiting (holdout : Holdout) (lines : List String) : Holdout → List String :=
  Function.update (fun _ ↦ []) holdout lines

theorem withLine_waiting (holdout : Holdout) (lines : List String) (line : String) :
    Store.withLine (waiting holdout lines) holdout line = waiting holdout (lines ++ [line]) := by
  simp [Store.withLine, waiting]

/-- The progress of a run that has come to some verdicts, in a workspace `made` at its start. -/
structure Progress.Tracks (progress : Progress) (made : Workspace) (home : List String)
    (directory : String) (options : LineOptions) (holdout : Holdout) (verdicts : List Verdict) :
    Prop where
  free : linesOf verdicts ≠ [] → ∀ error, ¬Blocks made directory home holdout error
  directory : progress.store.directory = directory
  options : progress.store.options = options
  serves : progress.store.Serves progress.workspace home (waiting holdout (linesOf verdicts))
  keeps : Keeps {holdout.place home} made progress.workspace
  unchanged : linesOf verdicts = [] → progress.workspace = made
  stored : progress.stored = (linesOf verdicts).length
  skipped : progress.skipped = (reportsOf verdicts).length
  reports : progress.reports = reportsOf verdicts

namespace Progress

variable {progress : Progress} {made : Workspace} {home : List String} {directory : String}
  {options : LineOptions} {holdout : Holdout} {verdicts : List Verdict} {frontend : Frontend}
  {output : List String} {file : FoundFile}

/-- A file whose turn has not come: it is there under proper names, apart from the output, and of a
known language. -/
structure Awaits (made : Workspace) (frontend : Frontend) (output : List String)
    (file : FoundFile) : Prop where
  leaf : ∃ item, made.lookup file.names = .ok item ∧ ∀ items, item ≠ .folder items
  named : ∀ name ∈ file.names, Path.IsName name
  apart : file.names ≠ output
  language : frontend.detect file.path = some file.language

/-- A file that awaits its turn is read as it was at the start. -/
theorem Awaits.parseFile (h : Awaits made frontend output file) {workspace : Workspace}
    (hkeeps : Keeps {output} made workspace) :
    (made.lookup file.names = .ok .link ∧
      frontend.parseFile workspace file.path =
        (.ok none, [unreadableReport file.path ⟨.notFound, file.path⟩])) ∨
    ∃ source, made.lookup file.names = .ok (.file source) ∧
      frontend.parseFile workspace file.path =
        ((frontend.parseSource file.language source).map some, []) := by
  obtain ⟨item, hitem, hleaf⟩ := h.leaf
  have hsame : workspace.lookup file.names = .ok item :=
    (hkeeps.lookup_eq h.apart hitem hleaf).trans hitem
  have hopen : workspace.openFile file.path = workspace.fileAt file.names :=
    Workspace.openFile_absolute file.root h.named hsame
  cases item with
  | file source =>
    refine .inr ⟨source, hitem, ?_⟩
    simp only [Frontend.parseFile, h.language, hopen, Workspace.fileAt, hsame]
  | link =>
    refine .inl ⟨hitem, ?_⟩
    simp only [Frontend.parseFile, h.language, hopen, Workspace.fileAt, hsame]
  | folder items => exact absurd rfl (hleaf items)

theorem tracks_start {store : Store} (hserves : store.Serves made home fun _ ↦ [])
    (hdirectory : store.directory = directory) (hoptions : store.options = options)
    (holdout : Holdout) :
    Tracks ⟨made, store, 0, 0, []⟩ made home directory options holdout [] where
  directory := hdirectory
  options := hoptions
  serves := by simpa [waiting, linesOf] using hserves
  keeps := .refl _ _
  unchanged _ := rfl
  free hlines := absurd rfl hlines
  stored := rfl
  skipped := rfl
  reports := rfl

theorem Tracks.skip (h : progress.Tracks made home directory options holdout verdicts)
    (report : Report) :
    (progress.skip [report]).Tracks made home directory options holdout
      (verdicts ++ [.skipped report]) where
  directory := h.directory
  options := h.options
  serves := by simpa [Progress.skip] using h.serves
  keeps := h.keeps
  unchanged hlines := h.unchanged (by simpa using hlines)
  free hlines := h.free (by simpa using hlines)
  stored := by simpa [Progress.skip] using h.stored
  skipped := by simp [Progress.skip, h.skipped]
  reports := by simp [Progress.skip, h.reports]

/-- While a run is going on, its partition is blocked just when it was at the start. -/
theorem Tracks.blocks_iff (h : progress.Tracks made home directory options holdout verdicts)
    {error : FileError} :
    Blocks progress.workspace directory home holdout error ↔
      Blocks made directory home holdout error := by
  by_cases hlines : linesOf verdicts = []
  · rw [h.unchanged hlines]
  · -- the partition is open, so its file is there
    obtain ⟨file, hfile⟩ := h.serves.file holdout (by simpa [waiting] using hlines)
    constructor
    · intro hblocks
      exact absurd hblocks (Dataset.not_blocks_of_file hfile)
    · intro hblocks
      exact absurd hblocks (h.free hlines error)

/-- A tree is stored, or its file is skipped because the partition is blocked. -/
theorem Tracks.store (h : progress.Tracks made home directory options holdout verdicts)
    (label : String) (path : Option String) (tree : SyntaxTree) :
    (∃ error, Blocks made directory home holdout error ∧
      progress.store.store progress.workspace holdout label path tree =
        (progress.workspace, .error error)) ∨
    ((∀ error, ¬ Blocks made directory home holdout error) ∧
      ∃ workspace store, progress.store.store progress.workspace holdout label path tree =
          (workspace, .ok store) ∧
        ({ workspace := workspace, store := store, stored := progress.stored + 1,
           skipped := progress.skipped, reports := progress.reports } : Progress).Tracks made home
          directory options holdout
          (verdicts ++ [.stored (Dataset.labeled options label path tree).line])) := by
  have hattempt := h.serves.store_attempt holdout label path tree
  rw [h.directory, h.options] at hattempt
  generalize progress.store.store progress.workspace holdout label path tree = outcome at hattempt ⊢
  cases hattempt with
  | blocked hblocks => exact .inl ⟨_, h.blocks_iff.mp hblocks, rfl⟩
  | opened hfree hopens hstored =>
    obtain ⟨hdirectory, hoptions, hserves⟩ := hstored
    rw [withLine_waiting] at hserves
    have hfree (error : FileError) : ¬Blocks made directory home holdout error :=
      fun hblocks ↦ hfree error (h.blocks_iff.mpr hblocks)
    refine .inr ⟨hfree, _, _, rfl, ?_⟩
    exact {
      directory := hdirectory.trans h.directory
      options := hoptions.trans h.options
      serves := by simpa using hserves
      keeps := h.keeps.trans hopens.keeps
      unchanged := by simp
      free := fun _ ↦ hfree
      stored := by simp [h.stored]
      skipped := by simp [h.skipped]
      reports := by simp [h.reports] }

/-- One file comes to one verdict. -/
theorem Tracks.step (h : progress.Tracks made home directory options holdout verdicts)
    (hfile : Awaits made frontend (holdout.place home) file) :
    ∃ verdict,
      Judged made frontend.mode options (Blocks made directory home holdout) file verdict ∧
      (progress.step frontend holdout file).Tracks made home directory options holdout
        (verdicts ++ [verdict]) := by
  unfold Progress.step
  obtain ⟨hlink, hparse⟩ | ⟨⟨content, answer⟩, hsource, hparse⟩ := hfile.parseFile h.keeps
  · rw [hparse]
    exact ⟨_, .unreadable hlink, h.skip _⟩
  · have hname : Path.name file.path = file.names.getLastD "" :=
      Path.name_absolute file.root hfile.named
    rw [hparse, Frontend.parseSource_eq]
    by_cases hknown : Language.supported.contains file.language
    · have hmem : file.language ∈ Language.supported := by simpa using hknown
      rw [if_pos hknown]
      cases answer with
      | crash message => exact ⟨_, .crashed hsource hmem, h.skip _⟩
      | tree tree =>
        obtain ⟨error, hblocks, hstore⟩ | ⟨hfree, workspace, store, hstore, htracks⟩ :=
          h.store (Path.stem (file.names.getLastD "")) (some file.path)
            ((tree.toSyntax content).normalize frontend.mode)
        · refine ⟨_, .unstored hsource hmem hblocks, ?_⟩
          simp only [Except.map, hname, hstore]
          exact h.skip _
        · refine ⟨_, .stored hsource hmem hfree, ?_⟩
          simp only [Except.map, hname, hstore, List.append_nil]
          exact htracks
    · have hmem : file.language ∉ Language.supported := by simpa using hknown
      rw [if_neg hknown]
      exact ⟨_, .unsupported hsource hmem, h.skip _⟩

/-- The files of a run come to their verdicts in order. -/
theorem Tracks.foldl (h : progress.Tracks made home directory options holdout verdicts)
    {files : List FoundFile}
    (hfiles : ∀ file ∈ files, Awaits made frontend (holdout.place home) file) :
    ∃ later,
      List.Forall₂ (Judged made frontend.mode options (Blocks made directory home holdout)) files
        later ∧
      (files.foldl (Progress.step frontend holdout) progress).Tracks made home directory options
        holdout (verdicts ++ later) := by
  induction files generalizing progress verdicts with
  | nil => exact ⟨[], .nil, by simpa using h⟩
  | cons file rest ih =>
    obtain ⟨verdict, hjudged, hstep⟩ := h.step (hfiles file List.mem_cons_self)
    obtain ⟨later, hlater, hrest⟩ := ih hstep fun other hother ↦
      hfiles other (List.mem_cons_of_mem file hother)
    exact ⟨verdict :: later, .cons hjudged hlater, by simpa using hrest⟩

/-- Closing the store turns the stored lines into the partition's file. -/
theorem Tracks.close (h : progress.Tracks made home directory options holdout verdicts) :
    (linesOf verdicts ≠ [] → ∃ file,
      (progress.store.close progress.workspace).1.lookup (holdout.place home) = .ok (.file file) ∧
      file.content = Text.Utf8.encode (textOf (linesOf verdicts))) ∧
    (linesOf verdicts = [] →
      (progress.store.close progress.workspace).1.lookup (holdout.place home) =
        made.lookup (holdout.place home)) := by
  obtain ⟨closed, hclose, -, hwrites⟩ := h.serves.close
  rw [hclose]
  constructor
  · intro hlines
    simpa [waiting] using hwrites.file holdout (by simpa [waiting] using hlines)
  · intro hlines
    rw [hwrites.other holdout (by simpa [waiting] using hlines), h.unchanged hlines]

end Progress

/-! ## The files of a command -/

/-- A file that a command over a path has to look at: the one at the path, if there is a file of a
known language, or else an eligible one below it. -/
inductive Asks (workspace : Workspace) (options : SearchOptions) (path : String)
    (file : FoundFile) : Prop where
  | alone {source : SourceFile}
      (here : workspace.lookup (workspace.placeOf path) = .ok (.file source))
      (root_eq : file.root = Path.root path) (names_eq : file.names = workspace.placeOf path)
      (language_eq : options.table.language? (Text.lower (Path.suffix (file.names.getLastD ""))) =
        some file.language)
      (language_ne : file.language ≠ "")
  | below (eligible : workspace.Eligible options path file)

section Files

variable {workspace made : Workspace} {options : SearchOptions} {path : String} {file : FoundFile}

theorem isFile_iff {names : List String} :
    workspace.isFile names ↔ ∃ source, workspace.lookup names = .ok (.file source) := by
  unfold Workspace.isFile
  split
  · next source hsource => simp [hsource]
  · next hnone =>
    constructor
    · intro h
      simp at h
    · intro ⟨source, hsource⟩
      exact absurd hsource (hnone source)

theorem mem_filesAt_iff (hnamed : workspace.WellNamed) :
    file ∈ filesAt workspace options path ↔ Asks workspace options path file := by
  rw [filesAt]
  by_cases hfile : workspace.isFile (workspace.placeOf path)
  · obtain ⟨source, hsource⟩ := isFile_iff.mp hfile
    rw [if_pos hfile]
    constructor
    · intro h
      cases hlanguage : options.languageOf? ((workspace.placeOf path).getLastD "") with
      | none =>
        rw [hlanguage] at h
        simp at h
      | some language =>
        rw [hlanguage] at h
        obtain rfl := List.mem_singleton.mp h
        obtain ⟨hknown, hne⟩ := SearchOptions.languageOf?_eq_some_iff.mp hlanguage
        exact .alone hsource rfl rfl hknown hne
    · intro h
      cases h with
      | alone here root_eq names_eq language_eq language_ne =>
        have hlanguage := SearchOptions.languageOf?_eq_some_iff.mpr ⟨language_eq, language_ne⟩
        rw [← names_eq, ← root_eq, hlanguage]
        exact List.mem_singleton_self _
      | below eligible =>
        obtain ⟨items, hitems⟩ := eligible.isFolder
        simp [hsource] at hitems
  · rw [if_neg hfile, Workspace.mem_sources_iff hnamed]
    constructor
    · intro h
      exact .below h
    · intro h
      cases h with
      | alone here => exact absurd (isFile_iff.mpr ⟨_, here⟩) hfile
      | below eligible => exact eligible

theorem filesAt_increasing (hnamed : workspace.WellNamed)
    (options : SearchOptions) (path : String) :
    (filesAt workspace options path).Pairwise fun file later ↦ file.path < later.path := by
  rw [filesAt]
  split
  · split
    · exact .nil
    · exact List.pairwise_singleton _ _
  · exact Workspace.sourcesBelow_increasing hnamed _ _ _

theorem Asks.isSource (h : Asks workspace options path file) (hnamed : workspace.WellNamed) :
    workspace.IsSource options (Path.root path) file := by
  cases h with
  | @alone source here root_eq names_eq language_eq language_ne =>
    refine ⟨root_eq, ⟨.file source, names_eq ▸ here, by simp⟩, ?_⟩
    exact SearchOptions.languageOf?_eq_some_iff.mpr ⟨language_eq, language_ne⟩
  | below eligible =>
    exact Workspace.isSource_of_mem_sourcesBelow hnamed
      ((Workspace.mem_sources_iff hnamed).mpr eligible)

/-- Nothing stands between a file and its turn but the place of the output. -/
theorem Asks.awaits (h : Asks workspace options path file) (hnamed : workspace.WellNamed)
    (hkeeps : Keeps ∅ workspace made) {frontend : Frontend}
    (htable : frontend.table = options.table) {output : List String} (hne : file.names ≠ output) :
    Progress.Awaits made frontend output file := by
  have hsource := h.isSource hnamed
  obtain ⟨item, hitem, hleaf⟩ := hsource.leaf
  exact {
    leaf := ⟨item, (hkeeps.lookup_eq (Set.notMem_empty _) hitem hleaf).trans hitem, hleaf⟩
    named := hsource.isName hnamed
    apart := hne
    language := hsource.detect_path hnamed htable }

end Files

/-! ## The command -/

/-- What parsing everything below a path comes to when its configuration loads and its output
directory can be made. -/
theorem runParse_eq {workspace made : Workspace} {defaultName : String} {options : ParseOptions}
    {config : Config} {store : Store}
    (hconfig : loadConfig workspace defaultName options.config = .ok config)
    (hopen : Store.openAt workspace (outputDirectory options config) (lineOptions options config) =
      (made, .ok store)) :
    let files := filesAt workspace (searchOptions config) options.path
    let final := files.foldl (Progress.step (frontend options config) options.holdout)
      ⟨made, store, 0, 0, []⟩
    runParse workspace defaultName options =
      ⟨0, some (foundLine files.length ++
          storedLine final.stored final.skipped (outputDirectory options config) options.holdout),
        none, (final.store.close final.workspace).1, final.reports⟩ := by
  simp only [runParse, hconfig, runParseWith, hopen]

/-- Each file that the command has to look at comes to its own verdict, and everything the command
leaves behind follows from the verdicts: a stored file gives one line, in increasing order of the
absolute paths, and a skipped one gives one report. Without a stored file, the partition's file
stays as it was. -/
theorem runParse_judges_each_file {workspace made : Workspace} {defaultName : String}
    {options : ParseOptions} {config : Config} {store : Store} {home : List String}
    (hnamed : workspace.WellNamed)
    (hconfig : loadConfig workspace defaultName options.config = .ok config)
    (hopen : Store.openAt workspace (outputDirectory options config) (lineOptions options config) =
      (made, .ok store))
    (hhome : made.makeFolder (outputDirectory options config) = (made, .ok home))
    (houtput : ∀ file, Asks workspace (searchOptions config) options.path file →
      file.names ≠ options.holdout.place home) :
    let outcome := runParse workspace defaultName options
    ∃ (files : List FoundFile) (verdicts : List Verdict),
      (∀ file, file ∈ files ↔ Asks workspace (searchOptions config) options.path file) ∧
      files.Pairwise (fun file later ↦ file.path < later.path) ∧
      List.Forall₂ (Judged workspace (frontend options config).mode (lineOptions options config)
        (Blocks made (outputDirectory options config) home options.holdout)) files verdicts ∧
      (∀ verdict ∈ verdicts, verdict.Proper) ∧
      files.length = (linesOf verdicts).length + (reportsOf verdicts).length ∧
      outcome.exit = 0 ∧ outcome.failure = none ∧
      outcome.output = some (foundLine files.length ++ storedLine (linesOf verdicts).length
        (reportsOf verdicts).length (outputDirectory options config) options.holdout) ∧
      outcome.reports = reportsOf verdicts ∧
      (linesOf verdicts ≠ [] → ∃ file,
        outcome.workspace.lookup (options.holdout.place home) = .ok (.file file) ∧
        file.content = Text.Utf8.encode (textOf (linesOf verdicts))) ∧
      (linesOf verdicts = [] → ∀ file,
        outcome.workspace.lookup (options.holdout.place home) = .ok (.file file) ↔
        workspace.lookup (options.holdout.place home) = .ok (.file file)) := by
  intro outcome
  obtain ⟨hdirectory, hoptions, hkeeps, found, hserves⟩ := Store.openAt_serves hopen
  obtain rfl : home = found := by
    rw [← hdirectory, hserves.found] at hhome
    simpa using hhome.symm
  have hstart := Progress.tracks_start hserves hdirectory hoptions options.holdout
  let files := filesAt workspace (searchOptions config) options.path
  have hawaits (file : FoundFile) (hfile : file ∈ files) :
      Progress.Awaits made (frontend options config) (options.holdout.place home) file := by
    have hasks := (mem_filesAt_iff hnamed).mp hfile
    exact hasks.awaits hnamed hkeeps rfl (houtput file hasks)
  obtain ⟨verdicts, hjudged, htracks⟩ := hstart.foldl hawaits
  rw [List.nil_append] at htracks
  have hjudged := hjudged.imp fun file verdict hverdict ↦ hverdict.of_keeps hkeeps
  have hproper : ∀ verdict ∈ verdicts, verdict.Proper := by
    intro verdict hverdict
    obtain ⟨file, -, hfile⟩ := exists_partner_of_mem hjudged hverdict
    exact hfile.proper
  have hcount := length_linesOf_add_length_reportsOf verdicts
  rw [← hjudged.length_eq] at hcount
  obtain ⟨hstored, hnone⟩ := htracks.close
  have houtcome : outcome = _ := runParse_eq hconfig hopen
  refine ⟨files, verdicts, fun file ↦ mem_filesAt_iff hnamed, filesAt_increasing hnamed _ _,
    hjudged, hproper, hcount.symm, ?_⟩
  rw [houtcome]
  refine ⟨rfl, rfl, ?_, htracks.reports, hstored, ?_⟩
  · rw [htracks.stored, htracks.skipped]
  · intro hlines file
    rw [hnone hlines]
    exact hkeeps.leaf _ (Set.notMem_empty _) (.file file) (by simp)

/-- A file whose parser breaks down, a link that leads nowhere, and a file with a tree. -/
def mixture : Workspace where
  current := []
  items := [("w", .folder [("c.py", .file ⟨[], .crash "boom"⟩), ("b.py", .link),
    ("a.py", .file ⟨[], .tree (.node ⟨"module", 0, 0, ⟨0, 0⟩, ⟨0, 0⟩, false⟩ [])⟩)])]

theorem mixture_wellNamed : mixture.WellNamed := by
  refine .folder (by decide) (by decide) (List.forall_mem_singleton.mpr ?_)
  exact .folder (by decide) (by decide) (by simp [Item.WellNamed.file, Item.WellNamed.link])

/-- The files below `/w`, in the order of their paths. -/
def mixtureFiles : List FoundFile :=
  [⟨.single, ["w", "a.py"], "python"⟩, ⟨.single, ["w", "b.py"], "python"⟩,
    ⟨.single, ["w", "c.py"], "python"⟩]

theorem asks_mixture_iff (file : FoundFile) :
    Asks mixture (searchOptions {}) "/w" file ↔ file ∈ mixtureFiles := by
  have hrows : Workspace.sourcesOfAll (searchOptions {}) .single ["w"] [("c.py",
      .file ⟨[], .crash "boom"⟩), ("b.py", .link), ("a.py", .file ⟨[], .tree
        (.node ⟨"module", 0, 0, ⟨0, 0⟩, ⟨0, 0⟩, false⟩ [])⟩)] = mixtureFiles.reverse := by
    decide +kernel
  rw [← mem_filesAt_iff mixture_wellNamed]
  change file ∈ List.mergeSort (Workspace.sourcesOfAll (searchOptions {}) .single ["w"] _) _ ↔ _
  rw [List.mem_mergeSort, hrows, List.mem_reverse]

/-- The file with a tree gives the only line, the link cannot be read, the last file is skipped. -/
theorem runParse_judges_each_file_mixture :
    let options : ParseOptions := ⟨"/w", some "/out", .train, none, none, false, none⟩
    let made := mixture.set ["out"] (.folder [])
    let outcome := runParse mixture "config.json" options
    mixture.WellNamed ∧ loadConfig mixture "config.json" options.config = .ok {} ∧
      Store.openAt mixture "/out" (lineOptions options {}) =
        (made, .ok ⟨"/out", lineOptions options {}, []⟩) ∧
      made.makeFolder "/out" = (made, .ok ["out"]) ∧
      outcome.reports =
        [⟨.error, .frontend,
          "Cannot read '/w/b.py': [Errno 2] No such file or directory: '/w/b.py'"⟩,
        ⟨.warning, .command, "Skipping '/w/c.py': boom"⟩] ∧
      ∃ file, outcome.workspace.lookup ["out", "train", "asts.jsonl"] = .ok (.file file) ∧
        file.content = Text.Utf8.encode ("\x7b\"label\":\"a\",\"ast\":[" ++
          "\x7b\"token\":\"\",\"typeLabel\":\"module\",\"children\":[]\x7d]\x7d\n") := by
  intro options made outcome
  have hconfig : loadConfig mixture "config.json" options.config = .ok {} := rfl
  have hopen : Store.openAt mixture "/out" (lineOptions options {}) =
      (made, .ok ⟨"/out", lineOptions options {}, []⟩) := rfl
  have hhome : made.makeFolder "/out" = (made, .ok ["out"]) := rfl
  have houtput : ∀ file, Asks mixture (searchOptions {}) options.path file →
      file.names ≠ options.holdout.place ["out"] := by
    intro file hfile
    revert file
    simp only [options, asks_mixture_iff]
    decide
  obtain ⟨files, verdicts, hmem, hincreasing, hjudged, -, -, -, -, -, hreports, hstored, -⟩ :=
    runParse_judges_each_file mixture_wellNamed hconfig hopen hhome houtput
  obtain rfl : files = mixtureFiles := by
    apply FoundFile.eq_of_increasing hincreasing (by decide +kernel)
    intro file
    rw [hmem, asks_mixture_iff]
  have hfree (error : FileError) : ¬Blocks made "/out" ["out"] .train error := by
    intro hblocks
    cases hblocks with
    | folder hitem => exact nomatch hitem
    | file hplace =>
      obtain ⟨items, hitems⟩ := hplace
      exact nomatch hitems
    | link hlink => exact nomatch hlink
  have hunique : ∀ error other, Blocks made "/out" ["out"] .train error →
      Blocks made "/out" ["out"] .train other → error = other := fun _ _ ↦ Blocks.unique
  cases hjudged with
  | cons ha hrest =>
    cases hrest with
    | cons hb hrest =>
      cases hrest with
      | cons hc hrest =>
        cases hrest
        obtain rfl := ha.unique (.stored rfl (by decide) hfree) hunique
        obtain rfl := hb.unique (.unreadable rfl) hunique
        obtain rfl := hc.unique (.crashed rfl (by decide)) hunique
        refine ⟨mixture_wellNamed, hconfig, hopen, hhome, hreports.trans ?_, ?_⟩
        · decide +kernel
        · have htext : textOf [(Dataset.labeled ⟨false, false⟩ "a" (some "/w/a.py")
              ((ConcreteTree.toSyntax [] (.node ⟨"module", 0, 0, ⟨0, 0⟩, ⟨0, 0⟩, false⟩
                [])).normalize .compress)).line] =
              "\x7b\"label\":\"a\",\"ast\":[" ++
                "\x7b\"token\":\"\",\"typeLabel\":\"module\",\"children\":[]\x7d]\x7d\n" := by
            decide +kernel
          obtain ⟨file, hfile, hcontent⟩ := hstored (by simp [linesOf, Verdict.line?])
          refine ⟨file, hfile, ?_⟩
          rw [hcontent]
          exact congrArg Text.Utf8.encode htext

end Command

end SyntaxMining
